import Barrage.Number.BinaryFormat

/-!
TOML documents: values, and tables while they are being put together. A table may be written in
several places of a document, but each key is given once, and a table that has a header or stands in
braces is not added to from elsewhere by dotted keys.
-/

set_option autoImplicit false

namespace Barrage.Toml

inductive Value where
  | string (value : String)
  | integer (value : Int)
  | float (bits : Nat)
  | boolean (value : Bool)
  | datetime
  | array (items : List Value)
  | table (entries : List (String × Value))

def Value.find? (entries : List (String × Value)) (key : String) : Option Value :=
  (entries.find? fun e => e.1 = key).map (·.2)

mutual

inductive Table where
  /-- `implicit` tables have no header of their own; `dotted` ones come from dotted keys. -/
  | mk (implicit dotted : Bool) (entries : List (String × Item))

inductive Item where
  | value (v : Value)
  | table (t : Table)
  /-- Tables with the same header in double brackets, the last one first. -/
  | tables (ts : List Table)

end

namespace Table

def isImplicit : Table → Bool
  | mk implicit _ _ => implicit

def isDotted : Table → Bool
  | mk _ dotted _ => dotted

def entries : Table → List (String × Item)
  | mk _ _ entries => entries

def empty (implicit dotted : Bool) : Table := .mk implicit dotted []

def find? (t : Table) (key : String) : Option Item :=
  (t.entries.find? fun e => e.1 = key).map (·.2)

def put (t : Table) (key : String) (item : Item) : Table :=
  .mk t.isImplicit t.isDotted
    (if (t.find? key).isSome then t.entries.map fun e => if e.1 = key then (key, item) else e
    else t.entries ++ [(key, item)])

def remove (t : Table) (key : String) : Table :=
  .mk t.isImplicit t.isDotted (t.entries.filter fun e => e.1 ≠ key)

/-- Changes the table at the end of a path; tables on the way that are missing are made. Dotted keys
do not lead through tables with a header. -/
def descend (dotted : Bool) (change : Table → Option Table) : List String → Table → Option Table
  | [], t => change t
  | key :: path, t =>
    match t.find? key with
    | none => do
      let inner ← descend dotted change path (empty true dotted)
      some (t.put key (.table inner))
    | some (.value _) => none
    | some (.tables []) => none
    | some (.tables (last :: before)) => do
      let last ← descend dotted change path last
      some (t.put key (.tables (last :: before)))
    | some (.table inner) =>
      if dotted && !inner.isImplicit then none
      else do
        let inner ← descend dotted change path inner
        some (t.put key (.table inner))

def insert (path : List String) (key : String) (v : Value) (t : Table) : Option Table :=
  descend true (fun t =>
    if t.isDotted == path.isEmpty || (t.find? key).isSome then none
    else some (t.put key (.value v))) path t

mutual

def toValue : Table → Value
  | mk _ _ entries => .table (entriesToValues entries)

def entriesToValues : List (String × Item) → List (String × Value)
  | [] => []
  | (key, item) :: rest => (key, itemToValue item) :: entriesToValues rest

def itemToValue : Item → Value
  | .value v => v
  | .table t => toValue t
  | .tables ts => .array (tablesToValues ts).reverse

def tablesToValues : List Table → List Value
  | [] => []
  | t :: rest => toValue t :: tablesToValues rest

end

end Table

end Barrage.Toml
