import Barrage.Toml.Scalar

/-!
Reading TOML. A document is read line by line into tables; a line holds a key with its value, the
header of a table, or nothing. Every function takes what it reads off the front of the text and
gives the rest.
-/

set_option autoImplicit false

namespace Barrage.Toml

def isBlank (c : Char) : Bool := c = ' ' || c = '\t'

def isPlain (c : Char) : Bool := c = '\t' || (' ' ≤ c && c ≠ '\x7f')

def isBare (c : Char) : Bool := c.isAlphanum || c = '_' || c = '-'

/-- The text with every line ended by a line feed alone. A carriage return elsewhere is an error. -/
def unifyLines? : List Char → Option (List Char)
  | [] => some []
  | '\r' :: '\n' :: rest => (unifyLines? rest).map ('\n' :: ·)
  | '\r' :: _ => none
  | c :: rest => (unifyLines? rest).map (c :: ·)

def skipBlanks (cs : List Char) : List Char := cs.dropWhile isBlank

def skipLines (inComment : Bool) : List Char → Option (List Char)
  | [] => some []
  | c :: rest =>
    if c = '\n' then skipLines false rest
    else if inComment then (if isPlain c then skipLines true rest else none)
    else if isBlank c then skipLines false rest
    else if c = '#' then skipLines true rest
    else some (c :: rest)

/-- Skips blanks, a comment and the end of the line, which has nothing else. -/
def endLine? (cs : List Char) : Option (List Char) :=
  let rest := skipBlanks cs
  let rest := if rest.head? = some '#' then rest.tail.dropWhile isPlain else rest
  match rest with
  | [] => some []
  | '\n' :: rest => some rest
  | _ => none

def scalar? (digits : List Char) : Option Char := do
  let code ← Text.digitsFrom? 16 0 digits
  if code.isValidChar then some (Char.ofNat code) else none

def escaped? : Char → Option Char
  | 'b' => some '\x08'
  | 't' => some '\t'
  | 'n' => some '\n'
  | 'f' => some '\x0c'
  | 'r' => some '\r'
  | '"' => some '"'
  | '\\' => some '\\'
  | _ => none

def escape? : List Char → Option (Char × List Char)
  | 'u' :: a :: b :: c :: d :: rest => (scalar? [a, b, c, d]).map (·, rest)
  | 'U' :: a :: b :: c :: d :: e :: f :: g :: h :: rest =>
    (scalar? [a, b, c, d, e, f, g, h]).map (·, rest)
  | c :: rest => (escaped? c).map (·, rest)
  | [] => none

/-- The text up to a quote, with escapes. The fuel is the length of what is read. -/
def basicText (fuel : Nat) (read : List Char) (cs : List Char) : Option (String × List Char) :=
  match fuel, cs with
  | _, '"' :: rest => some (String.ofList read.reverse, rest)
  | fuel + 1, '\\' :: rest => do
    let (c, rest) ← escape? rest
    basicText fuel (c :: read) rest
  | fuel + 1, c :: rest => if isPlain c then basicText fuel (c :: read) rest else none
  | _, _ => none

/-- The text up to three quotes, with escapes, over several lines. Up to two quotes may stand before
the last three, and a backslash at the end of a line takes all white space behind it away. -/
def basicLines (fuel : Nat) (read : List Char) (cs : List Char) : Option (String × List Char) :=
  match fuel, cs with
  | _, '"' :: '"' :: '"' :: '"' :: '"' :: rest =>
    some (String.ofList ('"' :: '"' :: read).reverse, rest)
  | _, '"' :: '"' :: '"' :: '"' :: rest => some (String.ofList ('"' :: read).reverse, rest)
  | _, '"' :: '"' :: '"' :: rest => some (String.ofList read.reverse, rest)
  | fuel + 1, '\\' :: rest =>
    match skipBlanks rest with
    | '\n' :: after => basicLines fuel read (after.dropWhile fun c => isBlank c || c = '\n')
    | _ => do
      let (c, rest) ← escape? rest
      basicLines fuel (c :: read) rest
  | fuel + 1, c :: rest =>
    if isPlain c || c = '\n' then basicLines fuel (c :: read) rest else none
  | _, _ => none

def literalText (read : List Char) : List Char → Option (String × List Char)
  | [] => none
  | '\'' :: rest => some (String.ofList read.reverse, rest)
  | c :: rest => if isPlain c then literalText (c :: read) rest else none

/-- The text up to three apostrophes, as it stands, over several lines. -/
def literalLines (read : List Char) : List Char → Option (String × List Char)
  | '\'' :: '\'' :: '\'' :: '\'' :: '\'' :: rest =>
    some (String.ofList ('\'' :: '\'' :: read).reverse, rest)
  | '\'' :: '\'' :: '\'' :: '\'' :: rest => some (String.ofList ('\'' :: read).reverse, rest)
  | '\'' :: '\'' :: '\'' :: rest => some (String.ofList read.reverse, rest)
  | c :: rest => if isPlain c || c = '\n' then literalLines (c :: read) rest else none
  | [] => none

/-- A line feed right behind the opening of a text does not belong to it. -/
def dropFirstLine (cs : List Char) : List Char :=
  match cs with
  | '\n' :: rest => rest
  | _ => cs

def keyPart? (cs : List Char) : Option (String × List Char) :=
  match cs with
  | '"' :: rest => basicText rest.length [] rest
  | '\'' :: rest => literalText [] rest
  | _ =>
    let name := cs.takeWhile isBare
    if name.isEmpty then none else some (String.ofList name, cs.drop name.length)

/-- The most parts of a key, and the most brackets and braces inside each other, is one less. -/
def depthLimit : Nat := 80

/-- The parts of a key and the blanks behind it. The fuel is more than the number of parts. -/
def keyParts? : (fuel : Nat) → List Char → Option (List String × List Char)
  | 0, _ => none
  | fuel + 1, cs => do
    let (part, rest) ← keyPart? cs
    match skipBlanks rest with
    | '.' :: rest => do
      let (parts, rest) ← keyParts? fuel (skipBlanks rest)
      some (part :: parts, rest)
    | rest => some ([part], rest)

def key? (cs : List Char) : Option ((List String × String) × List Char) := do
  let (parts, rest) ← keyParts? (depthLimit - 1) cs
  let last ← parts.getLast?
  some ((parts.dropLast, last), rest)

def isWordChar (c : Char) : Bool :=
  c.isAlphanum || c = '_' || c = '+' || c = '-' || c = '.' || c = ':'

/-- A value without brackets, braces or quotes. A date goes on behind a blank if a digit follows. -/
def wordValue? (cs : List Char) : Option (Value × List Char) :=
  let word := cs.takeWhile isWordChar
  let rest := cs.drop word.length
  match rest with
  | ' ' :: c :: more =>
    if isDecimal c && afterDate? word = some [] then
      let time := (c :: more).takeWhile isWordChar
      (word? (word ++ ' ' :: time)).map (·, (c :: more).drop time.length)
    else (word? word).map (·, rest)
  | _ => (word? word).map (·, rest)

def textValue? (cs : List Char) : Option (Value × List Char) :=
  let found := match cs with
    | '"' :: '"' :: '"' :: rest => basicLines rest.length [] (dropFirstLine rest)
    | '"' :: rest => basicText rest.length [] rest
    | '\'' :: '\'' :: '\'' :: rest => literalLines [] (dropFirstLine rest)
    | '\'' :: rest => literalText [] rest
    | _ => none
  found.map fun (s, rest) => (.string s, rest)

mutual

/-- A value; `depth` counts the brackets and braces around it. The fuel is more than the length of
the text. -/
def value? (fuel depth : Nat) (cs : List Char) : Option (Value × List Char) :=
  match fuel with
  | 0 => none
  | fuel + 1 =>
    match cs with
    | '[' :: rest => if depth + 1 < depthLimit then items? fuel (depth + 1) [] rest else none
    | '\x7b' :: rest =>
      if depth + 1 < depthLimit then
        match skipBlanks rest with
        | '\x7d' :: rest => some (.table [], rest)
        | rest => members? fuel (depth + 1) (.empty false false) rest
      else none
    | '"' :: _ | '\'' :: _ => textValue? cs
    | _ => wordValue? cs

def items? (fuel depth : Nat) (read : List Value) (cs : List Char) :
    Option (Value × List Char) :=
  match fuel with
  | 0 => none
  | fuel + 1 =>
    match skipLines false cs with
    | some (']' :: rest) => some (.array read.reverse, rest)
    | some rest => do
      let (v, rest) ← value? fuel depth rest
      match skipLines false rest with
      | some (',' :: rest) => items? fuel depth (v :: read) rest
      | some (']' :: rest) => some (.array (v :: read).reverse, rest)
      | _ => none
    | none => none

def members? (fuel depth : Nat) (t : Table) (cs : List Char) : Option (Value × List Char) :=
  match fuel with
  | 0 => none
  | fuel + 1 => do
    let ((path, key), rest) ← key? cs
    match rest with
    | '=' :: rest => do
      let (v, rest) ← value? fuel depth (skipBlanks rest)
      let t ← t.insert path key v
      match skipBlanks rest with
      | ',' :: rest => members? fuel depth t (skipBlanks rest)
      | '\x7d' :: rest => some (t.toValue, rest)
      | _ => none
    | _ => none

end

/-- A document that is being read: the finished tables, and the one that lines belong to. -/
structure Document where
  root : Table := .empty false false
  current : Table := .empty false false
  /-- The header of the current table; none before the first header. -/
  header? : Option (List String × String) := none
  /-- Whether the current table is one of several with its header. -/
  several : Bool := false

namespace Document

def addTable (key : String) (table parent : Table) : Option Table :=
  match parent.find? key with
  | none => some (parent.put key (.tables [table]))
  | some (.tables ts) => some (parent.put key (.tables (table :: ts)))
  | some _ => none

/-- Puts a table at its header; only a table without a header of its own may be there already. -/
def putTable (key : String) (table parent : Table) : Option Table :=
  match parent.find? key with
  | none => some (parent.put key (.table table))
  | some (.table t) => if t.isImplicit then some (parent.put key (.table table)) else none
  | some _ => none

def close (d : Document) : Option Document :=
  match d.header? with
  | none => some { root := d.current }
  | some (path, key) => do
    let place := if d.several then addTable key d.current else putTable key d.current
    let root ← d.root.descend false place path
    some { root }

/-- What is in a table before its header is read, and the table around it without it. -/
def reopen (key : String) (parent : Table) : Option (Table × Table) :=
  match parent.find? key with
  | none => some (.empty false false, parent)
  | some (.table t) =>
    if t.isImplicit && !t.isDotted then some (.mk false false t.entries, parent.remove key)
    else none
  | some _ => none

def tableAt? : List String → Table → Option Table
  | [], t => some t
  | key :: path, t =>
    match t.find? key with
    | none => some (.empty true false)
    | some (.table inner) => tableAt? path inner
    | some (.tables (last :: _)) => tableAt? path last
    | some _ => none

def openTable (path : List String) (key : String) (d : Document) : Option Document := do
  let d ← d.close
  let parent ← tableAt? path d.root
  let (current, _) ← reopen key parent
  let root ← d.root.descend false (fun t => (reopen key t).map (·.2)) path
  some { root, current, header? := some (path, key) }

def openTables (path : List String) (key : String) (d : Document) : Option Document := do
  let d ← d.close
  let root ← d.root.descend false
    (fun t => match t.find? key with
      | none | some (.tables _) => some t
      | some _ => none) path
  some { root, current := .empty false false, header? := some (path, key), several := true }

def line? (d : Document) (cs : List Char) : Option (Document × List Char) :=
  match cs with
  | '[' :: '[' :: rest => do
    let ((path, key), rest) ← key? (skipBlanks rest)
    match rest with
    | ']' :: ']' :: rest => do
      let d ← d.openTables path key
      some (d, ← endLine? rest)
    | _ => none
  | '[' :: rest => do
    let ((path, key), rest) ← key? (skipBlanks rest)
    match rest with
    | ']' :: rest => do
      let d ← d.openTable path key
      some (d, ← endLine? rest)
    | _ => none
  | _ => do
    let ((path, key), rest) ← key? cs
    match rest with
    | '=' :: rest => do
      let rest := skipBlanks rest
      let (v, rest) ← value? (rest.length + 1) 0 rest
      let current ← d.current.insert path key v
      some ({ d with current }, ← endLine? rest)
    | _ => none

def lines? : (fuel : Nat) → Document → List Char → Option Document
  | 0, _, _ => none
  | fuel + 1, d, cs => do
    match skipLines false cs with
    | none => none
    | some [] => some d
    | some rest => do
      let (d, rest) ← d.line? rest
      lines? fuel d rest

end Document

/-- Reads a document into its table. A byte order mark in front is skipped. -/
def read? (source : String) : Option (List (String × Value)) := do
  let cs := source.toList
  let cs := if cs.head? = some '\ufeff' then cs.tail else cs
  let cs ← unifyLines? cs
  let d ← Document.lines? (cs.length + 1) {} cs
  let d ← d.close
  match d.root.toValue with
  | .table entries => some entries
  | _ => none

end Barrage.Toml
