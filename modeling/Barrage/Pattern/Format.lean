import Barrage.Pattern.Tree
import Barrage.Markup.Element

/-!
From elements to nodes. Every element becomes a node, in document order: its name tells the kind,
its attributes the label, the pattern's name and how a value is meant, and the text directly inside
it is an expression. Other attributes are ignored, but remembered.
-/

set_option autoImplicit false

namespace Barrage

inductive FormatError where
  | wrongRoot (found : String) (span : Span)
  | unknownElement (name : String) (span : Span)
  | invalidType (element value : String) (span : Span)
  | invalidOrientation (value : String) (span : Span)
  | labelTooLong (length : Nat) (span : Span)
  | invalidExpression (element : String) (span : Span) (error : ExpressionError)
  deriving DecidableEq, Repr

def rootElement : String := "bulletml"

def maxLabelLength : Nat := 255

namespace FormatError

def code : FormatError → Code
  | wrongRoot .. => .wrongRoot
  | unknownElement .. => .unknownElement
  | invalidType .. => .invalidType
  | invalidOrientation .. => .invalidOrientation
  | labelTooLong .. => .labelTooLong
  | invalidExpression _ _ error => error.code

def span : FormatError → Span
  | wrongRoot _ s | unknownElement _ s | invalidType _ _ s | invalidOrientation _ s
  | labelTooLong _ s | invalidExpression _ s _ => s

def message : FormatError → String
  | wrongRoot found s =>
    s!"Root element must be <{rootElement}>, found <{found}> at {s.text}"
  | unknownElement name s => s!"Unknown element <{name}> at {s.text}"
  | invalidType element value s => s!"Invalid type '{value}' on <{element}> at {s.text}"
  | invalidOrientation value s => s!"Invalid orientation '{value}' at {s.text}"
  | labelTooLong length s =>
    s!"Label of {length} characters exceeds {maxLabelLength} at {s.text}"
  | invalidExpression element s error =>
    s!"Invalid expression in <{element}> at {s.text}: {error.message}"

end FormatError

structure IgnoredAttribute where
  element : String
  name : String
  span : Span
  deriving DecidableEq, Repr

structure Draft where
  tree : Tree := .empty
  orientation : Orientation := .none
  ignored : Array IgnoredAttribute := #[]

/-- Reading a pattern document; a failure keeps what was read before it. -/
abbrev Drafting := ExceptT FormatError (StateM Draft)

namespace Draft

/-- The node with what one attribute says. The type of a root element is the orientation. -/
def readAttribute (element : String) (n : Node) (a : Markup.Attribute) : Drafting Node :=
  match a.name with
  | "type" =>
    if n.kind = .bulletml then
      match Orientation.ofAttribute? a.value with
      | some orientation => do
        modify fun d => { d with orientation }
        pure n
      | none => throw (.invalidOrientation a.value a.span)
    else
      match Policy.ofAttribute? a.value with
      | some policy => pure { n with policy }
      | none => throw (.invalidType element a.value a.span)
  | "label" =>
    if a.value.utf8ByteSize > maxLabelLength then
      throw (.labelTooLong a.value.utf8ByteSize a.span)
    else pure { n with label? := some a.value }
  | "name" => pure { n with name? := some a.value }
  | other => do
    modify fun d => { d with ignored := d.ignored.push ⟨element, other, a.span⟩ }
    pure n

def readNode (e : Markup.Element) : Drafting Node :=
  match Kind.ofName? e.name with
  | none => throw (.unknownElement e.name e.span)
  | some kind => do
    let n ← e.attributes.foldlM (readAttribute e.name) ({ kind, span := e.span } : Node)
    let policy := if kind = .direction then n.policy.forDirection else n.policy
    match Expression.parse e.text with
    | .error error => throw (.invalidExpression e.name e.span error)
    | .ok expression => pure { n with policy, expression }

def pushNode (n : Node) (parent? : Option NodeId) : Drafting NodeId :=
  modifyGet fun d => (d.tree.size, { d with tree := d.tree.push n parent? })

mutual

def readElement (parent? : Option NodeId) : Markup.Element → Drafting Unit
  | .mk name attributes children span => do
    let n ← readNode (.mk name attributes children span)
    let id ← pushNode n parent?
    readContents id children

def readContents (parent : NodeId) : List Markup.Content → Drafting Unit
  | [] => pure ()
  | c :: rest => do
    readContent parent c
    readContents parent rest

def readContent (parent : NodeId) : Markup.Content → Drafting Unit
  | .element e => readElement (some parent) e
  | .text .. => pure ()

end

def readRoot (root : Markup.Element) : Drafting Unit :=
  if root.name = rootElement then readElement none root
  else throw (.wrongRoot root.name root.span)

def ofDocument (root : Markup.Element) : Except FormatError Unit × Draft :=
  (readRoot root).run.run {}

end Draft

end Barrage
