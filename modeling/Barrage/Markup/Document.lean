import Barrage.Markup.Element
import Barrage.Markup.Token
import Barrage.Journal.Code

/-!
From tokens to an element tree. The reader keeps the elements that are open, the innermost first,
and takes one significant token at a time. A document is exactly one root element; names of end tags
match, attributes of an element have distinct names, and nesting is bounded.
-/

set_option autoImplicit false

namespace Barrage.Markup

inductive DocumentError where
  | unexpectedToken (expected found : String) (span : Span)
  | mismatchedEndTag (expected found : String) (span : Span)
  | unclosedElement (name : String) (span : Span)
  | multipleRoots (name : String) (span : Span)
  | missingRoot
  | textOutsideRoot (span : Span)
  | duplicateAttribute (name : String) (span : Span)
  | nestingTooDeep (span : Span)
  | tooManyAttributes (element : String) (span : Span)
  deriving DecidableEq, Repr

namespace Limit

def nesting : Nat := 128

def attributes : Nat := 32

end Limit

namespace DocumentError

def code : DocumentError → Code
  | unexpectedToken .. => .unexpectedToken
  | mismatchedEndTag .. => .mismatchedEndTag
  | unclosedElement .. => .unclosedElement
  | multipleRoots .. => .multipleRoots
  | missingRoot => .missingRoot
  | textOutsideRoot _ => .textOutsideRoot
  | duplicateAttribute .. => .duplicateAttribute
  | nestingTooDeep _ => .nestingTooDeep
  | tooManyAttributes .. => .tooManyAttributes

def span? : DocumentError → Option Span
  | unexpectedToken _ _ s | mismatchedEndTag _ _ s | unclosedElement _ s | multipleRoots _ s
  | textOutsideRoot s | duplicateAttribute _ s | nestingTooDeep s | tooManyAttributes _ s => some s
  | missingRoot => none

def message : DocumentError → String
  | unexpectedToken expected found s =>
    s!"Unexpected token: expected {expected}, found {found} at {s.text}"
  | mismatchedEndTag expected found s =>
    s!"Mismatched end tag: expected </{expected}>, found </{found}> at {s.text}"
  | unclosedElement name s => s!"Element <{name}> opened at {s.text} is never closed"
  | multipleRoots name s =>
    s!"Document has more than one root element; second root <{name}> at {s.text}"
  | missingRoot => "Document has no root element"
  | textOutsideRoot s => s!"Character data outside the root element at {s.text}"
  | duplicateAttribute name s => s!"Duplicate attribute '{name}' at {s.text}"
  | nestingTooDeep s => s!"Maximum nesting depth {Limit.nesting} exceeded at {s.text}"
  | tooManyAttributes element s =>
    s!"Element <{element}> has more than {Limit.attributes} attributes at {s.text}"

end DocumentError

structure OpenElement where
  name : String
  span : Span
  inTag : Bool := true
  /-- The last one first. -/
  attributes : List Attribute := []
  /-- The last one first. -/
  children : List Content := []

def OpenElement.close (o : OpenElement) (closing : Span) : Element :=
  .mk o.name o.attributes.reverse o.children.reverse (o.span.merge closing)

structure DocumentReader where
  root? : Option Element := none
  /-- The open elements, the innermost first. -/
  opened : List OpenElement := []
  deepest : Nat := 0

namespace DocumentReader

def push (r : DocumentReader) (name : String) (span : Span) :
    Except DocumentError DocumentReader :=
  let depth := r.opened.length + 1
  if depth > Limit.nesting then .error (.nestingTooDeep span)
  else .ok { r with opened := { name, span } :: r.opened, deepest := max r.deepest depth }

/-- Hands a finished element to the one around it, or to the document. -/
def finish (r : DocumentReader) (outer : List OpenElement) (e : Element) : DocumentReader :=
  match outer with
  | [] => { r with root? := some e, opened := [] }
  | o :: rest => { r with opened := { o with children := .element e :: o.children } :: rest }

def stepOutside (r : DocumentReader) (t : SpannedToken) : Except DocumentError DocumentReader :=
  match t.value with
  | .openTag name =>
    if r.root?.isSome then .error (.multipleRoots name t.span) else r.push name t.span
  | .text _ | .cdata _ => .error (.textOutsideRoot t.span)
  | other => .error (.unexpectedToken "start tag" other.description t.span)

def stepTag (r : DocumentReader) (o : OpenElement) (outer : List OpenElement) (t : SpannedToken) :
    Except DocumentError DocumentReader :=
  match t.value with
  | .attr name value =>
    if o.attributes.any fun a => a.name = name then .error (.duplicateAttribute name t.span)
    else if o.attributes.length ≥ Limit.attributes then .error (.tooManyAttributes o.name t.span)
    else
      let o := { o with attributes := ⟨name, value, t.span⟩ :: o.attributes }
      .ok { r with opened := o :: outer }
  | .closeEmpty => .ok (r.finish outer (o.close t.span))
  | .closeTag => .ok { r with opened := { o with inTag := false } :: outer }
  | .endOfInput => .error (.unclosedElement o.name o.span)
  | other => .error (.unexpectedToken "attribute or '>'" other.description t.span)

def stepContent (r : DocumentReader) (o : OpenElement) (outer : List OpenElement)
    (t : SpannedToken) : Except DocumentError DocumentReader :=
  match t.value with
  | .openTag name => r.push name t.span
  | .text content | .cdata content =>
    if Text.isBlankText content then .ok r
    else
      let o := { o with children := .text content t.span :: o.children }
      .ok { r with opened := o :: outer }
  | .endTag name =>
    if name = o.name then .ok (r.finish outer (o.close t.span))
    else .error (.mismatchedEndTag o.name name t.span)
  | .endOfInput => .error (.unclosedElement o.name o.span)
  | other => .error (.unexpectedToken "content or end tag" other.description t.span)

def step (r : DocumentReader) (t : SpannedToken) : Except DocumentError DocumentReader :=
  match r.opened with
  | [] => r.stepOutside t
  | o :: outer => if o.inTag then r.stepTag o outer t else r.stepContent o outer t

def result (r : DocumentReader) : Except DocumentError Element :=
  match r.opened with
  | o :: _ => .error (.unclosedElement o.name o.span)
  | [] => match r.root? with
    | some e => .ok e
    | none => .error .missingRoot

/-- Takes tokens up to the end of the input, and gives also how deep the nesting was. -/
def run (r : DocumentReader) : List SpannedToken → Except DocumentError Element × Nat
  | [] => (r.result, r.deepest)
  | t :: rest =>
    if t.value = .endOfInput ∧ r.opened.isEmpty then (r.result, r.deepest)
    else match r.step t with
      | .error e => (.error e, r.deepest)
      | .ok r => r.run rest

end DocumentReader

def readDocument (s : TokenStream) : Except DocumentError Element × Nat :=
  ({} : DocumentReader).run s.significant.toList

end Barrage.Markup
