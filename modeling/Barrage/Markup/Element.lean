import Barrage.Source.Position

/-!
Element trees: what a markup document says once its tokens are put together. Blank text between
elements is not part of the tree.
-/

set_option autoImplicit false

namespace Barrage.Markup

structure Attribute where
  name : String
  value : String
  span : Span
  deriving DecidableEq, Repr

mutual

/-- An element; its span runs from its start tag to the end of its closing tag. -/
inductive Element where
  | mk (name : String) (attributes : List Attribute) (children : List Content) (span : Span)

inductive Content where
  | element (e : Element)
  | text (content : String) (span : Span)

end

namespace Element

def name : Element → String
  | mk name .. => name

def attributes : Element → List Attribute
  | mk _ attributes .. => attributes

def children : Element → List Content
  | mk _ _ children _ => children

def span : Element → Span
  | mk _ _ _ span => span

def attribute? (e : Element) (name : String) : Option String :=
  (e.attributes.find? fun a => a.name = name).map (·.value)

end Element

def Content.element? : Content → Option Element
  | .element e => some e
  | .text .. => none

def Content.text? : Content → Option String
  | .element _ => none
  | .text content _ => some content

namespace Element

def childElements (e : Element) : List Element := e.children.filterMap Content.element?

def text (e : Element) : String := String.join (e.children.filterMap Content.text?)

mutual

def size : Element → Nat
  | mk _ _ children _ => 1 + sizes children

def sizes : List Content → Nat
  | [] => 0
  | c :: rest => sizeOfContent c + sizes rest

def sizeOfContent : Content → Nat
  | .element e => e.size
  | .text .. => 0

end

end Element

end Barrage.Markup
