import Barrage.Markup.Element

/-!
The elements of a tree in document order: each one before all that is inside it, and what is inside
it before all that follows it.
-/

set_option autoImplicit false

namespace Barrage.Markup.Element

mutual

def elements : Element → List Element
  | mk name attributes children span => mk name attributes children span :: elementsAmong children

def elementsAmong : List Content → List Element
  | [] => []
  | c :: rest => elementsOf c ++ elementsAmong rest

def elementsOf : Content → List Element
  | .element e => e.elements
  | .text .. => []

end

def inner (e : Element) : List Element := elementsAmong e.children

theorem elements_eq (e : Element) : e.elements = e :: e.inner := by
  cases e
  rw [elements, inner, children]

mutual

theorem length_elements : ∀ e : Element, e.elements.length = e.size
  | mk _ _ children _ => by
    rw [elements, List.length_cons, length_elementsAmong children, size, Nat.add_comm]

theorem length_elementsAmong : ∀ children : List Content,
    (elementsAmong children).length = sizes children
  | [] => rfl
  | c :: rest => by
    rw [elementsAmong, List.length_append, length_elementsOf c, length_elementsAmong rest, sizes]

theorem length_elementsOf : ∀ c : Content, (elementsOf c).length = sizeOfContent c
  | .element e => length_elements e
  | .text .. => rfl

end

end Barrage.Markup.Element
