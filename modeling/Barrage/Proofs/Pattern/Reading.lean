import Barrage.Proofs.Markup.DocumentOrder
import Barrage.Proofs.Pattern.Family

/-!
Reading a pattern document goes along its elements in document order. What each element does to the
draft adds up to what the document does, and a document is refused for one of its elements.
-/

set_option autoImplicit false

namespace Barrage

open Markup

namespace Draft

variable {d d' : Draft}

structure Along (P : List Element → Draft → Draft → Prop) : Prop where
  start (d : Draft) : P [] d d
  more {es more : List Element} {d d' d'' : Draft} (first : P es d d') (next : P more d' d'') :
    P (es ++ more) d d''
  single {e : Element} {n : Node} {d b d' : Draft} {parent? : Option NodeId} {id : NodeId}
    (node : Ends (readNode e) d n b) (pushed : Ends (pushNode n parent?) b id d') : P [e] d d'

section Along

variable {P : List Element → Draft → Draft → Prop}

mutual

theorem Along.readElement (along : Along P) : (e : Element) → (parent? : Option NodeId) →
    (d d' : Draft) → Ends (readElement parent? e) d () d' → P e.elements d d'
  | .mk name attributes children span, parent?, d, d', ended => by
    simp only [Draft.readElement, Ends.bind_iff] at ended
    obtain ⟨n, b, node, id, c, pushed, ended⟩ := ended
    rw [Element.elements, ← List.singleton_append]
    exact along.more (along.single node pushed) (along.readContents children id c d' ended)

theorem Along.readContents (along : Along P) : (cs : List Content) → (p : NodeId) →
    (d d' : Draft) → Ends (readContents p cs) d () d' → P (Element.elementsAmong cs) d d'
  | [], p, d, d', ended => by
    rw [Draft.readContents, Ends.pure_iff] at ended
    obtain ⟨-, rfl⟩ := ended
    exact along.start _
  | c :: rest, p, d, d', ended => by
    simp only [Draft.readContents, Ends.bind_iff] at ended
    obtain ⟨_, b, first, ended⟩ := ended
    rw [Element.elementsAmong]
    exact along.more (along.readContent c p d b first) (along.readContents rest p b d' ended)

theorem Along.readContent (along : Along P) : (c : Content) → (p : NodeId) → (d d' : Draft) →
    Ends (readContent p c) d () d' → P (Element.elementsOf c) d d'
  | .element e, p, d, d', ended => by
    rw [Draft.readContent] at ended
    exact along.readElement e (some p) d d' ended
  | .text _ _, p, d, d', ended => by
    rw [Draft.readContent, Ends.pure_iff] at ended
    obtain ⟨-, rfl⟩ := ended
    exact along.start _

end

theorem Along.ofDocument (along : Along P) {root : Element}
    (read : ofDocument root = (.ok (), d)) : root.name = rootElement ∧ P root.elements {} d := by
  have ended : Ends (readRoot root) {} () d := read
  unfold readRoot at ended
  split at ended
  · next isRoot => exact ⟨isRoot, along.readElement root none {} d ended⟩
  · exact absurd ended Ends.not_throw

end Along

/-! ## Documents that are refused -/

def Refused (e : Element) (error : FormatError) : Prop := ∃ d d', Fails (readNode e) d error d'

mutual

theorem refused_readElement {error : FormatError} : (e : Element) → (parent? : Option NodeId) →
    (d d' : Draft) → Fails (readElement parent? e) d error d' →
    ∃ e' ∈ e.elements, Refused e' error
  | .mk name attributes children span, parent?, d, d', failed => by
    simp only [readElement, Fails.bind_iff] at failed
    rw [Element.elements]
    obtain node | ⟨n, b, -, pushed | ⟨id, c, -, inside⟩⟩ := failed
    · exact ⟨_, List.mem_cons_self, d, d', node⟩
    · cases pushed
    · obtain ⟨e', member, refused⟩ := refused_readContents children id c d' inside
      exact ⟨e', List.mem_cons_of_mem _ member, refused⟩

theorem refused_readContents {error : FormatError} : (cs : List Content) → (p : NodeId) →
    (d d' : Draft) → Fails (readContents p cs) d error d' →
    ∃ e ∈ Element.elementsAmong cs, Refused e error
  | [], p, d, d', failed => absurd failed Fails.not_pure
  | c :: rest, p, d, d', failed => by
    simp only [readContents, Fails.bind_iff] at failed
    rw [Element.elementsAmong]
    obtain first | ⟨_, b, -, later⟩ := failed
    · obtain ⟨e, member, refused⟩ := refused_readContent c p d d' first
      exact ⟨e, List.mem_append_left _ member, refused⟩
    · obtain ⟨e, member, refused⟩ := refused_readContents rest p b d' later
      exact ⟨e, List.mem_append_right _ member, refused⟩

theorem refused_readContent {error : FormatError} : (c : Content) → (p : NodeId) →
    (d d' : Draft) → Fails (readContent p c) d error d' →
    ∃ e ∈ Element.elementsOf c, Refused e error
  | .element e, p, d, d', failed => by
    rw [readContent] at failed
    exact refused_readElement e (some p) d d' failed
  | .text _ _, p, d, d', failed => absurd failed Fails.not_pure

end

theorem refused_ofDocument {root : Element} {error : FormatError}
    (read : ofDocument root = (.error error, d)) :
    error = .wrongRoot root.name root.span ∨ ∃ e ∈ root.elements, Refused e error := by
  have failed : Fails (readRoot root) {} error d := read
  unfold readRoot at failed
  split at failed
  · exact .inr (refused_readElement root none {} d failed)
  · exact .inl (Fails.throw_iff.1 failed).1

end Draft

end Barrage
