import Barrage.Proofs.Pattern.Reading

/-!
Which way the field of a document faces. Every element with the name of a root may say so in its
type attribute, wherever it is in the document, and the last one that does is followed.
-/

set_option autoImplicit false

namespace Barrage

open Markup

namespace Markup.Element

def typeValues (e : Element) : List String :=
  (e.attributes.filter fun a => a.name = "type").map (·.value)

def fieldTypes (e : Element) : List String := if e.name = rootElement then e.typeValues else []

theorem filter_name_eq_find? {attributes : List Markup.Attribute} {name : String}
    (distinct : (attributes.map (·.name)).Nodup) :
    attributes.filter (fun a => a.name = name) =
      (attributes.find? fun a => a.name = name).toList := by
  induction attributes with
  | nil => rfl
  | cons a rest ih =>
    obtain ⟨fresh, distinct⟩ := List.nodup_cons.1 distinct
    by_cases same : a.name = name
    · have others : rest.filter (fun b => b.name = name) = [] := by
        rw [List.filter_eq_nil_iff]
        intro b inside other
        exact fresh (List.mem_map.2 ⟨b, inside, (of_decide_eq_true other).trans same.symm⟩)
      simp [same, others]
    · simp [same, ih distinct]

theorem typeValues_eq {e : Element} (distinct : (e.attributes.map (·.name)).Nodup) :
    e.typeValues = (e.attribute? "type").toList := by
  rw [typeValues, filter_name_eq_find? distinct, attribute?]
  cases e.attributes.find? fun a => a.name = "type" <;> rfl

end Markup.Element

namespace Orientation

/-- The orientation that the last of some values names, or another one if there are none. -/
def lastNamed (before : Orientation) (values : List String) : Orientation :=
  (values.getLast?.bind ofAttribute?).getD before

/-- Values of type attributes, read in order, turn one orientation into another. -/
structure Turned (values : List String) (before after : Orientation) : Prop where
  named : ∀ v ∈ values, (ofAttribute? v).isSome
  last : after = lastNamed before values

namespace Turned

variable {values more : List String} {o o' o'' : Orientation}

theorem nil (o : Orientation) : Turned [] o o :=
  ⟨fun _ inside => (nomatch inside), rfl⟩

theorem single {value : String} (o : Orientation) (named : ofAttribute? value = some o') :
    Turned [value] o o' where
  named := by
    intro v inside
    rw [List.mem_singleton.1 inside, named]
    rfl
  last := by simp [lastNamed, named]

theorem append (first : Turned values o o') (next : Turned more o' o'') :
    Turned (values ++ more) o o'' where
  named v inside := (List.mem_append.1 inside).elim (first.named v) (next.named v)
  last := by
    rw [next.last, first.last, lastNamed, lastNamed, lastNamed, List.getLast?_append]
    cases final : more.getLast? with
    | none => rfl
    | some v =>
      obtain ⟨named, found⟩ :=
        Option.isSome_iff_exists.1 (next.named v (List.mem_of_getLast? final))
      simp [found]

end Turned

end Orientation

theorem Kind.name_of_ofName? {s : String} {kind : Kind} (found : Kind.ofName? s = some kind) :
    kind.name = s := by
  have matching := List.find?_some found
  exact of_decide_eq_true matching

theorem Kind.eq_bulletml_iff {s : String} {kind : Kind} (found : Kind.ofName? s = some kind) :
    kind = .bulletml ↔ s = rootElement := by
  constructor
  · rintro rfl
    exact (name_of_ofName? found).symm
  · rintro rfl
    exact Option.some.inj (found.symm.trans (ofName?_name .bulletml))

namespace Draft

open Barrage.Orientation

variable {d d' : Draft}

/-! ## One element -/

theorem readAttribute_turned {element : String} {n m : Node} {a : Markup.Attribute}
    (ended : Ends (readAttribute element n a) d m d') :
    m.kind = n.kind ∧
      Turned (if n.kind = .bulletml ∧ a.name = "type" then [a.value] else [])
        d.orientation d'.orientation := by
  unfold readAttribute at ended
  split at ended
  · next isType =>
    split at ended
    · next root =>
      split at ended
      · next orientation named =>
        simp only [Ends.bind_iff, Ends.modify_iff, Ends.pure_iff] at ended
        obtain ⟨-, -, rfl, rfl, rfl⟩ := ended
        rw [if_pos ⟨root, isType⟩]
        exact ⟨rfl, .single _ named⟩
      · exact absurd ended Ends.not_throw
    · next other =>
      split at ended
      · obtain ⟨rfl, rfl⟩ := Ends.pure_iff.1 ended
        rw [if_neg fun both => other both.1]
        exact ⟨rfl, .nil _⟩
      · exact absurd ended Ends.not_throw
  · next label =>
    split at ended
    · exact absurd ended Ends.not_throw
    · obtain ⟨rfl, rfl⟩ := Ends.pure_iff.1 ended
      rw [if_neg fun both => absurd (label.symm.trans both.2) (by decide)]
      exact ⟨rfl, .nil _⟩
  · next name =>
    obtain ⟨rfl, rfl⟩ := Ends.pure_iff.1 ended
    rw [if_neg fun both => absurd (name.symm.trans both.2) (by decide)]
    exact ⟨rfl, .nil _⟩
  · next other _ _ =>
    simp only [Ends.bind_iff, Ends.modify_iff, Ends.pure_iff] at ended
    obtain ⟨-, -, rfl, rfl, rfl⟩ := ended
    rw [if_neg fun both => other both.2]
    exact ⟨rfl, .nil _⟩

theorem readAttributes_turned {element : String} {attributes : List Markup.Attribute} {n m : Node}
    (ended : Ends (attributes.foldlM (readAttribute element) n) d m d') :
    Turned (if n.kind = .bulletml then
        (attributes.filter fun a => a.name = "type").map (·.value) else [])
      d.orientation d'.orientation := by
  induction attributes generalizing d n with
  | nil =>
    rw [(Ends.pure_iff.1 ended).2]
    simpa using Turned.nil _
  | cons a rest ih =>
    obtain ⟨k, e, first, later⟩ := Ends.bind_iff.1 ended
    obtain ⟨same, turned⟩ := readAttribute_turned first
    have both := turned.append (ih later)
    rw [same] at both
    by_cases root : n.kind = .bulletml <;> by_cases isType : a.name = "type" <;>
      simpa [root, isType] using both

theorem readNode_turned {e : Element} {n : Node} (ended : Ends (readNode e) d n d') :
    Turned e.fieldTypes d.orientation d'.orientation := by
  unfold readNode at ended
  split at ended
  · exact absurd ended Ends.not_throw
  · next kind found =>
    obtain ⟨m, c, attributes, rest⟩ := Ends.bind_iff.1 ended
    have turned := readAttributes_turned attributes
    dsimp only at rest turned
    split at rest
    · exact absurd rest Ends.not_throw
    · rw [(Ends.pure_iff.1 rest).2]
      simpa only [Element.fieldTypes, Element.typeValues, Kind.eq_bulletml_iff found] using turned

theorem pushNode_orientation {n : Node} {parent? : Option NodeId} {id : NodeId}
    (ended : Ends (pushNode n parent?) d id d') : d'.orientation = d.orientation := by
  obtain ⟨rfl, rfl⟩ := Prod.mk.inj (Ends.modifyGet_iff.1 ended)
  rfl

/-! ## All elements of a document -/

theorem along_turned : Along fun es d d' =>
    Turned (es.flatMap Element.fieldTypes) d.orientation d'.orientation where
  start _ := .nil _
  more first next := by
    rw [List.flatMap_append]
    exact first.append next
  single node pushed := by
    rw [List.flatMap_singleton, pushNode_orientation pushed]
    exact readNode_turned node

/-- The field of a document that can be read faces the way that the last type attribute of an
element with the root's name says, and no way if there is none; all these attributes name ways. So
it faces as the root says exactly if the last of the others, if there is any, says the same. -/
theorem last_type_faces {root : Element} (read : ofDocument root = (.ok (), d)) :
    (∀ e ∈ root.elements, ∀ v ∈ e.fieldTypes, (ofAttribute? v).isSome) ∧
    d.orientation = lastNamed .none (root.elements.flatMap Element.fieldTypes) ∧
    (d.orientation = lastNamed .none root.typeValues ↔
      root.inner.flatMap Element.fieldTypes = [] ∨
        lastNamed .none (root.inner.flatMap Element.fieldTypes) =
          lastNamed .none root.typeValues) ∧
    ((root.attributes.map (·.name)).Nodup → root.typeValues = (root.attribute? "type").toList) := by
  obtain ⟨isRoot, turned⟩ := along_turned.ofDocument read
  refine ⟨fun e inside v member => ?_, turned.last, ?_, Element.typeValues_eq⟩
  · exact turned.named v (List.mem_flatMap.2 ⟨e, inside, member⟩)
  · have own : root.fieldTypes = root.typeValues := if_pos isRoot
    have last := turned.last
    rw [Element.elements_eq, List.flatMap_cons, own, lastNamed, List.getLast?_append] at last
    rw [last]
    -- the types of other elements count before the root's own
    cases final : (root.inner.flatMap Element.fieldTypes).getLast? with
    | none =>
      rw [List.getLast?_eq_none_iff] at final
      simp [final, lastNamed]
    | some v =>
      have nonempty : root.inner.flatMap Element.fieldTypes ≠ [] := by
        intro empty
        rw [empty] at final
        cases final
      simp [nonempty, lastNamed, final]

/-- A vertical field, in which an element with the root's name is horizontal. -/
def turned : Element :=
  .mk "bulletml" [⟨"type", "vertical", Span.nowhere⟩]
    [.element (.mk "bulletml" [⟨"type", "horizontal", Span.nowhere⟩] [] Span.nowhere)] Span.nowhere

theorem last_type_faces_turned : ∃ d, ofDocument turned = (.ok (), d) ∧
    d.orientation = .horizontal ∧ turned.attribute? "type" = some "vertical" := by
  have reads : (ofDocument turned).1 = .ok () := by rfl
  have read : ofDocument turned = (.ok (), (ofDocument turned).2) := by rw [← reads]
  refine ⟨_, read, ?_, by decide⟩
  rw [(last_type_faces read).2.1]
  decide

end Draft

end Barrage
