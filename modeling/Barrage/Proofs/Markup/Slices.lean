import Barrage.Proofs.Markup.DocumentOrder
import Barrage.Proofs.Markup.Pieces
import Barrage.Proofs.Markup.WellFormed

/-!
What the span of an element covers is that element. Its tokens are a stretch of those of the
document, and read by itself this stretch gives the element again; so a document can be taken apart
into the texts of its elements. The spans of what is in an element follow each other within its own.
-/

set_option autoImplicit false

namespace Barrage.Markup

/-! ## Elements without their places -/

def Attribute.unplaced (a : Attribute) : Attribute := { a with span := Span.nowhere }

namespace Element

mutual

def unplaced : Element → Element
  | mk name attributes children _ =>
    mk name (attributes.map Attribute.unplaced) (allUnplaced children) Span.nowhere

def allUnplaced : List Content → List Content
  | [] => []
  | c :: rest => unplacedContent c :: allUnplaced rest

def unplacedContent : Content → Content
  | .element e => .element e.unplaced
  | .text content _ => .text content Span.nowhere

end

mutual

theorem depth_unplaced : ∀ e : Element, e.unplaced.depth = e.depth
  | mk _ _ children _ => by rw [unplaced, depth, depth, depths_allUnplaced children]

theorem depths_allUnplaced : ∀ children : List Content,
    depths (allUnplaced children) = depths children
  | [] => rfl
  | c :: rest => by
    rw [allUnplaced, depths, depths, depthOfContent_unplaced c, depths_allUnplaced rest]

theorem depthOfContent_unplaced : ∀ c : Content,
    depthOfContent (unplacedContent c) = depthOfContent c
  | .element e => by rw [unplacedContent, depthOfContent, depthOfContent, depth_unplaced e]
  | .text .. => rfl

end

mutual

theorem depth_le_of_mem {x : Element} : ∀ e : Element, x ∈ e.elements → x.depth ≤ e.depth
  | mk name attributes children span, inside => by
    rw [elements, List.mem_cons] at inside
    obtain rfl | inside := inside
    · exact Nat.le_refl _
    · rw [depth]
      exact (depth_le_depths children inside).trans (Nat.le_add_left _ _)

theorem depth_le_depths {x : Element} : ∀ children : List Content,
    x ∈ elementsAmong children → x.depth ≤ depths children
  | [], inside => by cases inside
  | c :: rest, inside => by
    rw [elementsAmong, List.mem_append] at inside
    rw [depths]
    obtain inside | inside := inside
    · exact (depth_le_depthOfContent c inside).trans (Nat.le_max_left _ _)
    · exact (depth_le_depths rest inside).trans (Nat.le_max_right _ _)

theorem depth_le_depthOfContent {x : Element} : ∀ c : Content,
    x ∈ elementsOf c → x.depth ≤ depthOfContent c
  | .element e, inside => depth_le_of_mem e inside
  | .text .., inside => by cases inside

end

end Element

theorem Attribute.Proper.of_unplaced {attributes others : List Attribute}
    (proper : Attribute.Proper attributes)
    (same : others.map Attribute.unplaced = attributes.map Attribute.unplaced) :
    Attribute.Proper others := by
  have names := congrArg (List.map Attribute.name) same
  rw [List.map_map, List.map_map] at names
  have number := congrArg List.length same
  rw [List.length_map, List.length_map] at number
  exact ⟨(congrArg List.Nodup names).mpr proper.distinct, number ▸ proper.few⟩

/-! ## Tokens of elements -/

variable {tokens others : List SpannedToken} {e : Element} {attributes : List Attribute}

/-- Tokens that are like those of attributes are read from attributes like these. -/
theorem eq_attributeTokens
    (same : others.map Spanned.value = (attributes.map Attribute.token).map Spanned.value) :
    ∃ attributes' : List Attribute, others = attributes'.map Attribute.token ∧
      attributes'.map Attribute.unplaced = attributes.map Attribute.unplaced := by
  induction attributes generalizing others with
  | nil => exact ⟨[], List.map_eq_nil_iff.1 same, rfl⟩
  | cons a attributes ih =>
    obtain ⟨⟨_, place⟩, rest, rfl, rfl, sameRest⟩ := List.map_eq_cons_iff.1 same
    obtain ⟨attributes', rfl, alike⟩ := ih sameRest
    refine ⟨⟨a.name, a.value, place⟩ :: attributes', rfl, ?_⟩
    rw [List.map_cons, List.map_cons, alike]
    rfl

theorem eq_tagTokens {name : String} {span : Span}
    (same : others.map Spanned.value = (tagTokens name span attributes).map Spanned.value) :
    ∃ span' attributes', others = tagTokens name span' attributes' ∧
      attributes'.map Attribute.unplaced = attributes.map Attribute.unplaced := by
  obtain ⟨⟨_, span'⟩, rest, rfl, rfl, sameRest⟩ := List.map_eq_cons_iff.1 same
  obtain ⟨attributes', rfl, alike⟩ := eq_attributeTokens sameRest
  exact ⟨span', attributes', rfl, alike⟩

mutual

theorem IsElement.like {tokens others : List SpannedToken} {e : Element} : IsElement tokens e →
    others.map Spanned.value = tokens.map Spanned.value →
      ∃ e', IsElement others e' ∧ e'.unplaced = e.unplaced
  | .empty proper, same => by
    rw [List.map_append, List.map_eq_append_iff] at same
    obtain ⟨tag, close, rfl, same, sameClose⟩ := same
    obtain ⟨span', attributes', rfl, alike⟩ := eq_tagTokens same
    obtain ⟨⟨value, place⟩, rfl, rfl⟩ := List.map_eq_singleton_iff.1 sameClose
    refine ⟨_, .empty (proper.of_unplaced alike), ?_⟩
    rw [Element.unplaced, Element.unplaced, alike]
  | .full proper content, same => by
    rw [List.map_append, List.map_append, List.map_cons, List.map_eq_append_iff] at same
    obtain ⟨_, ending, rfl, same, sameEnd⟩ := same
    obtain ⟨tag, _, rfl, sameTag, same⟩ := List.map_eq_append_iff.1 same
    obtain ⟨⟨_, tagClose⟩, body, rfl, rfl, sameBody⟩ := List.map_eq_cons_iff.1 same
    obtain ⟨span', attributes', rfl, alike⟩ := eq_tagTokens sameTag
    obtain ⟨⟨_, close⟩, rfl, rfl⟩ := List.map_eq_singleton_iff.1 sameEnd
    obtain ⟨children', content', alike'⟩ := content.like sameBody
    refine ⟨_, .full (proper.of_unplaced alike) content', ?_⟩
    rw [Element.unplaced, Element.unplaced, alike, alike']

theorem IsContent.like {tokens others : List SpannedToken} {children : List Content} :
    IsContent tokens children → others.map Spanned.value = tokens.map Spanned.value →
      ∃ children', IsContent others children' ∧
        Element.allUnplaced children' = Element.allUnplaced children
  | .nil, same => by
    obtain rfl := List.map_eq_nil_iff.1 same
    exact ⟨[], .nil, rfl⟩
  | .element first rest, same => by
    rw [List.map_append, List.map_eq_append_iff] at same
    obtain ⟨front, behind, rfl, sameFirst, sameRest⟩ := same
    obtain ⟨e', likewise, alike⟩ := first.like sameFirst
    obtain ⟨children', rest', alike'⟩ := rest.like sameRest
    refine ⟨_, .element likewise rest', ?_⟩
    rw [Element.allUnplaced, Element.allUnplaced, Element.unplacedContent,
      Element.unplacedContent, alike, alike']
  | .text (t := t) data kept rest, same => by
    obtain ⟨⟨_, place⟩, behind, rfl, rfl, sameRest⟩ := List.map_eq_cons_iff.1 same
    obtain ⟨children', rest', alike⟩ := rest.like sameRest
    refine ⟨_, .text (t := ⟨t.value, place⟩) data kept rest', ?_⟩
    rw [Element.allUnplaced, Element.allUnplaced, Element.unplacedContent,
      Element.unplacedContent, alike]
  | .blank (t := t) data white rest, same => by
    obtain ⟨⟨_, place⟩, behind, rfl, rfl, sameRest⟩ := List.map_eq_cons_iff.1 same
    obtain ⟨children', rest', alike⟩ := rest.like sameRest
    exact ⟨children', .blank (t := ⟨t.value, place⟩) data white rest', alike⟩

end

mutual

theorem IsElement.stretch {tokens : List SpannedToken} {e x : Element} : IsElement tokens e →
    x ∈ e.elements → ∃ front part behind, tokens = front ++ (part ++ behind) ∧ IsElement part x
  | .empty proper, inside => by
    rw [Element.elements, Element.elementsAmong, List.mem_singleton] at inside
    subst inside
    exact ⟨[], _, [], (List.append_nil _).symm, .empty proper⟩
  | @IsElement.full name span tagClose close attributes _ _ proper content, inside => by
    rw [Element.elements, List.mem_cons] at inside
    obtain rfl | inside := inside
    · exact ⟨[], _, [], (List.append_nil _).symm, .full proper content⟩
    · obtain ⟨front, part, behind, rfl, element⟩ := content.stretch inside
      refine ⟨tagTokens name span attributes ++ ⟨.closeTag, tagClose⟩ :: front, part,
        behind ++ [⟨.endTag name, close⟩], ?_, element⟩
      simp only [List.append_assoc, List.cons_append]

theorem IsContent.stretch {tokens : List SpannedToken} {children : List Content} {x : Element} :
    IsContent tokens children → x ∈ Element.elementsAmong children →
      ∃ front part behind, tokens = front ++ (part ++ behind) ∧ IsElement part x
  | .nil, inside => by cases inside
  | @IsContent.element tokens rest _ _ first others, inside => by
    rw [Element.elementsAmong, Element.elementsOf, List.mem_append] at inside
    obtain inside | inside := inside
    · obtain ⟨front, part, behind, rfl, element⟩ := first.stretch inside
      exact ⟨front, part, behind ++ rest, by simp only [List.append_assoc], element⟩
    · obtain ⟨front, part, behind, rfl, element⟩ := others.stretch inside
      exact ⟨tokens ++ front, part, behind, by simp only [List.append_assoc], element⟩
  | .text (t := t) data kept others, inside => by
    obtain ⟨front, part, behind, rfl, element⟩ := others.stretch inside
    exact ⟨t :: front, part, behind, rfl, element⟩
  | .blank (t := t) data white others, inside => by
    obtain ⟨front, part, behind, rfl, element⟩ := others.stretch inside
    exact ⟨t :: front, part, behind, rfl, element⟩

end

/-- The tokens of an element begin and end with markup, and its span runs from the one to the
other. -/
theorem IsElement.ends (element : IsElement tokens e) : ∃ first inner last,
    tokens = first :: (inner ++ [last]) ∧ first.value.standsInTag = false ∧
      last.value.keepsTagOpen = false ∧ e.span = first.span.merge last.span := by
  cases element with
  | empty => exact ⟨_, _, _, rfl, rfl, rfl, rfl⟩
  | full => exact ⟨_, _, _, by rw [tagTokens]; rfl, rfl, rfl, rfl⟩

/-! ## Spans that follow each other -/

def Content.span : Content → Span
  | .element e => e.span
  | .text _ span => span

/-- Spans that follow each other without overlap, between two offsets. -/
def Follow (m : Nat) : List Span → Nat → Prop
  | [], n => m ≤ n
  | s :: rest, n =>
    m ≤ s.start.offset ∧ s.start.offset ≤ s.stop.offset ∧ Follow s.stop.offset rest n

namespace Follow

variable {m n m' n' : Nat} {spans more : List Span} {s : Span}

theorem le (follow : Follow m spans n) : m ≤ n := by
  induction spans generalizing m with
  | nil => exact follow
  | cons s rest ih => exact follow.1.trans (follow.2.1.trans (ih follow.2.2))

theorem mono (follow : Follow m spans n) (lower : m' ≤ m) (upper : n ≤ n') :
    Follow m' spans n' := by
  induction spans generalizing m m' with
  | nil => exact lower.trans (Nat.le_trans follow upper)
  | cons s rest ih =>
    exact ⟨lower.trans follow.1, follow.2.1, ih follow.2.2 (Nat.le_refl _)⟩

theorem append_iff : Follow m (spans ++ more) n ↔ ∃ k, Follow m spans k ∧ Follow k more n := by
  induction spans generalizing m with
  | nil =>
    exact ⟨fun follow => ⟨m, Nat.le_refl _, follow⟩,
      fun ⟨_, first, second⟩ => second.mono first (Nat.le_refl _)⟩
  | cons s rest ih =>
    constructor
    · rintro ⟨lower, forward, follow⟩
      obtain ⟨k, first, second⟩ := ih.1 follow
      exact ⟨k, ⟨lower, forward, first⟩, second⟩
    · rintro ⟨k, ⟨lower, forward, first⟩, second⟩
      exact ⟨lower, forward, ih.2 ⟨k, first, second⟩⟩

theorem sublist (follow : Follow m more n) (within : spans.Sublist more) : Follow m spans n := by
  induction within generalizing m with
  | slnil => exact follow
  | cons s _ ih =>
    exact ih (follow.2.2.mono (follow.1.trans follow.2.1) (Nat.le_refl _))
  | cons_cons s _ ih => exact ⟨follow.1, follow.2.1, ih follow.2.2⟩

theorem between (follow : Follow m spans n) (inside : s ∈ spans) :
    m ≤ s.start.offset ∧ s.start.offset ≤ s.stop.offset ∧ s.stop.offset ≤ n := by
  induction spans generalizing m with
  | nil => cases inside
  | cons s' rest ih =>
    obtain ⟨lower, forward, further⟩ := follow
    cases inside with
    | head => exact ⟨lower, forward, further.le⟩
    | tail _ inside =>
      obtain ⟨after, others⟩ := ih further inside
      exact ⟨lower.trans (forward.trans after), others⟩

theorem pairwise (follow : Follow m spans n) :
    spans.Pairwise fun s t => s.stop.offset ≤ t.start.offset := by
  induction spans generalizing m with
  | nil => exact .nil
  | cons s rest ih =>
    exact .cons (fun t inside => (follow.2.2.between inside).1) (ih follow.2.2)

end Follow

/-- A span that reaches from the first of spans to the last one keeps their place. -/
theorem Follow.merge {m n : Nat} {s t : Span} {spans : List Span}
    (follow : Follow m (s :: (spans ++ [t])) n) :
    (s.merge t).start = s.start ∧ (s.merge t).stop.offset = t.stop.offset ∧
      Follow m [s.merge t] n ∧
      Follow (s.merge t).start.offset spans (s.merge t).stop.offset := by
  obtain ⟨lower, forward, further⟩ := follow
  obtain ⟨k, inner, behind, forward', upper⟩ := Follow.append_iff.1 further
  have across := inner.le
  have begins : (s.merge t).start = s.start := if_pos (by omega)
  have ends : (s.merge t).stop.offset = t.stop.offset := by
    unfold Span.merge
    dsimp only
    split <;> omega
  refine ⟨begins, ends, ?_, ?_⟩
  · rw [Follow, begins, ends]
    exact ⟨lower, by omega, upper⟩
  · rw [begins, ends]
    exact inner.mono forward (by omega)

theorem Laid.follow {inTag inTag' : Bool} {p : Position} {cs : List Char}
    (laid : Laid inTag p cs tokens inTag') :
    Follow p.offset (tokens.map Spanned.span) (p.advanceAll cs).offset := by
  induction laid with
  | nil => exact Nat.le_refl _
  | @cons _ _ p t gap spelling cs tokens _ _ _ _ further ih =>
    simp only [Position.advanceAll_append] at ih ⊢
    refine ⟨?_, ?_, ih⟩
    · rw [Position.advanceAll_offset]
      exact Nat.le_add_right _ _
    · dsimp only
      rw [Position.advanceAll_offset _ spelling]
      exact Nat.le_add_right _ _

theorem IsElement.follow {m n : Nat} (element : IsElement tokens e)
    (follow : Follow m (tokens.map Spanned.span) n) : Follow m [e.span] n := by
  obtain ⟨first, inner, last, rfl, -, -, span⟩ := element.ends
  rw [List.map_cons, List.map_append] at follow
  rw [span]
  exact follow.merge.2.2.1

theorem IsContent.follow {m n : Nat} {tokens : List SpannedToken} {children : List Content} :
    IsContent tokens children → Follow m (tokens.map Spanned.span) n →
      Follow m (children.map Content.span) n
  | .nil, follow => follow
  | .element first others, follow => by
    rw [List.map_append] at follow
    obtain ⟨k, before, behind⟩ := Follow.append_iff.1 follow
    exact Follow.append_iff.2 ⟨k, first.follow before, others.follow behind⟩
  | .text _ _ others, follow => ⟨follow.1, follow.2.1, others.follow follow.2.2⟩
  | .blank _ _ others, follow => others.follow (follow.sublist (List.sublist_cons_self _ _))

theorem IsElement.encloses {m n : Nat} (element : IsElement tokens e)
    (follow : Follow m (tokens.map Spanned.span) n) :
    Follow e.span.start.offset (e.children.map Content.span) e.span.stop.offset := by
  cases element with
  | empty =>
    rw [tagTokens, List.cons_append, List.map_cons, List.map_append] at follow
    exact follow.merge.2.2.2.le
  | full _ content =>
    rw [tagTokens, List.append_assoc, List.cons_append, List.map_cons, ← List.append_assoc,
      List.map_append] at follow
    refine content.follow (follow.merge.2.2.2.sublist ?_)
    rw [List.map_append, List.map_cons]
    exact (List.sublist_cons_self _ _).trans (List.sublist_append_right _ _)

/-! ## Stretches of tokens -/

theorem exists_stretch {α : Type} {p : α → Bool} {all front inner behind : List α}
    {first last : α} (same : all.filter p = front ++ (first :: (inner ++ [last]) ++ behind)) :
    ∃ front' inner' behind', all = front' ++ (first :: (inner' ++ [last]) ++ behind') ∧
      (first :: (inner' ++ [last])).filter p = first :: (inner ++ [last]) := by
  obtain ⟨front₁, rest₁, rfl, -, same⟩ := List.filter_eq_append_iff.1 same
  rw [List.cons_append, List.filter_eq_cons_iff] at same
  obtain ⟨front₂, rest₂, rfl, -, keepsFirst, same⟩ := same
  rw [List.append_assoc, List.filter_eq_append_iff] at same
  obtain ⟨inner₁, rest₃, rfl, sameInner, same⟩ := same
  rw [List.singleton_append, List.filter_eq_cons_iff] at same
  obtain ⟨inner₂, rest₄, rfl, noneKept, keepsLast, -⟩ := same
  refine ⟨front₁ ++ front₂, inner₁ ++ inner₂, rest₄, by simp, ?_⟩
  have blank : inner₂.filter p = [] := List.filter_eq_nil_iff.2 noneKept
  simp [keepsFirst, keepsLast, sameInner, blank]

namespace Laid

variable {inTag inTag' : Bool} {p : Position} {cs : List Char} {t : SpannedToken}

theorem begins (laid : Laid false p cs (t :: tokens) inTag) : t.span.start = p := by
  cases laid with
  | cons _ tight =>
    rw [tight rfl]
    rfl

theorem ends (laid : Laid inTag p cs (tokens ++ [t]) inTag') : t.span.stop = p.advanceAll cs := by
  induction tokens generalizing p cs inTag with
  | nil =>
    cases laid with
    | cons _ _ _ _ further =>
      cases further
      rw [List.append_nil]
  | cons u tokens ih =>
    cases laid with
    | cons _ _ _ _ further =>
      rw [ih further, ← List.append_assoc, Position.advanceAll_append _ (_ ++ _)]

theorem next {behind : List SpannedToken} (laid : Laid inTag p cs (tokens ++ t :: behind) inTag') :
    ∀ u ∈ behind.head?, u.value.standsInTag = t.value.keepsTagOpen := by
  induction tokens generalizing p cs inTag with
  | nil =>
    cases laid with
    | cons _ _ _ _ further =>
      rintro u inside
      cases further with
      | nil => cases inside
      | cons _ _ place =>
        cases inside
        exact place
  | cons v tokens ih =>
    cases laid with
    | cons _ _ _ _ further => exact ih further

end Laid

/-! ## Elements by themselves -/

theorem beforeEnd_of_run {tokens tokens' : Array SpannedToken} {c c' : Cursor} {span : Span}
    (run : Lexer.Run tokens c tokens' c') (empty : tokens.toList = []) :
    beforeEnd (tokens'.push ⟨.endOfInput, span⟩) =
      tokens'.toList.filter fun t => !t.value.isTrivia := by
  obtain ⟨_, new, -, same, -, inside⟩ := run.laid
  rw [empty, List.nil_append] at same
  rw [beforeEnd, Array.toList_push, List.filter_append, List.takeWhile_append_of_pos]
  · exact List.append_nil _
  · intro t member
    rw [same] at member
    simpa using inside t (List.mem_of_mem_filter member)

theorem slice_eq_of_offsets {source : String} {span : Span} {outer inside after : List Char}
    (same : source.toList = outer ++ (inside ++ after))
    (begins : span.start.offset = (Position.start.advanceAll outer).offset)
    (ends : span.stop.offset = (Position.start.advanceAll (outer ++ inside)).offset) :
    span.slice source = String.ofList inside := by
  rw [← slice_eq same]
  simp only [Span.slice, begins, ends]

/-- What an element of a document covers is read by itself, and as that element. -/
structure Reread (source : String) (e : Element) : Prop where
  accepted : (Lexing.ofSource (e.span.slice source)).outcome = .ok ()
  element : ∀ source? : Option SourceMap, ∃ e',
    readDocument (.ofTokens (Lexing.ofSource (e.span.slice source)).tokens source?) =
      (.ok e', e.depth) ∧ e'.unplaced = e.unplaced

/-- The spans of children lie inside that of their element, in order and without overlap. -/
structure Encloses (e : Element) : Prop where
  inside : ∀ c ∈ e.children, e.span.start.offset ≤ c.span.start.offset ∧
    c.span.start.offset ≤ c.span.stop.offset ∧ c.span.stop.offset ≤ e.span.stop.offset
  ordered : e.children.Pairwise fun c d => c.span.stop.offset ≤ d.span.start.offset

theorem reread_of_stretch {source : String} {tokens : Array SpannedToken} {c : Cursor}
    {front inner behind : List SpannedToken} {first last : SpannedToken} {e : Element}
    (run : Lexer.Run #[] (.ofSource source) tokens c)
    (all : tokens.toList = front ++ (first :: (inner ++ [last]) ++ behind))
    (outside : first.value.standsInTag = false) (closed : last.value.keepsTagOpen = false)
    (element : IsElement ((first :: (inner ++ [last])).filter fun t => !t.value.isTrivia) e)
    (span : e.span = first.span.merge last.span) (shallow : e.depth ≤ Limit.nesting) :
    Reread source e ∧ Encloses e := by
  have begins : ∀ t ∈ (first :: (inner ++ [last])).head?, t.value.standsInTag = false := by
    rintro t ⟨⟩
    exact outside
  have ends : ∀ t ∈ behind.head?, t.value.standsInTag = false := by
    obtain ⟨_, new, -, same, laid, -⟩ := run.laid
    have whole : new = (front ++ first :: inner) ++ last :: behind := by
      rw [← same.trans (List.nil_append _), all]
      simp
    rw [whole] at laid
    exact fun t next => (laid.next t next).trans closed
  -- no tag is open around the stretch, so it is read alone as it is read in the text
  obtain ⟨outer, inside, after, split, laid, toks, d, run', ended, alike⟩ :=
    run.piece all begins (List.cons_ne_nil _ _) ends
  have follow := laid.follow
  have around := follow
  rw [List.map_cons, List.map_append] at around
  obtain ⟨start, stop, -⟩ := around.merge
  -- the first and the last token are where the span begins and ends
  have slice : e.span.slice source = String.ofList inside := by
    refine slice_eq_of_offsets split ?_ ?_
    · rw [span, start, laid.begins]
    · rw [← List.cons_append] at laid
      rw [span, stop, laid.ends, Position.advanceAll_append]
  have lexed : Lexing.ofSource (String.ofList inside) =
      ⟨toks.push ⟨.endOfInput, Span.point d.pos⟩, .ok ()⟩ := by
    rw [Lexing.ofSource, run'.readAll_eq ended]
  have significant : (toks.toList.filter fun t => !t.value.isTrivia).map Spanned.value =
      ((first :: (inner ++ [last])).filter fun t => !t.value.isTrivia).map Spanned.value := by
    have filtered := congrArg (List.filter fun t : Token => !t.isTrivia) alike
    rwa [Lexer.values, List.filter_map, List.filter_map] at filtered
  obtain ⟨e', element', same⟩ := element.like significant
  refine ⟨⟨?_, fun source? => ⟨e', ?_, same⟩⟩, ?_⟩
  · rw [slice, lexed]
  · have depth : e'.depth = e.depth := by
      rw [← Element.depth_unplaced, same, Element.depth_unplaced]
    rw [slice, lexed, ← depth]
    refine readDocument_of_isElement source? ?_ (depth ▸ shallow)
    rwa [beforeEnd_of_run run' rfl]
  · have encloses := element.encloses (follow.sublist (List.filter_sublist.map _))
    exact ⟨fun c member => encloses.between (List.mem_map_of_mem member),
      List.pairwise_map.1 encloses.pairwise⟩

/-- Every element of a document that is accepted, at any depth, is read again from the text that its
span covers, and encloses its children. -/
theorem elements_reread {source : String} {source? : Option SourceMap} {root : Element}
    {depth : Nat} (accepted : (Lexing.ofSource source).outcome = .ok ())
    (read : readDocument (.ofTokens (Lexing.ofSource source).tokens source?) = (.ok root, depth)) :
    ∀ e ∈ root.elements, Reread source e ∧ Encloses e := by
  intro e member
  obtain ⟨tokens, c, run, ended, all⟩ := Lexer.run_of_readAll accepted
  change (Lexing.ofSource source).tokens = _ at all
  rw [all] at read
  obtain ⟨isRoot, shallow, -⟩ := ((reads_wellFormed _ source?).1 root depth).1 read
  rw [beforeEnd_of_run run rfl] at isRoot
  obtain ⟨front, part, behind, same, element⟩ := isRoot.stretch member
  obtain ⟨first, inner, last, rfl, outside, closed, span⟩ := element.ends
  obtain ⟨front', inner', behind', same', kept⟩ := exists_stretch same
  rw [← kept] at element
  exact reread_of_stretch run same' outside closed element span
    ((Element.depth_le_of_mem root member).trans shallow)

/-- A text with blanks, a comment, a reference and a character of two bytes around and in its
elements. -/
def nested : String := "<a >\n<!-- é --><b x = 'é&lt;'>1</b > 2<c/>\n</a>\n"

theorem elements_reread_nested : (Lexing.ofSource nested).outcome = .ok () ∧
    ∃ root depth, readDocument (.ofTokens (Lexing.ofSource nested).tokens) = (.ok root, depth) ∧
      root.elements.map (·.span.slice nested) =
        ["<a >\n<!-- é --><b x = 'é&lt;'>1</b > 2<c/>\n</a>", "<b x = 'é&lt;'>1</b >", "<c/>"] ∧
      ∀ e ∈ root.elements, Reread nested e ∧ Encloses e := by
  have accepted : (Lexing.ofSource nested).outcome = .ok () := by decide +kernel
  have slices : (readDocument (.ofTokens (Lexing.ofSource nested).tokens)).1.toOption.map
      (fun root => root.elements.map (·.span.slice nested)) =
        some ["<a >\n<!-- é --><b x = 'é&lt;'>1</b > 2<c/>\n</a>", "<b x = 'é&lt;'>1</b >",
          "<c/>"] := by
    decide +kernel
  match read : readDocument (.ofTokens (Lexing.ofSource nested).tokens) with
  | (.error _, _) =>
    rw [read] at slices
    cases slices
  | (.ok root, depth) =>
    rw [read] at slices
    exact ⟨accepted, root, depth, rfl, Option.some.inj slices, elements_reread accepted read⟩

end Barrage.Markup
