import Barrage.Markup.Document
import Mathlib.Data.List.Nodup

/-!
Well-formed documents. A grammar says which tokens make up an element: a start tag whose attributes
have distinct names, and either the close of an empty element or content and an end tag of the same
name. The reader comes to an element exactly if the tokens up to the end of the input are one of the
grammar that is not nested too deep, and then to that element and its depth.
-/

set_option autoImplicit false

namespace Barrage.Markup

/-! ## The grammar -/

namespace Element

mutual

/-- How many elements are around each other at most, the root included. -/
def depth : Element → Nat
  | mk _ _ children _ => 1 + depths children

def depths : List Content → Nat
  | [] => 0
  | c :: rest => max (depthOfContent c) (depths rest)

def depthOfContent : Content → Nat
  | .element e => e.depth
  | .text .. => 0

end

theorem depths_append (front back : List Content) :
    depths (front ++ back) = max (depths front) (depths back) := by
  induction front with
  | nil => simp [depths]
  | cons c front ih => simp [depths, ih, Nat.max_assoc]

theorem depths_reverse (children : List Content) : depths children.reverse = depths children := by
  induction children with
  | nil => rfl
  | cons c children ih => simp [depths, depths_append, ih, Nat.max_comm]

end Element

def Attribute.token (a : Attribute) : SpannedToken := ⟨.attr a.name a.value, a.span⟩

def tagTokens (name : String) (span : Span) (attributes : List Attribute) : List SpannedToken :=
  ⟨.openTag name, span⟩ :: attributes.map Attribute.token

structure Attribute.Proper (attributes : List Attribute) : Prop where
  distinct : (attributes.map Attribute.name).Nodup
  few : attributes.length ≤ Limit.attributes

mutual

/-- Tokens that make up an element. -/
inductive IsElement : List SpannedToken → Element → Prop where
  | empty {name : String} {span close : Span} {attributes : List Attribute}
      (proper : Attribute.Proper attributes) :
      IsElement (tagTokens name span attributes ++ [⟨.closeEmpty, close⟩])
        (.mk name attributes [] (span.merge close))
  | full {name : String} {span tagClose close : Span} {attributes : List Attribute}
      {body : List SpannedToken} {children : List Content} (proper : Attribute.Proper attributes)
      (content : IsContent body children) :
      IsElement (tagTokens name span attributes ++ ⟨.closeTag, tagClose⟩ :: body
        ++ [⟨.endTag name, close⟩]) (.mk name attributes children (span.merge close))

inductive IsContent : List SpannedToken → List Content → Prop where
  | nil : IsContent [] []
  | element {tokens rest : List SpannedToken} {e : Element} {children : List Content}
      (first : IsElement tokens e) (others : IsContent rest children) :
      IsContent (tokens ++ rest) (.element e :: children)
  | text {t : SpannedToken} {content : String} {rest : List SpannedToken} {children : List Content}
      (data : t.value.characterData? = some content) (kept : ¬ Text.isBlankText content)
      (others : IsContent rest children) : IsContent (t :: rest) (.text content t.span :: children)
  | blank {t : SpannedToken} {content : String} {rest : List SpannedToken}
      {children : List Content} (data : t.value.characterData? = some content)
      (white : Text.isBlankText content) (others : IsContent rest children) :
      IsContent (t :: rest) children

end

theorem IsContent.append {front back : List SpannedToken} {children more : List Content} :
    IsContent front children → IsContent back more →
      IsContent (front ++ back) (children ++ more)
  | .nil, behind => behind
  | .element first others, behind => by
    rw [List.append_assoc]
    exact .element first (others.append behind)
  | .text data kept others, behind => .text data kept (others.append behind)
  | .blank data white others, behind => .blank data white (others.append behind)

theorem IsContent.child {tokens : List SpannedToken} {e : Element} (first : IsElement tokens e) :
    IsContent tokens [.element e] := by
  have only := IsContent.element first .nil
  rwa [List.append_nil] at only

def beforeEnd (tokens : Array SpannedToken) : List SpannedToken :=
  (tokens.toList.filter fun t => !t.value.isTrivia).takeWhile fun t => t.value ≠ .endOfInput

/-! ## What the reader has taken -/

inductive OpenElement.Taken : OpenElement → List SpannedToken → Prop where
  | tag {name : String} {span : Span} {attributes : List Attribute}
      (proper : Attribute.Proper attributes) :
      Taken { name, span, attributes := attributes.reverse } (tagTokens name span attributes)
  | content {name : String} {span tagClose : Span} {attributes : List Attribute}
      {body : List SpannedToken} {children : List Content} (proper : Attribute.Proper attributes)
      (content : IsContent body children) :
      Taken { name, span, inTag := false, attributes := attributes.reverse,
              children := children.reverse }
        (tagTokens name span attributes ++ ⟨.closeTag, tagClose⟩ :: body)

/-- The tokens that were taken of all open elements; only of the innermost one the start tag may be
open. -/
inductive OpenElement.AllTaken : List OpenElement → List SpannedToken → Prop where
  | nil : AllTaken [] []
  | cons {o : OpenElement} {outer : List OpenElement} {before tokens : List SpannedToken}
      (inner : o.Taken tokens) (around : AllTaken outer before)
      (inside : ∀ o ∈ outer.head?, o.inTag = false) : AllTaken (o :: outer) (before ++ tokens)

def OpenElement.nesting : List OpenElement → Nat
  | [] => 0
  | o :: outer => max (outer.length + 1 + Element.depths o.children) (nesting outer)

namespace OpenElement

variable {o : OpenElement} {tokens : List SpannedToken} {t : SpannedToken}

theorem Taken.opened (name : String) (span : Span) :
    ({ name, span } : OpenElement).Taken [⟨.openTag name, span⟩] :=
  @Taken.tag name span [] ⟨.nil, Nat.zero_le _⟩

theorem Taken.attribute {a : Attribute} (taken : o.Taken tokens) (inTag : o.inTag = true)
    (fresh : ¬ o.attributes.any fun b => b.name = a.name)
    (few : o.attributes.length < Limit.attributes) :
    ({ o with attributes := a :: o.attributes } : OpenElement).Taken (tokens ++ [a.token]) := by
  cases taken with
  | content => cases inTag
  | @tag name span attributes proper =>
    have distinct : ((attributes ++ [a]).map Attribute.name).Nodup := by
      rw [List.map_append, List.map_singleton, List.nodup_append]
      refine ⟨proper.distinct, List.nodup_singleton _, ?_⟩
      simpa using fresh
    have room : (attributes ++ [a]).length ≤ Limit.attributes := by
      rw [List.length_append, List.length_singleton]
      simpa using Nat.succ_le_of_lt few
    have taken : OpenElement.Taken _ (tagTokens name span (attributes ++ [a])) :=
      .tag ⟨distinct, room⟩
    simpa [tagTokens] using taken

theorem Taken.inside (taken : o.Taken tokens) (inTag : o.inTag = true) (close : Span) :
    ({ o with inTag := false } : OpenElement).Taken (tokens ++ [⟨.closeTag, close⟩]) := by
  cases taken with
  | content => cases inTag
  | tag proper => exact @Taken.content _ _ close _ [] [] proper .nil

theorem Taken.more {more : List SpannedToken} {children : List Content} (taken : o.Taken tokens)
    (inside : o.inTag = false) (content : IsContent more children) :
    ({ o with children := children.reverse ++ o.children } : OpenElement).Taken
      (tokens ++ more) := by
  cases taken with
  | tag => cases inside
  | @content name span tagClose attributes body former proper before =>
    have taken : OpenElement.Taken _
        (tagTokens name span attributes ++ ⟨.closeTag, tagClose⟩ :: (body ++ more)) :=
      .content proper (before.append content)
    simpa using taken

theorem Taken.close_empty (taken : o.Taken tokens) (inTag : o.inTag = true) (close : Span) :
    IsElement (tokens ++ [⟨.closeEmpty, close⟩]) (o.close close) := by
  cases taken with
  | content => cases inTag
  | tag proper =>
    rw [OpenElement.close, List.reverse_reverse]
    exact .empty proper

theorem Taken.close (taken : o.Taken tokens) (inside : o.inTag = false) (close : Span) :
    IsElement (tokens ++ [⟨.endTag o.name, close⟩]) (o.close close) := by
  cases taken with
  | tag => cases inside
  | content proper content =>
    rw [OpenElement.close, List.reverse_reverse, List.reverse_reverse]
    exact .full proper content

theorem depth_close (o : OpenElement) (closing : Span) :
    (o.close closing).depth = 1 + Element.depths o.children := by
  rw [OpenElement.close, Element.depth, Element.depths_reverse]

end OpenElement

namespace DocumentReader

open OpenElement

/-- The tokens that a reader has taken: those of the elements that are open, or those of one that is
whole. -/
inductive Took : DocumentReader → List SpannedToken → Prop where
  | inside {opened : List OpenElement} {tokens : List SpannedToken}
      (all : AllTaken opened tokens) (shallow : nesting opened ≤ Limit.nesting) :
      Took { opened, deepest := nesting opened } tokens
  | whole {e : Element} {tokens : List SpannedToken} (element : IsElement tokens e)
      (shallow : e.depth ≤ Limit.nesting) : Took { root? := some e, deepest := e.depth } tokens

variable {r r' : DocumentReader} {t : SpannedToken} {o : OpenElement} {outer : List OpenElement}
  {before tokens : List SpannedToken} {e : Element} {name : String}

/-! ## One token -/

theorem Took.push {span : Span} (all : AllTaken outer tokens)
    (inside : ∀ o ∈ outer.head?, o.inTag = false) (shallow : nesting outer ≤ Limit.nesting)
    (pushed : push { opened := outer, deepest := nesting outer } name span = .ok r') :
    Took r' (tokens ++ [⟨.openTag name, span⟩]) := by
  unfold DocumentReader.push at pushed
  dsimp only at pushed
  split at pushed
  · cases pushed
  · next room =>
    cases pushed
    have deeper : max (nesting outer) (outer.length + 1) =
        nesting ({ name, span } :: outer) := Nat.max_comm _ _
    rw [deeper]
    refine .inside (.cons (.opened name span) all inside) ?_
    exact deeper ▸ Nat.max_le.2 ⟨shallow, Nat.le_of_not_gt room⟩

theorem Took.finish {closing : Span} (all : AllTaken outer before)
    (inside : ∀ o ∈ outer.head?, o.inTag = false) (element : IsElement tokens (o.close closing))
    (shallow : nesting (o :: outer) ≤ Limit.nesting) :
    Took (({ opened := o :: outer, deepest := nesting (o :: outer) } : DocumentReader).finish outer
      (o.close closing)) (before ++ tokens) := by
  have depth := depth_close o closing
  cases all with
  | nil =>
    have whole : nesting [o] = (o.close closing).depth := by
      rw [depth, nesting, nesting, Nat.max_zero, List.length_nil, Nat.zero_add]
    rw [whole] at shallow ⊢
    exact .whole element shallow
  | @cons o' outer before tokens' inner around further =>
    have deepest : nesting (o :: o' :: outer) =
        nesting ({ o' with children := .element (o.close closing) :: o'.children } :: outer) := by
      simp only [nesting, Element.depths, Element.depthOfContent, depth, List.length_cons]
      omega
    rw [deepest] at shallow ⊢
    have inner := inner.more (inside o' rfl) (.child element)
    rw [List.append_assoc]
    exact .inside (.cons inner around further) shallow

theorem Took.stepTag (taken : o.Taken tokens) (around : AllTaken outer before)
    (inside : ∀ o ∈ outer.head?, o.inTag = false) (inTag : o.inTag = true)
    (shallow : nesting (o :: outer) ≤ Limit.nesting)
    (stepped : DocumentReader.stepTag { opened := o :: outer, deepest := nesting (o :: outer) }
      o outer t = .ok r') : Took r' (before ++ tokens ++ [t]) := by
  rw [List.append_assoc]
  obtain ⟨value, span⟩ := t
  unfold DocumentReader.stepTag at stepped
  split at stepped
  · next name value same =>
    obtain rfl : _ = Token.attr name value := same
    split at stepped
    · cases stepped
    · next fresh =>
      split at stepped
      · cases stepped
      · next few =>
        cases stepped
        exact .inside (.cons (taken.attribute (a := ⟨name, value, span⟩) inTag fresh
          (Nat.lt_of_not_ge few)) around inside) shallow
  · next same =>
    obtain rfl : _ = Token.closeEmpty := same
    cases stepped
    exact .finish around inside (taken.close_empty inTag span) shallow
  · next same =>
    obtain rfl : _ = Token.closeTag := same
    cases stepped
    exact .inside (.cons (taken.inside inTag span) around inside) shallow
  · cases stepped
  · cases stepped

theorem Took.characterData {content : String} (taken : o.Taken tokens)
    (around : AllTaken outer before) (inside : ∀ o ∈ outer.head?, o.inTag = false)
    (inContent : o.inTag = false) (shallow : nesting (o :: outer) ≤ Limit.nesting)
    (data : t.value.characterData? = some content)
    (stepped : (if Text.isBlankText content then
        .ok { opened := o :: outer, deepest := nesting (o :: outer) }
      else .ok { opened := { o with children := .text content t.span :: o.children } :: outer,
                 deepest := nesting (o :: outer) } : Except DocumentError DocumentReader) =
        .ok r') :
    Took r' (before ++ (tokens ++ [t])) := by
  split at stepped
  · next white =>
    cases stepped
    exact .inside (.cons (taken.more inContent (.blank data white .nil)) around inside) shallow
  · next kept =>
    cases stepped
    have longer := taken.more inContent (.text data kept .nil)
    have same : nesting (o :: outer) =
        nesting ({ o with children := .text content t.span :: o.children } :: outer) := by
      rw [nesting, nesting, Element.depths, Element.depthOfContent, Nat.zero_max]
    rw [same] at shallow ⊢
    exact .inside (.cons longer around inside) shallow

theorem Took.stepContent (taken : o.Taken tokens) (around : AllTaken outer before)
    (inside : ∀ o ∈ outer.head?, o.inTag = false) (inContent : o.inTag = false)
    (shallow : nesting (o :: outer) ≤ Limit.nesting)
    (stepped : DocumentReader.stepContent { opened := o :: outer, deepest := nesting (o :: outer) }
      o outer t = .ok r') : Took r' (before ++ tokens ++ [t]) := by
  rw [List.append_assoc]
  obtain ⟨value, span⟩ := t
  unfold DocumentReader.stepContent at stepped
  split at stepped
  · next name same =>
    obtain rfl : _ = Token.openTag name := same
    rw [← List.append_assoc]
    exact .push (.cons taken around inside) (by simpa using inContent) shallow stepped
  · next content same =>
    obtain rfl : _ = Token.text content := same
    exact .characterData taken around inside inContent shallow rfl stepped
  · next content same =>
    obtain rfl : _ = Token.cdata content := same
    exact .characterData taken around inside inContent shallow rfl stepped
  · next name same =>
    obtain rfl : _ = Token.endTag name := same
    split at stepped
    · next matching =>
      cases stepped
      rw [matching]
      exact .finish around inside (taken.close inContent span) shallow
    · cases stepped
  · cases stepped
  · cases stepped

theorem Took.step (took : Took r tokens) (stepped : r.step t = .ok r') :
    Took r' (tokens ++ [t]) := by
  cases took with
  | whole =>
    obtain ⟨value, span⟩ := t
    cases value <;> simp [DocumentReader.step, stepOutside] at stepped
  | inside all shallow =>
    cases all with
    | nil =>
      obtain ⟨value, span⟩ := t
      unfold DocumentReader.step stepOutside at stepped
      dsimp only at stepped
      split at stepped
      · exact .push .nil nofun shallow stepped
      · cases stepped
      · cases stepped
      · cases stepped
    | @cons o outer before tokens taken around inside =>
      unfold DocumentReader.step at stepped
      dsimp only at stepped
      split at stepped
      · next inTag => exact .stepTag taken around inside inTag shallow stepped
      · next inContent =>
        exact .stepContent taken around inside (Bool.eq_false_iff.2 inContent) shallow stepped

/-! ## Runs -/

theorem ne_endOfInput (goesOn : ¬(t.value = .endOfInput ∧ r.opened.isEmpty))
    (stepped : r.step t = .ok r') : t.value ≠ .endOfInput := by
  intro ending
  unfold DocumentReader.step at stepped
  split at stepped
  · next unopened => exact goesOn ⟨ending, by rw [unopened]; rfl⟩
  · split at stepped
    · simp [DocumentReader.stepTag, ending] at stepped
    · simp [DocumentReader.stepContent, ending] at stepped

theorem Took.run {ts : List SpannedToken} {depth : Nat} (took : Took r tokens)
    (read : r.run ts = (.ok e, depth)) :
    IsElement (tokens ++ ts.takeWhile fun t => t.value ≠ .endOfInput) e ∧
      e.depth ≤ Limit.nesting ∧ depth = e.depth := by
  have ended : ∀ {r tokens}, Took r tokens → (r.result, r.deepest) = (.ok e, depth) →
      IsElement tokens e ∧ e.depth ≤ Limit.nesting ∧ depth = e.depth := by
    intro r tokens took same
    cases took with
    | inside all => cases all <;> cases same
    | whole element shallow =>
      cases same
      exact ⟨element, shallow, rfl⟩
  induction ts generalizing r tokens with
  | nil =>
    rw [List.takeWhile_nil, List.append_nil]
    exact ended took read
  | cons t ts ih =>
    rw [DocumentReader.run] at read
    split at read
    · next ending =>
      rw [List.takeWhile_cons_of_neg (by simpa using ending.1), List.append_nil]
      exact ended took read
    · next goesOn =>
      split at read
      · cases read
      · next stepped =>
        rw [List.takeWhile_cons_of_pos (by simpa using ne_endOfInput goesOn stepped)]
        have further := ih (took.step stepped) read
        rwa [List.append_assoc] at further

/-! ## Elements are read -/

theorem run_of_step {ts : List SpannedToken} (goesOn : t.value ≠ .endOfInput)
    (stepped : r.step t = .ok r') : r.run (t :: ts) = r'.run ts := by
  rw [DocumentReader.run, if_neg fun ending => goesOn ending.1, stepped]

def Awaits (r : DocumentReader) : Prop :=
  match r.opened with
  | [] => r.root? = none
  | o :: _ => o.inTag = false

def behind (r : DocumentReader) (e : Element) : DocumentReader :=
  { r.finish r.opened e with deepest := max r.deepest (r.opened.length + e.depth) }

/-- Whatever was open besides, an element that is whole leaves what is around it. -/
theorem finish_eq_behind {opened : List OpenElement} {deepest : Nat}
    (same : deepest = max r.deepest (r.opened.length + e.depth)) :
    finish { r with opened, deepest } r.opened e = r.behind e := by
  subst same
  unfold behind finish
  cases r.opened <;> rfl

theorem step_outside (opened : r.opened = []) : r.step t = r.stepOutside t := by
  rw [DocumentReader.step, opened]

theorem step_tag (opened : r.opened = o :: outer) (inTag : o.inTag = true) :
    r.step t = r.stepTag o outer t := by
  rw [DocumentReader.step, opened]
  exact if_pos inTag

theorem step_content (opened : r.opened = o :: outer) (inContent : o.inTag = false) :
    r.step t = r.stepContent o outer t := by
  rw [DocumentReader.step, opened]
  exact if_neg (by simp [inContent])

theorem step_openTag {span : Span} (awaits : r.Awaits)
    (room : r.opened.length + 1 ≤ Limit.nesting) :
    r.step ⟨.openTag name, span⟩ = .ok { r with
      opened := { name, span } :: r.opened
      deepest := max r.deepest (r.opened.length + 1) } := by
  have pushed : r.step ⟨.openTag name, span⟩ = r.push name span := by
    unfold Awaits at awaits
    split at awaits
    · next unopened =>
      rw [step_outside unopened, stepOutside]
      exact if_neg (by simp [awaits])
    · next opened => rw [step_content opened awaits, DocumentReader.stepContent]
  rw [pushed, DocumentReader.push, if_neg (Nat.not_lt.2 room)]

theorem step_endTag {close : Span} (opened : r.opened = o :: outer) (inContent : o.inTag = false)
    (same : name = o.name) :
    r.step ⟨.endTag name, close⟩ = .ok (r.finish outer (o.close close)) := by
  rw [step_content opened inContent]
  exact if_pos same

theorem step_characterData {content : String} (opened : r.opened = o :: outer)
    (inContent : o.inTag = false) (data : t.value.characterData? = some content) :
    r.step t = if Text.isBlankText content then .ok r
      else .ok { r with opened := { o with children := .text content t.span :: o.children }
                                    :: outer } := by
  rw [step_content opened inContent]
  obtain ⟨value, span⟩ := t
  cases value with
  | text | cdata =>
    cases data
    rfl
  | _ => cases data

theorem ne_endOfInput_of_characterData {content : String}
    (data : t.value.characterData? = some content) : t.value ≠ .endOfInput := by
  intro ending
  rw [ending] at data
  cases data

theorem run_attributes (o : OpenElement) (attributes : List Attribute) {further : List Attribute}
    {ts : List SpannedToken} (opened : r.opened = o :: outer) (inTag : o.inTag = true)
    (former : o.attributes = attributes.reverse)
    (proper : Attribute.Proper (attributes ++ further)) :
    r.run (further.map Attribute.token ++ ts) = { r with
      opened := { o with attributes := (attributes ++ further).reverse } :: outer }.run ts := by
  induction further generalizing r o attributes with
  | nil =>
    rw [List.append_nil, ← former]
    obtain ⟨root?, _, deepest⟩ := r
    cases opened
    rfl
  | cons a further ih =>
    have same : attributes ++ a :: further = attributes ++ [a] ++ further := by simp
    have fresh : ¬ o.attributes.any fun b => b.name = a.name := by
      have apart := proper.distinct
      rw [List.map_append, List.nodup_append] at apart
      simpa [former] using fun b inside =>
        apart.2.2 _ (List.mem_map_of_mem inside) a.name List.mem_cons_self
    have few : ¬ o.attributes.length ≥ Limit.attributes := by
      have room := proper.few
      rw [List.length_append, List.length_cons] at room
      rw [former, List.length_reverse]
      omega
    have stepped : r.step a.token = .ok { r with
        opened := { o with attributes := a :: o.attributes } :: outer } := by
      rw [step_tag opened inTag, DocumentReader.stepTag]
      exact (if_neg fresh).trans (if_neg few)
    rw [same] at proper ⊢
    rw [List.map_cons, List.cons_append, run_of_step (by simp [Attribute.token]) stepped]
    exact ih { o with attributes := a :: o.attributes } _ rfl inTag (by simp [former]) proper

theorem run_tagTokens {attributes : List Attribute} {span : Span} {ts : List SpannedToken}
    (awaits : r.Awaits) (room : r.opened.length + 1 ≤ Limit.nesting)
    (proper : Attribute.Proper attributes) :
    r.run (tagTokens name span attributes ++ ts) = { r with
      opened := { name, span, attributes := attributes.reverse } :: r.opened
      deepest := max r.deepest (r.opened.length + 1) }.run ts := by
  rw [tagTokens, List.cons_append, run_of_step (by simp) (step_openTag awaits room)]
  exact run_attributes { name, span } [] rfl rfl rfl proper

mutual

theorem run_element {ts tokens : List SpannedToken} {e : Element} {r : DocumentReader} :
    IsElement tokens e → r.Awaits → r.opened.length + e.depth ≤ Limit.nesting →
      r.run (tokens ++ ts) = (r.behind e).run ts
  | .empty proper, awaits, shallow => by
    rw [Element.depth] at shallow
    rw [List.append_assoc, run_tagTokens awaits (by omega) proper, List.singleton_append,
      run_of_step (by simp) (step_tag rfl rfl)]
    refine congrArg (·.run ts) ((finish_eq_behind ?_).trans ?_)
    · rw [depth_close, Element.depths]
    · rw [OpenElement.close, List.reverse_reverse]
      rfl
  | @IsElement.full name span _ _ attributes _ children proper content, awaits, shallow => by
    rw [Element.depth] at shallow
    let o : OpenElement := { name, span, inTag := false, attributes := attributes.reverse }
    let closed : OpenElement := { o with children := children.reverse ++ [] }
    rw [List.append_assoc, List.append_assoc, run_tagTokens awaits (by omega) proper,
      List.cons_append, run_of_step (by simp) (step_tag rfl rfl),
      run_content o content rfl (Nat.le_max_right _ _) (by omega), List.singleton_append,
      run_of_step (by simp) (@step_endTag _ closed _ name _ rfl rfl rfl)]
    have inner : closed.children = children.reverse := List.append_nil _
    have tag : closed.attributes.reverse = attributes := List.reverse_reverse _
    refine congrArg (·.run ts) ((finish_eq_behind ?_).trans ?_)
    · rw [depth_close, inner, Element.depths_reverse]
      omega
    · rw [OpenElement.close, inner, tag, List.reverse_reverse]

theorem run_content {ts tokens : List SpannedToken} {children : List Content}
    {root? : Option Element} {outer : List OpenElement} {deepest : Nat} (o : OpenElement) :
    IsContent tokens children → o.inTag = false → outer.length + 1 ≤ deepest →
      outer.length + 1 + Element.depths children ≤ Limit.nesting →
      ({ root?, opened := o :: outer, deepest } : DocumentReader).run (tokens ++ ts) =
        ({ root?
           opened := { o with children := children.reverse ++ o.children } :: outer
           deepest := max deepest (outer.length + 1 + Element.depths children) } :
          DocumentReader).run ts
  | .nil, inContent, below, shallow => by
    rw [Element.depths, Nat.add_zero, Nat.max_eq_left below]
    rfl
  | @IsContent.element _ _ e children first others, inContent, below, shallow => by
    rw [Element.depths, Element.depthOfContent] at shallow
    have awaits : Awaits { root?, opened := o :: outer, deepest } := inContent
    have room : (o :: outer).length + e.depth ≤ Limit.nesting := by
      rw [List.length_cons]
      omega
    rw [List.append_assoc, run_element first awaits room]
    refine (run_content { o with children := .element e :: o.children } others inContent
      (Nat.le_trans below (Nat.le_max_left _ _)) (by omega)).trans ?_
    refine congrArg₂ (fun opened deepest => DocumentReader.run ⟨root?, opened, deepest⟩ ts) ?_ ?_
    · rw [List.reverse_cons, List.append_assoc]
      rfl
    · rw [Element.depths, Element.depthOfContent, List.length_cons]
      omega
  | @IsContent.text t content _ children data kept others, inContent, below, shallow => by
    rw [Element.depths, Element.depthOfContent, Nat.zero_max] at shallow ⊢
    rw [List.cons_append, run_of_step (ne_endOfInput_of_characterData data)
      ((step_characterData rfl inContent data).trans (if_neg kept))]
    refine (run_content { o with children := .text content t.span :: o.children } others inContent
      below shallow).trans ?_
    rw [List.reverse_cons, List.append_assoc]
    rfl
  | .blank data white others, inContent, below, shallow => by
    rw [List.cons_append, run_of_step (ne_endOfInput_of_characterData data)
      ((step_characterData rfl inContent data).trans (if_pos white))]
    exact run_content o others inContent below shallow

end

theorem run_of_root {ts : List SpannedToken} (root : r.root? = some e) (opened : r.opened = [])
    (ending : ∀ t ∈ ts.head?, t.value = .endOfInput) : r.run ts = (.ok e, r.deepest) := by
  have result : r.result = .ok e := by rw [DocumentReader.result, opened, root]
  cases ts with
  | nil => rw [DocumentReader.run, result]
  | cons t ts => rw [DocumentReader.run, if_pos ⟨ending t rfl, by rw [opened]; rfl⟩, result]

end DocumentReader

/-! ## Documents -/

theorem readDocument_ofTokens (tokens : Array SpannedToken) (source? : Option SourceMap) :
    readDocument (.ofTokens tokens source?) =
      ({} : DocumentReader).run (tokens.toList.filter fun t => !t.value.isTrivia) := by
  rw [readDocument, TokenStream.ofTokens, Array.toList_filter]

theorem readDocument_of_isElement {tokens : Array SpannedToken} (source? : Option SourceMap)
    {e : Element} (element : IsElement (beforeEnd tokens) e) (shallow : e.depth ≤ Limit.nesting) :
    readDocument (.ofTokens tokens source?) = (.ok e, e.depth) := by
  rw [readDocument_ofTokens]
  rw [beforeEnd] at element
  generalize (tokens.toList.filter fun t => !t.value.isTrivia) = ts at element ⊢
  let inner : SpannedToken → Bool := fun t => t.value ≠ .endOfInput
  have ending : ∀ t ∈ (ts.dropWhile inner).head?, t.value = .endOfInput := by
    intro t first
    have outside := List.head?_dropWhile_not inner ts
    rw [Option.mem_def.1 first] at outside
    simpa [inner] using outside
  have awaits : ({} : DocumentReader).Awaits := rfl
  have room : ({} : DocumentReader).opened.length + e.depth ≤ Limit.nesting := by
    simpa using shallow
  rw [← @List.takeWhile_append_dropWhile _ inner ts, DocumentReader.run_element element awaits room,
    DocumentReader.run_of_root rfl rfl ending]
  simp [DocumentReader.behind]

/-- A reader comes to an element exactly if the tokens with a meaning, up to the first end of the
input, are those of the element and it is not nested too deep; it tells then how deep it is. From
all other tokens it comes to an error. -/
theorem reads_wellFormed (tokens : Array SpannedToken) (source? : Option SourceMap) :
    (∀ e depth, readDocument (.ofTokens tokens source?) = (.ok e, depth) ↔
      IsElement (beforeEnd tokens) e ∧ e.depth ≤ Limit.nesting ∧ depth = e.depth) ∧
    ((∃ e, IsElement (beforeEnd tokens) e ∧ e.depth ≤ Limit.nesting) ∨
      ∃ error, (readDocument (.ofTokens tokens source?)).1 = .error error) := by
  have sound : ∀ e depth, readDocument (.ofTokens tokens source?) = (.ok e, depth) →
      IsElement (beforeEnd tokens) e ∧ e.depth ≤ Limit.nesting ∧ depth = e.depth := by
    intro e depth read
    rw [readDocument_ofTokens] at read
    exact DocumentReader.Took.run (.inside .nil (Nat.zero_le _)) read
  refine ⟨fun e depth => ⟨sound e depth, ?_⟩, ?_⟩
  · rintro ⟨element, shallow, rfl⟩
    exact readDocument_of_isElement source? element shallow
  · generalize outcome : readDocument (.ofTokens tokens source?) = result at sound
    obtain ⟨answer, depth⟩ := result
    cases answer with
    | error error => exact .inr ⟨error, rfl⟩
    | ok e =>
      obtain ⟨element, shallow, -⟩ := sound e depth rfl
      exact .inl ⟨e, element, shallow⟩

end Barrage.Markup
