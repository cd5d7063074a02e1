import Barrage.Proofs.Markup.Pieces
import Barrage.Proofs.Markup.WellFormed
import Barrage.Proofs.Source.Snippets

/-!
Snippets of document errors. An error applies to the span of a token. A token of a start tag does
not begin with a carriage return, and any other token begins at a tag or directly behind one, so
what is left out at the end of a line is never in front of a token. So the line is shown up to the
token and the carets begin below it.
-/

set_option autoImplicit false

namespace Barrage.Markup

/-! ## Where errors are -/

namespace DocumentReader

variable {P : Span → Prop} {r : DocumentReader} {t : SpannedToken} {name : String} {span : Span}

/-- Open elements have begun at certain spans, and so does what an error applies to. -/
def Sited (P : Span → Prop) : Except DocumentError DocumentReader → Prop
  | .ok r => ∀ o ∈ r.opened, P o.span
  | .error e => ∀ s ∈ e.span?, P s

theorem Sited.error {e : DocumentError} (applies : e.span? = some span) (good : P span) :
    Sited P (.error e) := by
  rintro s member
  rw [applies] at member
  exact Option.some.inj member ▸ good

theorem sited_push (opened : ∀ o ∈ r.opened, P o.span) (here : P span) :
    Sited P (r.push name span) := by
  unfold push
  dsimp only
  split
  · exact .error rfl here
  · exact List.forall_mem_cons.2 ⟨here, opened⟩

theorem sited_finish {outer : List OpenElement} (e : Element)
    (opened : ∀ o ∈ outer, P o.span) : Sited P (.ok (r.finish outer e)) := by
  cases outer with
  | nil => exact List.forall_mem_nil _
  | cons o outer => exact List.forall_mem_cons.2 (List.forall_mem_cons.1 opened)

theorem sited_stepOutside (opened : r.opened = []) (here : P t.span) :
    Sited P (r.stepOutside t) := by
  unfold stepOutside
  split
  · split
    · exact .error rfl here
    · exact sited_push (by simp [opened]) here
  · exact .error rfl here
  · exact .error rfl here
  · exact .error rfl here

theorem sited_stepTag {o : OpenElement} {outer : List OpenElement}
    (opened : ∀ u ∈ o :: outer, P u.span) (here : t.value ≠ .endOfInput → P t.span) :
    Sited P (r.stepTag o outer t) := by
  obtain ⟨inner, around⟩ := List.forall_mem_cons.1 opened
  unfold stepTag
  split
  · next same =>
    replace here := here (by simp [same])
    split
    · exact .error rfl here
    split
    · exact .error rfl here
    · exact List.forall_mem_cons.2 ⟨inner, around⟩
  · exact sited_finish _ around
  · exact List.forall_mem_cons.2 ⟨inner, around⟩
  · exact .error rfl inner
  · next other => exact .error rfl (here other)

theorem sited_stepContent {o : OpenElement} {outer : List OpenElement}
    (former : r.opened = o :: outer) (opened : ∀ u ∈ r.opened, P u.span)
    (here : t.value ≠ .endOfInput → P t.span) : Sited P (r.stepContent o outer t) := by
  obtain ⟨inner, around⟩ := List.forall_mem_cons.1 (former ▸ opened)
  unfold stepContent
  split
  · next same => exact sited_push opened (here (by simp [same]))
  · split
    · exact opened
    · exact List.forall_mem_cons.2 ⟨inner, around⟩
  · split
    · exact opened
    · exact List.forall_mem_cons.2 ⟨inner, around⟩
  · next same =>
    split
    · exact sited_finish _ around
    · exact .error rfl (here (by simp [same]))
  · exact .error rfl inner
  · next other => exact .error rfl (here other)

theorem sited_step (opened : ∀ o ∈ r.opened, P o.span)
    (goesOn : ¬ (t.value = .endOfInput ∧ r.opened.isEmpty))
    (here : t.value ≠ .endOfInput → P t.span) : Sited P (r.step t) := by
  unfold step
  split
  · next former =>
    refine sited_stepOutside former (here fun ended => goesOn ⟨ended, ?_⟩)
    rw [former]
    rfl
  · next o outer former =>
    split
    · exact sited_stepTag (former ▸ opened) here
    · exact sited_stepContent former opened here

theorem sited_run {ts : List SpannedToken} {e : DocumentError} {depth : Nat}
    (opened : ∀ o ∈ r.opened, P o.span) (ahead : ∀ t ∈ ts, t.value ≠ .endOfInput → P t.span)
    (failed : r.run ts = (.error e, depth)) : ∀ s ∈ e.span?, P s := by
  have ended : ∀ {r : DocumentReader}, (∀ o ∈ r.opened, P o.span) →
      r.result = .error e → ∀ s ∈ e.span?, P s := by
    intro r opened failed
    unfold result at failed
    split at failed
    · next o _ former =>
      cases failed
      rintro _ ⟨⟩
      exact opened o (by simp [former])
    · split at failed
      · cases failed
      · cases failed
        nofun
  induction ts generalizing r with
  | nil => exact ended opened (congrArg Prod.fst failed)
  | cons t ts ih =>
    rw [run] at failed
    split at failed
    · exact ended opened (congrArg Prod.fst failed)
    · next goesOn =>
      have sited := sited_step opened goesOn (ahead t List.mem_cons_self)
      split at failed
      · next e' stepped =>
        rw [stepped] at sited
        cases failed
        exact sited
      · next r' stepped =>
        rw [stepped] at sited
        exact ih sited (fun t member => ahead t (List.mem_cons_of_mem _ member)) failed

end DocumentReader

/-! ## Where tokens begin -/

theorem NameAhead.not_lineEnd {name : String} {cs : List Char} (ahead : NameAhead name cs) :
    ∃ c ∈ cs.head?, c ≠ '\r' ∧ c ≠ '\n' := by
  obtain ⟨c, rest, rfl, start⟩ := ahead.uncons
  refine ⟨c, rfl, ?_, ?_⟩ <;> rintro rfl <;> exact absurd start (by decide)

theorem Token.Spells.not_lineEnd {t : Token} {cs : List Char} (spelled : t.Spells cs)
    (inTag : t.standsInTag) : ∃ c ∈ cs.head?, c ≠ '\r' ∧ c ≠ '\n' := by
  cases t with
  | attr name value =>
    obtain ⟨spelled⟩ := spelled
    exact spelled.ahead.not_lineEnd
  | closeTag => exact ⟨'>', by rw [show cs = ['>'] from spelled]; rfl, by decide, by decide⟩
  | closeEmpty => exact ⟨'/', by rw [show cs = ['/', '>'] from spelled]; rfl, by decide, by decide⟩
  | _ => cases inTag

theorem Token.Spells.getLast? {t : Token} {cs : List Char} (spelled : t.Spells cs)
    (closed : t.keepsTagOpen = false) (inside : t ≠ .endOfInput)
    (markup : ∀ content, t ≠ .text content) : cs.getLast? = some '>' := by
  cases t with
  | openTag | attr => cases closed
  | text content => exact absurd rfl (markup content)
  | endOfInput => exact absurd rfl inside
  | endTag =>
    obtain ⟨blanks, -, rfl, -⟩ := spelled
    simp [List.getLast?_cons]
  | _ =>
    simp only [Spells, Token.markup] at spelled
    rw [spelled]
    simp [List.getLast?_cons]

namespace Laid

variable {inTag inTag' : Bool} {p : Position} {cs : List Char} {tokens : List SpannedToken}

theorem last (laid : Laid inTag p cs tokens inTag') {t : SpannedToken}
    (last : tokens.getLast? = some t) :
    ∃ front spelling, cs = front ++ spelling ∧ t.value.Spells spelling ∧
      t.value.keepsTagOpen = inTag' := by
  induction laid with
  | nil => cases last
  | @cons _ _ p t' gap spelling cs tokens blank tight place spelled further ih =>
    cases tokens with
    | nil =>
      cases last
      cases further
      exact ⟨gap, spelling, by simp, spelled, rfl⟩
    | cons u tokens =>
      obtain ⟨front, spelling', rfl, rest⟩ := ih (by rwa [List.getLast?_cons_cons] at last)
      exact ⟨gap ++ (spelling ++ front), spelling', by simp, rest⟩

end Laid

namespace Lexer

variable {source : List Char} {c c' next : Cursor} {tokens tokens' : Array SpannedToken}

/-- A token may begin at a cursor, if anything is left. -/
structure ClearAhead (source : List Char) (c : Cursor) : Prop where
  on : c.On source
  clear : c.rest ≠ [] → c.pos.Clear source

theorem readText_next (read : (readText tokens c).next = .ok next) :
    next.rest = [] ∨ next.rest.head? = some '<' := by
  unfold readText at read
  dsimp only at read
  split at read
  · cases read
  split at read
  · cases read
  · cases read
    have outside := List.head?_dropWhile_not (· ≠ '<') c.rest
    cases first : (c.rest.dropWhile (· ≠ '<')).head? with
    | none => exact .inl (List.head?_eq_none_iff.1 first)
    | some x =>
      rw [first] at outside
      exact .inr (first.trans (congrArg some (by simpa using outside)))

theorem readConstruct_text (plain : c.rest.head? ≠ some '<') :
    readConstruct tokens c = readText tokens c := by
  unfold readConstruct
  cases same : c.rest with
  | nil => rfl
  | cons x rest =>
    have other : x ≠ '<' := fun tag => plain (by rw [same, tag]; rfl)
    have unopened : ∀ opening : List Char, ¬ ('<' :: opening).isPrefixOf (x :: rest) :=
      fun opening => by simp [List.isPrefixOf, Ne.symm other]
    rw [commentOpening, cdataOpening, doctypeOpening, if_neg (unopened _), if_neg (unopened _),
      if_neg (unopened _)]
    simp [other]

theorem readConstruct_ends {taken : List Char} {new : List SpannedToken}
    (read : (readConstruct tokens c).next = .ok next) (moves : c.Moves taken next)
    (laid : Laid false c.pos taken new false) (one : OneConstruct new) :
    next.rest = [] ∨ next.rest.head? = some '<' ∨ taken.getLast? = some '>' := by
  by_cases tag : c.rest.head? = some '<'
  · obtain ⟨t, last⟩ : ∃ t, new.getLast? = some t := by
      obtain ⟨first, others, rfl, -⟩ := one
      exact ⟨_, List.getLast?_cons⟩
    have inside := one.ne_endOfInput (List.mem_of_getLast? last)
    have markup : ∀ content, t.value ≠ .text content := by
      intro content text
      obtain ⟨first, others, rfl, -, -, inTag⟩ := one
      cases others with
      | nil =>
        obtain rfl : first = t := Option.some.inj last
        cases laid with
        | cons _ tight _ spelled _ =>
          -- a text has no tag in front
          dsimp only at text
          rw [text] at spelled
          obtain ⟨nonempty, plain, -⟩ := spelled
          rw [moves.rest, tight rfl, List.nil_append, List.append_assoc] at tag
          obtain ⟨x, rest, rfl⟩ := List.exists_cons_of_ne_nil nonempty
          cases tag
          exact plain List.mem_cons_self
      | cons u others =>
        rw [List.getLast?_cons_cons] at last
        have stands := inTag t (List.mem_of_getLast? last)
        rw [text] at stands
        cases stands
    obtain ⟨front, spelling, rfl, spelled, closed⟩ := laid.last last
    refine .inr (.inr ?_)
    rw [List.getLast?_append, spelled.getLast? closed inside markup]
    rfl
  · rw [readConstruct_text tag] at read
    exact (readText_next read).imp_right .inl

theorem clear_construct (ahead : ClearAhead source c) (left : c.rest ≠ [])
    (read : (readConstruct tokens c).next = .ok next)
    (before : ∀ t ∈ tokens, t.span.start.Clear source) :
    (∀ t ∈ (readConstruct tokens c).tokens, t.span.start.Clear source) ∧
      ClearAhead source next := by
  obtain ⟨taken, new, moves, same, laid⟩ := reads_construct tokens left next read
  obtain ⟨new', same', one⟩ := readConstruct_adds tokens c next read
  obtain rfl : new = new' := List.append_cancel_left (same.symm.trans same')
  obtain ⟨above, whole, place⟩ := ahead.on
  constructor
  · intro t member
    rw [← Array.mem_toList_iff, same, List.mem_append] at member
    rcases member with member | member
    · exact before t (Array.mem_toList_iff.1 member)
    obtain ⟨front, spelling, behind, split, span, spelled⟩ := laid.spelling_of_mem member
    obtain ⟨first, others, rfl, -, -, inTag⟩ := one
    rcases List.mem_cons.1 member with rfl | member
    · cases laid with
      | cons _ tight _ _ _ =>
        rw [tight rfl]
        exact ahead.clear left
    · obtain ⟨x, begins, other⟩ := spelled.not_lineEnd (inTag t member)
      refine ⟨above ++ front, spelling ++ (behind ++ next.rest), ?_, ?_, ?_, .inr ⟨x, ?_, other⟩⟩
      · rw [whole, moves.rest, split]
        simp only [List.append_assoc]
      · rintro nothing
        rw [(List.append_eq_nil_iff.1 nothing).1] at begins
        cases begins
      · rw [span, place, ← Position.advanceAll_append]
      · rw [List.head?_append, Option.mem_def.1 begins]
        rfl
  · refine ⟨ahead.on.moves moves, fun left => ⟨above ++ taken, next.rest, ?_, left, ?_, ?_⟩⟩
    · rw [whole, moves.rest, List.append_assoc]
    · rw [moves.pos, place, Position.advanceAll_append]
    · obtain ended | tag | ends := readConstruct_ends read moves laid one
      · exact absurd ended left
      · exact .inr ⟨'<', tag, by decide, by decide⟩
      · refine .inl ?_
        rw [List.getLast?_append, ends]
        exact fun same => absurd (Option.some.inj same) (by decide)

theorem Run.clear (run : Run tokens c tokens' c') (ahead : ClearAhead source c)
    (before : ∀ t ∈ tokens, t.span.start.Clear source) :
    ∀ t ∈ tokens', t.span.start.Clear source := by
  induction run with
  | done => exact before
  | construct left _ read _ ih =>
    obtain ⟨inside, ahead⟩ := clear_construct ahead left read before
    exact ih ahead inside

end Lexer

/-! ## Documents -/

def TokenStream.ofSource (source : String) : TokenStream :=
  .ofTokens (Lexing.ofSource source).tokens (some (.ofSource source))

theorem clear_of_error {source : String} (accepted : (Lexing.ofSource source).outcome = .ok ())
    {e : DocumentError} (failed : (readDocument (.ofSource source)).1 = .error e) :
    ∀ span ∈ e.span?, span.start.Clear source.toList := by
  obtain ⟨tokens, c, run, -, all⟩ := Lexer.run_of_readAll accepted
  have ahead : Lexer.ClearAhead source.toList (.ofSource source) :=
    ⟨⟨[], rfl, rfl⟩, fun left => ⟨[], source.toList, rfl, left, rfl, .inl nofun⟩⟩
  have clear := run.clear ahead (by simp)
  rw [TokenStream.ofSource, readDocument_ofTokens] at failed
  refine DocumentReader.sited_run (P := fun s => s.start.Clear source.toList)
    (List.forall_mem_nil _) ?_ (Prod.ext failed rfl)
  intro t member inside
  have member := (List.mem_filter.1 member).1
  rw [show (Lexing.ofSource source).tokens = _ from all, Array.toList_push,
    List.mem_append, Array.mem_toList_iff] at member
  rcases member with member | member
  · exact clear t member
  · rw [List.mem_singleton.1 member] at inside
    exact absurd rfl inside

/-! ## Very many lines -/

theorem line?_first {line rest : List Char} (plain : '\n' ∉ line)
    (bare : line.getLast? ≠ some '\r') :
    (SourceMap.ofSource (String.ofList (line ++ '\n' :: rest))).line? 1 = some line := by
  have isLine : Text.IsLine (line ++ '\n' :: rest) [] (line ++ []) ('\n' :: rest) :=
    ⟨by simp, .inl rfl, .inr rfl, by simpa using plain⟩
  have on : Position.OnLine (String.ofList (line ++ '\n' :: rest)) .start [] line :=
    ⟨⟨[], [], _, by rwa [String.toList_ofList], List.forall_mem_nil _, rfl⟩, bare,
      List.nil_prefix⟩
  exact on.line?_eq (by decide)

theorem Lexer.readConstruct_cdata {content : List Char} (plain : ']' ∉ content)
    (small : Text.byteLength content ≤ Limit.text) (tokens : Array SpannedToken) (p : Position)
    (behind : List Char) :
    readConstruct tokens ⟨cdataOpening ++ (content ++ ([']', ']', '>'] ++ behind)), p⟩ =
      emit tokens (.cdata (String.ofList content)) p
        ⟨behind, p.advanceAll (cdataOpening ++ (content ++ [']', ']', '>']))⟩ := by
  have opened : readConstruct tokens ⟨cdataOpening ++ (content ++ ([']', ']', '>'] ++ behind)), p⟩ =
      readCdata tokens ⟨cdataOpening ++ (content ++ ([']', ']', '>'] ++ behind)), p⟩ := rfl
  rw [opened, readCdata]
  exact readVerbatim_spelled plain (if_neg (Nat.not_lt.2 small))

def twoLines : List Char := Lexer.cdataOpening ++ (['\n'] ++ ([']', ']', '>'] ++ []))

/-- A declaration with line feeds, and behind it a construct outside of any element. -/
def wrapped (feeds : Nat) : String := declared (List.replicate feeds '\n' ++ ['a']) twoLines

section Wrapped

variable {feeds : Nat} (again : ((feeds + 1 : Nat) : UInt32) = 1) (more : 0 < feeds)

include more in
theorem render?_wrapped (offset : Nat) (stop : Position) (later : stop.line ≠ 1)
    (message : String) :
    (SourceMap.ofSource (wrapped feeds)).render? ⟨⟨offset, 1, 4⟩, stop⟩ message = none := by
  obtain ⟨feeds, rfl⟩ := Nat.exists_eq_succ_of_ne_zero (Nat.ne_of_gt more)
  have first : (SourceMap.ofSource (wrapped (feeds + 1))).line? (1 : UInt32).toNat =
      some ['<', '?'] := line?_first (by decide) (by decide)
  have short : SourceMap.underline? ⟨⟨offset, 1, 4⟩, stop⟩ ['<', '?'] = none :=
    (if_neg later.symm).trans (if_neg (by decide : ¬(4 : UInt32).toNat ≤ 2 + 1))
  rw [SourceMap.render?, first]
  dsimp only
  rw [short]
  rfl

include again more

theorem readConstruct_wrapped : ∃ offset, Lexer.readConstruct #[] (.ofSource (wrapped feeds)) =
    Lexer.emit #[] (.declaration (String.ofList (List.replicate feeds '\n' ++ ['a']))) .start
      ⟨twoLines, ⟨offset, 1, 4⟩⟩ := by
  let above := ['<', '?'] ++ List.replicate feeds '\n'
  have ends : above.getLast? = some '\n' := by
    rw [List.getLast?_append, List.getLast?_replicate, if_neg (Nat.ne_of_gt more)]
    rfl
  have count : above.count '\n' = feeds := by
    rw [List.count_append, List.count_replicate_self]
    exact Nat.zero_add feeds
  have place := Position.start_advanceAll_line (.inr ends) (by decide : '\n' ∉ ['a', '?', '>'])
  rw [count, again] at place
  have plain : '?' ∉ List.replicate feeds '\n' ++ ['a'] := by simp [List.mem_replicate]
  have whole : ['<', '?'] ++ (List.replicate feeds '\n' ++ ['a'] ++ ['?', '>']) =
      above ++ ['a', '?', '>'] := by simp [above]
  have read := Lexer.readConstruct_declared plain twoLines
  rw [whole, place] at read
  exact ⟨_, read⟩

theorem lexing_wrapped : ∃ content place offset, Lexing.ofSource (wrapped feeds) =
    ⟨#[⟨.declaration content, place⟩, ⟨.cdata "\n", ⟨⟨offset, 1, 4⟩, ⟨offset + 13, 2, 4⟩⟩⟩,
      ⟨.endOfInput, Span.point ⟨offset + 13, 2, 4⟩⟩], .ok ()⟩ := by
  obtain ⟨offset, declaration⟩ := readConstruct_wrapped again more
  let tokens := (Lexer.readConstruct #[] (.ofSource (wrapped feeds))).tokens
  have room : tokens.size < Limit.tokens := by
    change (Lexer.readConstruct _ _).tokens.size < _
    rw [declaration]
    exact (by decide : 1 < Limit.tokens)
  have cdata : Lexer.readConstruct tokens ⟨twoLines, ⟨offset, 1, 4⟩⟩ =
      Lexer.emit tokens (.cdata "\n") ⟨offset, 1, 4⟩ ⟨[], ⟨offset + 13, 2, 4⟩⟩ :=
    Lexer.readConstruct_cdata (by decide) (by decide) tokens ⟨offset, 1, 4⟩ []
  have run := Lexer.Run.construct (by simp [Cursor.ofSource, wrapped, declared]) (by decide)
    (congrArg Lexer.Found.next declaration)
    (.construct (List.cons_ne_nil _ _) room (congrArg Lexer.Found.next cdata) .done)
  have all := run.readAll_eq rfl
  rw [cdata] at all
  change _ = ((Lexer.emit (Lexer.readConstruct _ _).tokens _ _ _).tokens.push _, _) at all
  rw [declaration] at all
  exact ⟨_, _, offset, by rw [Lexing.ofSource, all]; rfl⟩

theorem not_shown_of_wraps : (Lexing.ofSource (wrapped feeds)).outcome = .ok () ∧
    ∃ e span, (readDocument (.ofSource (wrapped feeds))).1 = .error e ∧ e.span? = some span ∧
      ∀ message, (TokenStream.ofSource (wrapped feeds)).renderError? span message = none := by
  obtain ⟨content, place, offset, lexing⟩ := lexing_wrapped again more
  refine ⟨by rw [lexing], .textOutsideRoot ⟨⟨offset, 1, 4⟩, ⟨offset + 13, 2, 4⟩⟩, _, ?_, rfl, ?_⟩
  · rw [TokenStream.ofSource, lexing, readDocument_ofTokens]
    rfl
  · exact render?_wrapped more offset _ (by decide : (2 : UInt32) ≠ 1)

end Wrapped

/-! ## Errors -/

/-- In a source of fewer than `2 ^ 32` bytes, an error of a document that applies to a span is
shown: the line that the span begins on, and below it at least one caret, from the column of the
beginning on. -/
theorem errors_underlined (source : String) (short : source.utf8ByteSize < UInt32.size)
    (accepted : (Lexing.ofSource source).outcome = .ok ()) {e : DocumentError}
    (failed : (readDocument (.ofSource source)).1 = .error e) {span : Span}
    (applies : e.span? = some span) (message : String) :
    ∃ before line carets, span.start.OnLine source before line ∧
      (span.start.column : Nat) = before.length + 1 ∧ 0 < carets ∧
      (TokenStream.ofSource source).renderError? span message =
        some (SourceMap.snippet message span.start line before.length carets) := by
  have clear := clear_of_error accepted failed span applies
  have fits : span.start.offset + 1 < UInt32.size := Nat.lt_of_le_of_lt clear.offset_lt short
  obtain ⟨before, line, on⟩ := clear.exists_onLine
  obtain ⟨carets, positive, rendered⟩ := SourceMap.render?_eq on fits message
  exact ⟨before, line, carets, on, on.column fits, positive, rendered⟩

def trailing : String := "<é/>\r\r\n x\r\n"

theorem errors_underlined_trailing : (Lexing.ofSource trailing).outcome = .ok () ∧
    ∃ e span, (readDocument (.ofSource trailing)).1 = .error e ∧ e.span? = some span ∧
      span = ⟨⟨5, 1, 5⟩, ⟨12, 3, 1⟩⟩ ∧
      ∃ before line carets, span.start.OnLine trailing before line ∧
        (span.start.column : Nat) = before.length + 1 ∧ 0 < carets ∧
        (TokenStream.ofSource trailing).renderError? span e.message =
          some (SourceMap.snippet e.message span.start line before.length carets) := by
  have accepted : (Lexing.ofSource trailing).outcome = .ok () := by decide +kernel
  let span : Span := ⟨⟨5, 1, 5⟩, ⟨12, 3, 1⟩⟩
  have outside : ((readDocument (.ofSource trailing)).1.map fun _ => ()) =
      .error (.textOutsideRoot span) := by
    decide +kernel
  cases failed : (readDocument (.ofSource trailing)).1 with
  | ok _ =>
    rw [failed] at outside
    cases outside
  | error e =>
    rw [failed] at outside
    cases outside
    exact ⟨accepted, _, span, rfl, rfl, rfl,
      errors_underlined trailing (by decide) accepted failed rfl _⟩

/-- Behind `2 ^ 32` line feeds a position says that it is on the first line, which does not have its
column. -/
theorem wrapped_not_shown : (Lexing.ofSource (wrapped UInt32.size)).outcome = .ok () ∧
    ∃ e span, (readDocument (.ofSource (wrapped UInt32.size))).1 = .error e ∧ e.span? = some span ∧
      ∀ message, (TokenStream.ofSource (wrapped UInt32.size)).renderError? span message = none :=
  not_shown_of_wraps (by decide) (by decide)

end Barrage.Markup
