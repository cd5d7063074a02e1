import Barrage.Proofs.Markup.Locality

/-!
Pieces of a text. A text is read one construct after the other; a run of constructs may be
interrupted wherever no tag is open. What lies between two such places is read by itself as it is
read inside the text.
-/

set_option autoImplicit false

namespace Barrage.Markup

namespace Lexer

open Cursor (Cut)

variable {back : List Char} {c c' d : Cursor} {before : List Token}
  {tokens toks : Array SpannedToken}

/-! ## The tokens of one construct -/

/-- The tokens of one construct: one that may stand outside of tags, and those of its tag. -/
def OneConstruct (new : List SpannedToken) : Prop :=
  ∃ first others, new = first :: others ∧ first.value.standsInTag = false ∧
    first.value ≠ .endOfInput ∧ ∀ t ∈ others, t.value.standsInTag

theorem OneConstruct.single {t : SpannedToken} (outside : t.value.standsInTag = false)
    (inside : t.value ≠ .endOfInput) : OneConstruct [t] :=
  ⟨t, [], rfl, outside, inside, fun _ member => nomatch member⟩

theorem OneConstruct.ne_endOfInput {new : List SpannedToken} (one : OneConstruct new)
    {t : SpannedToken} (inside : t ∈ new) : t.value ≠ .endOfInput := by
  obtain ⟨first, others, rfl, -, other, inTag⟩ := one
  rcases List.mem_cons.1 inside with rfl | inside
  · exact other
  · intro ending
    have stands := inTag t inside
    rw [ending] at stands
    cases stands

def Adds (tokens : Array SpannedToken) (found : Found) : Prop :=
  ∀ c', found.next = .ok c' → ∃ new, found.tokens.toList = tokens.toList ++ new ∧ OneConstruct new

theorem Adds.failed (error : LexError) : Adds tokens ⟨tokens, .error error⟩ :=
  fun _ read => nomatch read

theorem Adds.emit {t : Token} {p : Position} {next : Cursor} (outside : t.standsInTag = false)
    (inside : t ≠ .endOfInput) : Adds tokens (emit tokens t p next) :=
  fun _ _ => ⟨_, Array.toList_push, .single outside inside⟩

theorem readTagRest_adds (tag : Position) (tokens : Array SpannedToken) (c : Cursor) :
    ∃ others, (readTagRest tag tokens c).tokens.toList = tokens.toList ++ others ∧
      ∀ t ∈ others, t.value.standsInTag := by
  fun_induction readTagRest tag tokens c with
  | case1 tokens c front rest => exact ⟨_, Array.toList_push, by simp [Token.standsInTag]⟩
  | case2 tokens c front rest => exact ⟨_, Array.toList_push, by simp [Token.standsInTag]⟩
  | case3 => exact ⟨[], (List.append_nil _).symm, List.forall_mem_nil _⟩
  | case4 tokens c front t after read _ _ ih =>
    obtain ⟨others, same, inTag⟩ := ih
    obtain ⟨-, -, stands, -⟩ := readAttribute_spells read
    refine ⟨t :: others, ?_, List.forall_mem_cons.2 ⟨stands, inTag⟩⟩
    rw [same, Array.toList_push, List.append_assoc]
    rfl

theorem readVerbatim_adds {construct : Construct} {token : String → Token}
    {check : Position → List Char → Option LexError} {opening delimiter : List Char}
    (outside : ∀ content, (token content).standsInTag = false)
    (inside : ∀ content, token content ≠ .endOfInput) :
    Adds tokens (readVerbatim construct token check opening delimiter tokens c) := by
  unfold readVerbatim
  split
  · exact .failed _
  · split
    · exact .failed _
    · exact .emit (outside _) (inside _)

theorem readConstruct_adds (tokens : Array SpannedToken) (c : Cursor) :
    Adds tokens (readConstruct tokens c) := by
  unfold readConstruct
  split
  · exact readVerbatim_adds (fun _ => rfl) (fun _ => nofun)
  split
  · exact readVerbatim_adds (fun _ => rfl) (fun _ => nofun)
  split
  · unfold readDoctype
    split
    · exact .failed _
    · exact .emit rfl nofun
  split
  · exact readVerbatim_adds (fun _ => rfl) (fun _ => nofun)
  · unfold readEndTag
    split
    · exact .failed _
    · dsimp only
      split
      · exact .emit rfl nofun
      · exact .failed _
      · exact .failed _
  · unfold readStartTag
    split
    · exact .failed _
    · next name afterName named =>
      intro c' read
      let tag : SpannedToken := ⟨.openTag name, ⟨c.pos, afterName.pos⟩⟩
      obtain ⟨others, same, inTag⟩ := readTagRest_adds c.pos (tokens.push tag) afterName
      refine ⟨tag :: others, ?_, tag, others, rfl, rfl, nofun, inTag⟩
      rw [same, Array.toList_push, List.append_assoc]
      rfl
  · unfold readText
    dsimp only
    split
    · exact .failed _
    split
    · exact .failed _
    · exact .emit rfl nofun

/-! ## One construct after the other -/

/-- Constructs that are read one after the other. -/
inductive Run : Array SpannedToken → Cursor → Array SpannedToken → Cursor → Prop where
  | done {tokens : Array SpannedToken} {c : Cursor} : Run tokens c tokens c
  | construct {tokens tokens' : Array SpannedToken} {c next c' : Cursor} (left : c.rest ≠ [])
      (room : tokens.size < Limit.tokens) (read : (readConstruct tokens c).next = .ok next)
      (further : Run (readConstruct tokens c).tokens next tokens' c') : Run tokens c tokens' c'

theorem run_of_readAll (read : (readAll tokens c).2 = .ok ()) :
    ∃ tokens' c', Run tokens c tokens' c' ∧ c'.rest = [] ∧
      (readAll tokens c).1 = tokens'.push ⟨.endOfInput, Span.point c'.pos⟩ := by
  fun_induction readAll tokens c with
  | case1 tokens c ended => exact ⟨tokens, c, .done, ended, rfl⟩
  | case2 => cases read
  | case3 => cases read
  | case4 tokens c left room found next after ih =>
    obtain ⟨tokens', c', run, ended, all⟩ := ih read
    exact ⟨tokens', c', .construct left (Nat.lt_of_not_ge room) after run, ended, all⟩

namespace Run

variable {tokens' : Array SpannedToken} {front part behind : List SpannedToken}

theorem readAll_eq (run : Run tokens c tokens' c') (ended : c'.rest = []) :
    readAll tokens c = (tokens'.push ⟨.endOfInput, Span.point c'.pos⟩, .ok ()) := by
  induction run with
  | done => rw [readAll, dif_pos ended]
  | @construct tokens tokens' c next c' left room read further ih =>
    rw [readAll, dif_neg left, if_neg (Nat.not_le.2 room)]
    dsimp only
    split
    · next failed =>
      rw [read] at failed
      cases failed
    · next after read' =>
      rw [read] at read'
      cases read'
      exact ih ended

theorem length_le (run : Run tokens c tokens' c') : c'.rest.length ≤ c.rest.length := by
  induction run with
  | done => exact Nat.le_refl _
  | construct left _ read _ ih => exact ih.trans (readConstruct_length_lt left read).le

theorem laid (run : Run tokens c tokens' c') : ∃ taken new, c.Moves taken c' ∧
    tokens'.toList = tokens.toList ++ new ∧ Laid false c.pos taken new false ∧
    ∀ t ∈ new, t.value ≠ .endOfInput := by
  induction run with
  | done =>
    exact ⟨[], [], ⟨rfl, rfl⟩, (List.append_nil _).symm, .nil, fun _ member => nomatch member⟩
  | @construct tokens tokens' c next c' left room read further ih =>
    obtain ⟨taken, new, moves, same, laid⟩ := reads_construct tokens left next read
    obtain ⟨new', same', one⟩ := readConstruct_adds tokens c next read
    obtain rfl : new = new' := List.append_cancel_left (same.symm.trans same')
    obtain ⟨taken', more, moves', all, laid', inside⟩ := ih
    rw [moves.pos] at laid'
    refine ⟨taken ++ taken', new ++ more, moves.trans moves', ?_, laid.append laid', ?_⟩
    · rw [all, same, List.append_assoc]
    · intro t member
      exact (List.mem_append.1 member).elim one.ne_endOfInput (inside t)

/-- A run may be interrupted wherever no tag is open. -/
theorem split (run : Run tokens c tokens' c')
    (all : tokens'.toList = tokens.toList ++ (front ++ behind))
    (edge : ∀ t ∈ behind.head?, t.value.standsInTag = false) :
    ∃ mid c₁, mid.toList = tokens.toList ++ front ∧ Run tokens c mid c₁ ∧
      Run mid c₁ tokens' c' := by
  induction run generalizing front with
  | @done tokens c =>
    have bothEmpty := List.append_eq_nil_iff.1 (List.self_eq_append_right.1 all)
    exact ⟨tokens, c, by rw [bothEmpty.1, List.append_nil], .done, .done⟩
  | @construct tokens tokens' c next c' left room read further ih =>
    obtain ⟨new, same, one⟩ := readConstruct_adds tokens c next read
    obtain ⟨_, more, -, laid, -⟩ := further.laid
    rw [laid, same, List.append_assoc, List.append_cancel_left_eq] at all
    -- the place to stop is behind this construct
    have later : ∀ rest, front = new ++ rest → more = rest ++ behind →
        ∃ mid c₁, mid.toList = tokens.toList ++ front ∧ Run tokens c mid c₁ ∧
          Run mid c₁ tokens' c' := by
      rintro rest rfl rfl
      obtain ⟨mid, c₁, same', first, second⟩ := ih laid
      refine ⟨mid, c₁, ?_, .construct left room read first, second⟩
      rw [same', same, List.append_assoc]
    obtain ⟨rest, behindNew, same'⟩ | ⟨rest, within, same'⟩ := List.append_eq_append_iff.1 all
    · exact later rest behindNew same'
    · cases front with
      | nil =>
        exact ⟨tokens, c, (List.append_nil _).symm, .done, .construct left room read further⟩
      | cons t front =>
        cases rest with
        | nil => exact later [] (by simpa using within.symm) same'.symm
        | cons u rest =>
          -- behind the first token of a construct there are only those of its tag
          obtain ⟨first, others, split, -, -, inTag⟩ := one
          rw [split] at within
          have member : u ∈ others := by
            rw [(List.cons.inj within).2]
            simp
          have outside := edge u (by rw [same']; rfl)
          rw [inTag u member] at outside
          cases outside

/-- A run is the same where the text is cut off behind it and other tokens are in front. -/
theorem cut (run : Run tokens c tokens' c') (cut : c.Cut back d)
    (same : values tokens = before ++ values toks) (within : back.length ≤ c'.rest.length) :
    ∃ toks' d', Run toks d toks' d' ∧ c'.Cut back d' ∧
      values tokens' = before ++ values toks' := by
  induction run generalizing d toks with
  | done => exact ⟨toks, d, .done, cut, same⟩
  | @construct tokens tokens' c next c' left room read further ih =>
    have fits := within.trans further.length_le
    obtain ⟨d₁, read', cut₁, same₁⟩ := readConstruct_cut cut same left read fits
    obtain ⟨toks', d', run, cut', same'⟩ := ih cut₁ same₁ within
    have room' : toks.size < Limit.tokens := by
      have sizes := congrArg List.length same
      simp only [values, List.length_append, List.length_map, Array.length_toList] at sizes
      omega
    exact ⟨toks', d', .construct (cut.nonempty (fits.trans_lt (readConstruct_length_lt left read)))
      room' read' run, cut', same'⟩

/-- A part of the tokens of a text that begins and ends outside of tags is read also from what it
covers alone. -/
theorem piece {source : String} (run : Run #[] (.ofSource source) tokens' c')
    (all : tokens'.toList = front ++ (part ++ behind))
    (begins : ∀ t ∈ part.head?, t.value.standsInTag = false) (nonempty : part ≠ [])
    (ends : ∀ t ∈ behind.head?, t.value.standsInTag = false) :
    ∃ outer inside after, source.toList = outer ++ (inside ++ after) ∧
      Laid false (Position.start.advanceAll outer) inside part false ∧
      ∃ toks d, Run #[] (.ofSource (String.ofList inside)) toks d ∧ d.rest = [] ∧
        values toks = part.map (·.value) := by
  have edge : ∀ t ∈ (part ++ behind).head?, t.value.standsInTag = false := by
    rwa [List.head?_append_of_ne_nil _ nonempty]
  obtain ⟨first, c₁, same₁, run₁, rest⟩ := run.split all edge
  rw [List.nil_append] at same₁
  have whole : tokens'.toList = first.toList ++ (part ++ behind) := by rw [all, same₁]
  obtain ⟨second, c₂, same₂, run₂, -⟩ := rest.split whole ends
  obtain ⟨outer, _, moves₁, -, -, -⟩ := run₁.laid
  obtain ⟨inside, part', moves₂, same, laid, -⟩ := run₂.laid
  obtain rfl : part' = part := List.append_cancel_left (same.symm.trans same₂)
  refine ⟨outer, inside, c₂.rest, ?_, ?_, ?_⟩
  · rw [← moves₂.rest, ← moves₁.rest]
    rfl
  · rwa [moves₁.pos] at laid
  · have cut : c₁.Cut c₂.rest (.ofSource (String.ofList inside)) := by
      rw [Cursor.Cut, moves₂.rest]
      exact congrArg (· ++ c₂.rest) String.toList_ofList.symm
    have alone : values first = values first ++ values #[] := (List.append_nil _).symm
    obtain ⟨toks, d, run', cut', same'⟩ := run₂.cut cut alone (Nat.le_refl _)
    refine ⟨toks, d, run', ?_, ?_⟩
    · exact List.self_eq_append_left.1 cut'
    · rw [values, same, List.map_append] at same'
      exact (List.append_cancel_left same').symm

end Run

end Lexer

end Barrage.Markup
