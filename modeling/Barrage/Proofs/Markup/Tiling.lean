import Barrage.Markup.Lexing
import Barrage.Proofs.Task.Order
import Mathlib.Data.List.Basic
import Mathlib.Data.List.TakeWhile

/-!
Tokens cover the text that they were read from. Every construct moves the cursor over what it takes
and leaves tokens behind that follow each other on it; only between the tokens of a start tag there
are gaps, and these are blank. What a token covers spells it.
-/

set_option autoImplicit false

namespace Barrage.Markup

/-! ## Spellings -/

/-- A text whose references decode to a content, wherever it stands. -/
def Decodes (raw : List Char) (content : String) : Prop :=
  ∀ p, decode p raw = .ok content.toList

structure NameAhead (name : String) (text : List Char) : Prop where
  begins : ∃ c ∈ text.head?, Lexer.isNameStart c
  whole : text.takeWhile Lexer.isNameChar = name.toList

def Blank (cs : List Char) : Prop := ∀ c ∈ cs, Text.isBlank c

theorem Blank.nil : Blank [] := fun _ inside => nomatch inside

/-- How an attribute is spelled: a name, an equals sign between blanks, and a value in quotes. -/
structure SpelledAttribute (name value : String) (cs : List Char) where
  left : List Char
  right : List Char
  quote : Char
  raw : List Char
  blankLeft : Blank left
  blankRight : Blank right
  quoted : quote = '"' ∨ quote = '\''
  fresh : quote ∉ raw
  decodes : Decodes raw value
  ahead : NameAhead name cs
  whole : cs = name.toList ++ (left ++ '=' :: (right ++ quote :: (raw ++ [quote])))

namespace Token

def standsInTag : Token → Bool
  | attr .. | closeTag | closeEmpty => true
  | _ => false

def keepsTagOpen : Token → Bool
  | openTag _ | attr .. => true
  | _ => false

/-- How a token is spelled in a source. -/
def Spells (t : Token) (cs : List Char) : Prop :=
  match t with
  | openTag name => cs = '<' :: name.toList ∧ NameAhead name name.toList
  | endTag name => ∃ blanks, Blank blanks ∧
      cs = '<' :: '/' :: (name.toList ++ blanks ++ ['>']) ∧
      NameAhead name (name.toList ++ blanks ++ ['>'])
  | attr name value => Nonempty (SpelledAttribute name value cs)
  | text content => cs ≠ [] ∧ '<' ∉ cs ∧ Decodes cs content
  | endOfInput => cs = []
  | _ => cs = t.markup.toList

end Token

variable {name : String} {cs front back raw : List Char}

theorem decodeFrom_position {p : Position} {decoded cs content : List Char}
    (read : CharRef.decodeFrom p decoded cs = .ok content) (q : Position) :
    CharRef.decodeFrom q decoded cs = .ok content := by
  fun_induction CharRef.decodeFrom p decoded cs generalizing q with
  | case1 p decoded => rwa [CharRef.decodeFrom]
  | case2 => cases read
  | case3 => cases read
  | case4 p decoded rest body reached d denoted ih =>
    rw [CharRef.decodeFrom, if_pos rfl, reached]
    dsimp only
    rw [denoted]
    exact ih read _
  | case5 p decoded c rest plain ih =>
    rw [CharRef.decodeFrom, if_neg plain]
    exact ih read _

theorem Decodes.of_decodeAt {p : Position} {content : String}
    (decoded : Lexer.decodeAt p raw = .ok content) : Decodes raw content := by
  intro q
  unfold Lexer.decodeAt at decoded
  split at decoded
  · next read =>
    cases decoded
    rw [String.toList_ofList]
    exact decodeFrom_position read q
  · cases decoded

theorem Decodes.unique {content other : String} (first : Decodes raw content)
    (second : Decodes raw other) : content = other :=
  String.toList_inj.1 (Except.ok.inj ((first .start).symm.trans (second .start)))

theorem NameAhead.uncons (ahead : NameAhead name cs) :
    ∃ c rest, cs = c :: rest ∧ Lexer.isNameStart c := by
  obtain ⟨c, first, start⟩ := ahead.begins
  obtain ⟨rest, rfl⟩ := List.head?_eq_some_iff.1 first
  exact ⟨c, rest, rfl, start⟩

theorem NameAhead.unique {other : String} (first : NameAhead name cs)
    (second : NameAhead other cs) : name = other :=
  String.toList_inj.1 (first.whole.symm.trans second.whole)

theorem Blank.append_cons_inj {left right : List Char} {x y : Char} (first : Blank left)
    (second : Blank right) (edge : ¬ Text.isBlank x) (edge' : ¬ Text.isBlank y)
    (same : left ++ x :: front = right ++ y :: back) : left = right ∧ x = y ∧ front = back := by
  have runs := congrArg (List.takeWhile Text.isBlank) same
  rw [List.takeWhile_append_of_pos first, List.takeWhile_append_of_pos second,
    List.takeWhile_cons_of_neg edge, List.takeWhile_cons_of_neg edge', List.append_nil,
    List.append_nil] at runs
  subst runs
  simpa using same

theorem SpelledAttribute.not_blank {value : String} (spelled : SpelledAttribute name value cs) :
    ¬ Text.isBlank spelled.quote := by
  obtain same | same := spelled.quoted <;> rw [same] <;> decide

theorem SpelledAttribute.unique {name' value value' : String}
    (first : SpelledAttribute name value cs) (second : SpelledAttribute name' value' cs) :
    name = name' ∧ value = value' := by
  obtain rfl := first.ahead.unique second.ahead
  have same := first.whole.symm.trans second.whole
  rw [List.append_cancel_left_eq] at same
  obtain ⟨-, -, same⟩ :=
    first.blankLeft.append_cons_inj second.blankLeft (by decide) (by decide) same
  obtain ⟨-, quote, same⟩ :=
    first.blankRight.append_cons_inj second.blankRight first.not_blank second.not_blank same
  rw [quote] at same
  have decodes := first.decodes
  rw [List.append_cancel_right same] at decodes
  exact ⟨rfl, decodes.unique second.decodes⟩

namespace Token

/-- The kind of token that the first characters tell, in a start tag and outside. -/
def kindAhead (inTag : Bool) (cs : List Char) : Nat :=
  match inTag, cs with
  | true, '>' :: _ => closeTag.ctorIdx
  | true, '/' :: _ => closeEmpty.ctorIdx
  | true, _ => (attr "" "").ctorIdx
  | false, '<' :: '?' :: _ => (declaration "").ctorIdx
  | false, '<' :: '/' :: _ => (endTag "").ctorIdx
  | false, '<' :: '!' :: 'D' :: _ => (doctype "").ctorIdx
  | false, '<' :: '!' :: '-' :: _ => (comment "").ctorIdx
  | false, '<' :: '!' :: _ => (cdata "").ctorIdx
  | false, '<' :: _ => (openTag "").ctorIdx
  | false, [] => endOfInput.ctorIdx
  | false, _ => (text "").ctorIdx

theorem Spells.kind {t : Token} (spelled : t.Spells cs) :
    t.ctorIdx = kindAhead t.standsInTag cs := by
  cases t with
  | attr name value =>
    obtain ⟨spelled⟩ := spelled
    obtain ⟨c, rest, rfl, start⟩ := spelled.ahead.uncons
    have other : c ≠ '>' ∧ c ≠ '/' := by
      refine ⟨?_, ?_⟩ <;> rintro rfl <;> exact absurd start (by decide)
    unfold kindAhead standsInTag
    split <;> simp_all
    rfl
  | openTag name =>
    obtain ⟨rfl, ahead⟩ := spelled
    obtain ⟨c, rest, same, start⟩ := ahead.uncons
    have other : c ≠ '?' ∧ c ≠ '/' ∧ c ≠ '!' := by
      refine ⟨?_, ?_, ?_⟩ <;> rintro rfl <;> exact absurd start (by decide)
    rw [same]
    unfold kindAhead standsInTag
    split <;> simp_all
    rfl
  | text content =>
    obtain ⟨nonempty, plain, -⟩ := spelled
    unfold kindAhead standsInTag
    split <;> simp_all
    rfl
  | endTag name =>
    obtain ⟨blanks, -, rfl, -⟩ := spelled
    rfl
  | _ =>
    simp only [Spells, markup, String.toList_append] at spelled
    subst spelled
    rfl

/-- What is at a place, in a start tag or outside, is determined by how it is spelled. -/
theorem Spells.unique {t u : Token} (first : t.Spells cs) (second : u.Spells cs)
    (place : t.standsInTag = u.standsInTag) : t = u := by
  have kind : t.ctorIdx = u.ctorIdx := by rw [first.kind, second.kind, place]
  cases t <;> cases u <;> cases kind
  case attr.attr =>
    obtain ⟨⟨first⟩, ⟨second⟩⟩ := And.intro first second
    obtain ⟨rfl, rfl⟩ := first.unique second
    rfl
  case openTag.openTag =>
    rw [String.toList_inj.1 (List.cons_inj_right _ |>.1 (first.1.symm.trans second.1))]
  case endTag.endTag =>
    obtain ⟨_, -, rfl, ahead⟩ := first
    obtain ⟨_, -, same, ahead'⟩ := second
    rw [← (List.cons.inj (List.cons.inj same).2).2] at ahead'
    rw [ahead.unique ahead']
  case text.text => rw [first.2.2.unique second.2.2]
  case closeTag.closeTag | closeEmpty.closeEmpty | endOfInput.endOfInput => rfl
  all_goals
    have same := Eq.trans (Eq.symm first) second
    simpa [markup, String.toList_inj] using same

end Token

/-! ## Tokens on a text -/

/-- Tokens that follow each other on a text from a position on. Only in a start tag there may be
blanks before a token. The flags say whether a start tag is open before and behind the text. -/
inductive Laid : Bool → Position → List Char → List SpannedToken → Bool → Prop where
  | nil {inTag : Bool} {p : Position} : Laid inTag p [] [] inTag
  | cons {inTag inTag' : Bool} {p : Position} {t : Token} {gap spelling cs : List Char}
      {tokens : List SpannedToken} (blank : Blank gap) (tight : inTag = false → gap = [])
      (place : t.standsInTag = inTag) (spelled : t.Spells spelling)
      (further : Laid t.keepsTagOpen (p.advanceAll (gap ++ spelling)) cs tokens inTag') :
      Laid inTag p (gap ++ (spelling ++ cs))
        (⟨t, p.advanceAll gap, p.advanceAll (gap ++ spelling)⟩ :: tokens) inTag'

namespace Laid

variable {inTag inTag' inTag'' : Bool} {p : Position} {tokens more : List SpannedToken}

theorem append (first : Laid inTag p front tokens inTag')
    (second : Laid inTag' (p.advanceAll front) back more inTag'') :
    Laid inTag p (front ++ back) (tokens ++ more) inTag'' := by
  induction first with
  | nil => exact second
  | cons blank tight place spelled further ih =>
    rw [List.append_assoc, List.append_assoc, List.cons_append]
    rw [← List.append_assoc, Position.advanceAll_append] at second
    exact .cons blank tight place spelled (ih second)

theorem single {t : Token} {spelling : List Char} (place : t.standsInTag = inTag)
    (spelled : t.Spells spelling) :
    Laid inTag p spelling [⟨t, p, p.advanceAll spelling⟩] t.keepsTagOpen := by
  have laid : Laid inTag p ([] ++ (spelling ++ [])) _ t.keepsTagOpen :=
    .cons .nil (fun _ => rfl) place spelled .nil
  rwa [List.nil_append, List.append_nil] at laid

theorem spelling_of_mem {t : SpannedToken} (laid : Laid inTag p cs tokens inTag')
    (inside : t ∈ tokens) : ∃ before spelling after, cs = before ++ (spelling ++ after) ∧
      t.span = ⟨p.advanceAll before, p.advanceAll (before ++ spelling)⟩ ∧
      t.value.Spells spelling := by
  induction laid with
  | nil => cases inside
  | @cons _ _ p t' gap spelling cs tokens _ _ _ spelled further ih =>
    cases inside with
    | head => exact ⟨gap, spelling, cs, rfl, rfl, spelled⟩
    | tail _ inside =>
      obtain ⟨before, spelling', after, rfl, span, spelled'⟩ := ih inside
      refine ⟨gap ++ spelling ++ before, spelling', after, by simp, ?_, spelled'⟩
      rw [span, ← Position.advanceAll_append, ← Position.advanceAll_append]
      simp only [List.append_assoc]

theorem offset_le {t : SpannedToken} (laid : Laid inTag p cs tokens inTag') (inside : t ∈ tokens) :
    p.offset ≤ t.span.start.offset ∧ t.span.start.offset ≤ t.span.stop.offset := by
  obtain ⟨before, spelling, after, rfl, span, -⟩ := laid.spelling_of_mem inside
  rw [span]
  simp only [Position.advanceAll_offset, Text.byteLength_append]
  omega

theorem pairwise (laid : Laid inTag p cs tokens inTag') :
    tokens.Pairwise fun t u => t.span.stop.offset ≤ u.span.start.offset := by
  induction laid with
  | nil => exact .nil
  | cons _ _ _ _ further ih => exact .cons (fun u inside => (further.offset_le inside).1) ih

end Laid

def SpannedToken.Covers (t : SpannedToken) (offset : Nat) (c : Char) : Prop :=
  t.span.start.offset ≤ offset ∧ offset + c.utf8Size ≤ t.span.stop.offset

/-- A character, at an offset, is between two tokens of one start tag that follow each other. -/
def BetweenTokens (tokens : List SpannedToken) (offset : Nat) (c : Char) : Prop :=
  ∃ before t u after, tokens = before ++ t :: u :: after ∧ t.value.keepsTagOpen ∧
    u.value.standsInTag ∧ t.span.stop.offset ≤ offset ∧ offset + c.utf8Size ≤ u.span.start.offset

theorem BetweenTokens.cons {tokens : List SpannedToken} {offset : Nat} {c : Char}
    (between : BetweenTokens tokens offset c) (t : SpannedToken) :
    BetweenTokens (t :: tokens) offset c := by
  obtain ⟨before, t', u, after, rfl, rest⟩ := between
  exact ⟨t :: before, t', u, after, rfl, rest⟩

theorem BetweenTokens.of_cons {tokens : List SpannedToken} {offset : Nat} {c : Char}
    {t : SpannedToken} (between : BetweenTokens (t :: tokens) offset c)
    (closed : t.value.keepsTagOpen = false) : BetweenTokens tokens offset c := by
  obtain ⟨before, t', u, after, same, keeps, rest⟩ := between
  cases before with
  | nil =>
    obtain ⟨rfl, -⟩ := List.cons.inj same
    rw [closed] at keeps
    cases keeps
  | cons _ before => exact ⟨before, t', u, after, (List.cons.inj same).2, keeps, rest⟩

/-- What is not under a token is blank and between two of them; `last` is the token before these. -/
theorem Laid.covers {inTag inTag' : Bool} {p : Position} {tokens : List SpannedToken}
    (laid : Laid inTag p cs tokens inTag') (last : SpannedToken)
    (keeps : last.value.keepsTagOpen = inTag) (ends : last.span.stop.offset ≤ p.offset) {c : Char}
    (split : cs = front ++ c :: back) :
    (∃ t ∈ tokens, SpannedToken.Covers t (p.offset + Text.byteLength front) c) ∨
      Text.isBlank c ∧ BetweenTokens (last :: tokens) (p.offset + Text.byteLength front) c := by
  induction laid generalizing last front with
  | nil => simp at split
  | @cons inTag _ p t gap spelling cs tokens blank tight place spelled further ih =>
    have start := Position.advanceAll_offset p gap
    have stop := Position.advanceAll_offset p (gap ++ spelling)
    rw [Text.byteLength_append] at stop
    obtain ⟨behind, rfl, -⟩ | ⟨rest, rfl, split'⟩ := append_eq_split.1 split
    · have inside : inTag = true := by
        by_contra outside
        simpa using tight (Bool.eq_false_iff.2 outside)
      subst inside
      simp only [Text.byteLength_append, Text.byteLength_cons] at start
      refine .inr ⟨blank c (by simp), [], last, _, tokens, rfl, keeps, place, ?_, ?_⟩
      · omega
      · dsimp only
        omega
    · obtain ⟨behind, rfl, -⟩ | ⟨rest, rfl, further'⟩ := append_eq_split.1 split'
      · simp only [Text.byteLength_append, Text.byteLength_cons] at stop ⊢
        refine .inl ⟨_, List.mem_cons_self, ?_, ?_⟩ <;> dsimp only <;> omega
      · have place : p.offset + Text.byteLength (gap ++ (spelling ++ rest)) =
            (p.advanceAll (gap ++ spelling)).offset + Text.byteLength rest := by
          simp only [stop, Text.byteLength_append]
          omega
        rw [place]
        obtain ⟨t', inside, covers⟩ | ⟨white, between⟩ := ih ⟨t, _, _⟩ rfl (Nat.le_refl _) further'
        · exact .inl ⟨t', List.mem_cons_of_mem _ inside, covers⟩
        · exact .inr ⟨white, between.cons last⟩

/-! ## Reading a construct -/

namespace Cursor

structure Moves (c : Cursor) (taken : List Char) (c' : Cursor) : Prop where
  rest : c.rest = taken ++ c'.rest
  pos : c'.pos = c.pos.advanceAll taken

variable {c c' c'' : Cursor}

theorem Moves.trans (first : c.Moves front c') (second : c'.Moves back c'') :
    c.Moves (front ++ back) c'' := by
  refine ⟨?_, ?_⟩
  · rw [first.rest, second.rest, List.append_assoc]
  · rw [second.pos, first.pos, Position.advanceAll_append]

theorem moves_past {taken rest : List Char} (same : c.rest = taken ++ rest) :
    c.Moves taken (c.past taken rest) := ⟨same, rfl⟩

theorem moves_skipBlanks (c : Cursor) : ∃ gap, Blank gap ∧ c.Moves gap c.skipBlanks :=
  ⟨_, fun _ inside => List.mem_takeWhile_imp inside,
    moves_past (List.takeWhile_append_dropWhile).symm⟩

theorem moves_breakOn {delimiter before : List Char}
    (broken : c.breakOn delimiter = some (before, c')) : c.Moves (before ++ delimiter) c' := by
  obtain ⟨⟨before', after⟩, found, same⟩ := Option.map_eq_some_iff.1 broken
  cases same
  refine ⟨(Text.breakOn_append found).symm, ?_⟩
  rw [Position.advanceAll_append]
  rfl

end Cursor

theorem notMem_of_breakOnFrom {quote : Char} {seen before after : List Char}
    (broken : Text.breakOnFrom [quote] seen cs = some (before, after)) (fresh : quote ∉ seen) :
    quote ∉ before := by
  induction cs generalizing seen with
  | nil => cases broken
  | cons c cs ih =>
    rw [Text.breakOnFrom] at broken
    split at broken
    · cases broken
      simpa using fresh
    · next other =>
      have ne : quote ≠ c := by simpa using other
      exact ih broken (by simp [ne, fresh])

theorem notMem_of_breakOn {quote : Char} {raw : List Char} {c c' : Cursor}
    (broken : c.breakOn [quote] = some (raw, c')) : quote ∉ raw := by
  obtain ⟨⟨before, after⟩, found, same⟩ := Option.map_eq_some_iff.1 broken
  cases same
  exact notMem_of_breakOnFrom found (List.not_mem_nil)

theorem of_bind_eq_ok {ε α β : Type} {x : Except ε α} {f : α → Except ε β} {b : β}
    (read : x.bind f = .ok b) : ∃ a, x = .ok a ∧ f a = .ok b := by
  cases x with
  | error e => cases read
  | ok a => exact ⟨a, rfl, read⟩

theorem NameAhead.of_append (ahead : NameAhead name (front ++ back))
    (behind : name.toList.length < front.length) : NameAhead name front := by
  obtain ⟨⟨x, first, start⟩, whole⟩ := ahead
  rw [List.takeWhile_append] at whole
  split at whole
  · next all =>
    rw [← whole, List.length_append] at behind
    omega
  · cases front with
    | nil => cases behind
    | cons y front => exact ⟨⟨x, first, start⟩, whole⟩

theorem isNameChar_of_isNameStart {c : Char} (start : Lexer.isNameStart c) :
    Lexer.isNameChar c := by
  simp only [Lexer.isNameStart, Lexer.isNameChar, Text.isAlphanumeric, Bool.or_eq_true] at start ⊢
  tauto

theorem NameAhead.self (ahead : NameAhead name cs) : NameAhead name name.toList := by
  obtain ⟨c, rest, rfl, start⟩ := ahead.uncons
  rw [← ahead.whole]
  refine ⟨⟨c, ?_, start⟩, ?_⟩
  · rw [List.takeWhile_cons_of_pos (isNameChar_of_isNameStart start)]
    rfl
  · rw [List.takeWhile_idem, ahead.whole]

namespace Lexer

variable {c c' : Cursor} {inTag : Bool} {tokens : Array SpannedToken}

theorem readName_spells {construct : Construct} {start : Position}
    (read : readName construct start c = .ok (name, c')) :
    c.Moves name.toList c' ∧ NameAhead name c.rest := by
  unfold readName at read
  split at read
  · cases read
  · next x rest same =>
    split at read
    · next begins =>
      dsimp only at read
      split at read
      · cases read
      · cases read
        rw [String.toList_ofList]
        exact ⟨Cursor.moves_past List.takeWhile_append_dropWhile.symm,
          ⟨x, by rw [same]; rfl, begins⟩, String.toList_ofList.symm⟩
    · cases read

theorem readEquals_moves {tag : Position} (read : readEquals tag c = .ok c') :
    c.Moves ['='] c' := by
  unfold readEquals at read
  split at read
  · cases read
  · next x rest same =>
    split at read
    · next equals =>
      cases read
      subst equals
      exact Cursor.moves_past same
    · cases read

theorem readQuoted_spells {value : String} (read : readQuoted c = .ok (value, c')) :
    ∃ quote raw, (quote = '"' ∨ quote = '\'') ∧ quote ∉ raw ∧ Decodes raw value ∧
      c.Moves (quote :: (raw ++ [quote])) c' := by
  unfold readQuoted at read
  split at read
  · cases read
  · next quote rest same =>
    split at read
    · next quoted =>
      unfold readValue at read
      split at read
      · cases read
      · next raw after broken =>
        dsimp only at read
        split at read
        · cases read
        split at read
        · cases read
        obtain ⟨value', decoded, same'⟩ := of_bind_eq_ok read
        cases same'
        refine ⟨quote, raw, quoted, notMem_of_breakOn broken, .of_decodeAt decoded, ?_⟩
        exact (Cursor.moves_past same).trans (Cursor.moves_breakOn broken)
    · cases read

theorem readAttribute_spells {tag : Position} {t : SpannedToken}
    (read : readAttribute tag c = .ok (t, c')) : ∃ spelling, c.Moves spelling c' ∧
      t.value.standsInTag = true ∧ t.value.keepsTagOpen = true ∧ t.value.Spells spelling ∧
      t.span = ⟨c.pos, c'.pos⟩ := by
  obtain ⟨⟨name, afterName⟩, named, read⟩ := of_bind_eq_ok read
  obtain ⟨afterEquals, equals, read⟩ := of_bind_eq_ok read
  obtain ⟨⟨value, after⟩, valued, same⟩ := of_bind_eq_ok read
  cases same
  obtain ⟨moves, ahead⟩ := readName_spells named
  obtain ⟨left, blankL, movesL⟩ := afterName.moves_skipBlanks
  obtain ⟨right, blankR, movesR⟩ := afterEquals.moves_skipBlanks
  obtain ⟨quote, raw, quoted, fresh, decodes, last⟩ := readQuoted_spells valued
  have all := moves.trans (movesL.trans ((readEquals_moves equals).trans (movesR.trans last)))
  have whole := all.rest
  rw [whole] at ahead
  replace ahead := ahead.of_append (by simp only [List.length_append, List.length_cons]; omega)
  exact ⟨_, all, rfl, rfl,
    ⟨left, right, quote, raw, blankL, blankR, quoted, fresh, decodes, ahead, by simp⟩, rfl⟩

/-- What was read, if nothing failed, leaves tokens on what was taken; then no tag is open. -/
def Reads (inTag : Bool) (tokens : Array SpannedToken) (c : Cursor) (found : Found) : Prop :=
  ∀ c', found.next = .ok c' → ∃ taken new, c.Moves taken c' ∧
    found.tokens.toList = tokens.toList ++ new ∧ Laid inTag c.pos taken new false

theorem Reads.failed (error : LexError) : Reads inTag tokens c ⟨tokens, .error error⟩ :=
  fun _ read => nomatch read

theorem Reads.done : Reads false tokens c ⟨tokens, .ok c⟩ := by
  rintro _ ⟨⟩
  exact ⟨[], [], ⟨rfl, rfl⟩, (List.append_nil _).symm, .nil⟩

theorem Reads.token {t : Token} {gap spelling : List Char} {front behind : Cursor} {found : Found}
    (moves : c.Moves gap front) (blank : Blank gap) (tight : inTag = false → gap = [])
    (across : front.Moves spelling behind) (place : t.standsInTag = inTag)
    (spelled : t.Spells spelling)
    (further : Reads t.keepsTagOpen (tokens.push ⟨t, front.pos, behind.pos⟩) behind found) :
    Reads inTag tokens c found := by
  intro c' read
  obtain ⟨taken, new, rest, same, laid⟩ := further c' read
  have both := moves.trans across
  refine ⟨gap ++ (spelling ++ taken), ⟨t, front.pos, behind.pos⟩ :: new,
    moves.trans (across.trans rest), ?_, ?_⟩
  · rw [same, Array.toList_push, List.append_assoc]
    rfl
  · rw [both.pos] at laid ⊢
    rw [moves.pos]
    exact .cons blank tight place spelled laid

theorem Reads.construct {t : Token} {spelling : List Char} {behind : Cursor} {found : Found}
    (across : c.Moves spelling behind) (place : t.standsInTag = false) (spelled : t.Spells spelling)
    (further : Reads t.keepsTagOpen (tokens.push ⟨t, c.pos, behind.pos⟩) behind found) :
    Reads false tokens c found :=
  .token ⟨rfl, rfl⟩ .nil (fun _ => rfl) across place spelled further

theorem reads_tagRest (tag : Position) (tokens : Array SpannedToken) (c : Cursor) :
    Reads true tokens c (readTagRest tag tokens c) := by
  fun_induction readTagRest tag tokens c with
  | case1 tokens c front rest same =>
    obtain ⟨gap, blank, moves⟩ := c.moves_skipBlanks
    exact .token moves blank (by simp) (Cursor.moves_past same) rfl (by rfl) .done
  | case2 tokens c front rest same =>
    obtain ⟨gap, blank, moves⟩ := c.moves_skipBlanks
    exact .token moves blank (by simp) (Cursor.moves_past same) rfl (by rfl) .done
  | case3 => exact .failed _
  | case4 tokens c front token after read _ _ ih =>
    obtain ⟨gap, blank, moves⟩ := c.moves_skipBlanks
    obtain ⟨spelling, across, place, keeps, spelled, span⟩ := readAttribute_spells read
    obtain ⟨value, _⟩ := token
    cases span
    exact .token moves blank (by simp) across place spelled (keeps ▸ ih)

theorem rest_eq_of_isPrefixOf {opening : List Char} (ahead : opening.isPrefixOf c.rest) :
    c.rest = opening ++ c.rest.drop opening.length :=
  (List.prefix_iff_eq_append.1 (List.isPrefixOf_iff_prefix.1 ahead)).symm

theorem reads_verbatim {construct : Construct} {token : String → Token}
    {check : Position → List Char → Option LexError} {opening delimiter : List Char}
    (ahead : opening.isPrefixOf c.rest)
    (spelled : ∀ content,
      (token (String.ofList content)).Spells (opening ++ (content ++ delimiter)))
    (place : ∀ content, (token content).standsInTag = false)
    (closed : ∀ content, (token content).keepsTagOpen = false) :
    Reads false tokens c (readVerbatim construct token check opening delimiter tokens c) := by
  unfold readVerbatim
  split
  · exact .failed _
  · next content after broken =>
    split
    · exact .failed _
    · have opened := Cursor.moves_past (rest_eq_of_isPrefixOf ahead)
      have across := opened.trans (Cursor.moves_breakOn broken)
      exact .construct across (place _) (spelled content) (closed _ ▸ .done)

theorem doctypeContent?_append {depth : Nat} {quote : Option Char}
    {seen cs content rest : List Char}
    (found : doctypeContent? depth quote seen cs = some (content, rest)) :
    seen.reverse ++ cs = content ++ '>' :: rest := by
  fun_induction doctypeContent? depth quote seen cs <;> simp_all

theorem rest_eq_of_doctypeContent? {content rest : List Char}
    (ahead : doctypeOpening.isPrefixOf c.rest)
    (found : doctypeContent? 0 none [] (c.rest.drop doctypeOpening.length) =
      some (content, rest)) : c.rest = doctypeOpening ++ content ++ ['>'] ++ rest := by
  have split := doctypeContent?_append found
  rw [List.reverse_nil, List.nil_append] at split
  rw [rest_eq_of_isPrefixOf ahead, split]
  simp

theorem reads_doctype (ahead : doctypeOpening.isPrefixOf c.rest) :
    Reads false tokens c (readDoctype tokens c) := by
  unfold readDoctype
  split
  · exact .failed _
  · next content rest found =>
    have same := rest_eq_of_doctypeContent? ahead found
    refine .construct (Cursor.moves_past same) rfl ?_ .done
    simp [Token.Spells, Token.markup, doctypeOpening]

theorem reads_endTag {rest : List Char} (ahead : c.rest = '<' :: '/' :: rest) :
    Reads false tokens c (readEndTag tokens c) := by
  unfold readEndTag
  split
  · exact .failed _
  · next name afterName named =>
    dsimp only
    split
    · next rest close =>
      obtain ⟨moves, before⟩ := readName_spells named
      obtain ⟨blanks, blank, moves'⟩ := afterName.moves_skipBlanks
      have opening : c.rest = ['<', '/'] ++ c.rest.drop 2 := by
        rw [ahead]
        rfl
      have closing : _ = ['>'] ++ _ := close
      have tail := moves.trans (moves'.trans (Cursor.moves_past closing))
      have whole := tail.rest
      rw [whole] at before
      replace before := before.of_append (by simp)
      rw [← List.append_assoc] at before
      refine .construct (t := .endTag name) ((Cursor.moves_past opening).trans tail) rfl
        ⟨blanks, blank, by simp, before⟩ .done
    · exact .failed _
    · exact .failed _

theorem reads_startTag {rest : List Char} (ahead : c.rest = '<' :: rest) :
    Reads false tokens c (readStartTag tokens c) := by
  unfold readStartTag
  split
  · exact .failed _
  · next name afterName named =>
    obtain ⟨moves, before⟩ := readName_spells named
    have opening : c.rest = ['<'] ++ c.rest.drop 1 := by
      rw [ahead]
      rfl
    exact .construct (t := .openTag name) ((Cursor.moves_past opening).trans moves) rfl
      ⟨rfl, before.self⟩ (reads_tagRest _ _ _)

theorem reads_text {x : Char} {rest : List Char} (ahead : c.rest = x :: rest) (plain : x ≠ '<') :
    Reads false tokens c (readText tokens c) := by
  unfold readText
  dsimp only
  split
  · exact .failed _
  split
  · exact .failed _
  · next content decoded =>
    refine .construct (t := .text content)
      (Cursor.moves_past List.takeWhile_append_dropWhile.symm) rfl
      ⟨?_, ?_, .of_decodeAt decoded⟩ .done
    · rw [ahead, List.takeWhile_cons_of_pos (by simpa using plain)]
      exact List.cons_ne_nil _ _
    · intro inside
      simpa using List.mem_takeWhile_imp inside

theorem reads_construct (tokens : Array SpannedToken) {c : Cursor} (left : c.rest ≠ []) :
    Reads false tokens c (readConstruct tokens c) := by
  unfold readConstruct
  split
  · next ahead =>
    exact reads_verbatim ahead
      (fun _ => by simp [Token.Spells, Token.markup, commentOpening]) (fun _ => rfl) fun _ => rfl
  split
  · next ahead =>
    exact reads_verbatim ahead
      (fun _ => by simp [Token.Spells, Token.markup, cdataOpening]) (fun _ => rfl) fun _ => rfl
  split
  · next ahead => exact reads_doctype ahead
  split
  · next ahead =>
    exact reads_verbatim (by rw [ahead]; rfl)
      (fun _ => by simp [Token.Spells, Token.markup]) (fun _ => rfl) fun _ => rfl
  · next ahead => exact reads_endTag ahead
  · next ahead => exact reads_startTag ahead
  · next _ _ other =>
    obtain ⟨x, rest, same⟩ := List.exists_cons_of_ne_nil left
    exact reads_text same fun tag => other rest (by rw [same, tag])

theorem laid_of_readAll {tokens : Array SpannedToken} {c : Cursor}
    (read : (readAll tokens c).2 = .ok ()) : ∃ new, Laid false c.pos c.rest new false ∧
      (readAll tokens c).1.toList =
        tokens.toList ++ new ++ [⟨.endOfInput, Span.point (c.pos.advanceAll c.rest)⟩] := by
  fun_induction readAll tokens c with
  | case1 tokens c ended =>
    rw [ended]
    exact ⟨[], .nil, by simp⟩
  | case2 => cases read
  | case3 => cases read
  | case4 tokens c left room found next after ih =>
    obtain ⟨taken, new, moves, same, laid⟩ := reads_construct tokens left _ after
    obtain ⟨more, further, all⟩ := ih read
    rw [moves.pos] at further all
    rw [moves.rest]
    refine ⟨new ++ more, laid.append further, ?_⟩
    rw [all, same, ← Position.advanceAll_append]
    simp only [List.append_assoc]

end Lexer

/-! ## Texts -/

theorem cutAt?_append (seen : List Char) :
    Span.cutAt? (Text.byteLength front) seen (front ++ back) =
      some (seen.reverse ++ front, back) := by
  induction front generalizing seen with
  | nil => cases back <;> simp [Span.cutAt?]
  | cons c front ih =>
    have positive := c.utf8Size_pos
    rw [List.cons_append, Span.cutAt?, Text.byteLength_cons, if_neg (by omega), if_neg (by omega),
      Nat.add_sub_cancel_left, ih]
    simp

theorem slice_eq {source : String} {before spelling after : List Char}
    (same : source.toList = before ++ (spelling ++ after)) :
    Span.slice ⟨Position.start.advanceAll before, Position.start.advanceAll (before ++ spelling)⟩
      source = String.ofList spelling := by
  have begins : (Position.start.advanceAll before).offset = Text.byteLength before := by
    rw [Position.advanceAll_offset]
    exact Nat.zero_add _
  have ends : (Position.start.advanceAll (before ++ spelling)).offset =
      Text.byteLength before + Text.byteLength spelling := by
    rw [Position.advanceAll_offset, Text.byteLength_append]
    exact Nat.zero_add _
  simp only [Span.slice, begins, ends, same, cutAt?_append]
  rw [if_neg (by omega), Nat.add_sub_cancel_left, cutAt?_append]
  rfl

/-- Tokens that cover a source up to blanks in start tags, and are what they cover. -/
structure Tiles (source : String) (tokens : List SpannedToken) : Prop where
  ordered : tokens.Pairwise fun t u => t.span.stop.offset ≤ u.span.start.offset
  forward : ∀ t ∈ tokens, t.span.start.offset ≤ t.span.stop.offset
  ended : tokens.getLast? =
    some ⟨.endOfInput, Span.point (Position.start.advanceAll source.toList)⟩
  covered : ∀ before c after, source.toList = before ++ c :: after →
    (∃ t ∈ tokens, SpannedToken.Covers t (Text.byteLength before) c) ∨
      Text.isBlank c ∧ BetweenTokens tokens (Text.byteLength before) c
  spelled : ∀ t ∈ tokens, t.value.Spells (t.span.slice source).toList
  determined : ∀ t ∈ tokens, ∀ u : Token, u.Spells (t.span.slice source).toList →
    u.standsInTag = t.value.standsInTag → u = t.value

/-- The tokens of a text that is accepted cover it, up to blanks between the tokens of one start
tag, and each is determined by what it covers. -/
theorem tokens_tile (source : String) (accepted : (Lexing.ofSource source).outcome = .ok ()) :
    Tiles source (Lexing.ofSource source).tokens.toList := by
  obtain ⟨new, laid, all⟩ := Lexer.laid_of_readAll accepted
  change (Lexing.ofSource source).tokens.toList = new ++ [_] at all
  replace laid := laid.append (.single (t := .endOfInput) rfl rfl)
  rw [List.append_nil, Position.advanceAll_nil, ← Span.point, ← all] at laid
  replace laid : Laid false .start source.toList _ false := laid
  have spelled : ∀ t ∈ (Lexing.ofSource source).tokens.toList,
      t.value.Spells (t.span.slice source).toList := by
    intro t inside
    obtain ⟨before, spelling, after, same, span, spelled⟩ := laid.spelling_of_mem inside
    rwa [span, slice_eq same, String.toList_ofList]
  refine ⟨laid.pairwise, fun t inside => (laid.offset_le inside).2, ?_, ?_, spelled, ?_⟩
  · rw [all, List.getLast?_concat]
    rfl
  · intro before c after split
    have found := laid.covers ⟨.endOfInput, Span.nowhere⟩ rfl (Nat.zero_le _) split
    have offset : Position.start.offset + Text.byteLength before = Text.byteLength before :=
      Nat.zero_add _
    rw [offset] at found
    exact found.imp_right (.imp_right (·.of_cons rfl))
  · intro t inside u other place
    exact other.unique (spelled t inside) place

theorem tokens_tile_tag : (Lexing.ofSource "<a b = '&lt;'>\n x</a >").outcome = .ok () ∧
    Tiles "<a b = '&lt;'>\n x</a >" (Lexing.ofSource "<a b = '&lt;'>\n x</a >").tokens.toList :=
  have accepted : (Lexing.ofSource "<a b = '&lt;'>\n x</a >").outcome = .ok () := by
    decide +kernel
  ⟨accepted, tokens_tile _ accepted⟩

end Barrage.Markup
