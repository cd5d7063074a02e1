import Barrage.Proofs.Markup.Pieces
import Barrage.Proofs.Markup.StartTags

/-!
How many tokens a text may have. The number of tokens so far is looked at where a construct begins,
and a construct that has begun is read to its end. So a text goes over the limit and is accepted
just if all tokens behind the limit are those of one start tag, the last construct of the text. Such
a tag may have any number of attributes.
-/

set_option autoImplicit false

namespace Barrage.Markup

namespace Lexer

variable {c c' : Cursor} {tokens tokens' : Array SpannedToken}

/-! ## Constructs without a limit -/

/-- Constructs that are read one after the other, however many tokens there are. -/
inductive Constructs : Array SpannedToken → Cursor → Array SpannedToken → Cursor → Prop where
  | done {tokens : Array SpannedToken} {c : Cursor} : Constructs tokens c tokens c
  | more {tokens tokens' : Array SpannedToken} {c next c' : Cursor} (left : c.rest ≠ [])
      (read : (readConstruct tokens c).next = .ok next)
      (further : Constructs (readConstruct tokens c).tokens next tokens' c') :
      Constructs tokens c tokens' c'

theorem Run.constructs (run : Run tokens c tokens' c') : Constructs tokens c tokens' c' := by
  induction run with
  | done => exact .done
  | construct left _ read _ ih => exact .more left read ih

namespace Constructs

theorem appends (all : Constructs tokens c tokens' c') :
    ∃ new, tokens'.toList = tokens.toList ++ new ∧ ∀ t ∈ new, t.value ≠ .endOfInput := by
  induction all with
  | done => exact ⟨[], (List.append_nil _).symm, nofun⟩
  | more left read further ih =>
    obtain ⟨new, same, one⟩ := readConstruct_adds _ _ _ read
    obtain ⟨others, same', inside⟩ := ih
    refine ⟨new ++ others, by rw [same', same, List.append_assoc], fun t member => ?_⟩
    exact (List.mem_append.1 member).elim one.ne_endOfInput (inside t)

theorem inside (all : Constructs #[] c tokens c') : ∀ t ∈ tokens, t.value ≠ .endOfInput := by
  obtain ⟨new, same, inside⟩ := all.appends
  intro t member
  rw [← Array.mem_toList_iff, same] at member
  exact inside t member

end Constructs

/-- Behind the limit there are only tokens of a start tag that begins before it. -/
def EndsInTag (tokens : Array SpannedToken) : Prop :=
  ∀ t ∈ tokens.toList.drop Limit.tokens, t.value.standsInTag

theorem endsInTag_of_room (room : tokens.size < Limit.tokens) : EndsInTag tokens := by
  intro t inside
  rw [List.drop_eq_nil_of_le (by simpa using room.le)] at inside
  cases inside

/-- A construct that begins below the limit has only its first token outside of tags. -/
theorem endsInTag_construct {next : Cursor} (room : tokens.size < Limit.tokens)
    (read : (readConstruct tokens c).next = .ok next) :
    EndsInTag (readConstruct tokens c).tokens := by
  obtain ⟨new, same, first, others, rfl, -, -, inTag⟩ := readConstruct_adds tokens c next read
  intro t inside
  have split : tokens.toList ++ first :: others = (tokens.toList ++ [first]) ++ others := by simp
  have short : (tokens.toList ++ [first]).length ≤ Limit.tokens := by
    rw [List.length_append, Array.length_toList]
    exact room
  rw [same, split, List.drop_append, List.drop_eq_nil_of_le short, List.nil_append] at inside
  exact inTag t (List.mem_of_mem_drop inside)

/-- A construct that begins at the limit or behind it has a token there outside of tags. -/
theorem not_endsInTag {next : Cursor} (full : Limit.tokens ≤ tokens.size)
    (read : (readConstruct tokens c).next = .ok next)
    (further : Constructs (readConstruct tokens c).tokens next tokens' c') :
    ¬ EndsInTag tokens' := by
  obtain ⟨new, same, first, others, rfl, outside, -⟩ := readConstruct_adds tokens c next read
  obtain ⟨more, all, -⟩ := further.appends
  intro ends
  have member : first ∈ tokens'.toList.drop Limit.tokens := by
    rw [all, same, List.append_assoc,
      List.drop_append_of_le_length (by simpa using full)]
    simp
  rw [ends first member] at outside
  cases outside

/-! ## Reading with the limit -/

theorem readAll_full (full : Limit.tokens ≤ tokens.size) (left : c.rest ≠ []) :
    readAll tokens c = (tokens, .error (.tooManyTokens tokens.size)) := by
  rw [readAll, dif_neg left, if_pos full]

theorem readAll_construct {next : Cursor} (room : tokens.size < Limit.tokens) (left : c.rest ≠ [])
    (read : (readConstruct tokens c).next = .ok next) :
    readAll tokens c = readAll (readConstruct tokens c).tokens next := by
  rw [readAll, dif_neg left, if_neg (Nat.not_le.2 room)]
  dsimp only
  split
  · next failed => rw [read] at failed; cases failed
  · next after read' => rw [read] at read'; cases read'; rfl

theorem readAll_of_left (all : Constructs tokens c tokens' c') (left : c'.rest ≠ [])
    (full : Limit.tokens ≤ tokens'.size) :
    ∃ n, Limit.tokens ≤ n ∧ n ≤ tokens'.size ∧
      (readAll tokens c).2 = .error (.tooManyTokens n) := by
  induction all with
  | done => exact ⟨_, full, Nat.le_refl _, by rw [readAll_full full left]⟩
  | @more tokens tokens' c next c' left' read further ih =>
    by_cases room : tokens.size < Limit.tokens
    · rw [readAll_construct room left' read]
      exact ih left full
    · obtain ⟨new, same, -⟩ := (Constructs.more left' read further).appends
      have sizes := congrArg List.length same
      rw [List.length_append, Array.length_toList, Array.length_toList] at sizes
      refine ⟨tokens.size, Nat.not_lt.1 room, by omega, ?_⟩
      rw [readAll_full (Nat.not_lt.1 room) left']

/-- A text that can be read to its end is accepted just if nothing outside of tags is behind the
limit. -/
theorem readAll_of_ended (all : Constructs tokens c tokens' c') (ended : c'.rest = [])
    (before : EndsInTag tokens) :
    (EndsInTag tokens' ∧
      readAll tokens c = (tokens'.push ⟨.endOfInput, Span.point c'.pos⟩, .ok ())) ∨
    (¬ EndsInTag tokens' ∧
      ∃ n, Limit.tokens ≤ n ∧ (readAll tokens c).2 = .error (.tooManyTokens n)) := by
  induction all with
  | done => exact .inl ⟨before, by rw [readAll, dif_pos ended]⟩
  | @more tokens tokens' c next c' left read further ih =>
    by_cases room : tokens.size < Limit.tokens
    · rw [readAll_construct room left read]
      exact ih ended (endsInTag_construct room read)
    · replace room := Nat.not_lt.1 room
      refine .inr ⟨not_endsInTag room read further, tokens.size, room, ?_⟩
      rw [readAll_full room left]

/-! ## A tag with many attributes -/

def emptyAttribute : List Char := [' ', 'b', '=', '\'', '\'']

def longTag (n : Nat) : List Char :=
  ['<', 'a'] ++ (List.replicate n emptyAttribute).flatten ++ ['>']

theorem decodeAt_nil (p : Position) : decodeAt p [] = .ok "" := by
  rw [decodeAt, decode, CharRef.decodeFrom]
  rfl

theorem readAttribute_empty (tag p : Position) (rest : List Char) :
    ∃ t after,
      readAttribute tag (Cursor.mk (emptyAttribute ++ rest) p).skipBlanks = .ok (t, after) ∧
        after.rest = rest := by
  let front := (Cursor.mk (emptyAttribute ++ rest) p).skipBlanks
  let quoted : Cursor := ⟨'\'' :: '\'' :: rest, (front.pos.advance 'b').advance '='⟩
  let after : Cursor := ⟨rest, (quoted.pos.advance '\'').advance '\''⟩
  have value : readQuoted quoted = .ok ("", after) := by
    change (decodeAt _ []).map _ = _
    rw [decodeAt_nil]
    rfl
  refine ⟨⟨.attr "b" "", ⟨front.pos, after.pos⟩⟩, after, ?_, rfl⟩
  change (readQuoted quoted).bind _ = _
  rw [value]
  rfl

theorem readTagRest_long (tag p : Position) (tokens : Array SpannedToken) (n : Nat) :
    ∃ found c, readTagRest tag tokens ⟨(List.replicate n emptyAttribute).flatten ++ ['>'], p⟩
      = ⟨found, .ok c⟩ ∧ c.rest = [] ∧ found.size = tokens.size + n + 1 := by
  induction n generalizing p tokens with
  | zero =>
    rw [readTagRest]
    exact ⟨_, _, rfl, rfl, Array.size_push ..⟩
  | succ n ih =>
    rw [List.replicate_succ, List.flatten_cons, List.append_assoc]
    obtain ⟨t, after, read, left⟩ := readAttribute_empty tag p
      ((List.replicate n emptyAttribute).flatten ++ ['>'])
    obtain ⟨found, c, same, ended, size⟩ := ih after.pos (tokens.push t)
    refine ⟨found, c, ?_, ended, ?_⟩
    · rw [readTagRest]
      split
      · next closed => cases closed
      · next closed => cases closed
      · split
        · next failed => rw [read] at failed; cases failed
        · next t' after' read' =>
          rw [read] at read'
          cases read'
          rw [← left] at same
          exact same
    · rw [size, Array.size_push]
      omega

theorem readConstruct_long (n : Nat) : ∃ found c,
    readConstruct #[] ⟨longTag n, .start⟩ = ⟨found, .ok c⟩ ∧ c.rest = [] ∧ found.size = n + 2 := by
  let name : SpannedToken := ⟨.openTag "a", ⟨.start, (Position.start.advance '<').advance 'a'⟩⟩
  obtain ⟨found, c, same, ended, size⟩ :=
    readTagRest_long .start name.span.stop #[name] n
  refine ⟨found, c, ?_, ended, ?_⟩
  · rw [← same]
    cases n <;> rfl
  · rw [size, List.size_toArray, List.length_singleton]
    omega

end Lexer

/-! ## Texts -/

theorem LexMetrics.tokens_count (m : LexMetrics) (t : Token) :
    (m.count t).tokens = m.tokens + if decide (t ≠ .endOfInput) then 1 else 0 := by
  cases t <;> simp only [count, countText] <;> first | rfl | (split <;> rfl)

theorem LexMetrics.tokens_push_end {tokens : Array SpannedToken} (p : Position)
    (inside : ∀ t ∈ tokens, t.value ≠ .endOfInput) :
    (ofTokens (tokens.push ⟨.endOfInput, Span.point p⟩)).tokens = tokens.size := by
  rw [ofTokens_eq_countP tokens_count rfl, Array.toList_push, List.countP_append,
    List.countP_eq_length.2 fun t member =>
      decide_eq_true (inside t (Array.mem_toList_iff.1 member))]
  rfl

structure Counted (source : String) : Prop where
  /-- A text that is accepted is read to its end, and goes over the limit only by the tokens of one
  start tag. -/
  accepted : (Lexing.ofSource source).outcome = .ok () →
    ∃ tokens c, Lexer.Constructs #[] (.ofSource source) tokens c ∧ c.rest = [] ∧
      Lexer.EndsInTag tokens
  ended : ∀ tokens c, Lexer.Constructs #[] (.ofSource source) tokens c → c.rest = [] →
    Lexer.EndsInTag tokens →
      Lexing.ofSource source = ⟨tokens.push ⟨.endOfInput, Span.point c.pos⟩, .ok ()⟩
  /-- There are too many tokens where a construct begins at the limit or behind it. -/
  beyond : ∀ tokens c, Lexer.Constructs #[] (.ofSource source) tokens c → c.rest = [] →
    ¬ Lexer.EndsInTag tokens →
      ∃ n, Limit.tokens ≤ n ∧ (Lexing.ofSource source).outcome = .error (.tooManyTokens n)
  left : ∀ tokens c, Lexer.Constructs #[] (.ofSource source) tokens c → c.rest ≠ [] →
    Limit.tokens ≤ tokens.size →
      ∃ n, Limit.tokens ≤ n ∧ n ≤ tokens.size ∧
        (Lexing.ofSource source).outcome = .error (.tooManyTokens n)

/-- The limit holds for all tokens of a text: no more are accepted, and where more are read there
are too many. -/
structure Limited (source : String) : Prop where
  accepted : (Lexing.ofSource source).outcome = .ok () →
    (Lexing.ofSource source).metrics.tokens ≤ Limit.tokens
  beyond : ∀ tokens c, Lexer.Constructs #[] (.ofSource source) tokens c →
    Limit.tokens < tokens.size →
      ∃ n, (Lexing.ofSource source).outcome = .error (.tooManyTokens n)

theorem counted (source : String) : Counted source := by
  have room : Lexer.EndsInTag #[] := Lexer.endsInTag_of_room (by decide)
  refine ⟨fun accepted => ?_, fun tokens c all ended within => ?_,
    fun tokens c all ended beyond => ?_, fun tokens c => Lexer.readAll_of_left⟩
  · obtain ⟨tokens, c, run, ended, -⟩ := Lexer.run_of_readAll accepted
    obtain ⟨within, -⟩ | ⟨-, _, -, failed⟩ := Lexer.readAll_of_ended run.constructs ended room
    · exact ⟨tokens, c, run.constructs, ended, within⟩
    · cases failed.symm.trans accepted
  · obtain ⟨-, read⟩ | ⟨beyond, -⟩ := Lexer.readAll_of_ended all ended room
    · rw [Lexing.ofSource, read]
    · exact absurd within beyond
  · obtain ⟨within, -⟩ | ⟨-, failed⟩ := Lexer.readAll_of_ended all ended room
    · exact absurd within beyond
    · exact failed

/-- Texts are accepted or not by the tokens before the last construct, and the tokens of one start
tag are not counted before the next construct. So the limit holds for all tokens of a text unless
the last construct is a start tag that goes over it. -/
theorem counted_between_constructs (source : String) :
    Counted source ∧
      (Limited source ↔ ∀ tokens c, Lexer.Constructs #[] (.ofSource source) tokens c →
        c.rest = [] → Lexer.EndsInTag tokens → tokens.size ≤ Limit.tokens) := by
  have law := counted source
  refine ⟨law, fun limited tokens c all ended within => ?_, fun small => ⟨fun accepted => ?_, ?_⟩⟩
  · have read := law.ended tokens c all ended within
    have bound := limited.accepted (by rw [read])
    rwa [Lexing.metrics, read, LexMetrics.tokens_push_end c.pos all.inside] at bound
  · obtain ⟨tokens, c, all, ended, within⟩ := law.accepted accepted
    rw [Lexing.metrics, law.ended tokens c all ended within,
      LexMetrics.tokens_push_end c.pos all.inside]
    exact small tokens c all ended within
  · intro tokens c all more
    by_cases ended : c.rest = []
    · have beyond : ¬ Lexer.EndsInTag tokens :=
        fun within => Nat.not_le.2 more (small tokens c all ended within)
      obtain ⟨n, -, failed⟩ := law.beyond tokens c all ended beyond
      exact ⟨n, failed⟩
    · obtain ⟨n, -, -, failed⟩ := law.left tokens c all ended more.le
      exact ⟨n, failed⟩

theorem accepted_long (n : Nat) :
    (Lexing.ofSource (.ofList (Lexer.longTag n))).outcome = .ok () ∧
      (Lexing.ofSource (.ofList (Lexer.longTag n))).metrics.tokens = n + 2 := by
  obtain ⟨found, c, same, ended, size⟩ := Lexer.readConstruct_long n
  have start : Cursor.ofSource (.ofList (Lexer.longTag n)) = ⟨Lexer.longTag n, .start⟩ := by
    rw [Cursor.ofSource, String.toList_ofList]
  have read : (Lexer.readConstruct #[] ⟨Lexer.longTag n, .start⟩).next = .ok c := by rw [same]
  have all : Lexer.Constructs #[] ⟨Lexer.longTag n, .start⟩ found c :=
    .more (List.cons_ne_nil _ _) read (by rw [same]; exact .done)
  have whole : Lexer.readAll #[] ⟨Lexer.longTag n, .start⟩
      = (found.push ⟨.endOfInput, Span.point c.pos⟩, .ok ()) := by
    rw [Lexer.readAll_construct (by decide) (List.cons_ne_nil _ _) read, same, Lexer.readAll,
      dif_pos ended]
  rw [Lexing.ofSource, start, whole]
  exact ⟨rfl, (LexMetrics.tokens_push_end c.pos all.inside).trans size⟩

theorem not_limited_long {n : Nat} (many : Limit.tokens ≤ n) :
    ¬ Limited (.ofList (Lexer.longTag n)) := by
  intro limited
  obtain ⟨accepted, count⟩ := accepted_long n
  have bound := limited.accepted accepted
  omega

end Barrage.Markup
