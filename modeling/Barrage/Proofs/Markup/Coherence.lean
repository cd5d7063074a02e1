import Barrage.Proofs.Markup.Pieces
import Barrage.Proofs.Markup.References

/-!
Positions of tokens and errors. The cursor, the skips of delimiters and the decoder of references
each move positions on their own, but always over what stands in the source. So every position that
is reported is the one behind some beginning of the source, and says so in bytes, lines and columns,
as long as these fit.
-/

set_option autoImplicit false

namespace Barrage

/-! ## Places in a source -/

/-- The position behind a beginning of a source. -/
def Position.In (source : List Char) (p : Position) : Prop :=
  ∃ before after, source = before ++ after ∧ p = Position.start.advanceAll before

/-- A position stands on a character boundary of a source, and counts the bytes before it, the line
feeds before it and the characters behind the last of these. -/
structure Position.Coherent (source : String) (p : Position) : Prop where
  counts : ∃ before after : String, source = before ++ after ∧
    p.offset = before.utf8ByteSize ∧
    (p.line : Nat) = 1 + before.toList.count '\n' ∧
    (p.column : Nat) = 1 + (before.toList.reverse.takeWhile (· ≠ '\n')).length
  inside : p.offset ≤ source.utf8ByteSize

theorem Text.byteLength_toList (s : String) : Text.byteLength s.toList = s.utf8ByteSize := by
  obtain ⟨cs, rfl⟩ : ∃ cs, s = String.ofList cs := ⟨s.toList, String.ofList_toList.symm⟩
  rw [String.toList_ofList]
  induction cs with
  | nil => rfl
  | cons c cs ih =>
    rw [Text.byteLength_cons, ih, String.ofList_cons, String.utf8ByteSize_append,
      String.utf8ByteSize_singleton]

namespace Position

theorem start_advanceAll (before : List Char) : Position.start.advanceAll before =
    ⟨Text.byteLength before, (1 + before.count '\n' : Nat),
      (1 + (before.reverse.takeWhile (· ≠ '\n')).length : Nat)⟩ := by
  induction before using List.reverseRecOn with
  | nil => rfl
  | append_singleton before c ih =>
    rw [advanceAll_append, ih, advanceAll_cons, advanceAll_nil]
    have bytes : '\n'.utf8Size = 1 := by decide
    by_cases feed : c = '\n'
    · simp [advance, feed, bytes, UInt32.ofNat_add, UInt32.add_assoc]
    · simp [advance, feed, UInt32.ofNat_add, UInt32.add_comm 1]

section Fits

variable {before : List Char} (short : Text.byteLength before + 1 < UInt32.size)
include short

theorem line_of_short :
    ((Position.start.advanceAll before).line : Nat) = 1 + before.count '\n' := by
  have feeds := List.count_le_length (a := '\n') (l := before)
  have bytes := Markup.length_le_byteLength before
  rw [start_advanceAll]
  exact UInt32.toNat_ofNat_of_lt' (show _ < UInt32.size by omega)

theorem column_of_short : ((Position.start.advanceAll before).column : Nat) =
    1 + (before.reverse.takeWhile (· ≠ '\n')).length := by
  have run := (List.takeWhile_sublist (· ≠ '\n') (l := before.reverse)).length_le
  have bytes := Markup.length_le_byteLength before
  rw [List.length_reverse] at run
  rw [start_advanceAll]
  exact UInt32.toNat_ofNat_of_lt' (show _ < UInt32.size by omega)

end Fits

/-- In a short source, lines and columns do not start again. -/
theorem In.coherent {source : String} {p : Position} (place : p.In source.toList)
    (short : source.utf8ByteSize + 1 < UInt32.size) : p.Coherent source := by
  obtain ⟨before, after, split, rfl⟩ := place
  have whole : source = String.ofList before ++ String.ofList after := by
    rw [← String.ofList_append, ← split, String.ofList_toList]
  have bytes : Text.byteLength before = (String.ofList before).utf8ByteSize := by
    rw [← Text.byteLength_toList, String.toList_ofList]
  have inside : Text.byteLength before ≤ source.utf8ByteSize := by
    rw [whole, String.utf8ByteSize_append, bytes]
    exact Nat.le_add_right ..
  have fits : Text.byteLength before + 1 < UInt32.size := by omega
  have offset : (Position.start.advanceAll before).offset = Text.byteLength before := by
    rw [start_advanceAll]
  refine ⟨⟨String.ofList before, String.ofList after, whole, offset.trans bytes, ?_, ?_⟩,
    offset ▸ inside⟩
  · rw [String.toList_ofList, line_of_short fits]
  · rw [String.toList_ofList, column_of_short fits]

end Position

namespace Markup

/-! ## Reading -/

/-- What is left is a rest of the source, at its position. -/
def Cursor.On (source : List Char) (c : Cursor) : Prop :=
  ∃ before, source = before ++ c.rest ∧ c.pos = Position.start.advanceAll before

namespace Cursor.On

variable {source front back : List Char} {c c' : Cursor}

theorem moves (on : c.On source) (moved : c.Moves front c') : c'.On source := by
  obtain ⟨before, split, place⟩ := on
  refine ⟨before ++ front, ?_, ?_⟩
  · rw [split, moved.rest, List.append_assoc]
  · rw [moved.pos, place, Position.advanceAll_append]

theorem inside (on : c.On source) (ahead : c.rest = front ++ back) :
    (c.pos.advanceAll front).In source := by
  obtain ⟨before, split, place⟩ := on
  refine ⟨before ++ front, back, ?_, ?_⟩
  · rw [split, ahead, List.append_assoc]
  · rw [place, Position.advanceAll_append]

theorem pos (on : c.On source) : c.pos.In source := by
  have place : (c.pos.advanceAll []).In source := on.inside rfl
  exact place

theorem skipBlanks (on : c.On source) : c.skipBlanks.On source := by
  obtain ⟨gap, -, moved⟩ := c.moves_skipBlanks
  exact on.moves moved

end Cursor.On

namespace Lexer

/-- An outcome is good, or an error with a place in the source if it has any. -/
def Stays {α : Type} (source : List Char) (good : α → Prop) : Except LexError α → Prop
  | .ok a => good a
  | .error e => ∀ p ∈ e.position?, p.In source

variable {source : List Char} {c : Cursor} {tag : Position}

theorem Stays.bind {α β : Type} {good : α → Prop} {better : β → Prop} {x : Except LexError α}
    {f : α → Except LexError β} (first : Stays source good x)
    (further : ∀ a, good a → Stays source better (f a)) : Stays source better (x.bind f) := by
  cases x with
  | error e => exact first
  | ok a => exact further a first

theorem Stays.failed {α : Type} {good : α → Prop} {e : LexError} {p : Position}
    (place : p.In source) (placed : e.position? = some p) :
    Stays source good (.error e) := by
  intro q same
  rw [placed] at same
  exact Option.some.inj same ▸ place

theorem stays_readName {construct : Construct} (on : c.On source) (start : tag.In source) :
    Stays source (fun r => r.2.On source) (readName construct tag c) := by
  unfold readName
  split
  · exact .failed start rfl
  · split
    · dsimp only
      split
      · exact .failed on.pos rfl
      · exact on.moves (Cursor.moves_past List.takeWhile_append_dropWhile.symm)
    · exact .failed on.pos rfl

theorem stays_decodeAt {raw back : List Char} (on : c.On source) (ahead : c.rest = raw ++ back) :
    Stays source (fun _ => True) (decodeAt c.pos raw) := by
  unfold decodeAt
  split
  · trivial
  · next bad stops =>
    rcases allBegin_or_firstBare Markup.Taken raw with all | ⟨before, after, first⟩
    · obtain ⟨content, read⟩ := (judges_taken c.pos raw).accepts_iff.2 all
      rw [stops] at read
      cases read
    · obtain ⟨name, stops'⟩ := (judges_taken c.pos raw).rejects before after first
      rw [stops] at stops'
      cases stops'
      rw [first.split, List.append_assoc] at ahead
      exact .failed (on.inside ahead) rfl

theorem stays_readValue {quote : Char} (on : c.On source) (start : tag.In source) :
    Stays source (fun r => r.2.On source) (readValue tag quote c) := by
  unfold readValue
  split
  · exact .failed start rfl
  · next raw after broken =>
    have moved := Cursor.moves_breakOn broken
    have ahead := moved.rest
    rw [List.append_assoc] at ahead
    dsimp only
    split
    · exact .failed on.pos rfl
    split
    · have less : c.rest = raw.takeWhile (· ≠ '<') ++
          (raw.dropWhile (· ≠ '<') ++ ([quote] ++ after.rest)) := by
        rw [ahead, ← List.append_assoc (raw.takeWhile _), List.takeWhile_append_dropWhile]
      exact .failed (on.inside less) rfl
    · exact (stays_decodeAt on ahead).bind fun value _ => on.moves moved

theorem stays_readQuoted (on : c.On source) :
    Stays source (fun r => r.2.On source) (readQuoted c) := by
  unfold readQuoted
  split
  · exact .failed on.pos rfl
  · next q rest same =>
    split
    · exact stays_readValue (on.moves (Cursor.moves_past same)) on.pos
    · exact .failed on.pos rfl

theorem stays_readEquals (on : c.On source) (start : tag.In source) :
    Stays source (·.On source) (readEquals tag c) := by
  unfold readEquals
  split
  · exact .failed start rfl
  · next x rest same =>
    split
    · exact on.moves (Cursor.moves_past same)
    · exact .failed on.pos rfl

def Ranges (source : List Char) (t : SpannedToken) : Prop :=
  t.span.start.In source ∧ t.span.stop.In source

theorem stays_readAttribute (on : c.On source) (start : tag.In source) :
    Stays source (fun r => Ranges source r.1 ∧ r.2.On source) (readAttribute tag c) := by
  unfold readAttribute
  refine (stays_readName on start).bind fun ⟨name, afterName⟩ on₁ => ?_
  refine (stays_readEquals on₁.skipBlanks start).bind fun afterEquals on₂ => ?_
  refine (stays_readQuoted on₂.skipBlanks).bind fun ⟨value, after⟩ on₃ => ?_
  exact ⟨⟨on.pos, on₃.pos⟩, on₃⟩

structure Found.Stays (source : List Char) (found : Found) : Prop where
  tokens : ∀ t ∈ found.tokens, Ranges source t
  next : Lexer.Stays source (·.On source) found.next

variable {tokens : Array SpannedToken}

theorem ranges_push {t : SpannedToken} (before : ∀ t ∈ tokens, Ranges source t)
    (last : Ranges source t) : ∀ u ∈ tokens.push t, Ranges source u := by
  intro u inside
  rcases Array.mem_push.1 inside with old | rfl
  · exact before u old
  · exact last

theorem Found.Stays.emit {token : Token} {start : Position} (before : ∀ t ∈ tokens, Ranges source t)
    (begins : start.In source) (on : c.On source) :
    Found.Stays source (emit tokens token start c) :=
  ⟨ranges_push before ⟨begins, on.pos⟩, on⟩

theorem Found.Stays.failed {e : LexError} {p : Position} (before : ∀ t ∈ tokens, Ranges source t)
    (place : p.In source) (placed : e.position? = some p) :
    Found.Stays source ⟨tokens, .error e⟩ :=
  ⟨before, .failed place placed⟩

theorem stays_readTagRest (before : ∀ t ∈ tokens, Ranges source t) (on : c.On source)
    (start : tag.In source) : Found.Stays source (readTagRest tag tokens c) := by
  fun_induction readTagRest tag tokens c with
  | case1 tokens c front rest same =>
    exact .emit before on.skipBlanks.pos (on.skipBlanks.moves (Cursor.moves_past same))
  | case2 tokens c front rest same =>
    exact .emit before on.skipBlanks.pos (on.skipBlanks.moves (Cursor.moves_past same))
  | case3 tokens c front e failed =>
    have stays := stays_readAttribute on.skipBlanks start
    rw [failed] at stays
    exact ⟨before, stays⟩
  | case4 tokens c front token after read _ _ ih =>
    have stays := stays_readAttribute on.skipBlanks start
    rw [read] at stays
    exact ih (ranges_push before stays.1) stays.2

theorem stays_readVerbatim {construct : Construct} {token : String → Token}
    {check : Position → List Char → Option LexError} {opening delimiter : List Char}
    (before : ∀ t ∈ tokens, Ranges source t) (on : c.On source)
    (ahead : opening.isPrefixOf c.rest)
    (places : ∀ p content, ∀ e ∈ check p content, e.position? = some p) :
    Found.Stays source (readVerbatim construct token check opening delimiter tokens c) := by
  unfold readVerbatim
  split
  · exact .failed before on.pos rfl
  · next content after broken =>
    split
    · next e refused => exact .failed before on.pos (places _ _ e refused)
    · have inner := on.moves (Cursor.moves_past (rest_eq_of_isPrefixOf ahead))
      exact .emit before on.pos (inner.moves (Cursor.moves_breakOn broken))

theorem stays_readDoctype (before : ∀ t ∈ tokens, Ranges source t) (on : c.On source)
    (ahead : doctypeOpening.isPrefixOf c.rest) : Found.Stays source (readDoctype tokens c) := by
  unfold readDoctype
  split
  · exact .failed before on.pos rfl
  · next content rest found =>
    have same := rest_eq_of_doctypeContent? ahead found
    exact .emit before on.pos (on.moves (Cursor.moves_past same))

theorem stays_readEndTag {rest : List Char} (before : ∀ t ∈ tokens, Ranges source t)
    (on : c.On source) (ahead : c.rest = '<' :: '/' :: rest) :
    Found.Stays source (readEndTag tokens c) := by
  have same : c.rest = ['<', '/'] ++ c.rest.drop 2 := by
    rw [ahead]
    rfl
  have named : Stays source (fun r => r.2.On source)
      (readName .endTag c.pos (c.past ['<', '/'] (c.rest.drop 2))) :=
    stays_readName (on.moves (Cursor.moves_past same)) on.pos
  unfold readEndTag
  split
  · next e failed =>
    rw [failed] at named
    exact ⟨before, named⟩
  · next name afterName read =>
    rw [read] at named
    have close : afterName.skipBlanks.On source := Cursor.On.skipBlanks named
    dsimp only
    split
    · next rest closes => exact .emit before on.pos (close.moves (Cursor.moves_past closes))
    · exact .failed before close.pos rfl
    · exact .failed before on.pos rfl

theorem stays_readStartTag {rest : List Char} (before : ∀ t ∈ tokens, Ranges source t)
    (on : c.On source) (ahead : c.rest = '<' :: rest) :
    Found.Stays source (readStartTag tokens c) := by
  have same : c.rest = ['<'] ++ c.rest.drop 1 := by
    rw [ahead]
    rfl
  have named : Stays source (fun r => r.2.On source)
      (readName .startTag c.pos (c.past ['<'] (c.rest.drop 1))) :=
    stays_readName (on.moves (Cursor.moves_past same)) on.pos
  unfold readStartTag
  split
  · next e failed =>
    rw [failed] at named
    exact ⟨before, named⟩
  · next name afterName read =>
    rw [read] at named
    exact stays_readTagRest (ranges_push before ⟨on.pos, Cursor.On.pos named⟩) named on.pos

theorem stays_readText (before : ∀ t ∈ tokens, Ranges source t) (on : c.On source) :
    Found.Stays source (readText tokens c) := by
  have ahead : c.rest = _ := List.takeWhile_append_dropWhile (p := (· ≠ '<')).symm
  have decoded := stays_decodeAt on ahead
  unfold readText
  dsimp only
  split
  · exact .failed before on.pos rfl
  split
  · next e failed =>
    rw [failed] at decoded
    exact ⟨before, decoded⟩
  · exact .emit before on.pos (on.moves (Cursor.moves_past ahead))

theorem stays_readConstruct (before : ∀ t ∈ tokens, Ranges source t) (on : c.On source) :
    Found.Stays source (readConstruct tokens c) := by
  unfold readConstruct
  split
  · next ahead =>
    refine stays_readVerbatim before on ahead fun p content e refused => ?_
    split at refused
    · cases refused
      rfl
    · cases refused
  split
  · next ahead =>
    refine stays_readVerbatim before on ahead fun p content e refused => ?_
    dsimp only at refused
    split at refused
    · cases refused
      rfl
    · cases refused
  split
  · next ahead => exact stays_readDoctype before on ahead
  split
  · next ahead => exact stays_readVerbatim before on (by rw [ahead]; rfl) nofun
  · next ahead => exact stays_readEndTag before on ahead
  · next ahead => exact stays_readStartTag before on ahead
  · exact stays_readText before on

theorem stays_readAll (before : ∀ t ∈ tokens, Ranges source t) (on : c.On source) :
    (∀ t ∈ (readAll tokens c).1, Ranges source t) ∧
      Stays source (fun _ => True) (readAll tokens c).2 := by
  fun_induction readAll tokens c with
  | case1 tokens c ended => exact ⟨ranges_push before ⟨on.pos, on.pos⟩, trivial⟩
  | case2 tokens c left full => exact ⟨before, fun p placed => by cases placed⟩
  | case3 tokens c left room found e failed =>
    have stays := stays_readConstruct before on
    have next := stays.next
    rw [failed] at next
    exact ⟨stays.tokens, next⟩
  | case4 tokens c left room found next after ih =>
    have stays := stays_readConstruct before on
    have further := stays.next
    rw [after] at further
    exact ih stays.tokens further

end Lexer

/-! ## Single declarations -/

theorem breakOn_of_notMem {mark : Char} {marks front : List Char} (plain : mark ∉ front)
    (back : List Char) :
    Text.breakOn (mark :: marks) (front ++ (mark :: marks ++ back)) = some (front, back) := by
  have found : ∀ seen, Text.breakOnFrom (mark :: marks) seen (front ++ (mark :: marks ++ back)) =
      some (seen.reverse ++ front, back) := by
    induction front with
    | nil =>
      intro seen
      have here : (mark :: marks).isPrefixOf (mark :: marks ++ back) :=
        List.isPrefixOf_iff_prefix.2 (List.prefix_append _ _)
      rw [List.nil_append, List.cons_append, Text.breakOnFrom, ← List.cons_append, if_pos here,
        List.drop_left, List.append_nil]
    | cons c front ih =>
      intro seen
      rw [List.mem_cons, not_or] at plain
      rw [List.cons_append, Text.breakOnFrom, if_neg (by simp [List.isPrefixOf, plain.1]),
        ih plain.2, List.reverse_cons, List.append_assoc, List.singleton_append]
  exact found []

theorem Lexer.readVerbatim_spelled {construct : Construct} {token : String → Token}
    {check : Position → List Char → Option LexError} {tokens : Array SpannedToken} {p : Position}
    {opening content marks behind : List Char} {mark : Char} (plain : mark ∉ content)
    (fine : check p content = none) :
    readVerbatim construct token check opening (mark :: marks) tokens
        ⟨opening ++ (content ++ (mark :: marks ++ behind)), p⟩ =
      emit tokens (token (String.ofList content)) p
        ⟨behind, p.advanceAll (opening ++ (content ++ mark :: marks))⟩ := by
  simp only [readVerbatim, Cursor.breakOn, Cursor.past, List.drop_left, breakOn_of_notMem plain,
    Option.map_some, fine, Position.advanceAll_append]

def declared (content behind : List Char) : String :=
  String.ofList (['<', '?'] ++ (content ++ (['?', '>'] ++ behind)))

theorem Lexer.readConstruct_declared {content : List Char} (plain : '?' ∉ content)
    (behind : List Char) : readConstruct #[] (.ofSource (declared content behind)) =
      emit #[] (.declaration (String.ofList content)) .start
        ⟨behind, Position.start.advanceAll (['<', '?'] ++ (content ++ ['?', '>']))⟩ := by
  have opened : readConstruct #[] (.ofSource (declared content behind)) =
      readDeclaration #[] ⟨['<', '?'] ++ (content ++ (['?', '>'] ++ behind)), .start⟩ := by
    rw [Cursor.ofSource, declared, String.toList_ofList]
    rfl
  have fine : (fun (_ : Position) (_ : List Char) => (none : Option LexError)) .start content =
      none := rfl
  exact opened.trans (readVerbatim_spelled plain fine)

section LongLine

variable {n : Nat}

theorem byteLength_replicate (c : Char) :
    Text.byteLength (List.replicate n c) = n * c.utf8Size := by
  induction n with
  | zero => simp
  | succ n ih => rw [List.replicate_succ, Text.byteLength_cons, ih, Nat.succ_mul, Nat.add_comm]

theorem utf8ByteSize_declared : (declared (List.replicate n 'a') []).utf8ByteSize = n + 4 := by
  have one : 'a'.utf8Size = 1 ∧ '<'.utf8Size = 1 ∧ '?'.utf8Size = 1 ∧ '>'.utf8Size = 1 := by decide
  rw [← Text.byteLength_toList, declared, String.toList_ofList]
  simp only [Text.byteLength_append, Text.byteLength_cons, Text.byteLength_nil,
    byteLength_replicate, one]
  omega

theorem column_declared : (Position.start.advanceAll
    (['<', '?'] ++ (List.replicate n 'a' ++ ['?', '>']))).column = (n + 5 : Nat) := by
  have noFeed : ∀ c ∈ (['<', '?'] ++ (List.replicate n 'a' ++ ['?', '>'])).reverse,
      decide (c ≠ '\n') := by
    intro c member
    simp only [List.mem_reverse, List.mem_append, List.mem_replicate, List.mem_cons,
      List.not_mem_nil, or_false] at member
    rcases member with (rfl | rfl) | ⟨-, rfl⟩ | rfl | rfl <;> decide
  rw [Position.start_advanceAll, List.takeWhile_eq_self_iff.2 noFeed, List.length_reverse]
  refine congrArg UInt32.ofNat ?_
  simp only [List.length_append, List.length_replicate, List.length_cons, List.length_nil]
  omega

theorem incoherent_of_wraps (small : n + 4 < UInt32.size) (again : ((n + 5 : Nat) : UInt32) = 0) :
    (declared (List.replicate n 'a') []).utf8ByteSize < UInt32.size ∧
      ∃ t ∈ (Lexing.ofSource (declared (List.replicate n 'a') [])).tokens,
        ¬ t.span.stop.Coherent (declared (List.replicate n 'a') []) := by
  have plain : '?' ∉ List.replicate n 'a' := by simp [List.mem_replicate]
  have read := Lexer.readConstruct_declared plain []
  have all := (Lexer.Run.construct (by simp [Cursor.ofSource, declared]) (by decide)
    (congrArg Lexer.Found.next read) .done).readAll_eq rfl
  rw [utf8ByteSize_declared, Lexing.ofSource, all]
  refine ⟨small, _, Array.mem_push_self, ?_⟩
  rintro ⟨⟨before, _, -, -, -, counted⟩, -⟩
  have zero := congrArg UInt32.toNat (column_declared.trans again)
  exact absurd (counted.symm.trans zero) (Nat.ne_of_gt (Nat.le_add_right 1 _))

end LongLine

/-! ## Whole texts -/

end Markup

end Barrage
