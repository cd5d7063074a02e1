import Barrage.Markup.Lexer

/-!
The tokens of a whole text. Each construct takes something off the text, so reading ends; it ends
with a last token at the end of the text, or with the error of the first construct that fails.
-/

set_option autoImplicit false

namespace Barrage.Markup

namespace Lexer

theorem emit_next {tokens : Array SpannedToken} {token : Token} {start : Position}
    {next c : Cursor} (h : (emit tokens token start next).next = .ok c) : c = next := by
  simp only [emit, Except.ok.injEq] at h
  exact h.symm

theorem readTagRest_length_lt {tag : Position} {tokens : Array SpannedToken} {c c' : Cursor}
    (h : (readTagRest tag tokens c).next = .ok c') : c'.rest.length < c.rest.length := by
  fun_induction readTagRest tag tokens c with
  | case1 tokens c front rest hr =>
    have := c.skipBlanks_length_le
    have hr' : c.skipBlanks.rest.length = _ := congrArg List.length hr
    simp only [emit_next h, Cursor.past, List.length_cons] at *
    omega
  | case2 tokens c front rest hr =>
    have := c.skipBlanks_length_le
    have hr' : c.skipBlanks.rest.length = _ := congrArg List.length hr
    simp only [emit_next h, Cursor.past, List.length_cons] at *
    omega
  | case3 => simp at h
  | case4 tokens c front _ _ token after ha ih =>
    have := readAttribute_length_lt ‹readAttribute tag c.skipBlanks = _›
    have := c.skipBlanks_length_le
    have := ih h
    omega

theorem readVerbatim_length_lt {construct : Construct} {token : String → Token}
    {check : Position → List Char → Option LexError} {opening delimiter : List Char}
    {tokens : Array SpannedToken} {c c' : Cursor} (ho : opening ≠ []) (hc : c.rest ≠ [])
    (h : (readVerbatim construct token check opening delimiter tokens c).next = .ok c') :
    c'.rest.length < c.rest.length := by
  unfold readVerbatim at h
  split at h
  · simp at h
  · next content after hb =>
    split at h
    · simp at h
    · rw [emit_next h]
      have hb := Cursor.breakOn_length_le hb
      have := List.length_pos_iff.2 ho
      have := List.length_pos_iff.2 hc
      simp only [Cursor.past, List.length_drop] at hb
      omega

theorem doctypeContent?_length_lt {depth : Nat} {quote : Option Char}
    {seen cs content rest : List Char}
    (h : doctypeContent? depth quote seen cs = some (content, rest)) :
    rest.length < cs.length := by
  fun_induction doctypeContent? depth quote seen cs <;> grind

theorem readConstruct_length_lt {tokens : Array SpannedToken} {c c' : Cursor} (hc : c.rest ≠ [])
    (h : (readConstruct tokens c).next = .ok c') : c'.rest.length < c.rest.length := by
  unfold readConstruct at h
  split at h
  · exact readVerbatim_length_lt (by simp [commentOpening]) hc h
  split at h
  · exact readVerbatim_length_lt (by simp [cdataOpening]) hc h
  split at h
  · unfold readDoctype at h
    split at h
    · simp at h
    · next content rest hd =>
      rw [emit_next h]
      have := doctypeContent?_length_lt hd
      simp only [List.length_drop] at this
      simp only [Cursor.past]
      omega
  split at h
  · exact readVerbatim_length_lt (by simp) hc h
  · next r hr =>
    unfold readEndTag at h
    split at h
    · simp at h
    · next name afterName hn =>
      have h1 := readName_length_le hn
      have h2 := afterName.skipBlanks_length_le
      simp only [Cursor.past, hr, List.drop_succ_cons, List.drop_zero] at h1
      dsimp only at h
      split at h
      · next rest hs =>
        rw [emit_next h]
        have := congrArg List.length hs
        simp only [Cursor.past, hr, List.length_cons] at *
        omega
      · simp at h
      · simp at h
  · next r hr =>
    unfold readStartTag at h
    split at h
    · simp at h
    · next name afterName hn =>
      have h1 := readName_length_le hn
      have h2 := readTagRest_length_lt h
      simp only [Cursor.past, hr, List.drop_succ_cons, List.drop_zero] at h1
      simp only [hr, List.length_cons]
      omega
  · next _ _ hne =>
    unfold readText at h
    dsimp only at h
    split at h
    · simp at h
    · split at h
      · simp at h
      · rw [emit_next h]
        cases hr : c.rest with
        | nil => exact absurd hr hc
        | cons x xs =>
          have hx : x ≠ '<' := fun e => hne xs (by rw [hr, e])
          have hd : (x :: xs).dropWhile (fun y => decide (y ≠ '<'))
              = xs.dropWhile (fun y => decide (y ≠ '<')) := by
            simp [hx]
          have := Cursor.dropWhile_length_le (fun y => decide (y ≠ '<')) xs
          simp only [Cursor.past, hd, List.length_cons]
          omega

def readAll (tokens : Array SpannedToken) (c : Cursor) :
    Array SpannedToken × Except LexError Unit :=
  if _hc : c.rest = [] then (tokens.push ⟨.endOfInput, Span.point c.pos⟩, .ok ())
  else if tokens.size ≥ Limit.tokens then (tokens, .error (.tooManyTokens tokens.size))
  else
    let found := readConstruct tokens c
    match _h : found.next with
    | .error e => (found.tokens, .error e)
    | .ok next => readAll found.tokens next
termination_by c.rest.length
decreasing_by exact readConstruct_length_lt _hc _h

end Lexer

structure LexMetrics where
  tokens : Nat := 0
  elements : Nat := 0
  attributes : Nat := 0
  textRuns : Nat := 0
  comments : Nat := 0
  /-- The bytes of the longest text or CDATA that is not blank. -/
  longestText : Nat := 0
  deriving DecidableEq, Repr

namespace LexMetrics

def countText (m : LexMetrics) (content : String) : LexMetrics :=
  if Text.isBlankText content then m
  else { m with
    textRuns := m.textRuns + 1
    longestText := max m.longestText content.utf8ByteSize }

def count (m : LexMetrics) (t : Token) : LexMetrics :=
  match t with
  | .endOfInput => m
  | _ =>
    let m := { m with tokens := m.tokens + 1 }
    match t with
    | .openTag _ => { m with elements := m.elements + 1 }
    | .attr .. => { m with attributes := m.attributes + 1 }
    | .comment _ => { m with comments := m.comments + 1 }
    | .text content | .cdata content => m.countText content
    | _ => m

def ofTokens (tokens : Array SpannedToken) : LexMetrics :=
  tokens.foldl (fun m t => m.count t.value) {}

end LexMetrics

/-- The outcome of reading a text: the tokens, or an error and the tokens before it. -/
structure Lexing where
  tokens : Array SpannedToken
  outcome : Except LexError Unit

namespace Lexing

def ofSource (source : String) : Lexing :=
  let (tokens, outcome) := Lexer.readAll #[] (.ofSource source)
  { tokens, outcome }

def metrics (l : Lexing) : LexMetrics := .ofTokens l.tokens

end Lexing

end Barrage.Markup
