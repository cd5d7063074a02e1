import Barrage.Proofs.Markup.Tiling

/-!
What is read does not depend on what is around it. If the end of a text is cut off behind what a
reader takes, the reader takes the same from what is left, wherever this stands; so a piece of a
text that begins and ends between two constructs is read by itself as it is read inside the text.
-/

set_option autoImplicit false

namespace Barrage.Markup

variable {back raw : List Char}

/-- A run that ends before the end of a text is not longer there than without that end. -/
theorem takeWhile_cut {p : Char → Bool} {cs : List Char}
    (within : back.length ≤ ((cs ++ back).dropWhile p).length) :
    (cs ++ back).takeWhile p = cs.takeWhile p ∧
      (cs ++ back).dropWhile p = cs.dropWhile p ++ back := by
  induction cs with
  | nil =>
    have all : back.dropWhile p = back := (List.dropWhile_sublist p).eq_of_length_le within
    have split := @List.takeWhile_append_dropWhile _ p back
    rw [all] at split
    exact ⟨List.append_left_eq_self.1 split, all⟩
  | cons c cs ih =>
    rw [List.cons_append] at within ⊢
    by_cases goesOn : p c
    · rw [List.dropWhile_cons_of_pos goesOn] at within ⊢
      obtain ⟨taken, left⟩ := ih within
      rw [List.takeWhile_cons_of_pos goesOn, List.takeWhile_cons_of_pos goesOn,
        List.dropWhile_cons_of_pos goesOn, taken, left]
      exact ⟨rfl, rfl⟩
    · rw [List.takeWhile_cons_of_neg goesOn, List.takeWhile_cons_of_neg goesOn,
        List.dropWhile_cons_of_neg goesOn, List.dropWhile_cons_of_neg goesOn]
      exact ⟨rfl, rfl⟩

theorem isPrefixOf_append {opening cs : List Char} (ahead : opening.isPrefixOf cs) :
    opening.isPrefixOf (cs ++ back) :=
  List.isPrefixOf_iff_prefix.2
    ((List.isPrefixOf_iff_prefix.1 ahead).trans (List.prefix_append _ _))

theorem breakOnFrom_length {delimiter seen cs before after : List Char}
    (broken : Text.breakOnFrom delimiter seen cs = some (before, after)) :
    delimiter.length + after.length ≤ cs.length := by
  induction cs generalizing seen with
  | nil =>
    rw [Text.breakOnFrom] at broken
    split at broken
    · next empty =>
      cases broken
      simpa using empty
    · cases broken
  | cons c cs ih =>
    rw [Text.breakOnFrom] at broken
    split at broken
    · next here =>
      cases broken
      have fits := (List.isPrefixOf_iff_prefix.1 here).length_le
      rw [List.length_drop]
      omega
    · exact Nat.le_succ_of_le (ih broken)

theorem breakOnFrom_cut {delimiter seen cs before after : List Char} (nonempty : delimiter ≠ [])
    (broken : Text.breakOnFrom delimiter seen (cs ++ back) = some (before, after))
    (within : back.length ≤ after.length) :
    ∃ after', Text.breakOnFrom delimiter seen cs = some (before, after') ∧
      after = after' ++ back := by
  have long := List.length_pos_iff.2 nonempty
  induction cs generalizing seen with
  | nil =>
    have fits := breakOnFrom_length broken
    rw [List.nil_append] at fits
    omega
  | cons c cs ih =>
    rw [List.cons_append, Text.breakOnFrom, ← List.cons_append] at broken
    rw [Text.breakOnFrom]
    split at broken
    · next here =>
      cases broken
      rw [List.length_drop, List.length_append] at within
      have fits : delimiter.length ≤ (c :: cs).length := by
        have fits := (List.isPrefixOf_iff_prefix.1 here).length_le
        rw [List.length_append] at fits
        omega
      have here' : delimiter <+: c :: cs := List.prefix_of_prefix_length_le
        (List.isPrefixOf_iff_prefix.1 here) (List.prefix_append _ _) fits
      rw [if_pos (List.isPrefixOf_iff_prefix.2 here')]
      exact ⟨_, rfl, List.drop_append_of_le_length fits⟩
    · next other =>
      rw [if_neg (mt isPrefixOf_append other)]
      exact ih broken

theorem doctypeContent?_cut {depth : Nat} {quote : Option Char}
    {seen cs content rest : List Char}
    (found : Lexer.doctypeContent? depth quote seen (cs ++ back) = some (content, rest))
    (within : back.length ≤ rest.length) :
    ∃ rest', Lexer.doctypeContent? depth quote seen cs = some (content, rest') ∧
      rest = rest' ++ back := by
  induction cs generalizing depth quote seen with
  | nil =>
    have shorter := Lexer.doctypeContent?_length_lt found
    rw [List.nil_append] at shorter
    omega
  | cons c cs ih =>
    rw [List.cons_append] at found
    cases quote with
    | some q =>
      rw [Lexer.doctypeContent?] at found ⊢
      exact ih found
    | none =>
      rw [Lexer.doctypeContent?] at found ⊢
      split at found
      · next opens =>
        rw [if_pos opens]
        exact ih found
      split at found
      · next plain deeper =>
        rw [if_neg plain, if_pos deeper]
        exact ih found
      split at found
      · next plain flat closes =>
        rw [if_neg plain, if_neg flat, if_pos closes]
        exact ih found
      split at found
      · next plain flat notOpening ends =>
        cases found
        rw [if_neg plain, if_neg flat, if_neg notOpening, if_pos ends]
        exact ⟨cs, rfl, rfl⟩
      · next plain flat notOpening inside =>
        rw [if_neg plain, if_neg flat, if_neg notOpening, if_neg inside]
        exact ih found

namespace Cursor

/-- The text of one cursor is that of another one without its end. They may stand at different
places. -/
def Cut (back : List Char) (c d : Cursor) : Prop := c.rest = d.rest ++ back

variable {c c' d : Cursor}

namespace Cut

theorem length_eq (cut : c.Cut back d) : c.rest.length = d.rest.length + back.length := by
  rw [cut, List.length_append]

theorem nonempty (cut : c.Cut back d) (longer : back.length < c.rest.length) : d.rest ≠ [] := by
  rw [← List.length_pos_iff]
  have := cut.length_eq
  omega

theorem skipBlanks (cut : c.Cut back d) (within : back.length ≤ c.skipBlanks.rest.length) :
    c.skipBlanks.Cut back d.skipBlanks := by
  rw [Cursor.skipBlanks, past, cut] at within
  rw [Cut, Cursor.skipBlanks, past, cut]
  exact (takeWhile_cut within).2

theorem opening {rest : List Char} (cut : c.Cut back d) (opening : List Char)
    (ahead : c.rest = opening ++ rest) (within : back.length ≤ rest.length) :
    ∃ rest', d.rest = opening ++ rest' ∧ rest = rest' ++ back := by
  obtain ⟨extra, same, behind⟩ | found :=
    List.append_eq_append_iff.1 ((Eq.symm cut).trans ahead)
  · have noExtra : extra = [] := by
      rw [← List.length_eq_zero_iff]
      rw [behind, List.length_append] at within
      omega
    subst noExtra
    exact ⟨[], by simpa using same.symm, behind.symm⟩
  · exact found

theorem not_opening {opening : List Char} (cut : c.Cut back d)
    (other : ¬ opening.isPrefixOf c.rest) : ¬ opening.isPrefixOf d.rest := by
  rw [cut] at other
  exact mt isPrefixOf_append other

theorem breakOn {delimiter before : List Char} (cut : c.Cut back d) (nonempty : delimiter ≠ [])
    (broken : c.breakOn delimiter = some (before, c')) (within : back.length ≤ c'.rest.length) :
    ∃ d', d.breakOn delimiter = some (before, d') ∧ c'.Cut back d' := by
  obtain ⟨⟨before', after⟩, found, same⟩ := Option.map_eq_some_iff.1 broken
  cases same
  rw [Text.breakOn, cut] at found
  obtain ⟨after', found', same⟩ := breakOnFrom_cut nonempty found within
  exact ⟨_, Option.map_eq_some_iff.2 ⟨_, found', rfl⟩, same⟩

end Cut

end Cursor

namespace Lexer

open Cursor (Cut)

variable {c c' d : Cursor} {name value : String}

theorem decodeAt_position {p : Position} (decoded : decodeAt p raw = .ok value) (q : Position) :
    decodeAt q raw = .ok value := by
  rw [decodeAt, Decodes.of_decodeAt decoded q]
  exact congrArg Except.ok String.ofList_toList

/-! ## Names and attributes -/

theorem readName_cut {construct : Construct} {start : Position} (cut : c.Cut back d)
    (read : readName construct start c = .ok (name, c')) (within : back.length ≤ c'.rest.length)
    (start' : Position) :
    ∃ d', readName construct start' d = .ok (name, d') ∧ c'.Cut back d' := by
  unfold readName at read
  split at read
  · cases read
  · next x rest same =>
    split at read
    · next begins =>
      dsimp only at read
      split at read
      · cases read
      · next short =>
        cases read
        have left : d.rest ≠ [] := by
          refine cut.nonempty (Nat.lt_of_le_of_lt within ?_)
          rw [Cursor.past, same, List.dropWhile_cons_of_pos (isNameChar_of_isNameStart begins)]
          exact Nat.lt_succ_of_le (Cursor.dropWhile_length_le _ _)
        obtain ⟨y, rest', same'⟩ := List.exists_cons_of_ne_nil left
        obtain rfl : y = x := by
          rw [cut, same'] at same
          exact (List.cons.inj same).1
        dsimp only [Cursor.past] at within
        rw [cut] at within short ⊢
        obtain ⟨taken, behind⟩ := takeWhile_cut within
        rw [taken] at short ⊢
        refine ⟨d.past (d.rest.takeWhile isNameChar) (d.rest.dropWhile isNameChar), ?_, behind⟩
        unfold readName
        rw [same'] at short ⊢
        dsimp only
        rw [if_pos begins, if_neg short]
    · cases read

theorem readEquals_cut {tag : Position} (cut : c.Cut back d) (read : readEquals tag c = .ok c')
    (within : back.length ≤ c'.rest.length) (tag' : Position) :
    ∃ d', readEquals tag' d = .ok d' ∧ c'.Cut back d' := by
  obtain ⟨rest, ahead, behind⟩ := cut.opening _ (readEquals_moves read).rest within
  refine ⟨d.past ['='] rest, ?_, behind⟩
  rw [readEquals, ahead]
  rfl

theorem readQuoted_cut (cut : c.Cut back d) (read : readQuoted c = .ok (value, c'))
    (within : back.length ≤ c'.rest.length) :
    ∃ d', readQuoted d = .ok (value, d') ∧ c'.Cut back d' := by
  unfold readQuoted at read
  split at read
  · cases read
  · next quote rest same =>
    split at read
    · next quoted =>
      have left : d.rest ≠ [] := by
        refine cut.nonempty (Nat.lt_of_le_of_lt (within.trans (readValue_length_le read)) ?_)
        rw [Cursor.past, same]
        exact Nat.lt_succ_self _
      obtain ⟨quote', rest', same'⟩ := List.exists_cons_of_ne_nil left
      obtain ⟨rfl, behind⟩ : quote' = quote ∧ rest' ++ back = rest := by
        rw [cut, same'] at same
        exact List.cons.inj same
      unfold readValue at read
      split at read
      · cases read
      · next raw after broken =>
        dsimp only at read
        split at read
        · cases read
        split at read
        · cases read
        next short plain =>
        obtain ⟨value', decoded, same''⟩ := of_bind_eq_ok read
        cases same''
        have cut' : (c.past [quote'] rest).Cut back (d.past [quote'] rest') := behind.symm
        obtain ⟨d', broken', cut''⟩ := cut'.breakOn (List.cons_ne_nil _ _) broken within
        refine ⟨d', ?_, cut''⟩
        rw [readQuoted, same']
        dsimp only
        rw [if_pos quoted, readValue, broken']
        dsimp only
        rw [if_neg short, if_neg plain, decodeAt_position decoded]
        rfl
    · cases read

theorem readAttribute_cut {tag : Position} {t : SpannedToken} (cut : c.Cut back d)
    (read : readAttribute tag c = .ok (t, c')) (within : back.length ≤ c'.rest.length)
    (tag' : Position) :
    ∃ t' d', readAttribute tag' d = .ok (t', d') ∧ t'.value = t.value ∧ c'.Cut back d' := by
  obtain ⟨⟨name, afterName⟩, named, read⟩ := of_bind_eq_ok read
  obtain ⟨afterEquals, equals, read⟩ := of_bind_eq_ok read
  obtain ⟨⟨value, after⟩, valued, same⟩ := of_bind_eq_ok read
  cases same
  have behindQuote := within.trans (readQuoted_length_lt valued).le
  have behindEquals := behindQuote.trans afterEquals.skipBlanks_length_le
  have behindBlanks := behindEquals.trans (readEquals_length_le equals)
  have behindName := behindBlanks.trans afterName.skipBlanks_length_le
  obtain ⟨d₁, named', cut₁⟩ := readName_cut cut named behindName tag'
  obtain ⟨d₂, equals', cut₂⟩ :=
    readEquals_cut (cut₁.skipBlanks behindBlanks) equals behindEquals tag'
  obtain ⟨d₃, valued', cut₃⟩ := readQuoted_cut (cut₂.skipBlanks behindQuote) valued within
  refine ⟨⟨.attr name value, ⟨d.pos, d₃.pos⟩⟩, d₃, ?_, rfl, cut₃⟩
  rw [readAttribute, named']
  change (readEquals tag' d₁.skipBlanks).bind _ = _
  rw [equals']
  change (readQuoted d₂.skipBlanks).bind _ = _
  rw [valued']
  rfl

/-! ## Constructs -/

def values (tokens : Array SpannedToken) : List Token := tokens.toList.map (·.value)

theorem values_push (tokens : Array SpannedToken) (t : SpannedToken) :
    values (tokens.push t) = values tokens ++ [t.value] := by
  rw [values, Array.toList_push, List.map_append]
  rfl

variable {before : List Token} {tokens toks : Array SpannedToken}

/-- What is found up to a cursor is found also where the end is cut off, behind fewer tokens. -/
def SameFound (before : List Token) (back : List Char) (found : Found) (c' : Cursor)
    (found' : Found) : Prop :=
  ∃ d', found'.next = .ok d' ∧ c'.Cut back d' ∧
    values found.tokens = before ++ values found'.tokens

theorem values_push_cut {t t' : SpannedToken} (same : values tokens = before ++ values toks)
    (alike : t'.value = t.value) :
    values (tokens.push t) = before ++ values (toks.push t') := by
  rw [values_push, values_push, same, alike, List.append_assoc]

theorem SameFound.emit {t : Token} {p p' : Position} {next next' : Cursor}
    (same : values tokens = before ++ values toks) (behind : next.rest = next'.rest ++ back) :
    SameFound before back (emit tokens t p next) next (emit toks t p' next') :=
  ⟨next', rfl, behind, values_push_cut same rfl⟩

theorem readTagRest_closeEmpty {tag : Position} {rest : List Char}
    (ahead : d.skipBlanks.rest = '/' :: '>' :: rest) :
    readTagRest tag toks d =
      emit toks .closeEmpty d.skipBlanks.pos (d.skipBlanks.past ['/', '>'] rest) := by
  rw [readTagRest]
  simp only [ahead]

theorem readTagRest_closeTag {tag : Position} {rest : List Char}
    (ahead : d.skipBlanks.rest = '>' :: rest) :
    readTagRest tag toks d =
      emit toks .closeTag d.skipBlanks.pos (d.skipBlanks.past ['>'] rest) := by
  rw [readTagRest]
  simp only [ahead]

theorem readTagRest_attribute {tag : Position} {t : SpannedToken}
    (goesOn : ∀ rest, d.skipBlanks.rest = '/' :: '>' :: rest → False)
    (isOpen : ∀ rest, d.skipBlanks.rest = '>' :: rest → False)
    (read : readAttribute tag d.skipBlanks = .ok (t, c')) :
    readTagRest tag toks d = readTagRest tag (toks.push t) c' := by
  rw [readTagRest]
  split
  · next same => exact (goesOn _ same).elim
  · next same => exact (isOpen _ same).elim
  · split <;> simp_all

theorem readTagRest_cut {tag tag' : Position} (cut : c.Cut back d)
    (same : values tokens = before ++ values toks)
    (read : (readTagRest tag tokens c).next = .ok c') (within : back.length ≤ c'.rest.length) :
    SameFound before back (readTagRest tag tokens c) c' (readTagRest tag' toks d) := by
  fun_induction readTagRest tag tokens c generalizing d toks with
  | case1 tokens c front rest =>
    rename_i ahead
    cases emit_next read
    have fits : back.length ≤ front.rest.length := by
      rw [ahead]
      exact within.trans (Nat.le_add_right _ 2)
    have blanks := cut.skipBlanks fits
    obtain ⟨rest', ahead', behind⟩ := blanks.opening ['/', '>'] ahead within
    rw [readTagRest_closeEmpty ahead']
    exact .emit same behind
  | case2 tokens c front rest =>
    rename_i ahead
    cases emit_next read
    have fits : back.length ≤ front.rest.length := by
      rw [ahead]
      exact within.trans (Nat.le_add_right _ 1)
    have blanks := cut.skipBlanks fits
    obtain ⟨rest', ahead', behind⟩ := blanks.opening ['>'] ahead within
    rw [readTagRest_closeTag ahead']
    exact .emit same behind
  | case3 => cases read
  | case4 tokens c front t after found goesOn isOpen =>
    rename_i ih
    have fits := within.trans (readTagRest_length_lt read).le
    have blanks := cut.skipBlanks (fits.trans (readAttribute_length_lt found).le)
    obtain ⟨t', d₁, found', alike, cut₁⟩ := readAttribute_cut blanks found fits tag'
    have goesOn' : ∀ rest, d.skipBlanks.rest = '/' :: '>' :: rest → False := fun rest ahead =>
      goesOn (rest ++ back) (by rw [blanks, ahead]; rfl)
    have isOpen' : ∀ rest, d.skipBlanks.rest = '>' :: rest → False := fun rest ahead =>
      isOpen (rest ++ back) (by rw [blanks, ahead]; rfl)
    rw [readTagRest_attribute goesOn' isOpen' found']
    exact ih cut₁ (values_push_cut same alike) read

theorem readVerbatim_cut {construct : Construct} {token : String → Token}
    {check : Position → List Char → Option LexError} {opening delimiter : List Char}
    (free : ∀ p q content, check p content = none → check q content = none)
    (nonempty : delimiter ≠ []) (cut : c.Cut back d) (ahead : opening.isPrefixOf c.rest)
    (same : values tokens = before ++ values toks)
    (read : (readVerbatim construct token check opening delimiter tokens c).next = .ok c')
    (within : back.length ≤ c'.rest.length) : opening.isPrefixOf d.rest ∧
      SameFound before back (readVerbatim construct token check opening delimiter tokens c) c'
        (readVerbatim construct token check opening delimiter toks d) := by
  obtain ⟨rest, ahead⟩ := List.isPrefixOf_iff_prefix.1 ahead
  have inside : c.rest.drop opening.length = rest := by rw [← ahead, List.drop_left]
  unfold readVerbatim at read ⊢
  rw [inside] at read ⊢
  split at read
  · cases read
  · next content after broken =>
    split at read
    · cases read
    · next allowed =>
      cases emit_next read
      obtain ⟨rest', ahead', behind⟩ := cut.opening _ ahead.symm
        (within.trans (Cursor.breakOn_length_le broken))
      have inside' : d.rest.drop opening.length = rest' := by rw [ahead', List.drop_left]
      have cut₁ : (c.past opening rest).Cut back (d.past opening rest') := behind
      obtain ⟨d', broken', cut'⟩ := cut₁.breakOn nonempty broken within
      refine ⟨List.isPrefixOf_iff_prefix.2 ⟨rest', ahead'.symm⟩, ?_⟩
      rw [inside', broken']
      dsimp only
      rw [free c.pos d.pos content allowed]
      exact .emit same cut'

theorem readDoctype_cut (cut : c.Cut back d) (ahead : doctypeOpening.isPrefixOf c.rest)
    (same : values tokens = before ++ values toks)
    (read : (readDoctype tokens c).next = .ok c') (within : back.length ≤ c'.rest.length) :
    doctypeOpening.isPrefixOf d.rest ∧
      SameFound before back (readDoctype tokens c) c' (readDoctype toks d) := by
  obtain ⟨rest, ahead⟩ := List.isPrefixOf_iff_prefix.1 ahead
  have inside : c.rest.drop doctypeOpening.length = rest := by rw [← ahead, List.drop_left]
  unfold readDoctype at read ⊢
  rw [inside] at read ⊢
  split at read
  · cases read
  · next content after found =>
    cases emit_next read
    obtain ⟨rest', ahead', behind⟩ := cut.opening _ ahead.symm
      (within.trans (doctypeContent?_length_lt found).le)
    have inside' : d.rest.drop doctypeOpening.length = rest' := by rw [ahead', List.drop_left]
    have found' := found
    rw [behind] at found'
    obtain ⟨after', found', cut'⟩ := doctypeContent?_cut found' within
    refine ⟨List.isPrefixOf_iff_prefix.2 ⟨rest', ahead'.symm⟩, ?_⟩
    rw [inside', found']
    exact .emit same cut'

theorem readEndTag_cut {rest : List Char} (cut : c.Cut back d) (ahead : c.rest = '<' :: '/' :: rest)
    (same : values tokens = before ++ values toks)
    (read : (readEndTag tokens c).next = .ok c') (within : back.length ≤ c'.rest.length) :
    (∃ rest', d.rest = '<' :: '/' :: rest') ∧
      SameFound before back (readEndTag tokens c) c' (readEndTag toks d) := by
  unfold readEndTag at read ⊢
  rw [ahead] at read ⊢
  split at read
  · cases read
  · next name afterName named =>
    dsimp only at read
    split at read
    · next rest₁ close =>
      cases emit_next read
      have fits : back.length ≤ afterName.skipBlanks.rest.length := by
        rw [close]
        exact within.trans (Nat.le_add_right _ 1)
      have behindName := fits.trans afterName.skipBlanks_length_le
      obtain ⟨rest', ahead', behind⟩ := cut.opening ['<', '/'] ahead
        (behindName.trans (readName_length_le named))
      have cut₁ : (c.past ['<', '/'] rest).Cut back (d.past ['<', '/'] rest') := behind
      obtain ⟨d₁, named', cut₂⟩ := readName_cut cut₁ named behindName d.pos
      obtain ⟨rest₂, close', behind'⟩ :=
        (cut₂.skipBlanks fits).opening ['>'] close within
      refine ⟨⟨rest', ahead'⟩, ?_⟩
      have inside' : d.rest.drop 2 = rest' := by rw [ahead']; rfl
      rw [inside', named']
      dsimp only
      rw [close, close']
      exact .emit same behind'
    · cases read
    · cases read

theorem readStartTag_cut {rest : List Char} (cut : c.Cut back d) (ahead : c.rest = '<' :: rest)
    (same : values tokens = before ++ values toks)
    (read : (readStartTag tokens c).next = .ok c') (within : back.length ≤ c'.rest.length) :
    (∃ rest', d.rest = '<' :: rest') ∧
      SameFound before back (readStartTag tokens c) c' (readStartTag toks d) := by
  unfold readStartTag at read ⊢
  rw [ahead] at read ⊢
  split at read
  · cases read
  · next name afterName named =>
    have behindName := within.trans (readTagRest_length_lt read).le
    obtain ⟨rest', ahead', behind⟩ := cut.opening ['<'] ahead
      (behindName.trans (readName_length_le named))
    have cut₁ : (c.past ['<'] rest).Cut back (d.past ['<'] rest') := behind
    obtain ⟨d₁, named', cut₂⟩ := readName_cut cut₁ named behindName d.pos
    have inside' : d.rest.drop 1 = rest' := by rw [ahead']; rfl
    refine ⟨⟨rest', ahead'⟩, ?_⟩
    rw [inside', named']
    exact readTagRest_cut cut₂ (values_push_cut same rfl) read within

theorem readText_cut (cut : c.Cut back d) (same : values tokens = before ++ values toks)
    (read : (readText tokens c).next = .ok c') (within : back.length ≤ c'.rest.length) :
    SameFound before back (readText tokens c) c' (readText toks d) := by
  unfold readText at read ⊢
  dsimp only at read ⊢
  split at read
  · cases read
  · next short =>
    split at read
    · cases read
    · next content decoded =>
      cases emit_next read
      rw [Cursor.past, cut] at within
      obtain ⟨taken, left⟩ := takeWhile_cut within
      rw [← cut] at taken left
      rw [taken] at short decoded
      rw [taken, if_neg short, if_neg short, decodeAt_position decoded d.pos]
      exact .emit same left

theorem readConstruct_cut (cut : c.Cut back d) (same : values tokens = before ++ values toks)
    (left : c.rest ≠ []) (read : (readConstruct tokens c).next = .ok c')
    (within : back.length ≤ c'.rest.length) :
    SameFound before back (readConstruct tokens c) c' (readConstruct toks d) := by
  have longer := within.trans_lt (readConstruct_length_lt left read)
  unfold readConstruct at read ⊢
  by_cases ahead : commentOpening.isPrefixOf c.rest
  · rw [if_pos ahead] at read ⊢
    obtain ⟨ahead', found⟩ := readVerbatim_cut (fun _ _ _ short => by split at short <;> simp_all)
      (List.cons_ne_nil _ _) cut ahead same read within
    rw [if_pos ahead']
    exact found
  rw [if_neg ahead] at read ⊢
  rw [if_neg (cut.not_opening ahead)]
  by_cases ahead : cdataOpening.isPrefixOf c.rest
  · rw [if_pos ahead] at read ⊢
    obtain ⟨ahead', found⟩ := readVerbatim_cut
      (fun _ _ _ short => by dsimp only at short ⊢; split at short <;> simp_all)
      (List.cons_ne_nil _ _) cut ahead same read within
    rw [if_pos ahead']
    exact found
  rw [if_neg ahead] at read ⊢
  rw [if_neg (cut.not_opening ahead)]
  by_cases ahead : doctypeOpening.isPrefixOf c.rest
  · rw [if_pos ahead] at read ⊢
    obtain ⟨ahead', found⟩ := readDoctype_cut cut ahead same read within
    rw [if_pos ahead']
    exact found
  rw [if_neg ahead] at read ⊢
  rw [if_neg (cut.not_opening ahead)]
  split at read
  · next ahead =>
    obtain ⟨ahead', found⟩ := readVerbatim_cut (fun _ _ _ _ => rfl) (List.cons_ne_nil _ _) cut
      (by rw [ahead]; rfl) same read within
    obtain ⟨rest, ahead'⟩ := List.isPrefixOf_iff_prefix.1 ahead'
    rw [← ahead']
    exact found
  · next ahead =>
    obtain ⟨⟨rest, ahead'⟩, found⟩ := readEndTag_cut cut ahead same read within
    rw [ahead']
    exact found
  · next tail noDeclaration noEndTag ahead =>
    obtain ⟨⟨rest, ahead'⟩, found⟩ := readStartTag_cut cut ahead same read within
    have whole : tail = rest ++ back := by
      rw [cut, ahead'] at ahead
      exact (List.cons.inj ahead).2.symm
    rw [ahead']
    split
    · next declaration =>
      cases declaration
      exact (noDeclaration _ whole).elim
    · next endTag =>
      cases endTag
      exact (noEndTag _ whole).elim
    · exact found
    · next other => exact absurd rfl (other rest)
  · next plain =>
    -- where the cut text begins a tag, so does the whole one
    have notTag : ∀ rest, d.rest = '<' :: rest → False := fun rest ahead' =>
      plain (rest ++ back) (by rw [cut, ahead']; rfl)
    split
    · next ahead' => exact (notTag _ ahead').elim
    · next ahead' => exact (notTag _ ahead').elim
    · next ahead' => exact (notTag _ ahead').elim
    · exact readText_cut cut same read within

end Lexer

end Barrage.Markup
