import Barrage.Proofs.Markup.DocumentOrder
import Barrage.Proofs.Markup.WellFormed

/-!
Character data of a document, read off its tokens. The runs directly inside an element are all text
and CDATA between its start tag and its end tag that are not inside another element, blank ones
included. Of these the tree keeps the ones that are not blank.
-/

set_option autoImplicit false

namespace Barrage

namespace Text

def kept (runs : List String) : List String := runs.filter fun run => !isBlankText run

section Kept

variable {run : String} {runs : List String}

@[simp] theorem kept_cons_of_blank (white : isBlankText run) : kept (run :: runs) = kept runs :=
  List.filter_cons_of_neg (by simpa using white)

@[simp] theorem kept_cons_of_not_blank (solid : isBlankText run = false) :
    kept (run :: runs) = run :: kept runs :=
  List.filter_cons_of_pos (by simpa using solid)

end Kept

end Text

namespace Markup

open Text (kept)

/-! ## Runs of character data -/

/-- The runs of an element up to its end, outside the elements in it; some of these are open. -/
def contentRuns (opened : Nat) : List SpannedToken → List String
  | [] => []
  | t :: rest => match t.value with
    | .openTag _ => contentRuns (opened + 1) rest
    | .closeEmpty | .endTag _ => match opened with
      | 0 => []
      | opened + 1 => contentRuns opened rest
    | .text content | .cdata content => match opened with
      | 0 => content :: contentRuns 0 rest
      | opened + 1 => contentRuns (opened + 1) rest
    | .endOfInput => []
    | _ => contentRuns opened rest

def elementRuns : List SpannedToken → List String
  | [] => []
  | t :: rest => match t.value with
    | .closeTag => contentRuns 0 rest
    | .closeEmpty | .endOfInput => []
    | _ => elementRuns rest

/-- The runs directly inside each element of a document, the elements in document order. -/
def characterData : List SpannedToken → List (List String)
  | [] => []
  | t :: rest => match t.value with
    | .openTag _ => elementRuns rest :: characterData rest
    | .endOfInput => []
    | _ => characterData rest

/-! ## Tokens without a meaning -/

def meaningful (ts : List SpannedToken) : List SpannedToken :=
  (ts.filter fun t => !t.value.isTrivia).takeWhile fun t => t.value ≠ .endOfInput

section Meaningful

variable {t : SpannedToken} {ts : List SpannedToken}

theorem meaningful_trivia (trivia : t.value.isTrivia) : meaningful (t :: ts) = meaningful ts := by
  simp [meaningful, trivia]

theorem meaningful_end (ending : t.value = .endOfInput) : meaningful (t :: ts) = [] := by
  simp [meaningful, ending, Token.isTrivia]

theorem meaningful_cons (trivia : t.value.isTrivia = false) (inner : t.value ≠ .endOfInput) :
    meaningful (t :: ts) = t :: meaningful ts := by
  simp [meaningful, trivia, inner]

end Meaningful

theorem kept_contentRuns (ts : List SpannedToken) (opened : Nat) :
    kept (contentRuns opened (meaningful ts)) = kept (contentRuns opened ts) := by
  induction ts generalizing opened with
  | nil => rfl
  | cons t ts ih =>
    obtain ⟨value, span⟩ := t
    cases value with
    | declaration | doctype | comment =>
      rw [meaningful_trivia rfl, ih]
      rfl
    | text content =>
      cases white : Text.isBlankText content with
      | true =>
        rw [@meaningful_trivia ⟨.text content, span⟩ ts white, ih]
        cases opened with
        | zero => exact (Text.kept_cons_of_blank white).symm
        | succ => rfl
      | false =>
        rw [@meaningful_cons ⟨.text content, span⟩ ts white (by simp)]
        cases opened with
        | zero => simpa [contentRuns, white] using ih 0
        | succ opened => exact ih (opened + 1)
    | cdata content =>
      rw [meaningful_cons rfl (by simp)]
      cases opened with
      | zero => cases white : Text.isBlankText content <;> simpa [contentRuns, white] using ih 0
      | succ opened => exact ih (opened + 1)
    | closeEmpty | endTag =>
      rw [meaningful_cons rfl (by simp)]
      cases opened with
      | zero => rfl
      | succ opened => exact ih opened
    | openTag =>
      rw [meaningful_cons rfl (by simp)]
      exact ih (opened + 1)
    | attr | closeTag =>
      rw [meaningful_cons rfl (by simp)]
      exact ih opened
    | endOfInput =>
      rw [meaningful_end rfl]
      rfl

theorem kept_elementRuns (ts : List SpannedToken) :
    kept (elementRuns (meaningful ts)) = kept (elementRuns ts) := by
  induction ts with
  | nil => rfl
  | cons t ts ih =>
    by_cases trivia : t.value.isTrivia
    · rw [meaningful_trivia trivia, ih]
      obtain ⟨value, span⟩ := t
      cases value <;> first | rfl | cases trivia
    by_cases ending : t.value = .endOfInput
    · rw [meaningful_end ending]
      simp [elementRuns, ending]
    rw [meaningful_cons (Bool.eq_false_iff.2 trivia) ending]
    obtain ⟨value, span⟩ := t
    cases value with
    | closeTag => exact kept_contentRuns ts 0
    | closeEmpty | endOfInput => rfl
    | _ => exact ih

/-- The runs that are not blank can be read off the tokens that a document is read from. -/
theorem kept_characterData (ts : List SpannedToken) :
    (characterData (meaningful ts)).map kept = (characterData ts).map kept := by
  induction ts with
  | nil => rfl
  | cons t ts ih =>
    by_cases trivia : t.value.isTrivia
    · rw [meaningful_trivia trivia, ih]
      obtain ⟨value, span⟩ := t
      cases value <;> first | rfl | cases trivia
    by_cases ending : t.value = .endOfInput
    · rw [meaningful_end ending]
      simp [characterData, ending]
    rw [meaningful_cons (Bool.eq_false_iff.2 trivia) ending]
    obtain ⟨value, span⟩ := t
    cases value with
    | openTag => exact congrArg₂ List.cons (kept_elementRuns ts) ih
    | endOfInput => rfl
    | _ => exact ih

/-! ## Tokens of tags and text -/

section Tags

variable {name : String} {span : Span} {attributes : List Attribute} {rest : List SpannedToken}

theorem contentRuns_attributes (opened : Nat) :
    contentRuns opened (attributes.map Attribute.token ++ rest) = contentRuns opened rest := by
  induction attributes with
  | nil => rfl
  | cons a attributes ih => exact ih

theorem elementRuns_attributes :
    elementRuns (attributes.map Attribute.token ++ rest) = elementRuns rest := by
  induction attributes with
  | nil => rfl
  | cons a attributes ih => exact ih

theorem characterData_attributes :
    characterData (attributes.map Attribute.token ++ rest) = characterData rest := by
  induction attributes with
  | nil => rfl
  | cons a attributes ih => exact ih

theorem contentRuns_tagTokens (opened : Nat) :
    contentRuns opened (tagTokens name span attributes ++ rest) = contentRuns (opened + 1) rest :=
  contentRuns_attributes (opened + 1)

theorem characterData_tagTokens :
    characterData (tagTokens name span attributes ++ rest) =
      elementRuns rest :: characterData rest :=
  congrArg₂ List.cons elementRuns_attributes characterData_attributes

end Tags

section CharacterTokens

variable {t : SpannedToken} {content : String} {rest : List SpannedToken}

theorem contentRuns_data (data : t.value.characterData? = some content) :
    contentRuns 0 (t :: rest) = content :: contentRuns 0 rest := by
  obtain ⟨value, span⟩ := t
  cases value <;> cases data <;> rfl

theorem contentRuns_inner_data (data : t.value.characterData? = some content) (opened : Nat) :
    contentRuns (opened + 1) (t :: rest) = contentRuns (opened + 1) rest := by
  obtain ⟨value, span⟩ := t
  cases value <;> cases data <;> rfl

theorem characterData_data (data : t.value.characterData? = some content) :
    characterData (t :: rest) = characterData rest := by
  obtain ⟨value, span⟩ := t
  cases value <;> cases data <;> rfl

end CharacterTokens

/-! ## Tokens of elements -/

mutual

theorem contentRuns_element {tokens rest : List SpannedToken} {e : Element} (opened : Nat) :
    IsElement tokens e → contentRuns opened (tokens ++ rest) = contentRuns opened rest
  | .empty _ => by
    rw [List.append_assoc, contentRuns_tagTokens]
    rfl
  | @IsElement.full name _ _ close _ body _ _ content => by
    rw [List.append_assoc, List.append_assoc, contentRuns_tagTokens]
    calc contentRuns (opened + 1) (body ++ (⟨.endTag name, close⟩ :: rest))
      _ = contentRuns (opened + 1) (⟨.endTag name, close⟩ :: rest) :=
        contentRuns_inner opened content
      _ = contentRuns opened rest := rfl

theorem contentRuns_inner {tokens rest : List SpannedToken} {children : List Content}
    (opened : Nat) : IsContent tokens children →
      contentRuns (opened + 1) (tokens ++ rest) = contentRuns (opened + 1) rest
  | .nil => rfl
  | .element first others => by
    rw [List.append_assoc, contentRuns_element (opened + 1) first, contentRuns_inner opened others]
  | .text data _ others | .blank data _ others => by
    rw [List.cons_append, contentRuns_inner_data data, contentRuns_inner opened others]

end

theorem kept_contentRuns_content {tokens rest : List SpannedToken} {children : List Content} :
    IsContent tokens children →
      kept (contentRuns 0 (tokens ++ rest)) =
        children.filterMap Content.text? ++ kept (contentRuns 0 rest)
  | .nil => rfl
  | .element first others => by
    rw [List.append_assoc, contentRuns_element 0 first, kept_contentRuns_content others]
    rfl
  | .text data solid others => by
    rw [List.cons_append, contentRuns_data data,
      Text.kept_cons_of_not_blank (Bool.eq_false_iff.2 solid), kept_contentRuns_content others]
    rfl
  | .blank data white others => by
    rw [List.cons_append, contentRuns_data data, Text.kept_cons_of_blank white,
      kept_contentRuns_content others]

def Element.texts (e : Element) : List String := e.children.filterMap Content.text?

mutual

theorem kept_characterData_element {tokens rest : List SpannedToken} {e : Element} :
    IsElement tokens e →
      (characterData (tokens ++ rest)).map kept =
        e.elements.map Element.texts ++ (characterData rest).map kept
  | .empty _ => by
    rw [List.append_assoc, characterData_tagTokens]
    rfl
  | @IsElement.full _ _ _ close attributes body children _ content => by
    rw [List.append_assoc, List.append_assoc, characterData_tagTokens, List.map_cons,
      Element.elements, List.map_cons, List.cons_append]
    refine congrArg₂ List.cons ?_ ?_
    · refine (kept_contentRuns_content content).trans ?_
      exact List.append_nil _
    · exact kept_characterData_content content

theorem kept_characterData_content {tokens rest : List SpannedToken} {children : List Content} :
    IsContent tokens children →
      (characterData (tokens ++ rest)).map kept =
        (Element.elementsAmong children).map Element.texts ++ (characterData rest).map kept
  | .nil => rfl
  | .element first others => by
    rw [List.append_assoc, kept_characterData_element first, kept_characterData_content others,
      Element.elementsAmong, Element.elementsOf, List.map_append, List.append_assoc]
  | .text data _ others => by
    rw [List.cons_append, characterData_data data, kept_characterData_content others]
    rfl
  | .blank data _ others => by
    rw [List.cons_append, characterData_data data, kept_characterData_content others]

end

theorem texts_eq_kept {tokens : Array SpannedToken} {source? : Option SourceMap} {root : Element}
    {depth : Nat} (read : readDocument (.ofTokens tokens source?) = (.ok root, depth)) :
    root.elements.map Element.texts = (characterData tokens.toList).map kept := by
  rw [readDocument_ofTokens] at read
  have taken := DocumentReader.Took.run (.inside .nil (Nat.zero_le _)) read
  have element : IsElement (meaningful tokens.toList) root := taken.1
  have whole := @kept_characterData_element _ [] _ element
  rw [List.append_nil] at whole
  rw [← kept_characterData, whole]
  exact (List.append_nil _).symm

end Markup

end Barrage
