import Barrage.Markup.CharRef
import Barrage.Markup.Token
import Barrage.Journal.Code

/-!
From text to markup tokens. Every step takes a construct off the front of the remaining text, so the
text gets shorter and the position moves over exactly what was taken. On an error the tokens found
before it are kept.
-/

set_option autoImplicit false

namespace Barrage.Markup

inductive Construct where
  | comment
  | cdata
  | doctype
  | declaration
  | startTag
  | endTag
  | attributeValue
  deriving DecidableEq, Repr

def Construct.name : Construct → String
  | .comment => "comment"
  | .cdata => "CDATA section"
  | .doctype => "doctype"
  | .declaration => "declaration"
  | .startTag => "start tag"
  | .endTag => "end tag"
  | .attributeValue => "attribute value"

inductive LexError where
  | invalidCharacter (c : Char) (position : Position)
  | unterminated (construct : Construct) (position : Position)
  | unknownEntity (name : String) (position : Position)
  | nameTooLong (length : Nat) (position : Position)
  | textTooLarge (size limit : Nat) (position : Position)
  | commentTooLong (length : Nat) (position : Position)
  | tooManyTokens (count : Nat)
  deriving DecidableEq, Repr

namespace Limit

def name : Nat := 128

/-- In bytes, before decoding. -/
def attributeValue : Nat := 4096

/-- In bytes, before decoding. -/
def text : Nat := 65536

def comment : Nat := 65536

/-- With this many tokens no further construct is begun. -/
def tokens : Nat := 1000000

end Limit

namespace LexError

def code : LexError → Code
  | invalidCharacter .. => .invalidCharacter
  | unterminated .. => .unterminated
  | unknownEntity .. => .unknownEntity
  | nameTooLong .. => .nameTooLong
  | textTooLarge .. => .textTooLarge
  | commentTooLong .. => .commentTooLong
  | tooManyTokens _ => .tooManyTokens

def position? : LexError → Option Position
  | invalidCharacter _ p | unterminated _ p | unknownEntity _ p | nameTooLong _ p
  | textTooLarge _ _ p | commentTooLong _ p => some p
  | tooManyTokens _ => none

def message : LexError → String
  | invalidCharacter c p => s!"Invalid character '{c}' at {p.text}"
  | unterminated k p => s!"Unterminated {k.name} starting at {p.text}"
  | unknownEntity name p => s!"Unknown entity '&{name};' at {p.text}"
  | nameTooLong n _ => s!"Name too long: {n} characters (max {Limit.name})"
  | textTooLarge n limit _ => s!"Text too large: {n} bytes (max {limit})"
  | commentTooLong n _ => s!"Comment too long: {n} characters (max {Limit.comment})"
  | tooManyTokens n => s!"Too many tokens: {n} (max {Limit.tokens})"

end LexError

/-- The text that is left and where it begins. -/
structure Cursor where
  rest : List Char
  pos : Position

namespace Cursor

def ofSource (source : String) : Cursor := ⟨source.toList, .start⟩

def past (c : Cursor) (taken rest : List Char) : Cursor := ⟨rest, c.pos.advanceAll taken⟩

def skipBlanks (c : Cursor) : Cursor :=
  c.past (c.rest.takeWhile Text.isBlank) (c.rest.dropWhile Text.isBlank)

def breakOn (c : Cursor) (delimiter : List Char) : Option (List Char × Cursor) :=
  (Text.breakOn delimiter c.rest).map fun (before, after) =>
    (before, (c.past before after).past delimiter after)

theorem dropWhile_length_le {α : Type} (p : α → Bool) (l : List α) :
    (l.dropWhile p).length ≤ l.length := (List.dropWhile_sublist p).length_le

theorem skipBlanks_length_le (c : Cursor) : c.skipBlanks.rest.length ≤ c.rest.length :=
  dropWhile_length_le ..

theorem breakOn_length_le {c c' : Cursor} {delimiter before : List Char}
    (h : c.breakOn delimiter = some (before, c')) : c'.rest.length ≤ c.rest.length := by
  simp only [breakOn, Option.map_eq_some_iff, Prod.mk.injEq, Prod.exists] at h
  obtain ⟨b, a, hb, rfl, rfl⟩ := h
  have := congrArg List.length (Text.breakOn_append hb)
  simp only [List.length_append] at this
  simp only [past]
  omega

end Cursor

namespace Lexer

def isNameStart (c : Char) : Bool := Text.isAlphabetic c || c = '_' || c = ':'

def isNameChar (c : Char) : Bool :=
  Text.isAlphanumeric c || c = '_' || c = ':' || c = '-' || c = '.'

def readName (construct : Construct) (start : Position) (c : Cursor) :
    Except LexError (String × Cursor) :=
  match c.rest with
  | [] => .error (.unterminated construct start)
  | x :: _ =>
    if isNameStart x then
      let name := c.rest.takeWhile isNameChar
      if name.length > Limit.name then .error (.nameTooLong name.length c.pos)
      else .ok (String.ofList name, c.past name (c.rest.dropWhile isNameChar))
    else .error (.invalidCharacter x c.pos)

def decodeAt (p : Position) (raw : List Char) : Except LexError String :=
  match decode p raw with
  | .ok cs => .ok (String.ofList cs)
  | .error bad => .error (.unknownEntity bad.name bad.position)

def readValue (quoteAt : Position) (quote : Char) (c : Cursor) :
    Except LexError (String × Cursor) :=
  match c.breakOn [quote] with
  | none => .error (.unterminated .attributeValue quoteAt)
  | some (raw, after) =>
    let size := Text.byteLength raw
    let before := raw.takeWhile (· ≠ '<')
    if size > Limit.attributeValue then
      .error (.textTooLarge size Limit.attributeValue c.pos)
    else if before.length < raw.length then
      .error (.invalidCharacter '<' (c.pos.advanceAll before))
    else (decodeAt c.pos raw).map fun value => (value, after)

def readQuoted (c : Cursor) : Except LexError (String × Cursor) :=
  match c.rest with
  | [] => .error (.unterminated .attributeValue c.pos)
  | q :: rest =>
    if q = '"' ∨ q = '\'' then readValue c.pos q (c.past [q] rest)
    else .error (.invalidCharacter q c.pos)

def readEquals (tag : Position) (c : Cursor) : Except LexError Cursor :=
  match c.rest with
  | [] => .error (.unterminated .startTag tag)
  | x :: rest =>
    if x = '=' then .ok (c.past [x] rest) else .error (.invalidCharacter x c.pos)

def readAttribute (tag : Position) (c : Cursor) : Except LexError (SpannedToken × Cursor) := do
  let (name, afterName) ← readName .startTag tag c
  let afterEquals ← readEquals tag afterName.skipBlanks
  let (value, after) ← readQuoted afterEquals.skipBlanks
  .ok (⟨.attr name value, ⟨c.pos, after.pos⟩⟩, after)

theorem readName_length_le {construct : Construct} {start : Position} {c c' : Cursor}
    {name : String} (h : readName construct start c = .ok (name, c')) :
    c'.rest.length ≤ c.rest.length := by
  unfold readName at h
  split at h
  · simp at h
  · split at h
    · dsimp only at h
      split at h
      · simp at h
      · simp only [Except.ok.injEq, Prod.mk.injEq] at h
        obtain ⟨-, rfl⟩ := h
        exact Cursor.dropWhile_length_le ..
    · simp at h

theorem readValue_length_le {p : Position} {q : Char} {c c' : Cursor} {value : String}
    (h : readValue p q c = .ok (value, c')) : c'.rest.length ≤ c.rest.length := by
  unfold readValue at h
  split at h
  · simp at h
  · next raw after hb =>
    dsimp only at h
    split at h
    · simp at h
    · split at h
      · simp at h
      · cases hd : decodeAt c.pos raw with
        | error e => simp [hd, Except.map] at h
        | ok v =>
          simp only [hd, Except.map, Except.ok.injEq, Prod.mk.injEq] at h
          obtain ⟨-, rfl⟩ := h
          exact Cursor.breakOn_length_le hb

theorem readQuoted_length_lt {c c' : Cursor} {value : String}
    (h : readQuoted c = .ok (value, c')) : c'.rest.length < c.rest.length := by
  unfold readQuoted at h
  split at h
  · simp at h
  · next q rest hr =>
    split at h
    · have := readValue_length_le h
      simp only [Cursor.past] at this
      simp [hr]
      omega
    · simp at h

theorem readEquals_length_le {tag : Position} {c c' : Cursor} (h : readEquals tag c = .ok c') :
    c'.rest.length ≤ c.rest.length := by
  unfold readEquals at h
  split at h
  · simp at h
  · next x rest hr =>
    split at h
    · simp only [Except.ok.injEq] at h
      subst h
      simp [Cursor.past, hr]
    · simp at h

theorem readAttribute_length_lt {tag : Position} {c c' : Cursor} {t : SpannedToken}
    (h : readAttribute tag c = .ok (t, c')) : c'.rest.length < c.rest.length := by
  unfold readAttribute at h
  cases hn : readName .startTag tag c with
  | error e => simp [hn, bind, Except.bind] at h
  | ok r =>
    obtain ⟨name, afterName⟩ := r
    cases he : readEquals tag afterName.skipBlanks with
    | error e => simp [hn, he, bind, Except.bind] at h
    | ok afterEquals =>
      cases hq : readQuoted afterEquals.skipBlanks with
      | error e => simp [hn, he, hq, bind, Except.bind] at h
      | ok r =>
        obtain ⟨value, after⟩ := r
        simp only [hn, he, hq, bind, Except.bind, Except.ok.injEq, Prod.mk.injEq] at h
        obtain ⟨-, rfl⟩ := h
        have h1 := readName_length_le hn
        have h2 := afterName.skipBlanks_length_le
        have h3 := readEquals_length_le he
        have h4 := afterEquals.skipBlanks_length_le
        have h5 := readQuoted_length_lt hq
        omega

structure Found where
  tokens : Array SpannedToken
  next : Except LexError Cursor

def emit (tokens : Array SpannedToken) (token : Token) (start : Position) (next : Cursor) : Found :=
  ⟨tokens.push ⟨token, ⟨start, next.pos⟩⟩, .ok next⟩

def readTagRest (tag : Position) (tokens : Array SpannedToken) (c : Cursor) : Found :=
  let front := c.skipBlanks
  match front.rest with
  | '/' :: '>' :: rest => emit tokens .closeEmpty front.pos (front.past ['/', '>'] rest)
  | '>' :: rest => emit tokens .closeTag front.pos (front.past ['>'] rest)
  | _ =>
    match _h : readAttribute tag c.skipBlanks with
    | .error e => ⟨tokens, .error e⟩
    | .ok (token, after) => readTagRest tag (tokens.push token) after
termination_by c.rest.length
decreasing_by
  have := readAttribute_length_lt _h
  have := c.skipBlanks_length_le
  omega

def readVerbatim (construct : Construct) (token : String → Token)
    (check : Position → List Char → Option LexError) (opening delimiter : List Char)
    (tokens : Array SpannedToken) (c : Cursor) : Found :=
  match (c.past opening (c.rest.drop opening.length)).breakOn delimiter with
  | none => ⟨tokens, .error (.unterminated construct c.pos)⟩
  | some (content, after) =>
    match check c.pos content with
    | some e => ⟨tokens, .error e⟩
    | none => emit tokens (token (String.ofList content)) c.pos after

def commentOpening : List Char := ['<', '!', '-', '-']

def cdataOpening : List Char := ['<', '!', '[', 'C', 'D', 'A', 'T', 'A', '[']

def doctypeOpening : List Char := ['<', '!', 'D', 'O', 'C', 'T', 'Y', 'P', 'E']

def readComment : Array SpannedToken → Cursor → Found :=
  readVerbatim .comment .comment
    (fun start content =>
      if content.length > Limit.comment then some (.commentTooLong content.length start) else none)
    commentOpening ['-', '-', '>']

def readCdata : Array SpannedToken → Cursor → Found :=
  readVerbatim .cdata .cdata
    (fun start content =>
      let size := Text.byteLength content
      if size > Limit.text then some (.textTooLarge size Limit.text start) else none)
    cdataOpening [']', ']', '>']

def readDeclaration : Array SpannedToken → Cursor → Found :=
  readVerbatim .declaration .declaration (fun _ _ => none) ['<', '?'] ['?', '>']

/-- The content of a doctype: up to a `>` outside quotes and brackets. -/
def doctypeContent? (depth : Nat) (quote : Option Char) (content : List Char) :
    List Char → Option (List Char × List Char)
  | [] => none
  | c :: cs =>
    match quote with
    | some q => doctypeContent? depth (if c = q then none else some q) (c :: content) cs
    | none =>
      if c = '"' ∨ c = '\'' then doctypeContent? depth (some c) (c :: content) cs
      else if c = '[' then doctypeContent? (depth + 1) none (c :: content) cs
      else if c = ']' then doctypeContent? (depth - 1) none (c :: content) cs
      else if c = '>' ∧ depth = 0 then some (content.reverse, cs)
      else doctypeContent? depth none (c :: content) cs

def readDoctype (tokens : Array SpannedToken) (c : Cursor) : Found :=
  match doctypeContent? 0 none [] (c.rest.drop doctypeOpening.length) with
  | none => ⟨tokens, .error (.unterminated .doctype c.pos)⟩
  | some (content, rest) =>
    emit tokens (.doctype (String.ofList content)) c.pos
      (c.past (doctypeOpening ++ content ++ ['>']) rest)

def readEndTag (tokens : Array SpannedToken) (c : Cursor) : Found :=
  match readName .endTag c.pos (c.past ['<', '/'] (c.rest.drop 2)) with
  | .error e => ⟨tokens, .error e⟩
  | .ok (name, afterName) =>
    let close := afterName.skipBlanks
    match close.rest with
    | '>' :: rest => emit tokens (.endTag name) c.pos (close.past ['>'] rest)
    | x :: _ => ⟨tokens, .error (.invalidCharacter x close.pos)⟩
    | [] => ⟨tokens, .error (.unterminated .endTag c.pos)⟩

def readStartTag (tokens : Array SpannedToken) (c : Cursor) : Found :=
  match readName .startTag c.pos (c.past ['<'] (c.rest.drop 1)) with
  | .error e => ⟨tokens, .error e⟩
  | .ok (name, afterName) =>
    readTagRest c.pos (tokens.push ⟨.openTag name, ⟨c.pos, afterName.pos⟩⟩) afterName

def readText (tokens : Array SpannedToken) (c : Cursor) : Found :=
  let raw := c.rest.takeWhile (· ≠ '<')
  let size := Text.byteLength raw
  if size > Limit.text then ⟨tokens, .error (.textTooLarge size Limit.text c.pos)⟩
  else
    match decodeAt c.pos raw with
    | .error e => ⟨tokens, .error e⟩
    | .ok content => emit tokens (.text content) c.pos (c.past raw (c.rest.dropWhile (· ≠ '<')))

/-- The construct at the front of a text that is not empty, told by its first characters. -/
def readConstruct (tokens : Array SpannedToken) (c : Cursor) : Found :=
  if commentOpening.isPrefixOf c.rest then readComment tokens c
  else if cdataOpening.isPrefixOf c.rest then readCdata tokens c
  else if doctypeOpening.isPrefixOf c.rest then readDoctype tokens c
  else match c.rest with
    | '<' :: '?' :: _ => readDeclaration tokens c
    | '<' :: '/' :: _ => readEndTag tokens c
    | '<' :: _ => readStartTag tokens c
    | _ => readText tokens c

end Lexer

end Barrage.Markup
