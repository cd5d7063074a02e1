import Barrage.Source.Position

/-!
Character references: `&lt;` and the other predefined names, `&#65;` in decimal and `&#x41;` in
hexadecimal. A reference ends at the first semicolon, which stands at most twelve bytes behind the
ampersand. Decoding replaces every reference once and leaves all other text as it is.
-/

set_option autoImplicit false

namespace Barrage.Markup

/-- An ampersand that begins no reference: what was taken for its name, and where it stands. -/
structure BadReference where
  name : String
  position : Position
  deriving DecidableEq, Repr

namespace CharRef

/-- The farthest byte from the ampersand at which the semicolon may stand. -/
def reach : Nat := 12

def predefined : List (String × Char) :=
  [("lt", '<'), ("gt", '>'), ("amp", '&'), ("quot", '"'), ("apos", '\'')]

def ofCode? (code : Nat) : Option Char :=
  if code.isValidChar then some (Char.ofNat code) else none

def denoted? (body : List Char) : Option Char :=
  match predefined.lookup (String.ofList body) with
  | some c => some c
  | none => match body with
    | '#' :: 'x' :: digits => (Text.readNat? 16 UInt32.size digits).bind ofCode?
    | '#' :: digits => (Text.readNat? 10 UInt32.size digits).bind ofCode?
    | _ => none

/-- The body of the reference that begins with an ampersand before these characters. No more of them
are looked at than a reference in reach can have. -/
def body? (cs : List Char) : Option (List Char) :=
  let near := cs.take reach
  let body := near.takeWhile (· ≠ ';')
  if body.length < near.length ∧ 1 + Text.byteLength body ≤ reach then some body else none

def namedPart (cs : List Char) : List Char :=
  cs.takeWhile fun c => Text.isAlphanumeric c || c = '#'

/-- Decodes a text, with what was decoded before in reverse. -/
def decodeFrom (p : Position) (decoded : List Char) (cs : List Char) :
    Except BadReference (List Char) :=
  match cs with
  | [] => .ok decoded.reverse
  | c :: rest =>
    if c = '&' then
      match body? rest with
      | none => .error ⟨String.ofList (namedPart rest), p⟩
      | some body =>
        match denoted? body with
        | none => .error ⟨String.ofList body, p⟩
        | some d =>
          decodeFrom (((p.advance '&').advanceAll body).advance ';') (d :: decoded)
            (rest.drop (body.length + 1))
    else decodeFrom (p.advance c) (c :: decoded) rest
termination_by cs.length
decreasing_by all_goals simp; try omega

end CharRef

def decode (p : Position) (cs : List Char) : Except BadReference (List Char) :=
  CharRef.decodeFrom p [] cs

end Barrage.Markup
