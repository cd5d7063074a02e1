import Barrage.Source.Map

/-!
Markup tokens and the stream that readers walk over. A tag is a token for its opening, one for each
attribute and one for its close. Declarations, comments and blank text carry no meaning.
-/

set_option autoImplicit false

namespace Barrage.Markup

inductive Token where
  | declaration (content : String)
  | doctype (content : String)
  | comment (content : String)
  | openTag (name : String)
  | attr (name value : String)
  | closeTag
  | closeEmpty
  | endTag (name : String)
  | text (content : String)
  | cdata (content : String)
  | endOfInput
  deriving DecidableEq, Repr, Inhabited

namespace Token

def isTrivia : Token → Bool
  | declaration _ | doctype _ | comment _ => true
  | text content => Text.isBlankText content
  | _ => false

def characterData? : Token → Option String
  | text content | cdata content => some content
  | _ => none

def description : Token → String
  | declaration _ => "declaration"
  | doctype _ => "doctype"
  | comment _ => "comment"
  | openTag name => "<" ++ name ++ ">"
  | attr name _ => "attribute '" ++ name ++ "'"
  | closeTag => "'>'"
  | closeEmpty => "'/>'"
  | endTag name => "</" ++ name ++ ">"
  | text _ => "text"
  | cdata _ => "CDATA section"
  | endOfInput => "end of input"

/-- The markup of a token; the decoded text of attributes and text is not encoded again. -/
def markup : Token → String
  | declaration content => "<?" ++ content ++ "?>"
  | doctype content => "<!DOCTYPE" ++ content ++ ">"
  | comment content => "<!--" ++ content ++ "-->"
  | openTag name => "<" ++ name
  | attr name value => name ++ "=\"" ++ value ++ "\""
  | closeTag => ">"
  | closeEmpty => "/>"
  | endTag name => "</" ++ name ++ ">"
  | text content => content
  | cdata content => "<![CDATA[" ++ content ++ "]]>"
  | endOfInput => "EOF"

end Token

abbrev SpannedToken := Spanned Token

structure TokenStream where
  tokens : Array SpannedToken
  significant : Array SpannedToken
  place : Nat := 0
  source? : Option SourceMap := none

namespace TokenStream

def ofTokens (tokens : Array SpannedToken) (source? : Option SourceMap := none) : TokenStream :=
  { tokens, significant := tokens.filter fun t => !t.value.isTrivia, source? }

def current? (s : TokenStream) : Option SpannedToken := s.significant[s.place]?

def peek? (s : TokenStream) : Option SpannedToken := s.significant[s.place + 1]?

def advance (s : TokenStream) : TokenStream :=
  if s.place < s.significant.size then { s with place := s.place + 1 } else s

/-- The span of the current token; behind the last one, that of the last of all tokens. -/
def currentSpan (s : TokenStream) : Span :=
  match s.current?.or s.tokens.back? with
  | some t => t.span
  | none => Span.nowhere

def isAtEnd (s : TokenStream) : Bool :=
  match s.current? with
  | none => true
  | some t => t.value = .endOfInput

def size (s : TokenStream) : Nat := s.significant.size

/-- A message for a span, with the source line if the source is known. -/
def renderError? (s : TokenStream) (span : Span) (message : String) : Option String :=
  match s.source? with
  | some m => m.render? span message
  | none => some s!"error: {message} at {span.text}"

end TokenStream

end Barrage.Markup
