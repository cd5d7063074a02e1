import Barrage.Files.Reader
import Barrage.Markup.Document
import Barrage.Markup.Lexing
import Barrage.Pattern.Basic
import Barrage.Pattern.Format

/-!
Loading patterns: text to tokens, tokens to elements, elements to nodes, nodes to links. Each stage
tells the journal how it went, and the first failure ends the load.
-/

set_option autoImplicit false

namespace Barrage

inductive LoadError where
  | file (error : FileError)
  | lexical (error : Markup.LexError)
  | document (error : Markup.DocumentError)
  | format (error : FormatError)
  | validation (error : ValidationError)
  deriving DecidableEq, Repr

namespace LoadError

def code : LoadError → Code
  | file e => e.code
  | lexical e => e.code
  | document e => e.code
  | format e => e.code
  | validation e => e.code

def message : LoadError → String
  | file e => "File processing failed: " ++ e.message
  | lexical e => "Lexical analysis failed: " ++ e.message
  | document e => "Syntax analysis failed: " ++ e.message
  | format e => "Invalid pattern document: " ++ e.message
  | validation e => "Validation failed: " ++ e.message

/-- Whether the document is a pattern whose nodes do not fit together. -/
def isValidation : LoadError → Bool
  | validation _ => true
  | _ => false

end LoadError

namespace Load

open Markup

def tokens (source : String) : Logged (Except LexError TokenStream) := do
  let l := Lexing.ofSource source
  match l.outcome with
  | .error e =>
    note fun j => j.error e.code e.message [] (e.position?.map Span.point)
    pure (.error e)
  | .ok () =>
    let m := l.metrics
    note fun j => j.success .tokenized "Tokenization completed"
      [("tokens", toString m.tokens), ("elements", toString m.elements),
        ("attributes", toString m.attributes), ("text_runs", toString m.textRuns)]
    pure (.ok (.ofTokens l.tokens (some (.ofSource source))))

def elements (s : TokenStream) : Logged (Except DocumentError Element × Nat) := do
  note fun j => j.debug "Creating markup parser" fun _ => [("tokens", toString s.size)]
  pure (readDocument s)

def document (s : TokenStream) : Logged (Except DocumentError Element) := do
  note fun j => j.debug "Starting syntax analysis" fun _ => [("tokens", toString s.size)]
  let (outcome, depth) ← elements s
  match outcome with
  | .error e =>
    note fun j => j.error e.code e.message [] (some (e.span?.getD Span.nowhere))
  | .ok root =>
    note fun j => j.success .documentRead "Element tree built"
      [("root", root.name), ("elements", toString root.size), ("max_depth", toString depth)]
  pure outcome

def warnIgnored (a : IgnoredAttribute) : Logged Unit :=
  note fun j => j.warn .unknownAttribute "Ignoring unknown attribute"
    [("element", a.element), ("attribute", a.name)] (some a.span)

def draft (s : LoaderSettings) (root : Element) : Logged (Except FormatError Draft) := do
  note fun j => j.debug "Starting AST construction" fun _ => [("root", root.name)]
  let (outcome, d) := Draft.ofDocument root
  if s.warnUnknownAttributes then d.ignored.toList.forM warnIgnored
  match outcome with
  | .error e =>
    note fun j => j.error e.code e.message [] (some e.span)
    pure (.error e)
  | .ok () =>
    note fun j => j.success .treeBuilt "Pattern tree built"
      [("nodes", toString d.tree.size), ("orientation", d.orientation.title)]
    pure (.ok d)

def logResolution (r : Resolution) : Logged Unit :=
  note fun j => j.debug "Reference resolved" fun _ =>
    [("reference", r.reference.name), ("label", r.label), ("target", "#" ++ toString r.target)]

/-- The links of a tree after validation, also of one that fails, and the counts. -/
def links (s : LoaderSettings) (t : Tree) (before : Links) :
    Logged (Except ValidationError ValidationStats × Links) := do
  note fun j => j.debug "Starting validation" fun _ => [("nodes", toString t.size)]
  let (outcome, w) := t.validate { links := before }
  w.resolved.toList.forM logResolution
  match outcome with
  | .error e =>
    note fun j => j.error e.code e.message [] (some e.span)
    pure (.error e, w.links)
  | .ok () =>
    note fun j => j.success .referencesResolved "References resolved"
      [("references", toString w.stats.references)]
    note fun j => j.success .validated "Validation completed"
      (if s.logValidationDetails then
        [("nodes", toString w.stats.nodes), ("fires", toString w.stats.fires)]
      else [])
    pure (.ok w.stats, w.links)

def stage {α ε : Type} (wrap : ε → LoadError) (x : Logged (Except ε α)) :
    ExceptT LoadError Logged α :=
  ExceptT.mk do
    let outcome ← x
    pure (outcome.mapError wrap)

def pattern (s : LoaderSettings) (source : String) : ExceptT LoadError Logged Pattern := do
  let stream ← stage .lexical (tokens source)
  let root ← stage .document (document stream)
  let d ← stage .format (draft s root)
  let (_, l) ← stage .validation do
    let (outcome, l) ← links s d.tree (.blank d.tree.size)
    pure (outcome.map fun stats => (stats, l))
  let p : Pattern := { tree := d.tree, links := l, orientation := d.orientation }
  ExceptT.lift (note fun j => j.success .patternLoaded "Pattern loaded"
    [("nodes", toString p.tree.size), ("entry_points", toString p.entryPoints.length)])
  pure p

def openedFile (d : Disk) (s : Settings) (path : Path) : ExceptT LoadError Logged Pattern := do
  ExceptT.lift (note fun j => j.info "Loading pattern file" [("file", path.text)])
  let f ← stage .file (SourceFile.read d s.files path)
  let p ← pattern s.loader f.source
  pure { p with file? := some path }

/-- The pattern of a file; everything that is logged names the file. -/
def file (d : Disk) (s : Settings) (path : Path) (id : Nat) :
    Logged (Except LoadError Pattern) :=
  withFile ⟨path, id⟩ (openedFile d s path).run

end Load

end Barrage
