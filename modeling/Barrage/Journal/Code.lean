import Barrage.Text.Basic

/-!
The codes that events and errors carry, and what is known of each: where it belongs, how severe it
is, whether work can go on, and what to do about it. A code that is not in the registry is of medium
severity and recoverable.
-/

set_option autoImplicit false

namespace Barrage

structure Code where
  text : String
  deriving DecidableEq, Repr, Inhabited

inductive Severity where
  | critical
  | high
  | medium
  | low
  deriving DecidableEq, Repr

def Severity.name : Severity → String
  | .critical => "Critical"
  | .high => "High"
  | .medium => "Medium"
  | .low => "Low"

structure CodeInfo where
  code : Code
  category : String
  severity : Severity
  recoverable : Bool
  halts : Bool
  description : String
  action : String
  deriving Repr

namespace Code

def internalError : Code := ⟨"ERR001"⟩
def initializationFailure : Code := ⟨"ERR002"⟩
def fileNotFound : Code := ⟨"E005"⟩
def invalidExtension : Code := ⟨"E006"⟩
def fileTooLarge : Code := ⟨"E007"⟩
def emptyFile : Code := ⟨"E008"⟩
def permissionDenied : Code := ⟨"E009"⟩
def invalidEncoding : Code := ⟨"E010"⟩
def inputOutput : Code := ⟨"E011"⟩
def invalidCharacter : Code := ⟨"E020"⟩
def unterminated : Code := ⟨"E021"⟩
def unknownEntity : Code := ⟨"E022"⟩
def nameTooLong : Code := ⟨"E023"⟩
def textTooLarge : Code := ⟨"E024"⟩
def commentTooLong : Code := ⟨"E026"⟩
def tooManyTokens : Code := ⟨"E027"⟩
def unexpectedToken : Code := ⟨"E040"⟩
def mismatchedEndTag : Code := ⟨"E041"⟩
def unclosedElement : Code := ⟨"E042"⟩
def multipleRoots : Code := ⟨"E043"⟩
def missingRoot : Code := ⟨"E044"⟩
def textOutsideRoot : Code := ⟨"E045"⟩
def duplicateAttribute : Code := ⟨"E046"⟩
def nestingTooDeep : Code := ⟨"E047"⟩
def tooManyAttributes : Code := ⟨"E048"⟩
def malformedExpression : Code := ⟨"E060"⟩
def expressionTooLong : Code := ⟨"E061"⟩
def unboundParameter : Code := ⟨"W060"⟩
def wrongRoot : Code := ⟨"E080"⟩
def unknownElement : Code := ⟨"E081"⟩
def invalidType : Code := ⟨"E082"⟩
def invalidOrientation : Code := ⟨"E083"⟩
def unknownAttribute : Code := ⟨"W080"⟩
def unresolvedReference : Code := ⟨"E110"⟩
def labelTooLong : Code := ⟨"E111"⟩
def missingBullet : Code := ⟨"E120"⟩
def orphanedAction : Code := ⟨"E121"⟩
def spawnFailed : Code := ⟨"W140"⟩
def detachedEntity : Code := ⟨"W141"⟩
def noEntryPoint : Code := ⟨"E142"⟩
def unresolvedAtRun : Code := ⟨"E143"⟩
def taskLimitExceeded : Code := ⟨"E144"⟩
def journalStarted : Code := ⟨"I004"⟩
def fileRead : Code := ⟨"I006"⟩
def tokenized : Code := ⟨"I020"⟩
def documentRead : Code := ⟨"I040"⟩
def treeBuilt : Code := ⟨"I050"⟩
def referencesResolved : Code := ⟨"I060"⟩
def validated : Code := ⟨"I070"⟩
def patternLoaded : Code := ⟨"I080"⟩
def entityBound : Code := ⟨"I090"⟩
def simulationComplete : Code := ⟨"I091"⟩
def warning : Code := ⟨"W000"⟩
def info : Code := ⟨"I000"⟩
def debug : Code := ⟨"D000"⟩

def registry : List CodeInfo := [
  ⟨internalError, "System", .critical, false, true,
    "Critical internal engine error",
    "File a bug report with the pattern that triggered it"⟩,
  ⟨initializationFailure, "System", .critical, false, true,
    "Logging or configuration initialization failure",
    "Check configuration files and environment variables"⟩,
  ⟨fileNotFound, "FileProcessing", .high, false, true,
    "Pattern file not found",
    "Check the file path"⟩,
  ⟨invalidExtension, "FileProcessing", .medium, true, false,
    "Pattern file has an unexpected extension",
    "Rename the file to .xml or .bulletml or relax the extension preference"⟩,
  ⟨fileTooLarge, "FileProcessing", .high, false, true,
    "Pattern file exceeds the size limit",
    "Split the pattern into smaller files"⟩,
  ⟨emptyFile, "FileProcessing", .medium, false, true,
    "Pattern file is empty",
    "Provide a bulletml document"⟩,
  ⟨permissionDenied, "FileProcessing", .high, false, true,
    "Permission denied reading pattern file",
    "Check file permissions"⟩,
  ⟨invalidEncoding, "FileProcessing", .high, false, true,
    "Pattern file is not valid UTF-8",
    "Re-encode the file as UTF-8"⟩,
  ⟨inputOutput, "FileProcessing", .high, false, true,
    "I/O error reading pattern file",
    "Retry or check the storage device"⟩,
  ⟨invalidCharacter, "Lexical", .high, false, true,
    "Invalid character in markup",
    "Remove or escape the character"⟩,
  ⟨unterminated, "Lexical", .high, false, true,
    "Unterminated tag, comment, string or declaration",
    "Close the construct"⟩,
  ⟨unknownEntity, "Lexical", .high, false, true,
    "Unknown character entity",
    "Use &lt; &gt; &amp; &quot; &apos; or a numeric reference"⟩,
  ⟨nameTooLong, "Lexical", .medium, false, true,
    "Element or attribute name too long",
    "Shorten the name"⟩,
  ⟨textTooLarge, "Lexical", .medium, false, true,
    "Text or attribute value too large",
    "Shorten the value"⟩,
  ⟨commentTooLong, "Lexical", .medium, false, true,
    "Comment too long",
    "Shorten the comment"⟩,
  ⟨tooManyTokens, "Lexical", .high, false, true,
    "Too many markup tokens",
    "Split the pattern"⟩,
  ⟨unexpectedToken, "Syntax", .high, false, true,
    "Unexpected markup token",
    "Check the element structure"⟩,
  ⟨mismatchedEndTag, "Syntax", .high, false, true,
    "End tag does not match the open element",
    "Fix the element nesting"⟩,
  ⟨unclosedElement, "Syntax", .high, false, true,
    "Element is never closed",
    "Add the missing end tag"⟩,
  ⟨multipleRoots, "Syntax", .high, false, true,
    "More than one document element",
    "Wrap everything in a single bulletml element"⟩,
  ⟨missingRoot, "Syntax", .high, false, true,
    "No document element",
    "Add a bulletml element"⟩,
  ⟨textOutsideRoot, "Syntax", .medium, false, true,
    "Text outside the document element",
    "Move the text inside an element"⟩,
  ⟨duplicateAttribute, "Syntax", .medium, false, true,
    "Attribute given twice on one element",
    "Remove the duplicate"⟩,
  ⟨nestingTooDeep, "Syntax", .high, false, true,
    "Element nesting too deep",
    "Flatten the pattern using references"⟩,
  ⟨tooManyAttributes, "Syntax", .medium, false, true,
    "Too many attributes on one element",
    "Remove unused attributes"⟩,
  ⟨malformedExpression, "Expression", .high, false, true,
    "Malformed arithmetic expression",
    "Check operators, parentheses and $ variables"⟩,
  ⟨expressionTooLong, "Expression", .medium, false, true,
    "Expression too long",
    "Simplify the expression"⟩,
  ⟨unboundParameter, "Expression", .low, true, false,
    "Parameter has no value anywhere up the owner chain; 0 used",
    "Pass the parameter from the referencing node"⟩,
  ⟨wrongRoot, "Format", .high, false, true,
    "Document element is not bulletml",
    "Use <bulletml> as the root element"⟩,
  ⟨unknownElement, "Format", .high, false, true,
    "Unknown pattern element",
    "Use one of the bulletml element names"⟩,
  ⟨invalidType, "Format", .high, false, true,
    "Invalid type qualifier",
    "Use none, aim, absolute, relative or sequence"⟩,
  ⟨invalidOrientation, "Format", .high, false, true,
    "Invalid document orientation",
    "Use none, vertical or horizontal"⟩,
  ⟨unknownAttribute, "Format", .low, true, false,
    "Attribute ignored by the pattern language",
    "Remove the attribute"⟩,
  ⟨unresolvedReference, "Reference", .high, false, true,
    "Reference label does not resolve to a node of the expected kind",
    "Define the labelled node or fix the label"⟩,
  ⟨labelTooLong, "Reference", .medium, false, true,
    "Label too long",
    "Shorten the label"⟩,
  ⟨missingBullet, "Validation", .high, false, true,
    "Fire has neither a bullet nor a bulletRef",
    "Add a bullet description to the fire"⟩,
  ⟨orphanedAction, "Validation", .critical, false, true,
    "Action node without a parent",
    "File a bug report"⟩,
  ⟨spawnFailed, "Runtime", .low, true, false,
    "Host could not create an entity; fire skipped",
    "Raise the host entity limit"⟩,
  ⟨detachedEntity, "Runtime", .low, true, false,
    "Created entity is not attached to the emitting context; fire skipped",
    "Attach created entities to the requested emitter"⟩,
  ⟨noEntryPoint, "Runtime", .medium, true, false,
    "Pattern has no top or top1..top9 action; entity removed",
    "Label an action top"⟩,
  ⟨unresolvedAtRun, "Runtime", .critical, false, true,
    "Reference reached the interpreter without validation",
    "Load patterns through the pipeline"⟩,
  ⟨taskLimitExceeded, "Runtime", .high, true, false,
    "Task tree exceeds the per-entity task limit",
    "Check for self-referencing actions"⟩,
  ⟨journalStarted, "Success", .low, true, false,
    "Logging system initialized",
    "None"⟩,
  ⟨fileRead, "Success", .low, true, false,
    "Pattern file read",
    "Continue to tokenization"⟩,
  ⟨tokenized, "Success", .low, true, false,
    "Markup tokenized",
    "Continue to element tree construction"⟩,
  ⟨documentRead, "Success", .low, true, false,
    "Element tree built",
    "Continue to AST construction"⟩,
  ⟨treeBuilt, "Success", .low, true, false,
    "AST built",
    "Continue to validation"⟩,
  ⟨referencesResolved, "Success", .low, true, false,
    "References resolved",
    "Continue to structural checks"⟩,
  ⟨validated, "Success", .low, true, false,
    "Pattern validated",
    "Pattern ready for binding"⟩,
  ⟨patternLoaded, "Success", .low, true, false,
    "Pattern loaded",
    "Bind entities to the pattern"⟩,
  ⟨entityBound, "Success", .low, true, false,
    "Entity bound to pattern",
    "Step the entity every tick"⟩,
  ⟨simulationComplete, "Success", .low, true, false,
    "Simulation finished",
    "None"⟩]

def info? (c : Code) : Option CodeInfo := registry.find? fun row => row.code = c

def severity (c : Code) : Severity := (c.info?.map (·.severity)).getD .medium

def isRecoverable (c : Code) : Bool := (c.info?.map (·.recoverable)).getD true

def halts (c : Code) : Bool := (c.info?.map (·.halts)).getD false

def description? (c : Code) : Option String := c.info?.map (·.description)

def action? (c : Code) : Option String := c.info?.map (·.action)

def category (c : Code) : String := (c.info?.map (·.category)).getD "Unknown"

def unknownDescription : String := "Unknown error"

def unknownAction : String := "No specific action available"

def description (c : Code) : String := c.description?.getD unknownDescription

def action (c : Code) : String := c.action?.getD unknownAction

end Code

end Barrage
