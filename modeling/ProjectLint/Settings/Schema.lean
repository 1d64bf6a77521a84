/-
The form of a settings file. All that is wrong with a document is collected in document order; a
document with anything wrong gives no settings at all. Unknown keys are passed over.
-/
import ProjectLint.Data.Value
import ProjectLint.Issue

namespace ProjectLint

structure IssueSettings where
  severity : Option Severity := none
  ignore : Option (List String) := none
  deriving DecidableEq, Repr

structure Settings where
  issues : List (String × IssueSettings) := []
  deriving DecidableEq, Repr

namespace Settings

def everyIssue : String := "all"

def entry? (settings : Settings) (id : String) : Option IssueSettings :=
  (settings.issues.find? (·.1 == id)).map Prod.snd

inductive Expected
  | object
  | array
  | string
  | boolean
  | severity
  deriving DecidableEq, Repr

def severityChoices : String :=
  Text.joined " | " (Severity.all.map fun s => "'" ++ s.name ++ "'")

def Expected.text : Expected → String
  | .object => "object"
  | .array => "array"
  | .string => "string"
  | .boolean => "boolean"
  | .severity => severityChoices

inductive Cause
  | wrongKind (expected : Expected) (kind : String)
  | unknownSeverity (value : String)
  | unknownKeys (keys : List String)
  deriving DecidableEq, Repr

def Cause.message : Cause → String
  | .wrongKind expected kind => "Expected " ++ expected.text ++ ", received " ++ kind
  | .unknownSeverity value =>
      "Invalid enum value. Expected " ++ severityChoices ++ ", received '" ++ value ++ "'"
  | .unknownKeys keys =>
      "Unrecognized key(s) in object: " ++ Text.joined ", " (keys.map fun key => "'" ++ key ++ "'")

structure Problem where
  place : List String
  cause : Cause
  deriving DecidableEq, Repr

def Problem.text (problem : Problem) : String :=
  Text.joined "." problem.place ++ ": " ++ problem.cause.message

def problemsText (problems : List Problem) : String :=
  Text.joined "; " (problems.map Problem.text)

abbrev Checked (α : Type) := Except (List Problem) α

def both (a : Checked α) (b : Checked β) : Checked (α × β) :=
  match a, b with
  | .ok x, .ok y => .ok (x, y)
  | .error p, .ok _ => .error p
  | .ok _, .error q => .error q
  | .error p, .error q => .error (p ++ q)

def checkSeverity (place : List String) : Data.Value → Checked Severity
  | .text value =>
      match Severity.ofName? value with
      | some severity => .ok severity
      | none => .error [⟨place, .unknownSeverity value⟩]
  | .number (.finite value) => .error [⟨place, .unknownSeverity value.text⟩]
  | .number (.infinite negative) =>
      .error [⟨place, .unknownSeverity (Data.Amount.infinite negative).text⟩]
  | value => .error [⟨place, .wrongKind .severity value.kind⟩]

def checkTexts (place : List String) : Nat → List Data.Value → Checked (List String)
  | _, [] => .ok []
  | i, item :: rest =>
      let first : Checked String :=
        match item with
        | .text value => .ok value
        | other => .error [⟨place ++ [toString i], .wrongKind .string other.kind⟩]
      (both first (checkTexts place (i + 1) rest)).map fun (text, texts) => text :: texts

def checkIgnore (place : List String) : Data.Value → Checked (List String)
  | .list items => checkTexts place 0 items
  | value => .error [⟨place, .wrongKind .array value.kind⟩]

def optional (check : Data.Value → Checked α) : Option Data.Value → Checked (Option α)
  | none => .ok none
  | some value => (check value).map some

def checkIssue (place : List String) : Data.Value → Checked IssueSettings
  | .record fields =>
      (both
        (optional (checkSeverity (place ++ ["severity"])) (Data.Value.field? fields "severity"))
        (optional (checkIgnore (place ++ ["ignore"])) (Data.Value.field? fields "ignore"))).map
        fun (severity, ignore) => ⟨severity, ignore⟩
  | value => .error [⟨place, .wrongKind .object value.kind⟩]

def checkFields (place : List String) :
    List (String × Data.Value) → Checked (List (String × IssueSettings))
  | [] => .ok []
  | (id, value) :: rest =>
      (both (checkIssue (place ++ [id]) value) (checkFields place rest)).map
        fun (entry, entries) => (id, entry) :: entries

def droppedKey : String := "__proto__"

def checkIssues (place : List String) : Data.Value → Checked (List (String × IssueSettings))
  | .record fields =>
      (checkFields place fields).map fun entries => entries.filter (·.1 != droppedKey)
  | value => .error [⟨place, .wrongKind .object value.kind⟩]

def check : Data.Value → Checked Settings
  | .null => .ok {}
  | .record fields =>
      (optional (checkIssues ["issues"]) (Data.Value.field? fields "issues")).map
        fun issues => ⟨issues.getD []⟩
  | value => .error [⟨[], .wrongKind .object value.kind⟩]

end Settings
end ProjectLint
