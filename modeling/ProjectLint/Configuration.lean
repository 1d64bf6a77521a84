/-
Configurations decide which issues are looked for, which reports are passed over, and how severe
they are. Settings of one directory are a layer, and a layer leaves what it does not say to the next
one; under the last layer stands either a policy that the embedding supplies or the defaults of the
issue itself.
-/
import ProjectLint.Context
import ProjectLint.Path
import ProjectLint.Settings.Pattern
import ProjectLint.Settings.Schema

namespace ProjectLint

structure Policy where
  enabled : Issue → Bool
  ignored : Report → Bool
  severity : Issue → Severity

/-- The settings of a directory. -/
structure Layer where
  dir : String
  settings : Settings

/-- What is enabled, how severe it is, and which reports are ignored. -/
inductive Configuration
  /-- Nothing is said: the issue decides. -/
  | defaults
  | policy (policy : Policy)
  /-- A layer, and the configuration that it leaves open questions to. -/
  | layer (layer : Layer) (parent : Configuration)

namespace Layer

def severity? (layer : Layer) (issue : Issue) : Option Severity :=
  ((layer.settings.entry? issue.id).bind IssueSettings.severity).or
    ((layer.settings.entry? Settings.everyIssue).bind IssueSettings.severity)

def patterns (layer : Layer) (issue : Issue) : List String :=
  ((layer.settings.entry? issue.id).bind IssueSettings.ignore).getD [] ++
    ((layer.settings.entry? Settings.everyIssue).bind IssueSettings.ignore).getD []

/-- The file that a report is about, or the archive that holds it. -/
def reportedPath (report : Report) : String :=
  let file := (report.location.map Location.file).getD report.context.file
  if Path.isAbsolute file then file else report.context.archive?.getD file

def ignores (layer : Layer) (cwd : String) (report : Report) : Bool :=
  (layer.patterns report.issue).any
    (Settings.Pattern.isMatch (Path.relative cwd layer.dir (reportedPath report)))

end Layer

namespace Configuration

def severity (issue : Issue) : Configuration → Severity
  | .defaults => issue.severity
  | .policy rules => rules.severity issue
  | .layer own parent => (own.severity? issue).getD (parent.severity issue)

def isEnabled (issue : Issue) : Configuration → Bool
  | .defaults => issue.enabled && issue.severity != .ignore
  | .policy rules => rules.enabled issue
  | .layer own parent =>
      match own.severity? issue with
      | some given => given != .ignore
      | none => parent.isEnabled issue

def isIgnored (cwd : String) (report : Report) : Configuration → Bool
  | .defaults => false
  | .policy rules => rules.ignored report
  | .layer own parent => own.ignores cwd report || parent.isIgnored cwd report

end Configuration
end ProjectLint
