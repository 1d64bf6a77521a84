/-
An engine with its client: log messages, configurations, and the way of a report. A report reaches
the client only if the configuration of its project enables the issue, does not ignore the report
and does not give the issue the severity that ignores it.
-/
import ProjectLint.Run.State
import ProjectLint.Settings.Load
import ProjectLint.Suppression

namespace ProjectLint

/-- The embedding, and how to call its code. -/
structure Engine (σ : Type) where
  host : Host σ
  options : Options
  /-- Calls the code of the embedding. -/
  invoke : Call → Run σ Unit

/-- The configuration of a project with what is logged of it: the one that the embedding gives, or
the one that the file in the folder tells. -/
def Host.made (host : Host σ) (ws : Workspace) (dir : String) (memory : σ) :
    Configuration × List Log.Entry :=
  (host.configuration dir ws memory).getD (Configuration.load ws dir .defaults)

namespace Engine

open Run

def logDetails (context : Option Context) : List (String × Data.Value) :=
  match context with
  | some context => [("file", .text context.file)]
  | none => []

def plainEntry (error : Option String) (message : String) (context : Option Context) : Log.Entry :=
  match error with
  | some reason => ⟨.error, message ++ ": " ++ reason, logDetails context⟩
  | none => ⟨.warn, message, logDetails context⟩

def log (e : Engine σ) (error : Option String) (message : String)
    (context : Option Context := none) : Run σ Unit :=
  if e.host.logsPlainly then record (.logged (plainEntry error message context))
  else e.invoke (.log error message context)

def noted (made : Configuration × List Log.Entry) : Run σ Configuration := do
  each made.2 fun entry => record (.logged entry)
  return made.1

def askConfiguration (e : Engine σ) (ref : ProjectRef) : Run σ Configuration := do
  e.invoke (.getConfiguration ref)
  let s ← get
  noted (e.host.made s.files ref.dir s.host)

def configuration (e : Engine σ) (ref : ProjectRef) : Run σ Configuration := do
  match ((← get).project ref).configuration with
  | some config => return config
  | none =>
      let config ← e.askConfiguration ref
      changeProject ref fun project => { project with configuration := some config }
      return config

inductive Verdict
  | disabled
  | ignored
  | silenced
  | delivered
  deriving DecidableEq, Repr

/-- What becomes of a report. -/
def verdict (config : Configuration) (cwd : String) (report : Report) : Verdict :=
  if !config.isEnabled report.issue then .disabled
  else if config.isIgnored cwd report then .ignored
  else if config.severity report.issue = .ignore then .silenced
  else .delivered

def submit (e : Engine σ) (author : Journal.Author) (report : Report) : Run σ Unit := do
  record (.submitted author report)
  let config ← e.configuration report.context.project
  match verdict config (← get).files.cwd report with
  | .disabled =>
      if report.issue.role = .unparsable then pure ()
      else e.log none ("Incorrect detector reported disabled issue " ++ report.issue.id)
  | .ignored => pure ()
  | .silenced => pure ()
  | .delivered => e.invoke (.report report)

def isSuppressed (issue : Option Issue) : SuppressionTarget → Bool
  | .bytecode annotations => Suppression.inBytecode (issue.map Issue.id) annotations
  | .source labels => Suppression.inSource (issue.map Issue.id) labels

def observe (e : Engine σ) (context : Option Context) (issue : Option Issue)
    (scope : Option Scope) (project : Bool) : Run σ Observation := do
  let moment := (← get).moment
  match context with
  | none => return .state moment none none none none
  | some context =>
      let enabled ←
        match issue with
        | none => pure none
        | some issue => do
            let config ← e.configuration context.project
            pure (some (config.isEnabled issue))
      let shown := (← get).project context.project
      return .state moment (some context.rootProject.dir) enabled
        (scope.map (← get).scope.contains)
        (if project then some (context.project, shown) else none)

def perform (e : Engine σ) : Action → Run σ Reply
  | .report report => do
      e.submit .embedding report
      return .done
  | .requestRepeat detector scope => do
      requestRepeat detector scope
      return .done
  | .cancel => do
      cancel
      return .done
  | .cancelSearch => do
      modify fun s => { s with searchCanceled := true }
      return .done
  | .log error message context => do
      e.log error message context
      return .done
  | .addListener listener => do
      addListener listener
      return .done
  | .removeListener listener => do
      removeListener listener
      return .done
  | .changeFiles change => do
      modify fun s => { s with files := change s.files }
      return .done
  | .observe context issue scope project => do
      let observation ← e.observe context issue scope project
      record (.observed observation)
      return .observed observation
  | .askSuppressed issue target => do
      let observation := Observation.suppressed issue (isSuppressed issue target)
      record (.observed observation)
      return .observed observation

end Engine

namespace Script

def run (perform : Action → Run σ Reply) : Script σ → Run σ Unit
  | .done => pure ()
  | .fail fault => throw fault
  | .update change next => do
      modify fun s => { s with host := change s.host }
      (next (← get).host).run perform
  | .act action next => do
      let reply ← perform action
      (next reply).run perform

end Script

namespace Host

def invoke (host : Host σ) (options : Options) : Nat → Call → Run σ Unit
  | 0, _ => throw .tooDeep
  | depth + 1, call => do
      let s ← get
      Run.record (.called call s.moment)
      (host.react call s.moment s.host).run
        (Engine.perform ⟨host, options, host.invoke options depth⟩)

def nestingLimit : Nat := 2000

def engine (host : Host σ) (options : Options) : Engine σ :=
  ⟨host, options, host.invoke options nestingLimit⟩

end Host
end ProjectLint
