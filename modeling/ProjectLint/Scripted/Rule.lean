/-
Rules: what detectors, listeners and clients do when they are called, said by data. A rule waits for
calls of one name and may narrow them down further; the commands of all rules that apply are carried
out in order.
-/
import ProjectLint.Run.Host
import ProjectLint.Schedule

namespace ProjectLint
namespace Scripted

inductive Command
  | report (issue : String) (location : Option Location) (message : String) (data : Data.Value)
  /-- Without a detector it is the one that was called. -/
  | requestRepeat (detector : Option Detector) (scope : Option ScopeSet)
  | cancel
  | fail (fault : Fault)
  | observe (issue : Option String) (scope : Option Scope) (project : Bool)
  | askSuppressed (issue : Option String)
  | log (error : Option String) (message : String)
  | addListener (listener : Listener)
  | removeListener (listener : Listener)
  /-- Adds a listener to those that hear of events beside the engine. -/
  | addObserver (listener : Listener)
  | removeObserver (listener : Listener)
  | changeFiles (change : Workspace → Workspace)

def Command.needsEngine : Command → Bool
  | .fail _ | .changeFiles _ => false
  | _ => true

structure Rule where
  trigger : String
  commands : List Command
  /-- The call that counts, from one on, among those of the same name to the same subject. -/
  nth : Option Nat := none
  /-- The end of the file or directory that the call is about. -/
  file : Option String := none
  phase : Option Nat := none
  /-- The name of the node, element, attribute or class that the call is about. -/
  name : Option String := none

inductive Subject
  | detector (detector : Detector)
  | listener (listener : Listener)
  | client
  deriving DecidableEq, Repr

namespace Subject

def ofCall : Call → Subject
  | .detector called _ => .detector called
  | .listener called _ _ => .listener called
  | _ => .client

def detector? : Subject → Option Detector
  | .detector called => some called
  | _ => none

end Subject

def fileOf? : Call → Option String
  | .getProject dir _ => some dir
  | .getConfiguration project => some project.dir
  | call => call.context?.map Context.file

def classText (bytes : Bytes) : String :=
  Text.trim (Text.Utf8.decode bytes)

def nameOf? : Call → Option String
  | .detector _ (.element _ element) => some element.tag
  | .detector _ (.elementAttribute _ _ item) => some item.name
  | .detector _ (.node _ label _) => some label.type
  | .detector _ (.classFile _ file) => some file.name
  | .readClass bytes => some (classText bytes)
  | _ => none

def targetOf : Call → SuppressionTarget
  | .detector _ (.node _ label above) => .source (label :: above)
  | .detector _ (.compilationUnit _ unit) => .source [unit.root.label]
  | .detector _ (.classFile _ file) => .bytecode file.annotations
  | _ => .bytecode []

namespace Rule

def withoutEngine (fault : Fault) (rule : Rule) : Rule :=
  if rule.phase.isSome then { rule with phase := none, name := none, commands := [.fail fault] }
  else
    { rule with
      commands := rule.commands.map fun command =>
        if command.needsEngine then .fail fault else command }

def applies (rule : Rule) (call : Call) (moment : Moment) (number : Nat) : Bool :=
  rule.trigger == call.name &&
    rule.nth.all (· == number) &&
    rule.phase.all (· == moment.phase) &&
    rule.file.all (fun tail => (fileOf? call).any (Text.endsWith · tail)) &&
    rule.name.all (fun name => nameOf? call == some name)

end Rule

structure Memory where
  /-- How often each subject was called by each name. -/
  counts : List ((Subject × String) × Nat) := []
  /-- All issues that were declared, in order. -/
  issues : List Issue := []
  /-- Who hears of events beside the engine. -/
  observers : List Listener := []
  /-- A schedule beside that of the engine. -/
  schedule : Schedule := {}
  /-- Projects kept beside those of the client, by canonical directory. -/
  projects : List (String × ProjectRef) := []
  configurations : List (String × Configuration) := []

namespace Memory

def countOf (memory : Memory) (key : Subject × String) : Nat :=
  (memory.counts.lookup key).getD 0

def count (memory : Memory) (key : Subject × String) : Memory :=
  let others := memory.counts.filter (·.1 != key)
  { memory with counts := (key, memory.countOf key + 1) :: others }

def issue? (memory : Memory) (name : String) : Option Issue :=
  match name with
  | "@ParserError" => some .unparsable
  | "@Lint" => some .canceled
  | id => memory.issues.reverse.find? (·.id == id)

def knownIssues (memory : Memory) : List Issue :=
  (distinct (memory.issues.map Issue.id)).filterMap memory.issue?

end Memory

namespace Command

def script (call : Call) (memory : Memory) (next : Script Memory) : Command → Script Memory
  | .report name location message data =>
      match call.context?, memory.issue? name with
      | some context, some issue =>
        .perform (.report ⟨context, issue, location, message, data⟩) next
      | _, _ => .fail (.failure ("Nothing to report " ++ name ++ " on"))
  | .requestRepeat detector scope =>
      match detector.or (Subject.ofCall call).detector? with
      | some detector => .perform (.requestRepeat detector scope) next
      | none => .fail (.failure "No detector to repeat")
  | .cancel => .perform .cancel (.perform .cancelSearch next)
  | .fail fault => .fail fault
  | .observe issue scope project =>
      .perform (.observe call.context? (issue.bind memory.issue?) scope project) next
  | .askSuppressed issue =>
      .perform (.askSuppressed (issue.bind memory.issue?) (targetOf call)) next
  | .log error message => .perform (.log error message call.context?) next
  | .addListener listener => .perform (.addListener listener) next
  | .removeListener listener => .perform (.removeListener listener) next
  | .addObserver listener =>
      .update (fun memory => { memory with observers := memory.observers ++ [listener] })
        fun _ => next
  | .removeObserver listener =>
      .update (fun memory => { memory with observers := memory.observers.erase listener })
        fun _ => next
  | .changeFiles change => .perform (.changeFiles change) next

end Command

def commandsFor (rules : List Rule) (call : Call) (moment : Moment) (number : Nat) :
    List Command :=
  (rules.filter fun rule => rule.applies call moment number).flatMap Rule.commands

def reaction (rules : List Rule) (call : Call) (moment : Moment) : Script Memory :=
  let key := (Subject.ofCall call, call.name)
  .update (·.count key) fun memory =>
    (commandsFor rules call moment (memory.countOf key)).foldr
      (fun command next => command.script call memory next) .done

end Scripted
end ProjectLint
