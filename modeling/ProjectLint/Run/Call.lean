/-
Calls that an engine makes to the code of its embedding, and the journal in which a run is written
down: every call with the moment it was made at, every event, report and log line.
-/
import ProjectLint.Detector
import ProjectLint.Event
import ProjectLint.Log
import ProjectLint.Project
import ProjectLint.Tree.Source

namespace ProjectLint

/-- What a callback can see of the run. -/
structure Moment where
  scope : ScopeSet
  phase : Nat
  canceled : Bool

abbrev Listener := String

/-- What a detector is asked or told. -/
inductive Hook
  | beforeProject (context : Context)
  | afterProject (context : Context)
  | beforeLibrary (context : Context)
  | afterLibrary (context : Context)
  | beforeFile (context : Context)
  | afterFile (context : Context)
  | appliesToFolder (folder : FolderType) (answer : Bool)
  | appliesToFile (context : Context) (file : String) (answer : Bool)
  | elementNames
  | attributeNames
  | nodeTypes
  | document (context : Context) (document : Markup.Document)
  | element (context : Context) (element : Markup.Element)
  | elementAttribute (context : Context) (element : Markup.Element) (item : Markup.Attribute)
  | compilationUnit (context : Context) (unit : Source.CompilationUnit)
  /-- The label of the node and those above it, up to the root. -/
  | node (context : Context) (label : Source.Label) (above : List Source.Label)
  | classFile (context : Context) (file : Bytecode.ClassFile)
  | run (context : Context)

namespace Hook

def context? : Hook → Option Context
  | .beforeProject context | .afterProject context | .beforeLibrary context
  | .afterLibrary context | .beforeFile context | .afterFile context
  | .appliesToFile context _ _ | .document context _ | .element context _
  | .elementAttribute context _ _ | .compilationUnit context _ | .node context _ _
  | .classFile context _ | .run context => some context
  | .appliesToFolder _ _ | .elementNames | .attributeNames | .nodeTypes => none

def name : Hook → String
  | .beforeProject _ => "beforeCheckProject"
  | .afterProject _ => "afterCheckProject"
  | .beforeLibrary _ => "beforeCheckLibraryProject"
  | .afterLibrary _ => "afterCheckLibraryProject"
  | .beforeFile _ => "beforeCheckFile"
  | .afterFile _ => "afterCheckFile"
  | .appliesToFolder _ _ => "appliesToFolder"
  | .appliesToFile _ _ _ => "appliesTo"
  | .elementNames => "getApplicableElements"
  | .attributeNames => "getApplicableAttributes"
  | .nodeTypes => "getApplicableNodeTypes"
  | .document _ _ => "visitDocument"
  | .element _ _ => "visitElement"
  | .elementAttribute _ _ _ => "visitAttribute"
  | .compilationUnit _ _ => "visitCompilationUnit"
  | .node _ _ _ => "visitNode"
  | .classFile _ _ => "checkClass"
  | .run _ => "run"

end Hook

/-- A callback to the code of an embedding. -/
inductive Call
  | detector (detector : Detector) (hook : Hook)
  | listener (listener : Listener) (event : Event) (context : Option Context)
  | getProject (dir reference : String)
  | getConfiguration (project : ProjectRef)
  | report (report : Report)
  | log (error : Option String) (message : String) (context : Option Context)
  | parseMarkup (context : Context)
  | parseSource (context : Context)
  | readClass (bytes : Bytes)

namespace Call

def context? : Call → Option Context
  | .detector _ hook => hook.context?
  | .listener _ _ context => context
  | .report made => some made.context
  | .log _ _ context => context
  | .parseMarkup context | .parseSource context => some context
  | .getProject _ _ | .getConfiguration _ | .readClass _ => none

def name : Call → String
  | .detector _ hook => hook.name
  | .listener _ event _ => event.name
  | .getProject _ _ => "getProject"
  | .getConfiguration _ => "getConfiguration"
  | .report _ => "report"
  | .log _ _ _ => "log"
  | .parseMarkup _ => "parseXml"
  | .parseSource _ => "parseJava"
  | .readClass _ => "readClass"

end Call

inductive Observation
  /-- The moment, and of the context: the directory of its root project, whether an issue is
  enabled, whether a category is in scope, and its project as it is. -/
  | state (moment : Moment) (root : Option String) (enabled inScope : Option Bool)
      (project : Option (ProjectRef × Project))
  | suppressed (issue : Option Issue) (answer : Bool)

namespace Journal

inductive Author
  | embedding
  | engine
  deriving DecidableEq, Repr

inductive Entry
  | fired (event : Event) (context : Option Context) (moment : Moment)
  | called (call : Call) (moment : Moment)
  | submitted (author : Author) (report : Report)
  /-- A request to run a detector again was taken. -/
  | requested (detector : Detector) (scope : Option ScopeSet)
  /-- The detectors of a phase were chosen. -/
  | planned (phase : Nat) (detectors : List Detector)
  | logged (entry : Log.Entry)
  | observed (observation : Observation)

end Journal
end ProjectLint
