/-
The code of an embedding. A callback is answered by a script: a finite program that keeps a state of
its own, asks things of the engine and may fail. Whatever detectors, listeners and clients do, they
do by such scripts.
-/
import ProjectLint.Fault
import ProjectLint.Run.Call

namespace ProjectLint

inductive SuppressionTarget
  | bytecode (annotations : List Bytecode.Annotation)
  | source (labels : List Source.Label)

inductive Action
  | report (report : Report)
  | requestRepeat (detector : Detector) (scope : Option ScopeSet)
  | cancel
  /-- Cancels the search for projects that goes on outside of a run. -/
  | cancelSearch
  | log (error : Option String) (message : String) (context : Option Context)
  | addListener (listener : Listener)
  | removeListener (listener : Listener)
  | changeFiles (change : Workspace → Workspace)
  | observe (context : Option Context) (issue : Option Issue) (scope : Option Scope)
      (project : Bool)
  | askSuppressed (issue : Option Issue) (target : SuppressionTarget)

inductive Reply
  | done
  | observed (observation : Observation)

inductive Script (σ : Type)
  | done
  | fail (fault : Fault)
  /-- Changes the state of the embedding and goes on with the new one. -/
  | update (change : σ → σ) (next : σ → Script σ)
  | act (action : Action) (next : Reply → Script σ)

namespace Script

def perform (action : Action) (next : Script σ) : Script σ :=
  .act action fun _ => next

end Script

/-- The code of an embedding: client, detectors, listeners and parsers. -/
structure Host (σ : Type) where
  react : Call → Moment → σ → Script σ
  /-- Whether the instances of a class can scan a kind of file. -/
  scans : DetectorClass → Scanner → Bool
  /-- Whether an instance of a class can be made. -/
  construct : DetectorClass → σ → Except Fault Unit
  appliesToFolder : Detector → FolderType → σ → Bool
  appliesToFile : Detector → Context → String → σ → Bool
  elementNames : Detector → σ → NameFilter
  attributeNames : Detector → σ → NameFilter
  nodeTypes : Detector → σ → List String
  /-- Whether the client supplies a parser or reader for a kind of file. -/
  supplies : Scanner → σ → Bool
  parseMarkup : Context → Workspace → σ → Except Fault (Option Markup.Document)
  parseSource : Context → Workspace → σ → Except Fault (Option Source.CompilationUnit)
  readClass : Bytes → σ → Except Fault Bytecode.ClassFile
  /-- Whether the client keeps one project for each directory. -/
  keepsProjects : Bool
  overrides : String → FolderOverrides
  /-- The configuration of a project directory with what making it notes in the log; none to load
  it from the directory. -/
  configuration : String → Workspace → σ → Option (Configuration × List Log.Entry)
  /-- Whether log messages go to the log of the library instead of the client. -/
  logsPlainly : Bool

end ProjectLint
