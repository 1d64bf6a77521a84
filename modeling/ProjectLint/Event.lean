/-
Events that listeners hear of during a run.
-/

namespace ProjectLint

/-- What listeners are told of. -/
inductive Event
  | starting
  | scanningProject
  | scanningLibrary
  | scanningFile
  | newPhase
  | completed
  | canceled
  deriving DecidableEq, Repr

namespace Event

def all : List Event :=
  [.starting, .scanningProject, .scanningLibrary, .scanningFile, .newPhase, .completed, .canceled]

def name : Event → String
  | .starting => "starting"
  | .scanningProject => "scanning-project"
  | .scanningLibrary => "scanning-library-project"
  | .scanningFile => "scanning-file"
  | .newPhase => "new-phase"
  | .completed => "completed"
  | .canceled => "canceled"

def ofName? (text : String) : Option Event :=
  all.find? (·.name == text)

end Event
end ProjectLint
