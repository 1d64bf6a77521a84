/-
What can end an operation early: a failure raised by the code of an embedding, a broken assumption
that a consistency check found, or an input that is refused.
-/
import ProjectLint.Detector
import ProjectLint.Files.Archive
import ProjectLint.Settings.Schema

namespace ProjectLint

/-- Why an operation broke off. -/
inductive Fault
  /-- Raised by the code of an embedding. -/
  | failure (message : String)
  /-- Something thrown that is no error, by its text. -/
  | thrown (text : String)
  | archive (fault : Files.ArchiveFault)
  | wrongScanner (name : DetectorClass) (scope : Scope) (scanner : Scanner)
  | twoProjects (dir : String)
  | assertion (message : String)
  | issue (fault : Issue.Fault)
  | options (problems : List Settings.Problem)
  /-- Callbacks called one another without end. -/
  | tooDeep
  /-- Links are followed without end. Nothing is thrown: the operation does not come back. -/
  | endless

namespace Fault

def kind? : Fault → Option String
  | .failure _ | .archive _ | .options _ => some "Error"
  | .thrown _ | .endless => none
  | .wrongScanner .. | .twoProjects _ | .assertion _ => some "LintAssertionError"
  | .issue _ | .tooDeep => some "RangeError"

def message : Fault → String
  | .failure message => message
  | .thrown text => text
  | .archive fault => fault.message
  | .wrongScanner name scope scanner =>
      name ++ " is registered for " ++ scope.name ++ " but is not a " ++ scanner.name ++ " scanner"
  | .twoProjects dir => "Project cache returned two instances for " ++ dir
  | .assertion message => message
  | .issue fault => fault.message
  | .options problems => Settings.problemsText problems
  | .tooDeep => "Maximum call stack size exceeded"
  | .endless => ""

def text (fault : Fault) : String :=
  match fault.kind? with
  | none => fault.message
  | some kind => if fault.message = "" then kind else kind ++ ": " ++ fault.message

def ensure (enabled holds : Bool) (fault : Fault) : Except Fault Unit :=
  if enabled && !holds then .error fault else .ok ()

end Fault
end ProjectLint
