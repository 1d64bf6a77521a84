/-
Options of an engine. The consistency checks can be switched on or off; left open, the environment
decides.
-/
import ProjectLint.Log
import ProjectLint.Settings.Schema

namespace ProjectLint

/-- Whether internal assertions are checked. -/
structure Options where
  assertions : Bool
  deriving DecidableEq, Repr

namespace Options

/-- How often a project is checked at most. -/
def maxPhases : Nat := 3

def ofEnvironment (environment : Environment) : Bool :=
  environment.assertions == some "1" || environment.mode == some "test"

def checkAssertions : Data.Value → Settings.Checked Bool
  | .bool value => .ok value
  | value => .error [⟨["assertions"], .wrongKind .boolean value.kind⟩]

def checkKeys (fields : List (String × Data.Value)) : Settings.Checked Unit :=
  match (fields.map Prod.fst).filter (· != "assertions") with
  | [] => .ok ()
  | keys => .error [⟨[], .unknownKeys keys⟩]

def check : Data.Value → Settings.Checked (Option Bool)
  | .record fields =>
      (Settings.both (Settings.optional checkAssertions (Data.Value.field? fields "assertions"))
        (checkKeys fields)).map Prod.fst
  | value => .error [⟨[], .wrongKind .object value.kind⟩]

def resolve (environment : Environment) (document : Data.Value) : Settings.Checked Options :=
  (check document).map fun assertions => ⟨assertions.getD (ofEnvironment environment)⟩

end Options
end ProjectLint
