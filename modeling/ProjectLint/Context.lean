/-
Where a check stands: the project, the project on whose behalf it runs, and the file, with what the
kind of file adds. A report carries the context that it is made in.
-/
import ProjectLint.Data.Value
import ProjectLint.FolderType
import ProjectLint.Issue
import ProjectLint.Text.Utf8
import ProjectLint.Tree.Bytecode

namespace ProjectLint

/-- A project by its number, with its directory. -/
structure ProjectRef where
  index : Nat
  dir : String
  deriving DecidableEq, Repr

namespace Context

inductive Kind
  | plain
  | markup (folder : Option FolderType)
  | source
  | bytecode (archive : Option String) (root : String) (bytes : Bytes) (file : Bytecode.ClassFile)

end Context

/-- Where a check stands. -/
structure Context where
  project : ProjectRef
  /-- The project whose check led here; none while the check is at the level of a project. -/
  main : Option ProjectRef
  file : String
  kind : Context.Kind := .plain

namespace Context

def rootProject (context : Context) : ProjectRef :=
  context.main.getD context.project

def archive? (context : Context) : Option String :=
  match context.kind with
  | .bytecode archive _ _ _ => archive
  | _ => none

end Context

structure Position where
  line : Number.Decimal
  column : Number.Decimal
  deriving DecidableEq, Repr

structure Location where
  file : String
  start : Option Position := none
  stop : Option Position := none
  deriving DecidableEq, Repr

/-- What a detector found. -/
structure Report where
  context : Context
  issue : Issue
  location : Option Location
  message : String
  data : Data.Value

end ProjectLint
