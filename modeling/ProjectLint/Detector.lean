/-
Detectors: instances of a class, told apart by the order in which they were made, and what a class
can scan.
-/
import ProjectLint.Issue

namespace ProjectLint

/-- An instance of a detector class. -/
structure Detector where
  className : DetectorClass
  serial : Nat
  deriving DecidableEq, Repr

namespace Detector

def label (detector : Detector) : String :=
  detector.className ++ "#" ++ toString detector.serial

end Detector

inductive Scanner
  | markup
  | source
  | bytecode
  deriving DecidableEq, Repr

namespace Scanner

def name : Scanner → String
  | .markup => "markup"
  | .source => "source"
  | .bytecode => "bytecode"

def required? : Scope → Option Scanner
  | .manifest | .resourceFile | .allResourceFiles => some .markup
  | .javaFile | .allJavaFiles => some .source
  | .classFile => some .bytecode
  | .proguardFile => none

end Scanner

/-- The names that a detector asks for. -/
inductive NameFilter
  | nothing
  | everything
  | names (names : List String)
  deriving DecidableEq, Repr

namespace NameFilter

def listed : NameFilter → List String
  | .names chosen => chosen
  | _ => []

end NameFilter

/-- The elements without those that came before. -/
def distinct [DecidableEq α] : List α → List α
  | [] => []
  | a :: rest => a :: (distinct rest).filter (· != a)

end ProjectLint
