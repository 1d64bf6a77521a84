/-
Findings that the checked code itself switches off. An annotation lists ids of issues, compared in
lower case, and `all` stands for every issue. In source code the annotations of enclosing
declarations count too; in compiled code only those of the element itself do.
-/
import ProjectLint.Text.Basic
import ProjectLint.Text.LowerCase
import ProjectLint.Tree.Bytecode
import ProjectLint.Tree.Source

namespace ProjectLint
namespace Suppression

def everyIssue : String := "all"

def listedCovers (issue : Option String) (listed : String) : Bool :=
  Text.lower listed == everyIssue || issue.any fun id => Text.lower listed == Text.lower id

mutual

def argumentCovers (issue : Option String) : Bytecode.Argument → Bool
  | .text value => listedCovers issue value
  | .other => false
  | .list elements => argumentsCover issue elements

def argumentsCover (issue : Option String) : List Bytecode.Argument → Bool
  | [] => false
  | argument :: rest => argumentCovers issue argument || argumentsCover issue rest

end

def bytecodeAnnotationCovers (issue : Option String) (note : Bytecode.Annotation) : Bool :=
  Text.endsWith note.descriptor "/SuppressLint;" &&
    note.values.any fun (name, value) => name == "value" && argumentCovers issue value

/-- An annotation of a class suppresses the issue, or all issues. -/
def inBytecode (issue : Option String) (annotations : List Bytecode.Annotation) : Bool :=
  annotations.any (bytecodeAnnotationCovers issue)

def valueCovers (issue : Option String) : Source.AnnotationValue → Bool
  | .text value => listedCovers issue value
  | .list elements =>
      elements.any fun element =>
        match element with
        | .text value => listedCovers issue value
        | _ => false
  | .expression _ => false

def sourceAnnotationCovers (issue : Option String) (note : Source.Annotation) : Bool :=
  (Text.endsWith note.typeName "SuppressLint" ||
      Text.endsWith note.typeName "SuppressWarnings") &&
    note.elements.any fun element => element.value.any (valueCovers issue)

def labelCovers (issue : Option String) (label : Source.Label) : Bool :=
  label.isDeclaration && label.annotations.any (sourceAnnotationCovers issue)

/-- An annotation around a node suppresses the issue, or all issues. -/
def inSource (issue : Option String) (labels : List Source.Label) : Bool :=
  labels.any (labelCovers issue)

end Suppression
end ProjectLint
