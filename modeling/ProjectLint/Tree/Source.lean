/-
Parsed source code: nodes with a type, and annotations on the declarations among them.
-/

namespace ProjectLint
namespace Source

inductive AnnotationValue
  | text (value : String)
  | list (elements : List AnnotationValue)
  | expression (text : String)

structure AnnotationElement where
  name : Option String
  value : Option AnnotationValue

structure Annotation where
  typeName : String
  elements : List AnnotationElement

inductive NodeKind
  | variableDecl
  | methodDecl
  | classDecl
  | plain
  deriving DecidableEq, Repr

/-- A node without its children. -/
structure Label where
  type : String
  kind : NodeKind := .plain
  name : Option String := none
  annotations : List Annotation := []

namespace Label

def isDeclaration (label : Label) : Bool :=
  label.kind != .plain

end Label

inductive Node
  | node (label : Label) (children : List Node)

namespace Node

def label : Node → Label
  | .node label _ => label

def children : Node → List Node
  | .node _ children => children

def labelsAt? (node : Node) (above : List Label) : List Nat → Option (List Label)
  | [] => some (node.label :: above)
  | i :: rest => node.children[i]?.bind fun child => child.labelsAt? (node.label :: above) rest

end Node

structure CompilationUnit where
  packageName : Option String
  root : Node

end Source
end ProjectLint
