/-
Trees of parsed files, read from data values. What a value leaves out is empty.
-/
import ProjectLint.Data.Value
import ProjectLint.Tree.Bytecode
import ProjectLint.Tree.Markup
import ProjectLint.Tree.Source

namespace ProjectLint

open Data

def textAt (value : Value) (key : String) : String :=
  (value.get key).text?.getD ""

namespace Markup

def Attribute.ofValue (value : Value) : Attribute :=
  ⟨textAt value "name", textAt value "value"⟩

def Element.ofValue (value : Value) : Element :=
  value.foldUnder "children" fun value children =>
    .node (textAt value "tagName") ((value.get "attributes").items.map Attribute.ofValue) children

def Document.ofValue (value : Value) : Document :=
  match value.get "root" with
  | .null => ⟨none⟩
  | root => ⟨some (Element.ofValue root)⟩

end Markup

namespace Source

def AnnotationValue.ofValue (value : Value) : AnnotationValue :=
  value.foldUnder "elements" fun value elements =>
    match textAt value "kind" with
    | "string" => .text (textAt value "value")
    | "array" => .list elements
    | _ => .expression (textAt value "text")

def AnnotationElement.ofValue (value : Value) : AnnotationElement where
  name := (value.get "name").text?
  value :=
    match value.get "value" with
    | .null => none
    | given => some (AnnotationValue.ofValue given)

def Annotation.ofValue (value : Value) : Annotation :=
  ⟨textAt value "typeName", (value.get "elements").items.map AnnotationElement.ofValue⟩

def NodeKind.ofName : String → NodeKind
  | "variable" => .variableDecl
  | "method" => .methodDecl
  | "class" => .classDecl
  | _ => .plain

def Label.ofValue (value : Value) : Label where
  type := textAt value "type"
  kind := NodeKind.ofName (textAt value "kind")
  name := (value.get "name").text?
  annotations := ((value.get "modifiers").get "annotations").items.map Annotation.ofValue

def Node.ofValue (value : Value) : Node :=
  value.foldUnder "children" fun value children => .node (Label.ofValue value) children

def CompilationUnit.ofValue (value : Value) : CompilationUnit :=
  ⟨(value.get "packageName").text?, Node.ofValue (value.get "root")⟩

end Source

namespace Bytecode

mutual

def Argument.ofValue : Value → Argument
  | .text value => .text value
  | .list items => .list (argumentsOf items)
  | _ => .other

def argumentsOf : List Value → List Argument
  | [] => []
  | item :: rest => Argument.ofValue item :: argumentsOf rest

end

def Annotation.ofValue (value : Value) : Annotation :=
  ⟨textAt value "desc", (value.get "values").items.map fun entry =>
    (textAt entry "name", Argument.ofValue (entry.get "value"))⟩

def annotationsOf (value : Value) : List Annotation :=
  (value.get "annotations").items.map Annotation.ofValue

def Member.ofValue (value : Value) : Member :=
  ⟨textAt value "name", textAt value "desc", annotationsOf value⟩

def ClassFile.ofValue (value : Value) : ClassFile where
  name := textAt value "name"
  annotations := annotationsOf value
  methods := (value.get "methods").items.map Member.ofValue
  fields := (value.get "fields").items.map Member.ofValue

end Bytecode
end ProjectLint
