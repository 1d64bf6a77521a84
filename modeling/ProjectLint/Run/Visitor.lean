/-
Visitors: detectors together with the names that each of them asked to be called for. They hold what
the detectors answered when the visitor was made.
-/
import ProjectLint.Detector
import ProjectLint.FolderType

namespace ProjectLint

abbrev NameTable := List (String × Detector)

namespace NameTable

def lookup (table : NameTable) (name : String) : List Detector :=
  (table.filter (·.1 == name)).map Prod.snd

end NameTable

/-- The detectors to call, by the names of elements and attributes. -/
structure MarkupVisitor where
  detectors : List Detector
  byElement : NameTable := []
  byAttribute : NameTable := []
  everyElement : List Detector := []
  everyAttribute : List Detector := []

namespace MarkupVisitor

def addElements (visitor : MarkupVisitor) (detector : Detector) : NameFilter → MarkupVisitor
  | .nothing => visitor
  | .everything => { visitor with everyElement := visitor.everyElement ++ [detector] }
  | .names names =>
      { visitor with byElement := visitor.byElement ++ names.map fun name => (name, detector) }

def addAttributes (visitor : MarkupVisitor) (detector : Detector) : NameFilter → MarkupVisitor
  | .nothing => visitor
  | .everything => { visitor with everyAttribute := visitor.everyAttribute ++ [detector] }
  | .names names =>
      { visitor with byAttribute := visitor.byAttribute ++ names.map fun name => (name, detector) }

def forElement (visitor : MarkupVisitor) (tag : String) : List Detector :=
  visitor.byElement.lookup tag ++ visitor.everyElement

def forAttribute (visitor : MarkupVisitor) (name : String) : List Detector :=
  visitor.byAttribute.lookup name ++ visitor.everyAttribute

def isIdle (visitor : MarkupVisitor) : Bool :=
  visitor.byElement.isEmpty && visitor.byAttribute.isEmpty && visitor.everyElement.isEmpty &&
    visitor.everyAttribute.isEmpty

end MarkupVisitor

/-- The detectors to call, by the types of nodes. -/
structure SourceVisitor where
  detectors : List Detector
  byType : NameTable := []

/-- The visitor that was made last, and for what. -/
structure VisitorMemo where
  folder : Option FolderType
  detectors : List Detector
  visitor : Option MarkupVisitor

end ProjectLint
