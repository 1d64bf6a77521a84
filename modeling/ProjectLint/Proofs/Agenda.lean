/-
Visits as lists of calls. Whom a visit calls, and what for, is settled before the first call: the
walk of a tree goes through its nodes in preorder, whatever the calls do. So a visit is a list of
calls between the two that open and close every file, and what holds of calls holds of visits by
the rules for lists; the trees are opened here only.
-/
import ProjectLint.Run.Visit

namespace ProjectLint

/-! ## Trees -/

namespace Markup

mutual

/-- An element before its children. -/
def Element.preorder : Element → List Element
  | .node tag attributes children => .node tag attributes children :: preorders children

def Element.preorders : List Element → List Element
  | [] => []
  | element :: rest => element.preorder ++ preorders rest

end

def Document.elements (document : Document) : List Element :=
  document.root.elim [] Element.preorder

end Markup

namespace Source

mutual

/-- A node before its children, each with the nodes that it stands under. -/
def Node.preorder (above : List Label) : Node → List (Label × List Label)
  | .node label children => (label, above) :: Node.preorders (label :: above) children

def Node.preorders (above : List Label) : List Node → List (Label × List Label)
  | [] => []
  | first :: rest => first.preorder above ++ Node.preorders above rest

end

end Source

/-! ## Agendas -/

/-- The file that a hook shows. -/
def Hook.visited? : Hook → Option Context
  | .document context _ | .element context _ | .elementAttribute context _ _
  | .compilationUnit context _ | .node context _ _ | .classFile context _ | .run context =>
    some context
  | _ => none

/-- What is shown, in order, and to whom. -/
abbrev Agenda : Type := List (List Detector × Hook)

/-- An agenda that shows one file, and only to such detectors. -/
def Agenda.Shows (context : Context) (P : Detector → Prop) (agenda : Agenda) : Prop :=
  ∀ item ∈ agenda, item.2.visited? = some context ∧ ∀ detector ∈ item.1, P detector

namespace MarkupVisitor

def onElement (visitor : MarkupVisitor) (context : Context) (element : Markup.Element) : Agenda :=
  (visitor.forElement element.tag, .element context element) ::
    element.attributes.map fun item =>
      (visitor.forAttribute (Markup.localName item.name), .elementAttribute context element item)

/-- What is shown of a document after it was opened. -/
def agenda (visitor : MarkupVisitor) (context : Context) (document : Markup.Document) : Agenda :=
  (visitor.detectors, .document context document) ::
    document.elements.flatMap (visitor.onElement context)

end MarkupVisitor

namespace SourceVisitor

def onNode (visitor : SourceVisitor) (context : Context) (node : Source.Label × List Source.Label) :
    List Detector × Hook :=
  (visitor.byType.lookup node.1.type, .node context node.1 node.2)

/-- What is shown of a compilation unit after it was opened. -/
def agenda (visitor : SourceVisitor) (context : Context) (unit : Source.CompilationUnit) : Agenda :=
  (visitor.detectors, .compilationUnit context unit) ::
    (unit.root.preorder []).map (visitor.onNode context)

end SourceVisitor

namespace Run

theorem each_append (first second : List α) (operation : α → Run σ Unit) :
    each (first ++ second) operation = (do each first operation; each second operation) := by
  induction first with
  | nil => exact (pure_bind () fun _ => each second operation).symm
  | cons item rest ih => rw [List.cons_append, each, ih, each, bind_assoc]

theorem each_map (items : List α) (f : α → β) (operation : β → Run σ Unit) :
    each (items.map f) operation = each items fun item => operation (f item) := by
  induction items with
  | nil => rfl
  | cons item rest ih => rw [List.map_cons, each, ih, each]

end Run

namespace Engine

open Run

def tellAll (e : Engine σ) (agenda : Agenda) : Run σ Unit :=
  each agenda fun item => e.tell item.1 item.2

/-- Opens a file, shows it and closes it. -/
def showFile (e : Engine σ) (detectors : List Detector) (context : Context) (agenda : Agenda) :
    Run σ Unit := do
  e.tell detectors (.beforeFile context)
  e.tellAll agenda
  e.tell detectors (.afterFile context)

variable {e : Engine σ} {context : Context}

theorem tellAll_of_nobody {agenda : Agenda} (h : ∀ item ∈ agenda, item.1 = []) :
    e.tellAll agenda = pure () := by
  induction agenda with
  | nil => rfl
  | cons item rest ih =>
    obtain ⟨hitem, hrest⟩ := List.forall_mem_cons.1 h
    have hnobody : e.tell item.1 item.2 = pure () := by
      rw [hitem]
      rfl
    rw [tellAll, each, hnobody, pure_bind]
    exact ih hrest

section Markup

variable {visitor : MarkupVisitor}

mutual

theorem visitElement_eq (element : Markup.Element) : e.visitElement visitor context element =
    e.tellAll (element.preorder.flatMap (visitor.onElement context)) := by
  cases element with
  | node tag attributes children =>
    rw [visitElement, visitElements_eq children, Markup.Element.preorder, List.flatMap_cons, tellAll,
      tellAll, MarkupVisitor.onElement, List.cons_append, each, each_append, each_map]
    rfl

theorem visitElements_eq (elements : List Markup.Element) :
    e.visitElements visitor context elements =
      e.tellAll ((Markup.Element.preorders elements).flatMap (visitor.onElement context)) := by
  cases elements with
  | nil => rw [visitElements]; rfl
  | cons element rest =>
    rw [visitElements, visitElement_eq element, visitElements_eq rest, Markup.Element.preorders,
      List.flatMap_append, tellAll, tellAll, tellAll, each_append]

end

theorem onElement_of_isIdle (h : visitor.isIdle = true) {element : Markup.Element} :
    ∀ item ∈ visitor.onElement context element, item.1 = [] := by
  simp only [MarkupVisitor.isIdle, Bool.and_eq_true, List.isEmpty_iff] at h
  have helement : ∀ tag, visitor.forElement tag = [] := by
    intro tag
    rw [MarkupVisitor.forElement, h.1.1.1, h.1.2]
    rfl
  have hattribute : ∀ name, visitor.forAttribute name = [] := by
    intro name
    rw [MarkupVisitor.forAttribute, h.1.1.2, h.2]
    rfl
  exact List.forall_mem_cons.2
    ⟨helement _, List.forall_mem_map.2 fun item _ => hattribute (Markup.localName item.name)⟩

/-- The walk that is left out when nobody asked for anything would have called nobody. -/
theorem visitRoot_some (visitor : MarkupVisitor) (context : Context) (root : Markup.Element) :
    e.visitRoot visitor context (some root) = e.visitElement visitor context root := by
  rw [visitRoot]
  cases hidle : visitor.isIdle with
  | true =>
    rw [visitElement_eq, tellAll_of_nobody (List.forall_mem_flatMap.2 fun _ _ =>
      onElement_of_isIdle hidle)]
    rfl
  | false => rfl

theorem visitDocument_eq (document : Markup.Document) :
    e.visitDocument visitor context document =
      e.showFile visitor.detectors context (visitor.agenda context document) := by
  have hwalk : e.visitRoot visitor context document.root =
      e.tellAll (document.elements.flatMap (visitor.onElement context)) := by
    rw [Markup.Document.elements]
    cases document.root with
    | none => rfl
    | some root => rw [visitRoot_some, visitElement_eq]; rfl
  rw [visitDocument, hwalk, showFile, MarkupVisitor.agenda, tellAll, tellAll, each, bind_assoc]

end Markup

section Source

variable {visitor : SourceVisitor}

mutual

theorem visitNode_eq (above : List Source.Label) (node : Source.Node) :
    e.visitNode visitor context above node =
      e.tellAll ((node.preorder above).map (visitor.onNode context)) := by
  cases node with
  | node label children =>
    rw [visitNode, visitNodes_eq (label :: above) children, Source.Node.preorder, List.map_cons]
    rfl

theorem visitNodes_eq (above : List Source.Label) (nodes : List Source.Node) :
    e.visitNodes visitor context above nodes =
      e.tellAll ((Source.Node.preorders above nodes).map (visitor.onNode context)) := by
  cases nodes with
  | nil => rw [visitNodes]; rfl
  | cons node rest =>
    rw [visitNodes, visitNode_eq above node, visitNodes_eq above rest, Source.Node.preorders,
      List.map_append, tellAll, tellAll, tellAll, each_append]

end

theorem visitUnit_eq (unit : Source.CompilationUnit) :
    e.visitUnit visitor context unit =
      e.showFile visitor.detectors context (visitor.agenda context unit) := by
  have hwalk : (if visitor.byType.isEmpty then pure () else
      e.visitNode visitor context [] unit.root) =
        e.tellAll ((unit.root.preorder []).map (visitor.onNode context)) := by
    cases hidle : visitor.byType.isEmpty with
    | true =>
      have hnobody : ∀ node, (visitor.onNode context node).1 = [] := by
        intro node
        rw [SourceVisitor.onNode, List.isEmpty_iff.1 hidle]
        rfl
      rw [tellAll_of_nobody (List.forall_mem_map.2 fun node _ => hnobody node)]
      rfl
    | false => exact visitNode_eq [] unit.root
  rw [showFile, SourceVisitor.agenda, tellAll, each, bind_assoc, ← tellAll, ← hwalk, visitUnit]
  cases visitor.byType.isEmpty <;> rfl

end Source

end Engine
end ProjectLint
