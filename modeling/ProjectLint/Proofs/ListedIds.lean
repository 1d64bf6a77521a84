/-
Suppression as membership. The annotations of a compiled element, and those of a declaration and of
the declarations around it, list ids; an issue is suppressed exactly if its id or the one for every
issue is listed, in whatever case.
-/
import Mathlib.Data.List.Basic
import ProjectLint.Proofs.Suppressions

namespace ProjectLint

namespace Source.Node

/-- The node at a position. -/
def at? (node : Node) : List Nat → Option Node
  | [] => some node
  | i :: rest => node.children[i]?.bind (·.at? rest)

theorem labelsAt?_eq (node : Node) (above : List Label) (positions : List Nat) {inner : Node}
    (h : node.at? positions = some inner) :
    ∃ labels, node.labelsAt? above positions = some labels ∧ ∀ label, label ∈ labels ↔
      label ∈ above ∨ ∃ start outer, start <+: positions ∧ node.at? start = some outer ∧
        outer.label = label := by
  induction positions generalizing node above with
  | nil =>
    refine ⟨node.label :: above, by rw [labelsAt?], fun label => ?_⟩
    rw [List.mem_cons, or_comm]
    simp [List.prefix_nil, at?, eq_comm]
  | cons i rest ih =>
    obtain ⟨child, hchild, hinner⟩ := Option.bind_eq_some_iff.1 h
    obtain ⟨labels, hlabels, hmem⟩ := ih child (node.label :: above) hinner
    refine ⟨labels, by rw [labelsAt?, hchild]; exact hlabels, fun label => ?_⟩
    rw [hmem, List.mem_cons, or_comm (a := label = node.label), or_assoc]
    refine or_congr_right ⟨?_, ?_⟩
    · rintro (rfl | ⟨start, outer, hstart, houter, hlabel⟩)
      · exact ⟨[], node, List.nil_prefix, by rw [at?], rfl⟩
      · refine ⟨i :: start, outer, List.cons_prefix_cons.2 ⟨rfl, hstart⟩, ?_, hlabel⟩
        rw [at?, hchild]
        exact houter
    · rintro ⟨start, outer, hstart, houter, rfl⟩
      cases start with
      | nil =>
        rw [at?] at houter
        exact .inl (Option.some.inj houter ▸ rfl)
      | cons j start =>
        obtain ⟨rfl, hbelow⟩ := List.cons_prefix_cons.1 hstart
        rw [at?, hchild] at houter
        exact .inr ⟨start, outer, hbelow, houter, rfl⟩

end Source.Node

namespace Suppression

/-! ## Ids that are listed -/

inductive Within (id : String) : Bytecode.Argument → Prop
  | text : Within id (.text id)
  | list {elements element} : element ∈ elements → Within id element → Within id (.list elements)

/-- An annotation that suppresses lists the id. -/
def CompiledLists (annotations : List Bytecode.Annotation) (id : String) : Prop :=
  ∃ note ∈ annotations, Text.endsWith note.descriptor "/SuppressLint;" = true ∧
    ∃ value, ("value", value) ∈ note.values ∧ Within id value

inductive Says (id : String) : Source.AnnotationValue → Prop
  | text : Says id (.text id)
  | list {elements} : .text id ∈ elements → Says id (.list elements)

def DeclarationLists (label : Source.Label) (id : String) : Prop :=
  label.kind ∈ [.variableDecl, .methodDecl, .classDecl] ∧ ∃ note ∈ label.annotations,
    (Text.endsWith note.typeName "SuppressLint" = true ∨
      Text.endsWith note.typeName "SuppressWarnings" = true) ∧
    ∃ element ∈ note.elements, ∃ value, element.value = some value ∧ Says id value

/-- A declaration around the position lists the id. -/
def SourceLists (root : Source.Node) (positions : List Nat) (id : String) : Prop :=
  ∃ start node, start <+: positions ∧ root.at? start = some node ∧ DeclarationLists node.label id

/-- Ids are compared in lower case. -/
def IdOf (listed : String → Prop) (id : String) : Prop :=
  ∃ text, listed text ∧ Text.lower text = id

/-- All issues are listed, or the one that is asked about. -/
def Covers (ids : String → Prop) : Option String → Prop
  | none => ids everyIssue
  | some id => ids everyIssue ∨ ids (Text.lower id)

theorem Covers.of_none {ids : String → Prop} (h : Covers ids none) (issue : Option String) :
    Covers ids issue := by
  cases issue with
  | none => exact h
  | some id => exact .inl h

variable (issue : Option String)

theorem covers_iff {listed : String → Prop} :
    Covers (IdOf listed) issue ↔ ∃ text, listed text ∧ listedCovers issue text = true := by
  have hlisted : ∀ text, listedCovers issue text = true ↔
      Text.lower text = everyIssue ∨ ∃ id, issue = some id ∧ Text.lower text = Text.lower id := by
    intro text
    rw [listedCovers, Bool.or_eq_true, beq_iff_eq, Option.any_eq_true]
    simp only [beq_iff_eq]
  simp only [hlisted, and_or_left, exists_or]
  cases issue with
  | none => simp [Covers, IdOf]
  | some id => simp [Covers, IdOf]

/-! ## Compiled elements -/

mutual

theorem argumentCovers_iff : ∀ argument, argumentCovers issue argument = true ↔
    ∃ text, Within text argument ∧ listedCovers issue text = true
  | .text value => by
    rw [argumentCovers]
    refine ⟨fun h => ⟨value, .text, h⟩, ?_⟩
    rintro ⟨_, ⟨⟩, h⟩
    exact h
  | .other => by
    rw [argumentCovers]
    refine ⟨fun h => (by cases h), ?_⟩
    rintro ⟨_, ⟨⟩, _⟩
  | .list elements => by
    rw [argumentCovers, argumentsCover_iff elements]
    constructor
    · rintro ⟨element, hmem, text, hwithin, h⟩
      exact ⟨text, .list hmem hwithin, h⟩
    · rintro ⟨text, hwithin, h⟩
      cases hwithin with
      | list hmem hwithin => exact ⟨_, hmem, text, hwithin, h⟩

theorem argumentsCover_iff : ∀ arguments, argumentsCover issue arguments = true ↔
    ∃ argument ∈ arguments, ∃ text, Within text argument ∧ listedCovers issue text = true
  | [] => by simp [argumentsCover]
  | argument :: rest => by
    rw [argumentsCover, Bool.or_eq_true, argumentCovers_iff argument, argumentsCover_iff rest]
    simp only [List.mem_cons, or_and_right, exists_or, exists_eq_left]

end

theorem inBytecode_iff (annotations : List Bytecode.Annotation) :
    inBytecode issue annotations = true ↔ Covers (IdOf (CompiledLists annotations)) issue := by
  rw [covers_iff, inBytecode, List.any_eq_true]
  simp only [bytecodeAnnotationCovers, Bool.and_eq_true, List.any_eq_true, beq_iff_eq,
    argumentCovers_iff, CompiledLists]
  constructor
  · rintro ⟨note, hnote, hname, ⟨_, value⟩, hvalue, rfl, text, hwithin, h⟩
    exact ⟨text, ⟨note, hnote, hname, value, hvalue, hwithin⟩, h⟩
  · rintro ⟨text, ⟨note, hnote, hname, value, hvalue, hwithin⟩, h⟩
    exact ⟨note, hnote, hname, ("value", value), hvalue, rfl, text, hwithin, h⟩

/-! ## Declarations -/

theorem valueCovers_iff (value : Source.AnnotationValue) : valueCovers issue value = true ↔
    ∃ text, Says text value ∧ listedCovers issue text = true := by
  cases value with
  | text value =>
    refine ⟨fun h => ⟨value, .text, h⟩, ?_⟩
    rintro ⟨_, ⟨⟩, h⟩
    exact h
  | expression text =>
    refine ⟨fun h => (by cases h), ?_⟩
    rintro ⟨_, ⟨⟩, _⟩
  | list elements =>
    rw [valueCovers, List.any_eq_true]
    constructor
    · rintro ⟨element, hmem, h⟩
      cases element with
      | text value => exact ⟨value, .list hmem, h⟩
      | list | expression => cases h
    · rintro ⟨text, hsays, h⟩
      cases hsays with
      | list hmem => exact ⟨.text text, hmem, h⟩

theorem labelCovers_iff (label : Source.Label) : labelCovers issue label = true ↔
    ∃ text, DeclarationLists label text ∧ listedCovers issue text = true := by
  have hkind : label.isDeclaration = true ↔
      label.kind ∈ [.variableDecl, .methodDecl, .classDecl] := by
    rw [Source.Label.isDeclaration]
    cases label.kind <;> decide
  simp only [labelCovers, sourceAnnotationCovers, Bool.and_eq_true, Bool.or_eq_true,
    List.any_eq_true, Option.any_eq_true, valueCovers_iff, hkind, DeclarationLists]
  constructor
  · rintro ⟨hdeclared, note, hnote, hname, element, helement, value, hvalue, text, hsays, h⟩
    exact ⟨text, ⟨hdeclared, note, hnote, hname, element, helement, value, hvalue, hsays⟩, h⟩
  · rintro ⟨text, ⟨hdeclared, note, hnote, hname, element, helement, value, hvalue, hsays⟩, h⟩
    exact ⟨hdeclared, note, hnote, hname, element, helement, value, hvalue, text, hsays, h⟩

theorem inSource_iff {root node : Source.Node} {positions : List Nat}
    (h : root.at? positions = some node) :
    ∃ labels, root.labelsAt? [] positions = some labels ∧ ∀ issue,
      (inSource issue labels = true ↔ Covers (IdOf (SourceLists root positions)) issue) := by
  obtain ⟨labels, hlabels, hmem⟩ := root.labelsAt?_eq [] positions h
  refine ⟨labels, hlabels, fun issue => ?_⟩
  rw [covers_iff, inSource, List.any_eq_true]
  simp only [hmem, List.not_mem_nil, false_or, labelCovers_iff, SourceLists]
  constructor
  · rintro ⟨_, ⟨start, outer, hstart, houter, rfl⟩, text, hlists, h⟩
    exact ⟨text, ⟨start, outer, hstart, houter, hlists⟩, h⟩
  · rintro ⟨text, ⟨start, outer, hstart, houter, hlists⟩, h⟩
    exact ⟨outer.label, ⟨start, outer, hstart, houter, rfl⟩, text, hlists, h⟩

/-- An issue is suppressed exactly if its id or the one for every issue is listed, at a compiled
element by its own annotations and at a node by those of the declarations around it. So what
suppresses everything suppresses each issue, and a node is suppressed with the nodes around it. -/
theorem suppressed_iff_listed :
    (∀ issue annotations,
      inBytecode issue annotations = true ↔ Covers (IdOf (CompiledLists annotations)) issue) ∧
    (∀ annotations, inBytecode none annotations = true →
      ∀ issue, inBytecode issue annotations = true) ∧
    ∀ (root : Source.Node) positions node, root.at? positions = some node →
      ∃ labels, root.labelsAt? [] positions = some labels ∧
        (∀ issue, inSource issue labels = true ↔ Covers (IdOf (SourceLists root positions)) issue) ∧
        (inSource none labels = true → ∀ issue, inSource issue labels = true) ∧
        ∀ more inner, root.at? (positions ++ more) = some inner →
          ∃ labels', root.labelsAt? [] (positions ++ more) = some labels' ∧
            ∀ issue, inSource issue labels = true → inSource issue labels' = true := by
  refine ⟨inBytecode_iff, fun annotations h issue => ?_, fun root positions node hnode => ?_⟩
  · exact (inBytecode_iff _ _).2 (((inBytecode_iff _ _).1 h).of_none issue)
  · obtain ⟨labels, hlabels, hiff⟩ := inSource_iff hnode
    refine ⟨labels, hlabels, hiff, fun h issue => ?_, fun more inner hinner => ?_⟩
    · exact (hiff issue).2 (((hiff none).1 h).of_none issue)
    · obtain ⟨labels', hlabels', hiff'⟩ := inSource_iff hinner
      refine ⟨labels', hlabels', fun issue h => (hiff' issue).2 ?_⟩
      rw [hiff, covers_iff] at h
      rw [covers_iff]
      obtain ⟨text, ⟨start, outer, hstart, hrest⟩, hcovers⟩ := h
      exact ⟨text, ⟨start, outer, hstart.trans (List.prefix_append _ _), hrest⟩, hcovers⟩

end Suppression
end ProjectLint
