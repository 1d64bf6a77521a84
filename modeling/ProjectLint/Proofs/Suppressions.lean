/-
Suppressions in source code and in the code compiled from it. An annotation lists ids under names; a
list without a name is compiled under the name `value`. Compiled code is asked for the ids under
that name, source code for the ids under any. So the two give the same answer about an issue unless
only an element with another name lists it.
-/
import ProjectLint.Suppression

namespace ProjectLint

theorem Text.endsWith_append (start tail : String) : Text.endsWith (start ++ tail) tail = true := by
  rw [Text.endsWith, String.toList_append]
  exact List.isSuffixOf_iff_suffix.2 (List.suffix_append _ _)

namespace Suppression

inductive Ids
  | one (id : String)
  | several (ids : List String)

namespace Ids

def toList : Ids → List String
  | .one id => [id]
  | .several ids => ids

def written : Ids → Source.AnnotationValue
  | .one id => .text id
  | .several ids => .list (ids.map .text)

def compiled : Ids → Bytecode.Argument
  | .one id => .text id
  | .several ids => .list (ids.map .text)

end Ids

structure Element where
  name : Option String
  ids : Ids

namespace Element

def compiledName (element : Element) : String :=
  element.name.getD "value"

def written (element : Element) : Source.AnnotationElement :=
  ⟨element.name, some element.ids.written⟩

def compiled (element : Element) : String × Bytecode.Argument :=
  (element.compiledName, element.ids.compiled)

end Element

/-- An annotation that suppresses, before it is written or compiled. -/
structure Note where
  /-- The names of the package, from the outermost on. -/
  package : List String
  /-- Whether the annotation spells the package out. -/
  qualified : Bool := true
  elements : List Element

namespace Note

/-- The annotation in source code. -/
def written (note : Note) : Source.Annotation where
  typeName :=
    if note.qualified then Text.joined "." note.package ++ "." ++ "SuppressLint"
    else "SuppressLint"
  elements := note.elements.map Element.written

/-- The annotation as it is compiled. -/
def compiled (note : Note) : Bytecode.Annotation where
  descriptor := "L" ++ Text.joined "/" note.package ++ "/SuppressLint;"
  values := note.elements.map Element.compiled

def listed (admits : String → Bool) (note : Note) : List String :=
  (note.elements.filter fun element => admits element.compiledName).flatMap fun element =>
    element.ids.toList

end Note

/-- The ids that stand under `value`. -/
def valueIds (notes : List Note) : List String :=
  notes.flatMap (Note.listed (· == "value"))

/-- The ids that stand under another name than `value`. -/
def otherIds (notes : List Note) : List String :=
  notes.flatMap (Note.listed (· != "value"))

/-! ## Lists of ids -/

variable (issue : Option String)

theorem argumentsCover_eq_any (arguments : List Bytecode.Argument) :
    argumentsCover issue arguments = arguments.any (argumentCovers issue) := by
  induction arguments with
  | nil => rw [argumentsCover, List.any_nil]
  | cons argument rest ih => rw [argumentsCover, ih, List.any_cons]

theorem argumentCovers_compiled (ids : Ids) :
    argumentCovers issue ids.compiled = ids.toList.any (listedCovers issue) := by
  cases ids with
  | one id =>
    rw [Ids.compiled, argumentCovers, Ids.toList, List.any_cons, List.any_nil, Bool.or_false]
  | several ids =>
    rw [Ids.compiled, argumentCovers, argumentsCover_eq_any, List.any_map, Ids.toList]
    exact congrArg (ids.any ·) (funext fun id => by rw [Function.comp, argumentCovers])

theorem valueCovers_written (ids : Ids) :
    valueCovers issue ids.written = ids.toList.any (listedCovers issue) := by
  cases ids with
  | one id => rw [Ids.written, valueCovers, Ids.toList, List.any_cons, List.any_nil, Bool.or_false]
  | several ids =>
    rw [Ids.written, valueCovers, List.any_map, Ids.toList]
    rfl

theorem any_listed (note : Note) (admits : String → Bool) :
    (note.listed admits).any (listedCovers issue) =
      note.elements.any fun element =>
        admits element.compiledName && element.ids.toList.any (listedCovers issue) := by
  rw [Note.listed, List.any_flatMap, List.any_filter]

theorem mem_listed_true {note : Note} {id : String} :
    id ∈ note.listed (fun _ => true) ↔
      id ∈ note.listed (· == "value") ∨ id ∈ note.listed (· != "value") := by
  simp only [Note.listed, List.mem_flatMap, List.mem_filter]
  constructor
  · rintro ⟨element, ⟨helement, -⟩, hid⟩
    cases hname : element.compiledName == "value" with
    | true => exact .inl ⟨element, ⟨helement, hname⟩, hid⟩
    | false => exact .inr ⟨element, ⟨helement, by rw [bne, hname, Bool.not_false]⟩, hid⟩
  · rintro (⟨element, ⟨helement, -⟩, hid⟩ | ⟨element, ⟨helement, -⟩, hid⟩)
    · exact ⟨element, ⟨helement, trivial⟩, hid⟩
    · exact ⟨element, ⟨helement, trivial⟩, hid⟩

/-! ## Annotations -/

theorem bytecodeAnnotationCovers_compiled (note : Note) :
    bytecodeAnnotationCovers issue note.compiled =
      (note.listed (· == "value")).any (listedCovers issue) := by
  rw [bytecodeAnnotationCovers, Note.compiled, Text.endsWith_append, Bool.true_and, List.any_map,
    any_listed]
  refine congrArg (note.elements.any ·) (funext fun element => ?_)
  exact congrArg (element.compiledName == "value" && ·) (argumentCovers_compiled issue element.ids)

theorem endsWith_typeName (note : Note) :
    Text.endsWith note.written.typeName "SuppressLint" = true := by
  rw [Note.written]
  cases note.qualified with
  | true => exact Text.endsWith_append _ _
  | false => exact Text.endsWith_append "" _

theorem sourceAnnotationCovers_written (note : Note) :
    sourceAnnotationCovers issue note.written =
      (note.listed fun _ => true).any (listedCovers issue) := by
  rw [sourceAnnotationCovers, endsWith_typeName, Bool.true_or, Bool.true_and, Note.written,
    List.any_map, any_listed]
  exact congrArg (note.elements.any ·) (funext fun element => valueCovers_written issue element.ids)

theorem inBytecode_compiled (notes : List Note) :
    inBytecode issue (notes.map Note.compiled) = true ↔
      ∃ id ∈ valueIds notes, listedCovers issue id = true := by
  have hnotes : inBytecode issue (notes.map Note.compiled) =
      (valueIds notes).any (listedCovers issue) := by
    rw [inBytecode, List.any_map, valueIds, List.any_flatMap]
    exact congrArg (notes.any ·) (funext fun note => bytecodeAnnotationCovers_compiled issue note)
  rw [hnotes, List.any_eq_true]

section Declared

variable {label : Source.Label} (hlabel : label.isDeclaration = true) {notes : List Note}
  (hnotes : label.annotations = notes.map Note.written) {above : List Source.Label}
  (habove : ∀ outer ∈ above, outer.isDeclaration = false)

include hlabel hnotes habove

theorem inSource_written :
    inSource issue (label :: above) = true ↔
      (∃ id ∈ valueIds notes, listedCovers issue id = true) ∨
        ∃ id ∈ otherIds notes, listedCovers issue id = true := by
  have hplain : above.any (labelCovers issue) = false := by
    rw [List.any_eq_false]
    intro outer houter
    rw [labelCovers, habove outer houter, Bool.false_and]
    exact Bool.false_ne_true
  have hlisted : inSource issue (label :: above) =
      (notes.flatMap (Note.listed fun _ => true)).any (listedCovers issue) := by
    rw [inSource, List.any_cons, hplain, Bool.or_false, labelCovers, hlabel, Bool.true_and, hnotes,
      List.any_map, List.any_flatMap]
    exact congrArg (notes.any ·) (funext fun note => sourceAnnotationCovers_written issue note)
  have hmem : ∀ id, id ∈ notes.flatMap (Note.listed fun _ => true) ↔
      id ∈ valueIds notes ∨ id ∈ otherIds notes := by
    intro id
    rw [valueIds, otherIds, List.mem_flatMap, List.mem_flatMap, List.mem_flatMap, ← exists_or]
    exact exists_congr fun note => by rw [mem_listed_true, and_or_left]
  rw [hlisted, List.any_eq_true, ← exists_or]
  exact exists_congr fun id => by rw [hmem, or_and_right]

/-- At a declaration and at the element compiled from it an issue is suppressed alike, just where an
id that covers it under another name than `value` goes with one that covers it under that name. -/
theorem inSource_eq_inBytecode_iff :
    inSource issue (label :: above) = inBytecode issue (notes.map Note.compiled) ↔
      ((∃ id ∈ otherIds notes, listedCovers issue id = true) →
        ∃ id ∈ valueIds notes, listedCovers issue id = true) := by
  rw [Bool.eq_iff_iff, inSource_written issue hlabel hnotes habove, inBytecode_compiled]
  exact or_iff_left_iff_imp

end Declared

def explained : Note where
  package := ["android", "annotation"]
  elements := [⟨some "reason", .several ["newApi", "Wakelock"]⟩, ⟨none, .one "NEWAPI"⟩]

def explainedMethod : Source.Label where
  type := "MethodDeclaration"
  kind := .methodDecl
  annotations := [explained.written]

/-- The names of elements make no difference to an issue that is listed under `value` too. -/
theorem inSource_eq_inBytecode_explained :
    otherIds [explained] = ["newApi", "Wakelock"] ∧
      inSource (some "NewApi") [explainedMethod, { type := "CompilationUnit" }] =
        inBytecode (some "NewApi") [explained.compiled] := by
  have hiff : inSource (some "NewApi") [explainedMethod, { type := "CompilationUnit" }] =
      inBytecode (some "NewApi") ([explained].map Note.compiled) ↔ _ :=
    inSource_eq_inBytecode_iff (some "NewApi") rfl rfl (List.forall_mem_singleton.2 rfl)
  exact ⟨by decide +kernel, hiff.2 fun _ => ⟨"NEWAPI", by decide +kernel, by decide +kernel⟩⟩

/-- An id that stands under another name only suppresses the issue in source code and not in the
code compiled from it. -/
theorem reason_suppresses_source_only :
    inSource (some "Wakelock") [explainedMethod] = true ∧
      inBytecode (some "Wakelock") [explained.compiled] = false := by
  decide +kernel

end Suppression
end ProjectLint
