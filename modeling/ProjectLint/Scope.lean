/-
Categories of files that a check can look at, and sets of them. Two categories come in pairs, one
for a single file and one for the whole set of such files; a check that asks for either member of a
pair is admitted by the other.
-/
import ProjectLint.Text.Basic

namespace ProjectLint

/-- The categories of files. -/
inductive Scope
  | manifest
  | resourceFile
  | allResourceFiles
  | javaFile
  | allJavaFiles
  | classFile
  | proguardFile
  deriving DecidableEq, Repr

namespace Scope

def all : List Scope :=
  [.manifest, .resourceFile, .allResourceFiles, .javaFile, .allJavaFiles, .classFile, .proguardFile]

def name : Scope → String
  | .manifest => "manifest"
  | .resourceFile => "resource-file"
  | .allResourceFiles => "all-resource-files"
  | .javaFile => "java-file"
  | .allJavaFiles => "all-java-files"
  | .classFile => "class-file"
  | .proguardFile => "proguard-file"

def ofName? (text : String) : Option Scope :=
  all.find? (·.name == text)

def counterpart? : Scope → Option Scope
  | .resourceFile => some .allResourceFiles
  | .allResourceFiles => some .resourceFile
  | .javaFile => some .allJavaFiles
  | .allJavaFiles => some .javaFile
  | _ => none

theorem mem_all (s : Scope) : s ∈ all := by
  cases s <;> decide

end Scope

/-- A set of categories. -/
@[ext]
structure ScopeSet where
  contains : Scope → Bool

namespace ScopeSet

def all : ScopeSet :=
  ⟨fun _ => true⟩

def empty : ScopeSet :=
  ⟨fun _ => false⟩

def ofList (scopes : List Scope) : ScopeSet :=
  ⟨fun s => scopes.contains s⟩

def toList (a : ScopeSet) : List Scope :=
  Scope.all.filter a.contains

def size (a : ScopeSet) : Nat :=
  a.toList.length

def isEmpty (a : ScopeSet) : Bool :=
  a.toList.isEmpty

def union (a b : ScopeSet) : ScopeSet :=
  ⟨fun s => a.contains s || b.contains s⟩

def inter (a b : ScopeSet) : ScopeSet :=
  ⟨fun s => a.contains s && b.contains s⟩

def containsAll (a b : ScopeSet) : Bool :=
  b.toList.all a.contains

def covers (a : ScopeSet) (s : Scope) : Bool :=
  a.contains s || s.counterpart?.any a.contains

def admits (a required : ScopeSet) : Bool :=
  required.toList.all a.covers

@[simp]
theorem contains_all (s : Scope) : all.contains s = true := rfl

@[simp]
theorem contains_empty (s : Scope) : empty.contains s = false := rfl

@[simp]
theorem contains_union (a b : ScopeSet) (s : Scope) :
    (a.union b).contains s = (a.contains s || b.contains s) := rfl

@[simp]
theorem contains_inter (a b : ScopeSet) (s : Scope) :
    (a.inter b).contains s = (a.contains s && b.contains s) := rfl

@[simp]
theorem mem_toList {a : ScopeSet} {s : Scope} : s ∈ a.toList ↔ a.contains s = true := by
  simp [toList, Scope.mem_all]

instance : DecidableEq ScopeSet := fun a b =>
  decidable_of_iff (∀ s ∈ Scope.all, a.contains s = b.contains s)
    ⟨fun h => ScopeSet.ext (funext fun s => h s (Scope.mem_all s)), fun h _ _ => h ▸ rfl⟩

def text (a : ScopeSet) : String :=
  "[" ++ Text.joined ", " (a.toList.map Scope.name) ++ "]"

/-- Only single files are looked at. -/
def isSingleFile (a : ScopeSet) : Bool :=
  match a.toList with
  | [.javaFile, .classFile] => true
  | [.javaFile] => true
  | [.classFile] => true
  | [.resourceFile] => true
  | [.proguardFile] => true
  | [.manifest] => true
  | _ => false

end ScopeSet
end ProjectLint
