/-
File trees as file systems have them: every entry below the root has a proper name, and no folder
has two entries of one name. In such a tree what a folder lists is where its path says.
-/
import ProjectLint.Proofs.Paths

namespace ProjectLint

theorem perm_insertBy (le : α → α → Bool) (a : α) (l : List α) :
    (insertBy le a l).Perm (a :: l) := by
  induction l with
  | nil => exact .refl _
  | cons b rest ih =>
    rw [insertBy]
    by_cases h : le a b = true
    · rw [if_pos h]
    · rw [if_neg h]
      exact (ih.cons b).trans (.swap a b rest)

theorem perm_sortBy (le : α → α → Bool) (l : List α) : (sortBy le l).Perm l := by
  induction l with
  | nil => exact .refl _
  | cons a rest ih => exact (perm_insertBy le a _).trans (ih.cons a)

namespace Path

instance (part : String) : Decidable (IsName part) :=
  decidable_of_iff ((part ≠ "" ∧ part ≠ "." ∧ part ≠ "..") ∧
      (part.toList.all fun c => !isSlash c) = true)
    ⟨fun h => ⟨h.1, by simpa using h.2⟩, fun h => ⟨h.proper, by simpa using h.whole⟩⟩

def Beneath (dir file : String) : Prop :=
  ∃ names, names ≠ [] ∧ (∀ name ∈ names, IsName name) ∧ file = names.foldl join dir

theorem Beneath.entry (dir : String) {name : String} (h : IsName name) :
    Beneath dir (join dir name) :=
  ⟨[name], List.cons_ne_nil _ _, List.forall_mem_singleton.2 h, rfl⟩

theorem Beneath.deeper {dir file name : String} (h : Beneath dir file) (hname : IsName name) :
    Beneath dir (join file name) := by
  obtain ⟨names, hne, hnames, rfl⟩ := h
  refine ⟨names ++ [name], by simp, fun other hother => ?_, ?_⟩
  · rcases List.mem_append.1 hother with hold | hnew
    · exact hnames other hold
    · exact List.mem_singleton.1 hnew ▸ hname
  · rw [List.foldl_append]
    rfl

theorem Beneath.ofParts {names : List String} {file : String} (h : Beneath (ofParts names) file)
    (hnames : ∀ name ∈ names, IsName name) :
    ∃ more, more ≠ [] ∧ (∀ name ∈ more, IsName name) ∧ file = Path.ofParts (names ++ more) := by
  obtain ⟨more, hne, hmore, rfl⟩ := h
  refine ⟨more, hne, hmore, ?_⟩
  clear hne
  induction more generalizing names with
  | nil => rw [List.append_nil, List.foldl_nil]
  | cons name rest ih =>
    obtain ⟨hname, hrest⟩ := List.forall_mem_cons.1 hmore
    rw [List.foldl_cons, join_ofParts hnames hname,
      ih (List.forall_mem_append.2 ⟨hnames, List.forall_mem_singleton.2 hname⟩) hrest,
      List.append_assoc, List.singleton_append]

end Path

namespace Files.Entry

mutual

def isProper : Entry → Bool
  | .folder _ _ entries => decide (entries.map name).Nodup && areProper entries
  | _ => true

def areProper : List Entry → Bool
  | [] => true
  | entry :: rest => decide (Path.IsName entry.name) && (entry.isProper && areProper rest)

end

variable {entry child : Entry} {entries : List Entry} {names : List String} {name : String}

theorem areProper_iff :
    areProper entries = true ↔
      ∀ entry ∈ entries, Path.IsName entry.name ∧ entry.isProper = true := by
  induction entries with
  | nil => simp [areProper]
  | cons entry rest ih =>
    rw [areProper, Bool.and_eq_true_iff, Bool.and_eq_true_iff, decide_eq_true_iff, ih,
      List.forall_mem_cons, and_assoc]

theorem isProper_folder {listable : Bool} :
    (folder name listable entries).isProper = true ↔ (entries.map Entry.name).Nodup ∧
      ∀ entry ∈ entries, Path.IsName entry.name ∧ entry.isProper = true := by
  rw [isProper, Bool.and_eq_true_iff, decide_eq_true_iff, areProper_iff]

theorem child?_eq_some (h : entry.child? name = some child) :
    ∃ own listable entries, entry = .folder own listable entries ∧ child ∈ entries ∧
      child.name = name := by
  cases entry with
  | folder own listable entries =>
    rw [child?] at h
    have hname := List.find?_some h
    exact ⟨own, listable, entries, rfl, List.mem_of_find?_eq_some h, beq_iff_eq.1 hname⟩
  | file | link => cases h

theorem isProper_child (h : entry.isProper = true) (hchild : entry.child? name = some child) :
    child.isProper = true := by
  obtain ⟨own, listable, entries, rfl, hmem, -⟩ := child?_eq_some hchild
  exact ((isProper_folder.1 h).2 child hmem).2

theorem descend_keeps {P : Entry → Prop}
    (hP : ∀ {entry name child}, P entry → entry.child? name = some child → P child) (h : P entry)
    (hfound : entry.descend? names = some child) : P child := by
  induction names generalizing entry with
  | nil =>
    cases hfound
    exact h
  | cons name rest ih =>
    rw [descend?, Option.bind_eq_some_iff] at hfound
    obtain ⟨next, hnext, hfound⟩ := hfound
    exact ih (hP h hnext) hfound

theorem isProper_descend (h : entry.isProper = true) (hfound : entry.descend? names = some child) :
    child.isProper = true :=
  descend_keeps isProper_child h hfound

end Files.Entry

namespace Workspace

open Files Path

variable {ws : Workspace} {dir file : String}

/-- Names are plain, and no two entries of a folder share one. -/
def Proper (ws : Workspace) : Prop :=
  ws.root.isProper = true

instance (ws : Workspace) : Decidable ws.Proper :=
  inferInstanceAs (Decidable (_ = true))

theorem Proper.entry (h : ws.Proper) {path : String} {entry : Entry}
    (hentry : ws.entry? path = some entry) : entry.isProper = true := by
  rw [Workspace.entry?, Option.bind_eq_some_iff] at hentry
  obtain ⟨names, -, hnames⟩ := hentry
  exact Entry.isProper_descend h hnames

theorem entries?_eq_some {entries : List Entry} (h : ws.entries? dir = some entries) :
    ∃ name own, ws.entry? dir = some (.folder name true own) ∧ entries.Perm own := by
  rw [entries?] at h
  cases hentry : ws.entry? dir with
  | none =>
    rw [hentry] at h
    cases h
  | some entry =>
    rw [hentry] at h
    cases entry with
    | file | link => cases h
    | folder name listable own =>
      cases listable with
      | false => cases h
      | true =>
        cases h
        exact ⟨name, own, rfl, perm_sortBy _ _⟩

theorem mem_folders {inner : String} (h : inner ∈ ws.folders dir) :
    ∃ own entries child, ws.entry? dir = some (.folder own true entries) ∧ child ∈ entries ∧
      child.isFolder = true ∧ inner = join dir child.name := by
  obtain ⟨child, hlisted, rfl⟩ := List.mem_map.1 h
  obtain ⟨hmem, hfolder⟩ := List.mem_filter.1 hlisted
  cases hentries : ws.entries? dir with
  | none => simp [hentries] at hmem
  | some sorted =>
    rw [hentries, Option.getD_some] at hmem
    obtain ⟨own, entries, hentry, hperm⟩ := entries?_eq_some hentries
    exact ⟨own, entries, child, hentry, hperm.mem_iff.1 hmem, hfolder, rfl⟩

theorem mem_list (h : ws.Proper) (hfile : file ∈ ws.list dir) :
    ∃ name, IsName name ∧ file = join dir name := by
  obtain ⟨entry, hentry, rfl⟩ := List.mem_map.1 hfile
  cases hlisted : ws.entries? dir with
  | none =>
    rw [hlisted] at hentry
    exact absurd hentry List.not_mem_nil
  | some entries =>
    rw [hlisted] at hentry
    obtain ⟨name, own, hfolder, hperm⟩ := entries?_eq_some hlisted
    have hproper := Entry.isProper_folder.1 (h.entry hfolder)
    exact ⟨entry.name, (hproper.2 entry (hperm.mem_iff.1 hentry)).1, rfl⟩

end Workspace
end ProjectLint
