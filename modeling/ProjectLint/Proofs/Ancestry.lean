/-
The way up from a path. A directory lies above a path exactly if its names are a start of the names
of the path. So what lies above all of several paths are the starts that their names share, and the
longest of these is the nearest common ancestor.
-/
import Mathlib.Data.List.Induction
import Mathlib.Logic.Function.Iterate
import ProjectLint.Proofs.Paths

namespace ProjectLint
namespace Path

variable {names : List String} {path dir : String}

/-- Some number of steps to the parent leads from the path to the folder. -/
def Above (dir path : String) : Prop :=
  ∃ steps, parent^[steps] path = dir

theorem above_iff (h : Spells names path) :
    Above dir path ↔ ∃ start, start <+: names ∧ dir = ofParts start := by
  constructor
  · rintro ⟨steps, rfl⟩
    induction steps generalizing names path with
    | zero => exact ⟨names, List.prefix_rfl, h.2⟩
    | succ steps ih =>
      rw [Function.iterate_succ_apply]
      rcases List.eq_nil_or_concat names with rfl | ⟨above, name, rfl⟩
      · have hroot : parent path = path := by
          rw [h.2]
          decide
        exact ih (hroot.symm ▸ h)
      · rw [List.concat_eq_append] at h ⊢
        obtain ⟨start, hstart, hdir⟩ := ih h.parent
        exact ⟨start, hstart.trans (List.prefix_append _ _), hdir⟩
  · rintro ⟨start, ⟨rest, rfl⟩, rfl⟩
    induction rest using List.reverseRecOn generalizing path with
    | nil => exact ⟨0, by rw [List.append_nil] at h; exact h.2⟩
    | append_singleton rest name ih =>
      rw [← List.append_assoc] at h
      obtain ⟨steps, hsteps⟩ := ih h.parent
      exact ⟨steps + 1, hsteps⟩

/-! ## Shared starts -/

theorem prefix_commonStart (start a b : List String) :
    start <+: commonStart a b ↔ start <+: a ∧ start <+: b := by
  rw [commonStart]
  induction a generalizing start b with
  | nil => cases b <;> simp +contextual [splitCommon]
  | cons x as ih =>
    cases b with
    | nil => simp +contextual [splitCommon]
    | cons y bs =>
      rw [splitCommon]
      cases start with
      | nil => simp
      | cons name rest =>
        by_cases hxy : x = y
        · rw [if_pos hxy]
          simp only [List.cons_prefix_cons, ih, hxy]
          tauto
        · rw [if_neg hxy]
          simp only [List.cons_prefix_cons, List.prefix_nil, reduceCtorEq, false_iff]
          rintro ⟨⟨rfl, -⟩, rfl, -⟩
          exact hxy rfl

theorem prefix_foldl_commonStart (start first : List String) (rest : List (List String)) :
    start <+: rest.foldl commonStart first ↔ ∀ names ∈ first :: rest, start <+: names := by
  induction rest generalizing first with
  | nil => simp
  | cons second rest ih =>
    rw [List.foldl_cons, ih]
    simp only [List.forall_mem_cons, prefix_commonStart, and_assoc]

theorem commonAncestor_spells (cwd first : String) (rest : List String) :
    ∃ names top, commonAncestor cwd (first :: rest) = some top ∧ Spells names top ∧
      ∀ start, start <+: names ↔ ∀ path ∈ first :: rest, start <+: absoluteParts cwd path := by
  have hstarts := fun start => prefix_foldl_commonStart start (absoluteParts cwd first)
    (rest.map (absoluteParts cwd))
  generalize hnames : (rest.map (absoluteParts cwd)).foldl commonStart (absoluteParts cwd first) =
    names at hstarts
  refine ⟨names, ofParts names, by rw [commonAncestor, hnames], ⟨fun name hname => ?_, rfl⟩,
    fun start => ?_⟩
  · have hfirst := (hstarts names).1 List.prefix_rfl _ List.mem_cons_self
    exact isName_absoluteParts cwd first name (hfirst.subset hname)
  · rw [hstarts, ← List.map_cons, List.forall_mem_map]

theorem root_iff (h : Spells names path) : path = "/" ↔ names = [] :=
  ⟨fun hroot => h.unique ⟨List.forall_mem_nil _, hroot⟩, fun hnil => by rw [h.2, hnil]; rfl⟩

theorem singleton_prefix_iff {name : String} : [name] <+: names ↔ names.head? = some name := by
  cases names <;> simp [List.cons_prefix_cons, eq_comm]

/-- The common ancestor of paths lies above each of them, and whatever does so lies above it. It
depends on which paths there are, not on their order or number. It is the root exactly if one of the
paths is, or there is no first name that all of them share. -/
theorem commonAncestor_nearest (cwd first : String) (rest : List String) :
    ∃ top, commonAncestor cwd (first :: rest) = some top ∧
      (∀ path ∈ first :: rest, Above top (resolve cwd path)) ∧
      (∀ dir, (∀ path ∈ first :: rest, Above dir (resolve cwd path)) → Above dir top) ∧
      (∀ others : List String, (∀ path, path ∈ others ↔ path ∈ first :: rest) →
        commonAncestor cwd others = some top) ∧
      (top = "/" ↔ (∃ path ∈ first :: rest, resolve cwd path = "/") ∨
        ¬ ∃ name, ∀ path ∈ first :: rest, (absoluteParts cwd path).head? = some name) := by
  obtain ⟨names, top, htop, hspells, hstarts⟩ := commonAncestor_spells cwd first rest
  have hown := (hstarts names).1 List.prefix_rfl
  refine ⟨top, htop, fun path hpath => ?_, fun dir hdir => ?_, fun others hothers => ?_, ?_⟩
  · exact (above_iff (.resolve cwd path)).2 ⟨names, hown path hpath, hspells.2⟩
  · obtain ⟨start, hstart, rfl⟩ := (above_iff (.resolve cwd first)).1 (hdir _ List.mem_cons_self)
    refine (above_iff hspells).2 ⟨start, (hstarts start).2 fun path hpath => ?_, rfl⟩
    -- Names are read off a spelling, so the start that leads to `dir` is the same for each path.
    obtain ⟨other, hother, hsame⟩ := (above_iff (.resolve cwd path)).1 (hdir path hpath)
    have hnames : ∀ {given} {names : List String}, names <+: absoluteParts cwd given →
        ∀ name ∈ names, IsName name :=
      fun h name hname => isName_absoluteParts cwd _ name (h.subset hname)
    rwa [Spells.unique ⟨hnames hstart, rfl⟩ ⟨hnames hother, hsame⟩]
  · cases others with
    | nil => exact absurd ((hothers first).2 List.mem_cons_self) List.not_mem_nil
    | cons other others =>
      obtain ⟨names', top', htop', hspells', hstarts'⟩ := commonAncestor_spells cwd other others
      have hsame : ∀ start, start <+: names' ↔ start <+: names := fun start => by
        rw [hstarts, hstarts']
        exact forall_congr' fun path => imp_congr_left (hothers path)
      have hprefix := (hsame names').1 List.prefix_rfl
      have hlength := ((hsame names).2 List.prefix_rfl).length_le
      rw [htop', hspells'.2, hprefix.eq_of_length_le hlength, ← hspells.2]
  · have hshared : names = [] ↔
        ¬ ∃ name, ∀ path ∈ first :: rest, (absoluteParts cwd path).head? = some name := by
      simp only [← singleton_prefix_iff, ← hstarts]
      cases names <;> simp [List.cons_prefix_cons]
    rw [root_iff hspells, hshared, or_iff_right_of_imp]
    rintro ⟨path, hpath, hroot⟩ ⟨name, hname⟩
    have hhead := hname path hpath
    rw [(root_iff (.resolve cwd path)).1 hroot] at hhead
    cases hhead

end Path
end ProjectLint
