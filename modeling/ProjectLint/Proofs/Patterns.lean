/-
What patterns stand for. Matching tries a star at every length in turn; what comes of it is that a
path is matched exactly if it can be cut into pieces, one for each unit of the pattern, each of
which the unit may stand for. Half a character is a unit like any other.
-/
import Mathlib.Data.List.Forall2
import ProjectLint.Settings.Pattern

namespace ProjectLint
namespace Settings
namespace Pattern

/-- A piece of text that one character of a pattern matches. -/
def Stands (p : Nat) (piece : List Nat) : Prop :=
  if p = star then ∀ u ∈ piece, isLineEnd u = false
  else if p = mark then ∃ u, isLineEnd u = false ∧ piece = [u]
  else piece = [p]

/-! ## Wildcards -/

theorem afterRun_iff {rest : List Nat → Bool} {us : List Nat} :
    afterRun rest us = true ↔
      ∃ run more, run ++ more = us ∧ (∀ u ∈ run, isLineEnd u = false) ∧ rest more = true := by
  induction us with
  | nil =>
    rw [afterRun]
    refine ⟨fun h => ⟨[], [], rfl, List.forall_mem_nil _, h⟩, ?_⟩
    rintro ⟨run, more, hcut, -, h⟩
    rwa [(List.append_eq_nil_iff.1 hcut).2] at h
  | cons u us ih =>
    rw [afterRun, Bool.or_eq_true, Bool.and_eq_true, Bool.not_eq_true', ih]
    constructor
    · rintro (h | ⟨hu, run, more, rfl, hrun, h⟩)
      · exact ⟨[], u :: us, rfl, List.forall_mem_nil _, h⟩
      · exact ⟨u :: run, more, rfl, List.forall_mem_cons.2 ⟨hu, hrun⟩, h⟩
    · rintro ⟨run, more, hcut, hrun, h⟩
      cases run with
      | nil => exact .inl (hcut ▸ h)
      | cons v run =>
        obtain ⟨rfl, rfl⟩ := List.cons.inj hcut
        obtain ⟨hv, hrun⟩ := List.forall_mem_cons.1 hrun
        exact .inr ⟨hv, run, more, rfl, hrun, h⟩

theorem wildMatches_iff {pattern us : List Nat} :
    wildMatches pattern us = true ↔
      ∃ pieces : List (List Nat), pieces.flatten = us ∧ List.Forall₂ Stands pattern pieces := by
  induction pattern generalizing us with
  | nil =>
    rw [wildMatches, List.isEmpty_iff]
    exact ⟨fun h => ⟨[], h.symm, .nil⟩, fun ⟨_, hcut, h⟩ => by cases h; exact hcut.symm⟩
  | cons p ps ih =>
    -- either way the path is cut behind the piece that the first unit stands for
    suffices h : wildMatches (p :: ps) us = true ↔
        ∃ piece more, piece ++ more = us ∧ Stands p piece ∧ wildMatches ps more = true by
      rw [h]
      constructor
      · rintro ⟨piece, more, rfl, hpiece, hmore⟩
        obtain ⟨pieces, rfl, hpieces⟩ := ih.1 hmore
        exact ⟨piece :: pieces, rfl, .cons hpiece hpieces⟩
      · rintro ⟨_, rfl, hpieces⟩
        cases hpieces with
        | cons hpiece hpieces => exact ⟨_, _, rfl, hpiece, ih.2 ⟨_, rfl, hpieces⟩⟩
    by_cases hstar : p = star
    · simp only [wildMatches, if_pos hstar, Stands]
      exact afterRun_iff
    · simp only [wildMatches, if_neg hstar, Stands]
      cases us with
      | nil =>
        refine ⟨fun h => absurd h Bool.false_ne_true, ?_⟩
        rintro ⟨piece, more, hcut, hpiece, -⟩
        rw [(List.append_eq_nil_iff.1 hcut).1] at hpiece
        split at hpiece
        · obtain ⟨_, -, hnil⟩ := hpiece
          cases hnil
        · cases hpiece
      | cons u us =>
        by_cases hmark : p = mark
        · simp only [if_pos hmark, Bool.and_eq_true, Bool.not_eq_true']
          constructor
          · rintro ⟨hu, h⟩
            exact ⟨[u], us, rfl, ⟨u, hu, rfl⟩, h⟩
          · rintro ⟨_, more, hcut, ⟨v, hv, rfl⟩, h⟩
            cases hcut
            exact ⟨hv, h⟩
        · simp only [if_neg hmark, Bool.and_eq_true, beq_iff_eq]
          constructor
          · rintro ⟨rfl, h⟩
            exact ⟨[p], us, rfl, rfl, h⟩
          · rintro ⟨_, more, hcut, rfl, h⟩
            cases hcut
            exact ⟨rfl, h⟩

/-! ## Runs of stars -/

theorem afterRun_afterRun (rest : List Nat → Bool) (us : List Nat) :
    afterRun (afterRun rest) us = afterRun rest us := by
  rw [Bool.eq_iff_iff, afterRun_iff]
  constructor
  · rintro ⟨run, more, rfl, hrun, h⟩
    obtain ⟨run', more, rfl, hrun', h⟩ := afterRun_iff.1 h
    exact afterRun_iff.2 ⟨run ++ run', more, List.append_assoc _ _ _,
      List.forall_mem_append.2 ⟨hrun, hrun'⟩, h⟩
  · exact fun h => ⟨[], us, rfl, List.forall_mem_nil _, h⟩

theorem wildMatches_star_star (before after : List Nat) :
    wildMatches (before ++ star :: star :: after) = wildMatches (before ++ star :: after) := by
  funext us
  induction before generalizing us with
  | nil =>
    have hstar : ∀ ps, wildMatches (star :: ps) = afterRun (wildMatches ps) := by
      intro ps
      funext us
      simp only [wildMatches, if_pos]
    rw [List.nil_append, List.nil_append, hstar, hstar, afterRun_afterRun]
  | cons p before ih =>
    simp only [List.cons_append, wildMatches, funext ih]

theorem wildMatches_run (before after : List Nat) (n : Nat) :
    wildMatches (before ++ star :: (List.replicate n star ++ after)) =
      wildMatches (before ++ star :: after) := by
  induction n with
  | zero => rfl
  | succ n ih =>
    rw [← ih, List.replicate_succ, List.cons_append, wildMatches_star_star]

theorem normalized_append (first more : List Nat) :
    normalized (first ++ more) = normalized first ++ normalized more :=
  List.map_append

theorem not_slash_behind_star {more : List Nat} (h : ¬ [slash] <:+ more) (before : List Nat) :
    ¬ [slash] <:+ before ++ star :: more := by
  rintro ⟨start, hstart⟩
  rcases List.eq_nil_or_concat more with rfl | ⟨others, last, rfl⟩
  · cases (List.append_inj' hstart rfl).2
  · rw [List.concat_eq_append] at hstart h
    rw [← List.cons_append, ← List.append_assoc] at hstart
    exact h ⟨others, by rw [(List.append_inj' hstart rfl).2]⟩

theorem accepts_star {after : List Nat} (hafter : ¬ [slash] <:+ normalized after)
    (before path : List Nat) : accepts (before ++ star :: after) path =
      wildMatches (normalized before ++ star :: normalized after) path := by
  have hnormal : normalized (before ++ star :: after) =
      normalized before ++ star :: normalized after :=
    normalized_append before (star :: after)
  have hwild : hasWildcard (normalized before ++ star :: normalized after) = true :=
    List.any_eq_true.2 ⟨star, List.mem_append_right _ List.mem_cons_self, by decide⟩
  have hend : ¬ [slash].isSuffixOf (normalized before ++ star :: normalized after) = true := by
    rw [List.isSuffixOf_iff_suffix]
    exact not_slash_behind_star hafter _
  rw [accepts, hnormal, if_neg hend, if_pos hwild]

theorem accepts_run {after : List Nat} (hafter : ¬ [slash] <:+ normalized after)
    (before path : List Nat) (n : Nat) :
    accepts (before ++ star :: (List.replicate n star ++ after)) path =
      accepts (before ++ star :: after) path := by
  have hrun : ¬ [slash] <:+ normalized (List.replicate n star ++ after) := by
    cases n with
    | zero => exact hafter
    | succ n =>
      induction n with
      | zero => exact not_slash_behind_star hafter []
      | succ n ih => exact not_slash_behind_star ih []
  have hstars : normalized (List.replicate n star) = List.replicate n star := List.map_replicate
  rw [accepts_star hrun, accepts_star hafter, normalized_append, hstars, wildMatches_run]

/-! ## Plain patterns -/

theorem intercalate_append (sep : List Nat) {first : List (List Nat)} (hfirst : first ≠ [])
    (component : List Nat) (rest : List (List Nat)) :
    sep.intercalate (first ++ component :: rest) =
      sep.intercalate first ++ sep ++ sep.intercalate (component :: rest) := by
  induction first with
  | nil => exact absurd rfl hfirst
  | cons a others ih =>
    cases others with
    | nil => simp [List.intercalate_cons_cons]
    | cons b others =>
      have hothers := ih (List.cons_ne_nil b others)
      simp only [List.cons_append, List.intercalate_cons_cons, List.append_assoc] at hothers ⊢
      rw [hothers]

theorem splitOn_isPrefix_iff {folder path : List Nat} :
    folder.splitOn slash <+: path.splitOn slash ↔ path = folder ∨ folder ++ [slash] <+: path := by
  have hjoin : ∀ us : List Nat, [slash].intercalate (us.splitOn slash) = us :=
    fun _ => List.intercalate_splitOn slash
  have hsplit : ∀ us more : List Nat,
      (us ++ slash :: more).splitOn slash = us.splitOn slash ++ more.splitOn slash :=
    fun us more => List.splitOnP_append_cons us more (beq_self_eq_true slash)
  constructor
  · rintro ⟨rest, hrest⟩
    have hpath := hjoin path
    rw [← hrest] at hpath
    cases rest with
    | nil =>
      rw [List.append_nil, hjoin] at hpath
      exact .inl hpath.symm
    | cons component rest =>
      rw [intercalate_append _ (List.splitOn_ne_nil _ _), hjoin] at hpath
      exact .inr ⟨_, hpath⟩
  · rintro (rfl | ⟨more, rfl⟩)
    · exact List.prefix_refl _
    · rw [List.append_assoc, List.singleton_append, hsplit]
      exact List.prefix_append _ _

/-- A pattern that ends in a slash is matched by what begins with it; in any other stars and
question marks are wildcards, and without them the components of the pattern are the first of the
path. Where stars are wildcards, one more of them beside another changes nothing. -/
theorem accepts_iff_stands (pattern path : List Nat) :
    (accepts pattern path = true ↔
      ([slash] <:+ normalized pattern ∧ normalized pattern <+: path) ∨
      (¬ [slash] <:+ normalized pattern ∧
        (star ∈ normalized pattern ∨ mark ∈ normalized pattern) ∧
        ∃ pieces : List (List Nat), pieces.flatten = path ∧
          List.Forall₂ Stands (normalized pattern) pieces) ∨
      (¬ [slash] <:+ normalized pattern ∧
        star ∉ normalized pattern ∧ mark ∉ normalized pattern ∧
        (path = normalized pattern ∨ (normalized pattern).splitOn slash <+: path.splitOn slash))) ∧
    (∀ text written : String,
      isMatch text written = accepts (Text.units written) (Text.units text)) ∧
    ∀ before after : List Nat, ¬ [slash] <:+ normalized after → ∀ n,
      accepts (before ++ star :: (List.replicate n star ++ after)) path =
        accepts (before ++ star :: after) path := by
  refine ⟨?_, fun _ _ => rfl, fun before _ hafter n => accepts_run hafter before path n⟩
  have hwild : hasWildcard (normalized pattern) = true ↔
      star ∈ normalized pattern ∨ mark ∈ normalized pattern := by
    simp only [hasWildcard, List.any_eq_true, Bool.or_eq_true, beq_iff_eq, and_or_left, exists_or,
      exists_eq_right]
  rw [accepts]
  by_cases hslash : [slash] <:+ normalized pattern
  · rw [if_pos (List.isSuffixOf_iff_suffix.2 hslash), List.isPrefixOf_iff_prefix]
    simp only [hslash, true_and, not_true_eq_false, false_and, or_false]
  · rw [if_neg (mt List.isSuffixOf_iff_suffix.1 hslash)]
    by_cases hany : star ∈ normalized pattern ∨ mark ∈ normalized pattern
    · rw [if_pos (hwild.2 hany), wildMatches_iff]
      have hboth : ¬ (star ∉ normalized pattern ∧ mark ∉ normalized pattern) :=
        fun hnone => hany.elim hnone.1 hnone.2
      simp only [hslash, hany, false_and, false_or, not_false_eq_true, true_and, ← and_assoc, hboth,
        or_false]
    · rw [if_neg (mt hwild.1 hany), Bool.or_eq_true, beq_iff_eq, List.isPrefixOf_iff_prefix,
        splitOn_isPrefix_iff]
      obtain ⟨hstar, hmark⟩ := not_or.1 hany
      simp only [hslash, hstar, hmark, false_and, false_or, not_false_eq_true, true_and, or_self,
        or_self_left]

theorem accepts_iff_stands_pair :
    ¬ [slash] <:+ normalized (Text.units "??/A*.xml") ∧
    isMatch "src/x/😀/A.xml" "src/**??/A*.xml" = isMatch "src/x/😀/A.xml" "src/*??/A*.xml" ∧
    isMatch "src/x/😀/A.xml" "src/*??/A*.xml" = true := by
  have hafter : ¬ [slash] <:+ normalized (Text.units "??/A*.xml") := by decide
  obtain ⟨-, htexts, hruns⟩ :=
    accepts_iff_stands (Text.units "src/**??/A*.xml") (Text.units "src/x/😀/A.xml")
  refine ⟨hafter, ?_, by decide +kernel⟩
  rw [htexts, htexts]
  exact hruns (Text.units "src/") (Text.units "??/A*.xml") hafter 1

/-- A pattern that ends in a slash has no wildcards, and there two stars are not one. -/
theorem stars_count_before_slash : ¬ ∀ path : String, isMatch path "**/" = isMatch path "*/" :=
  fun h => absurd (h "*/x") (by decide +kernel)

end Pattern
end Settings
end ProjectLint
