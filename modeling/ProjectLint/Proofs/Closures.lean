/-
The libraries of a project in their order. The walk that collects them marks a project as it comes
to it and never enters it again, and so it passes by ways that have not been gone to their end.
Still it lists what all ways list that pass no project twice, each project where it first comes up.
-/
import ProjectLint.Proofs.Distinct
import ProjectLint.Proofs.Stock

namespace ProjectLint

open Relation

/-- All that is reached step by step without a return to where one came from, depth first. -/
def descent [DecidableEq α] (next : α → List α) : Nat → List α → α → List α
  | 0, _, _ => []
  | room + 1, above, a =>
    ((next a).filter (· ∉ a :: above)).flatMap fun b => b :: descent next room (a :: above) b

theorem not_mem_descent [DecidableEq α] {next : α → List α} {room : Nat} {above : List α} {a b : α}
    (h : b ∈ a :: above) : b ∉ descent next room above a := by
  induction room generalizing above a with
  | zero => exact List.not_mem_nil
  | succ room ih =>
    intro hmem
    obtain ⟨c, hc, hb⟩ := List.mem_flatMap.1 hmem
    rcases List.mem_cons.1 hb with rfl | hbelow
    · exact of_decide_eq_true (List.mem_filter.1 hc).2 h
    · exact ih (List.mem_cons_of_mem _ h) hbelow

theorem descent_subset [DecidableEq α] {next : α → List α} {seen passed : List α}
    (hclosed : ∀ a ∈ seen, a ∉ passed → ∀ b ∈ next a, b ∈ seen) {room : Nat}
    {above : List α} {a : α} (ha : a ∈ seen) (hnew : a ∉ passed) (habove : passed ⊆ above) :
    descent next room above a ⊆ seen := by
  induction room generalizing above a with
  | zero => exact List.nil_subset _
  | succ room ih =>
    intro b hmem
    obtain ⟨c, hc, hb⟩ := List.mem_flatMap.1 hmem
    obtain ⟨hnext, hfresh⟩ := List.mem_filter.1 hc
    have hseen : c ∈ seen := hclosed a ha hnew c hnext
    have habove' : passed ⊆ a :: above := fun x hx => List.mem_cons_of_mem _ (habove hx)
    rcases List.mem_cons.1 hb with rfl | hbelow
    · exact hseen
    · exact ih hseen (fun hpassed => of_decide_eq_true hfresh (habove' hpassed)) habove' hbelow

namespace State

/-- The libraries that a project is known to refer to. -/
def references (s : State σ) (ref : ProjectRef) : List ProjectRef :=
  (s.project ref).libraries.getD []

end State

namespace Engine

open Run State

variable {host : Host σ} {opts : Options} {ws : Workspace} {s s' t : State σ}

def Closed (t : State σ) (passed seen : List ProjectRef) : Prop :=
  ∀ ref ∈ seen, ref ∉ passed → ∀ other ∈ t.references ref, other ∈ seen

theorem Closed.covered {passed seen seen' refs : List ProjectRef} {ref : ProjectRef}
    (h : Closed t passed seen) (hrefs : (t.project ref).libraries = some refs)
    (hcovers : Covers t refs (seen ++ [ref]) seen') : Closed t passed seen' := by
  have hgrown : ∀ other ∈ seen ++ [ref], other ∈ seen' :=
    fun _ hother => hcovers.grown.subset hother
  intro first hfirst hpassed other hother
  by_cases hold : first ∈ seen ++ [ref]
  · rcases List.mem_append.1 hold with hseen | hlast
    · exact hgrown other (List.mem_append_left _ (h first hseen hpassed other hother))
    · rw [List.mem_singleton.1 hlast, references, hrefs] at hother
      exact hcovers.started other hother
  · obtain ⟨known, hknown, hall⟩ := hcovers.expanded first hfirst hold
    rw [references, hknown] at hother
    exact hall other hother

theorem closeOver_descends (ht : t.Filed) (fuel : Nat) :
    ∀ {ref : ProjectRef} {above seen seen' : List ProjectRef} {room : Nat} {s s' : State σ},
      s.Sound → s.Has ref → (host.engine opts).closeOver fuel ref seen s = .ok seen' s' →
      Later Quiet s' t → seen.Nodup → (ref :: above) ⊆ seen → Closed t (ref :: above) seen →
      (ref :: above).Nodup → (∀ other ∈ ref :: above, t.Made other) →
      t.projects.size ≤ room + above.length →
      seen' = distinct (seen ++ descent t.references room above ref) := by
  induction fuel with
  | zero =>
    intro _ _ _ _ _ _ _ _ _ h
    cases h
  | succ fuel ih =>
    intro ref above seen seen' room s s' hs href h hlater hseen habove hclosed hnodup hmade hroom
    -- there is room, for no way passes more projects than there are
    obtain ⟨room, rfl⟩ : ∃ more, room = more + 1 := by
      refine Nat.exists_eq_succ_of_ne_zero fun hzero => ?_
      have hlength := length_le_size hnodup hmade
      rw [List.length_cons] at hlength
      omega
    rw [closeOver] at h
    obtain ⟨refs, s₁, hlibraries, hwalk⟩ := bind_eq_ok h
    obtain ⟨hs₁, hknown, hrefs⟩ := sound_libraries hs href hlibraries
    obtain ⟨-, hlater₁, -⟩ := covers_carry (covers_closeOver fuel) refs hs₁ hrefs hwalk
    have hlibs : (t.project ref).libraries = some refs :=
      hlater.libraries (hlater₁.libraries hknown)
    have hreferences : t.references ref = refs := by rw [references, hlibs]; rfl
    have hmades : ∀ other ∈ refs, t.Made other := (ht.project ref).1 refs hlibs
    rw [descent, hreferences]
    clear hknown hlibs hreferences hlibraries h hs hlater₁
    induction refs generalizing seen s₁ with
    | nil =>
      cases hwalk
      rw [List.filter_nil, List.flatMap_nil, List.append_nil, distinct_of_nodup hseen]
    | cons library rest ihrest =>
      rw [carry] at hwalk
      obtain ⟨seen₁, s₂, hfirst, hrest⟩ := bind_eq_ok hwalk
      obtain ⟨hlibrary, hothers⟩ := List.forall_mem_cons.1 hrefs
      obtain ⟨hmade₁, hmades₁⟩ := List.forall_mem_cons.1 hmades
      by_cases hpassed : library ∈ ref :: above
      · -- a project that the walk is in was seen, and no way passes it again
        rw [if_pos (List.contains_iff_mem.2 (habove hpassed))] at hfirst
        cases hfirst
        rw [List.filter_cons_of_neg (by rwa [decide_eq_true_iff, not_not])]
        exact ihrest hseen habove hclosed s₁ hrest hs₁ hothers hmades₁
      · rw [List.filter_cons_of_pos (by rwa [decide_eq_true_iff]), List.flatMap_cons,
          ← List.append_assoc, ← distinct_distinct_append]
        by_cases hold : library ∈ seen
        · rw [if_pos (List.contains_iff_mem.2 hold)] at hfirst
          cases hfirst
          have hbelow : descent t.references room (ref :: above) library ⊆ seen :=
            descent_subset hclosed hold hpassed (List.Subset.refl _)
          rw [distinct_append_of_subset (List.cons_subset.2 ⟨hold, hbelow⟩),
            distinct_of_nodup hseen]
          exact ihrest hseen habove hclosed s₁ hrest hs₁ hothers hmades₁
        · rw [if_neg (mt List.contains_iff_mem.1 hold)] at hfirst
          obtain ⟨hs₂, hlater₁, refs, hlibs, hcovers⟩ :=
            covers_closeOver fuel hs₁ hlibrary hfirst
          have hothers₂ := fun other hother => hlater₁.has (hothers other hother)
          obtain ⟨-, hlater₂, -⟩ :=
            covers_carry (covers_closeOver fuel) rest hs₂ hothers₂ hrest
          replace hlater₂ := hlater₂.trans hlater
          replace hcovers := hcovers.later hlater₂
          have hseen₁ : seen₁ = distinct (seen ++
              library :: descent t.references room (ref :: above) library) := by
            rw [List.append_cons]
            refine ih hs₁ hlibrary hfirst hlater₂ (List.concat_eq_append ▸ hseen.concat hold) ?_ ?_
              (List.nodup_cons.2 ⟨hpassed, hnodup⟩) (List.forall_mem_cons.2 ⟨hmade₁, hmade⟩) ?_
            · exact List.cons_subset.2 ⟨by simp, fun _ h => List.mem_append_left _ (habove h)⟩
            · intro first hfirst hnew other hother
              obtain ⟨hne, hnew⟩ := not_or.1 (mt List.mem_cons.2 hnew)
              refine List.mem_append_left _ (hclosed first ?_ hnew other hother)
              exact (List.mem_append.1 hfirst).resolve_right fun h => hne (List.mem_singleton.1 h)
            · rw [List.length_cons]
              omega
          rw [← hseen₁]
          refine ihrest (hcovers.nodup ?_) ?_ (hclosed.covered (hlater₂.libraries hlibs) hcovers) s₂
            hrest hs₂ hothers₂ hmades₁
          · exact List.concat_eq_append ▸ hseen.concat hold
          · exact fun _ h => hcovers.grown.subset (List.mem_append_left _ (habove h))

def ring : Workspace :=
  sideBySide
    [("a", "android.library.reference.1=../b\nandroid.library.reference.2=../c\n" ++
        "android.library.reference.3=../b\n"),
      ("b", "android.library.reference.1=../d\nandroid.library.reference.2=../b\n"),
      ("c", "android.library.reference.1=../d\n"),
      ("d", "android.library.reference.1=../c\nandroid.library.reference.2=../a\n")]

end Engine
end ProjectLint
