/-
The search for the projects of given paths comes to an end, since each folder is searched one level
further down and each closure of libraries has room for all folders.
-/
import ProjectLint.Proofs.Registrations
import ProjectLint.Proofs.Stock

namespace ProjectLint
namespace Discovery

open Run Engine State Files

variable {host : Host σ} {opts : Options} {ws : Workspace} {s t : State σ} {found : Found}
  {stopped : State σ → Bool}

theorem seeking_filed (hhost : host.Caching opts ws) :
    Seeking host opts ws ws.Stalls (fun s => s.files = ws ∧ s.Filed) fun _ _ => True where
  files := fun h => h.1
  noted := fun _ _ h => ⟨h.1, { h.2 with }⟩
  projectAt := fun dir reference s h => by
    have hproject := projectAt_returns hhost h.1 h.2 dir reference
    rw [Obtains, h.1] at hproject
    exact hproject.mono (fun _ => id) (fun _ ht => ⟨ht.2.files.trans h.1, ht.1⟩)
      fun _ _ hmade => ⟨trivial, hmade⟩

/-! ## After the search -/

theorem resetSubsets_returns (hhost : host.Caching opts ws) (hfiles : s.files = ws) (hs : s.Filed)
    {refs : List ProjectRef} (hrefs : ∀ ref ∈ refs, s.Made ref) :
    Obtains (fun _ => True) (resetSubsets (host.engine opts) refs) s fun _ _ => True := by
  have hreset : ∀ ref (t : State σ), t.Filed →
      Obtains (fun _ => True) (changeProject ref Project.resetSubset) t fun _ _ => True :=
    fun ref _ ht => .change ht ref fun _ => rfl
  refine .each refs hs fun ref href t ht hgrew => ?_
  refine (hreset ref t ht).bind fun _ u _ hu hgrew' _ => ?_
  have hmade := hgrew'.made (hgrew.made (hrefs ref href))
  have hfilesu := (hgrew'.files.trans hgrew.files).trans hfiles
  refine (allLibraries_returns hhost hfilesu hu hmade).anywhere.bind fun libraries v _ hv _ _ => ?_
  exact .each libraries hv fun library _ w hw _ => hreset library w hw

theorem followFolder_returns (hs : s.Filed) (path : String) (ref : ProjectRef) :
    Obtains (fun _ => True) (followFolder path ref) s fun _ _ => True := by
  rw [followFolder]
  refine .inspect ?_
  split
  · exact .followLinks hs path
  · exact .pure hs trivial

theorem pointAt_returns (hs : s.Filed) (found : Found) :
    Obtains (fun _ => True) (pointAt found) s fun _ _ => True := by
  refine .each found hs fun entry _ t ht _ => ?_
  refine (followFolder_returns ht entry.1 entry.2).bind fun _ u _ hu _ _ => .inspect ?_
  by_cases hwhole : isWhole u.files entry.1 entry.2 = true
  · rw [if_pos hwhole]
    exact .pure hu trivial
  · rw [if_neg hwhole]
    exact .change hu entry.2 fun _ => rfl

theorem librariesOf_returns (hhost : host.Caching opts ws) (hfiles : s.files = ws) (hs : s.Filed)
    {refs : List ProjectRef} (hrefs : ∀ ref ∈ refs, s.Made ref) :
    Obtains (fun _ => True) (librariesOf (host.engine opts) refs) s fun _ _ => True := by
  induction refs generalizing s with
  | nil => exact .pure hs trivial
  | cons ref rest ih =>
    obtain ⟨href, hrest⟩ := List.forall_mem_cons.1 hrefs
    refine (allLibraries_returns hhost hfiles hs href).anywhere.bind
      fun libraries t _ ht hgrew _ => ?_
    refine (ih (hgrew.files.trans hfiles) ht fun other hother =>
      hgrew.made (hrest other hother)).bind
      fun others u _ hu _ _ => ?_
    exact .pure hu trivial

theorem checkDistinct_of_off (hassertions : opts.assertions = false) (hs : s.Filed)
    (roots : List ProjectRef) :
    Obtains (fun _ => True) (checkDistinct (host.engine opts) roots) s fun _ _ => True := by
  have hoff : ¬ (host.engine opts).options.assertions = true := Bool.eq_false_iff.1 hassertions
  rw [checkDistinct, if_neg hoff]
  exact .pure hs trivial

theorem resolve_returns {J : State σ → Prop} (hhost : host.Caching opts ws) (hproper : ws.Proper)
    (hseeks : Seeks (host.engine opts) J)
    (hdistinct : ∀ {roots u}, u.files = ws → u.Filed → J u → (∀ root ∈ roots, u.Made root) →
      Obtains (fun _ => True) (checkDistinct (host.engine opts) roots) u fun _ _ => True)
    (hfiles : s.files = ws) (hs : s.Filed) (hJ : J s) (stopped : State σ → Bool)
    (paths : List String) : Ensures ws.Stalls (fun t => t.files = ws ∧ t.Filed) (fun _ _ => True)
      (resolve (host.engine opts) stopped paths s) := by
  rw [resolve, get_bind]
  refine ((seeking_filed hhost).addPaths stopped (.inr hproper)
    (paths.map (Path.resolve s.files.cwd))
    (spelled_resolve s.files.cwd paths) ⟨hfiles, hs⟩ .nil).bind (fun _ => id)
    fun outcome t hadd ht hfound => ?_
  have hJ₁ : J t := (Probes.addPaths (fun _ => hseeks.resolves.toProbes)
    (halting_never fun hst => congrArg stopped hst.1) _ _ []).mirrors.keeps.ok hJ hadd
  cases outcome with
  | none => exact ⟨ht, trivial⟩
  | some found =>
    have hmade : ∀ ref ∈ distinct (found.map Prod.snd), t.Made ref := by
      intro ref href
      obtain ⟨entry, hentry, rfl⟩ := List.mem_map.1 (mem_distinct.1 href)
      exact ((hfound.2 found rfl).refs entry hentry).1
    have hsettle : Obtains (fun _ => True) (settle (host.engine opts) paths found) t
        fun _ _ => True := by
      refine (resetSubsets_returns hhost ht.1 ht.2 hmade).bind fun _ u hreset hu hgrew₂ _ => ?_
      refine (pointAt_returns hu found).bind fun _ v hpoint hv hgrew₃ _ => ?_
      have hfiles₃ := (hgrew₃.files.trans hgrew₂.files).trans ht.1
      have hmade₃ := fun ref href => hgrew₃.made (hgrew₂.made (hmade ref href))
      refine (librariesOf_returns hhost hfiles₃ hv hmade₃).bind
        fun libraries w hlibraries hw hgrew₄ _ => ?_
      have hJ₄ : J w := (hseeks.resolves.librariesOf _).keeps.ok
        ((hseeks.resolves.pointAt _).keeps.ok ((hseeks.resolves.resetSubsets _).keeps.ok hJ₁ hreset)
          hpoint) hlibraries
      refine (hdistinct (hgrew₄.files.trans hfiles₃) hw hJ₄ fun root hroot =>
        hgrew₄.made (hmade₃ root (List.mem_of_mem_filter hroot))).bind fun _ x _ hx _ _ => ?_
      have hnoted : ∀ entry, Untouched x (x.write entry) := fun _ => ⟨rfl, rfl, fun _ => rfl⟩
      exact ⟨⟨(hnoted _).filed hx, .of_untouched (hnoted _)⟩, trivial⟩
    rw [Obtains, ht.1] at hsettle
    exact hsettle.mono (fun _ => id) (fun _ hu => ⟨hu.2.files.trans ht.1, hu.1⟩) fun _ _ => id

end Discovery
end ProjectLint
