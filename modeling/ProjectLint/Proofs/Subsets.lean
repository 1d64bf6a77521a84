/-
The files that a run is pointed at. A search forgets what earlier runs were pointed at, in the found
projects and in all that these lead to, and then points each found project at those paths that led
to it and are less than the whole of it. A path that names the whole project adds nothing, but it
does not take back what another path adds.
-/
import ProjectLint.Proofs.Roots

namespace ProjectLint

open Relation

namespace State

def Unpointed (s : State σ) (i : Nat) : Prop :=
  ∀ project, s.projects[i]? = some project → project.subset = none

variable {s : State σ} {i : Nat}

theorem Unpointed.changed (h : s.Unpointed i) (index : Nat) {change : Project → Project}
    (hchange : ∀ p, p.subset = none → (change p).subset = none) :
    Unpointed (s.changed index change) i := by
  intro project hproject
  obtain ⟨old, hold, ⟨-, rfl⟩ | rfl⟩ := getElem?_of_modify hproject
  · exact hchange old (h old hold)
  · exact h project hold

theorem Unpointed.added (h : s.Unpointed i) {project : Project} (hproject : project.subset = none) :
    Unpointed (s.extended project) i := by
  intro other hother
  rcases getElem?_of_push hother with rfl | hold
  · exact hproject
  · exact h other hold

theorem unpointed_reset (s : State σ) (i : Nat) :
    Unpointed (s.changed i Project.resetSubset) i := by
  intro project hproject
  replace hproject : (s.projects.modify i Project.resetSubset)[i]? = some project := hproject
  rw [Array.getElem?_modify, if_pos rfl] at hproject
  obtain ⟨old, -, rfl⟩ := Option.map_eq_some_iff.1 hproject
  rfl

end State

namespace Discovery

open Run Engine

variable {host : Host σ} {opts : Options} {s s' : State σ} {i : Nat} {found : Found}

/-! ## Forgetting -/

theorem bears_unpointed (i : Nat) :
    Bears host (fun s => s.Unpointed i) (fun _ => True) (fun _ => True) where
  configured := fun _ _ _ _ _ _ h => h.changed _ fun _ => id

theorem searches_unpointed (host : Host σ) (opts : Options) (i : Nat) :
    Searches (host.engine opts) (host.engine opts) (Diagonal fun s => s.Unpointed i) where
  toKin := .refl _
  files := fun hst => by rw [hst.1]
  cache := fun hst => by rw [hst.1]
  size := fun hst => by rw [hst.1]
  project := fun _ _ _ hst => by rw [hst.1]
  noted := fun _ _ _ hst => ⟨by rw [hst.1], hst.2⟩
  getProject := fun _ _ => .of_keeps ((bears_unpointed i).serves opts rfl)
  unreadable := fun _ _ => .of_keeps
    ((bears_unpointed i).log ((bears_unpointed i).serves opts) _ _ _)
  missing := fun _ _ => .of_keeps ((bears_unpointed i).log ((bears_unpointed i).serves opts) _ _ _)
  added := fun _ _ _ hsubset _ hst => ⟨by rw [hst.1], hst.2.added hsubset⟩
  cached := fun _ _ _ hst => ⟨by rw [hst.1], hst.2⟩
  overridden := fun _ _ _ _ hst => ⟨by rw [hst.1], hst.2.changed _ fun _ => id⟩
  linked := fun _ _ _ _ _ _ _ _ hst => ⟨by rw [hst.1], hst.2.changed _ fun _ => id⟩
  reset := fun _ _ _ hst => ⟨by rw [hst.1], hst.2.changed _ fun _ _ => rfl⟩

theorem keeps_unpointed_each (i : Nat) (refs : List ProjectRef) :
    Keeps (fun s : State σ => s.Unpointed i)
      (each refs fun ref => changeProject ref Project.resetSubset) :=
  .each refs fun _ _ => .modify fun hs => hs.changed _ fun _ _ => rfl

theorem unpointed_each (refs : List ProjectRef) {ref : ProjectRef} (href : ref ∈ refs)
    (h : each refs (fun ref => changeProject ref Project.resetSubset) s = .ok () s') :
    s'.Unpointed ref.index := by
  induction refs generalizing s with
  | nil => exact absurd href List.not_mem_nil
  | cons first rest ih =>
    rw [each] at h
    obtain ⟨_, s₁, hfirst, hrest⟩ := bind_eq_ok h
    rcases List.mem_cons.1 href with rfl | href
    · cases hfirst
      exact (keeps_unpointed_each _ rest).ok (s.unpointed_reset _) hrest
    · exact ih href hrest

theorem resetSubsets_unpoints {refs : List ProjectRef} (hs : s.Sound)
    (hrefs : ∀ ref ∈ refs, s.Has ref) (h : resetSubsets (host.engine opts) refs s = .ok () s') :
    ∀ ref ∈ refs, ∀ other, ReflTransGen s'.Links ref other → s'.Unpointed other.index := by
  induction refs generalizing s with
  | nil => exact List.forall_mem_nil _
  | cons first rest ih =>
    rw [resetSubsets, each] at h
    obtain ⟨_, s₂, hfirst, hrest⟩ := bind_eq_ok h
    obtain ⟨_, s₀, hreset, hfirst⟩ := bind_eq_ok hfirst
    obtain ⟨libraries, s₁, hall, heach⟩ := bind_eq_ok hfirst
    have hs₀ := (keeps_reset first).ok hs hreset
    have hlater₀ := (Frames.of_keeps fun b => resets_later b first).ok hreset
    obtain ⟨hs₁, hsettled, hmem⟩ := allLibraries_spec hs₀
      (hlater₀.has (hrefs first List.mem_cons_self)) hall
    have hlater₁ := (frames_allLibraries first).ok hall
    have hs₂ := Keeps.ok (.each libraries fun library _ => keeps_reset library) hs₁ heach
    have hlater₂ := (frames_resetEach libraries).ok heach
    have hlater := (hlater₀.trans hlater₁).trans hlater₂
    have hlater₃ := (frames_resetSubsets rest).ok hrest
    intro ref href other hother
    rcases List.mem_cons.1 href with rfl | href
    · -- Nothing new is reached from the first project after its libraries are looked up.
      have hreach := (hsettled.reaches_iff (hlater₂.trans hlater₃)).1 hother
      have hkeeps := ((searches_unpointed host opts other.index).probes.resetSubsets rest).keeps
      refine hkeeps.ok ?_ hrest
      by_cases hsame : other = ref
      · subst hsame
        cases hreset
        have hsearch := (searches_unpointed host opts other.index).probes.allLibraries other
        have hs₁ := hsearch.keeps.ok (s.unpointed_reset _) hall
        exact (keeps_unpointed_each _ libraries).ok hs₁ heach
      · exact unpointed_each libraries ((hmem other).2 ⟨hreach, hsame⟩) heach
    · exact ih hs₂ (fun ref href => hlater.has (hrefs ref (List.mem_cons_of_mem _ href))) hrest
        ref href other hother

/-! ## Pointing -/

def partsOf (ws : Workspace) (found : Found) (i : Nat) : List String :=
  (found.filter fun entry => entry.2.index == i && !isWhole ws entry.1 entry.2).map Prod.fst

theorem mem_partsOf {ws : Workspace} {path : String} :
    path ∈ partsOf ws found i ↔
      ∃ ref : ProjectRef, (path, ref) ∈ found ∧ ref.index = i ∧ isWhole ws path ref = false := by
  rw [partsOf, List.mem_map]
  constructor
  · rintro ⟨⟨_, ref⟩, hentry, rfl⟩
    rw [List.mem_filter, Bool.and_eq_true, beq_iff_eq, Bool.not_eq_true'] at hentry
    exact ⟨ref, hentry.1, hentry.2⟩
  · rintro ⟨ref, hentry, hi, hwhole⟩
    refine ⟨(path, ref), List.mem_filter.2 ⟨hentry, ?_⟩, rfl⟩
    rw [Bool.and_eq_true, beq_iff_eq, Bool.not_eq_true']
    exact ⟨hi, hwhole⟩

def pointing (path : String) (ref : ProjectRef) (s : State σ) : State σ :=
  if isWhole s.files path ref then s
  else (s.changed ref.index (·.addFile path))

theorem pointAt_cons {path : String} {ref : ProjectRef} {rest : Found} {s s' : State σ}
    (h : pointAt ((path, ref) :: rest) s = .ok () s') :
    pointAt rest (pointing path ref s) = .ok () s' := by
  obtain ⟨_, s₁, hfirst, hrest⟩ := bind_eq_ok h
  obtain ⟨_, s₂, hfollow, hpoint⟩ := bind_eq_ok hfirst
  have hsame : s₂ = s := (keeps_followFolder path ref).ok (I := (· = s)) rfl hfollow
  have hpointing : s₁ = pointing path ref s := by
    rw [hsame, get_bind] at hpoint
    rw [pointing]
    split at hpoint
    · cases hpoint
      rw [if_pos ‹_›]
    · cases hpoint
      rw [if_neg ‹_›]
  rwa [hpointing] at hrest

theorem pointAt_eq {found : Found} {s s' : State σ} (h : pointAt found s = .ok () s') :
    ∃ projects : Array Project, s' = { s with projects } ∧
      ∀ i, projects[i]? = s.projects[i]?.map fun project =>
        (partsOf s.files found i).foldl Project.addFile project := by
  induction found generalizing s with
  | nil =>
    obtain rfl : s = s' := by cases h; rfl
    exact ⟨s.projects, rfl, fun i => Option.map_id'.symm⟩
  | cons entry rest ih =>
    obtain ⟨path, ref⟩ := entry
    replace h := pointAt_cons h
    rw [pointing] at h
    cases hwhole : isWhole s.files path ref with
    | true =>
      rw [hwhole, if_pos rfl] at h
      obtain ⟨projects, hrest, hprojects⟩ := ih h
      refine ⟨projects, hrest, fun i => ?_⟩
      rw [hprojects i, partsOf, partsOf, List.filter_cons_of_neg (by simp [hwhole])]
    | false =>
      rw [hwhole, if_neg Bool.false_ne_true] at h
      obtain ⟨projects, hrest, hprojects⟩ := ih h
      refine ⟨projects, hrest, fun i => ?_⟩
      replace hprojects : projects[i]? =
          ((s.projects.modify ref.index (·.addFile path))[i]?).map fun project =>
            (partsOf s.files rest i).foldl Project.addFile project := hprojects i
      rw [hprojects, Array.getElem?_modify, partsOf, partsOf]
      by_cases hi : ref.index = i
      · rw [if_pos hi, List.filter_cons_of_pos (by simp [hwhole, hi]), Option.map_map]
        rfl
      · rw [if_neg hi, List.filter_cons_of_neg (by simp [hi])]

end Discovery

structure Project.PointedAt (project : Project) (paths : List String) : Prop where
  whole : project.subset = none ↔ paths = []
  mem : ∀ path, path ∈ project.subset.getD [] ↔ path ∈ paths

theorem Project.mem_addFile (project : Project) (file path : String) :
    path ∈ (project.addFile file).subset.getD [] ↔ path ∈ project.subset.getD [] ∨ path = file := by
  rw [Project.addFile]
  dsimp only
  by_cases hknown : (project.subset.getD []).contains file = true
  · rw [if_pos hknown, Option.getD_some]
    refine ⟨.inl, fun h => h.elim id ?_⟩
    rintro rfl
    exact List.contains_iff_mem.1 hknown
  · rw [if_neg hknown, Option.getD_some, List.mem_append, List.mem_singleton]

theorem Project.pointedAt_foldl {project : Project} (h : project.subset = none)
    (paths : List String) : (paths.foldl Project.addFile project).PointedAt paths := by
  have hmem : ∀ project : Project, ∀ path,
      path ∈ (paths.foldl Project.addFile project).subset.getD [] ↔
        path ∈ project.subset.getD [] ∨ path ∈ paths := by
    induction paths with
    | nil => simp
    | cons first rest ih =>
      intro project path
      rw [List.foldl_cons, ih, Project.mem_addFile, List.mem_cons, or_assoc]
  refine ⟨⟨fun hnone => ?_, ?_⟩, fun path => ?_⟩
  · refine List.eq_nil_iff_forall_not_mem.2 fun path hpath => ?_
    have hpointed := (hmem project path).2 (.inr hpath)
    rw [hnone] at hpointed
    exact List.not_mem_nil hpointed
  · rintro rfl
    exact h
  · rw [hmem, h]
    exact or_iff_right List.not_mem_nil

theorem Project.nodup_foldl (paths : List String) {project : Project}
    (h : (project.subset.getD []).Nodup) :
    ((paths.foldl Project.addFile project).subset.getD []).Nodup := by
  induction paths generalizing project with
  | nil => exact h
  | cons path rest ih =>
    refine ih ?_
    rw [Project.addFile, Option.getD_some]
    by_cases hknown : (project.subset.getD []).contains path = true
    · rwa [if_pos hknown]
    · rw [if_neg hknown]
      rw [← List.concat_eq_append]
      exact h.concat fun hmem => hknown (List.contains_iff_mem.2 hmem)

theorem Project.resetSubset_of_none {project : Project} (h : project.subset = none) :
    project.resetSubset = project := by
  rw [Project.resetSubset, ← h]

theorem Project.resetSubset_foldl (paths : List String) (project : Project) :
    (paths.foldl Project.addFile project).resetSubset = project.resetSubset := by
  induction paths generalizing project with
  | nil => rfl
  | cons path rest ih => exact ih (project.addFile path)

namespace Discovery

open Run Engine

variable {host : Host σ} {opts : Options} {s s' : State σ} {found : Found}
  {stopped : State σ → Bool}

theorem has_of_reaches (hs : s.Sound) {ref other : ProjectRef} (href : s.Has ref)
    (h : ReflTransGen s.Links ref other) : s.Has other := by
  induction h with
  | refl => exact href
  | tail _ hlink ih =>
    obtain ⟨refs, hrefs, hmem⟩ := hlink
    exact hs.libraries _ _ refs (State.getElem?_of_has ih) hrefs _ hmem

theorem resolve_points {paths : List String} {roots : List ProjectRef} {s₁ : State σ} (hs : s.Sound)
    (hfound : Gathers (host.engine opts) stopped paths s found s₁)
    (h : resolve (host.engine opts) stopped paths s = .ok roots s') :
    ∀ ref ∈ found.map Prod.snd, ∀ other, ReflTransGen s'.Links ref other →
      s'.Has other ∧ s'.project other =
        (partsOf s'.files found other.index).foldl Project.addFile
          (s'.project other).resetSubset := by
  obtain ⟨s₂, s₃, _, _, hs₁, hrefs, hreset, hs₂, hsettled, hpoint, rfl, -, -⟩ :=
    resolve_stages hs hfound h
  have hunpointed := resetSubsets_unpoints hs₁ hrefs hreset
  have hlater₂ := (frames_resetSubsets _).ok hreset
  have hlater₃ := (frames_pointAt found).ok hpoint
  obtain ⟨projects, rfl, hprojects⟩ := pointAt_eq hpoint
  intro ref href other hother
  have href := mem_distinct.2 href
  have hreach := ((hsettled ref href).reaches_iff hlater₃).1 hother
  have hhas := has_of_reaches hs₂ (hlater₂.has (hrefs ref href)) hreach
  have hold := State.getElem?_of_has hhas
  refine ⟨hlater₃.has hhas, ?_⟩
  have hproject : projects[other.index]? = some
      ((partsOf s₂.files found other.index).foldl Project.addFile (s₂.project other)) := by
    rw [hprojects, hold]
    rfl
  have hnone := hunpointed ref href other hreach _ hold
  show projects.getD other.index _ = (partsOf s₂.files found other.index).foldl Project.addFile
    (projects.getD other.index _).resetSubset
  rw [Array.getD_eq_getD_getElem?, hproject, Option.getD_some, Project.resetSubset_foldl,
    Project.resetSubset_of_none hnone]

/-- A found project is checked as a whole exactly if every path that led to it names the whole of
it. -/
theorem resolve_whole_iff (host : Host σ) (opts : Options) {paths : List String}
    {roots : List ProjectRef} {s₁ : State σ} (hs : s.Sound)
    (hfound : addPaths (host.engine opts) stopped (paths.map (Path.resolve s.files.cwd))
      (paths.map (Path.resolve s.files.cwd)) [] s = .ok (some found) s₁)
    (h : resolve (host.engine opts) stopped paths s = .ok roots s') {ref : ProjectRef}
    (href : ref ∈ found.map Prod.snd) :
    (s'.project ref).subset = none ↔
      ∀ entry ∈ found, entry.2.index = ref.index → isWhole s'.files entry.1 entry.2 = true := by
  obtain ⟨-, hproject⟩ := resolve_points hs hfound h ref href ref .refl
  have hpointed : (s'.project ref).PointedAt (partsOf s'.files found ref.index) := by
    rw [hproject]
    exact Project.pointedAt_foldl rfl _
  rw [hpointed.whole, List.eq_nil_iff_forall_not_mem]
  constructor
  · intro hnone entry hentry hindex
    rw [← Bool.not_eq_false]
    exact fun hpart => hnone entry.1 (mem_partsOf.2 ⟨entry.2, hentry, hindex, hpart⟩)
  · intro hall path hpath
    obtain ⟨other, hentry, hindex, hpart⟩ := mem_partsOf.1 hpath
    rw [hall _ hentry hindex] at hpart
    cases hpart

def aliased : State Scripted.Memory :=
  fresh {} ⟨.folder "" true [.folder "w" true [
    .folder "a" true [.file "AndroidManifest.xml" (.bytes []),
      .folder "src" true [.file "F.java" (.bytes [])]],
    .link "l" "a"]], "/w"⟩

def aliasedPaths (paths : List String) : List String :=
  paths.map (Path.resolve aliased.files.cwd)

/-- Two names of a project, each for the whole of it. -/
theorem resolve_whole_aliased :
    ∃ found roots s₁ s',
      addPaths (idleHost.engine ⟨true⟩) State.canceled (aliasedPaths ["a", "l"])
        (aliasedPaths ["a", "l"]) [] aliased = .ok (some found) s₁ ∧
      resolve (idleHost.engine ⟨true⟩) State.canceled ["a", "l"] aliased = .ok roots s' ∧
      found = [("/w/a", ⟨0, "/w/a"⟩), ("/w/l", ⟨0, "/w/a"⟩)] ∧
      ((s'.project ⟨0, "/w/a"⟩).subset = none ↔ ∀ entry ∈ found, entry.2.index = 0 →
        isWhole s'.files entry.1 entry.2 = true) := by
  have hfound : result? (addPaths (idleHost.engine ⟨true⟩) State.canceled
      (aliasedPaths ["a", "l"]) (aliasedPaths ["a", "l"]) [] aliased) =
        some (some [("/w/a", ⟨0, "/w/a"⟩), ("/w/l", ⟨0, "/w/a"⟩)]) := by decide +kernel
  have hroots : result? (resolve (idleHost.engine ⟨true⟩) State.canceled ["a", "l"] aliased) =
      some [⟨0, "/w/a"⟩] := by decide +kernel
  exact ⟨_, _, _, _, eq_ok_of_result? hfound, eq_ok_of_result? hroots, rfl,
    resolve_whole_iff idleHost ⟨true⟩ (sound_fresh _ _ _) (eq_ok_of_result? hfound)
      (eq_ok_of_result? hroots) List.mem_cons_self⟩

/-- A project that is given as a whole and by one of its files is checked for the file only. -/
theorem resolve_loses_whole :
    ∃ roots s', resolve (idleHost.engine ⟨true⟩) State.canceled ["a", "a/src/F.java"] aliased =
        .ok roots s' ∧
      roots = [⟨0, "/w/a"⟩] ∧ s'.canceled = false ∧
      aliased.files.isFolder "/w/a" = true ∧ aliased.files.canonical "/w/a" = "/w/a" ∧
      (s'.project ⟨0, "/w/a"⟩).subset = some ["/w/a/src/F.java"] := by
  have hroots : result? (resolve (idleHost.engine ⟨true⟩) State.canceled ["a", "a/src/F.java"]
      aliased) = some [⟨0, "/w/a"⟩] := by decide +kernel
  exact ⟨_, _, eq_ok_of_result? hroots, rfl, by decide +kernel, by decide +kernel,
    by decide +kernel, by decide +kernel⟩

end Discovery
end ProjectLint
