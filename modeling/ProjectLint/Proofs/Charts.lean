/-
Projects as their directories have them. While no code touches the files, every project that is made
for a directory is what the directory says: the same folders, the same manifest, and libraries in
the directories that its properties reference, in that order and as often as they do. Only the files
that a run was pointed at are not the directory's own.
-/
import ProjectLint.Proofs.Stock.Search
import ProjectLint.Proofs.Subsets

namespace ProjectLint

variable {project : Project} {change : Project → Project}

/-! ## What a directory decides -/

def Project.chart (project : Project) : Project :=
  project.resetSubset.outline

theorem Project.chart_congr (f : Project → α) (hf : ∀ project, f project.chart = f project)
    {other : Project} (h : project.chart = other.chart) : f project = f other :=
  (hf project).symm.trans ((congrArg f h).trans (hf other))

theorem FolderOverrides.apply_apply (overrides : FolderOverrides) (project : Project) :
    overrides.apply (overrides.apply project) = overrides.apply project := by
  have hfolders : ∀ (given : Option (List String)) (found : List String),
      given.getD (given.getD found) = given.getD found := by
    intro given found
    cases given <;> rfl
  simp only [FolderOverrides.apply, hfolders]

/-! ## Charts -/

/-- What is remembered of projects agrees with the files. -/
structure Charted (host : Host σ) (ws : Workspace) (s : State σ) : Prop where
  files : s.files = ws
  cached : ∀ key ref, (key, ref) ∈ s.cache → ref.dir = key ∧ s.Made ref
  shaped : ∀ (i : Nat) project, s.projects[i]? = some project →
    project.chart = (host.shape ws project.dir).chart
  linked : ∀ (i : Nat) project refs, s.projects[i]? = some project →
    project.libraries = some refs →
    refs.map ProjectRef.dir = ws.libraryDirs project.dir ∧ ∀ ref ∈ refs, s.Made ref

theorem charted_fresh (host : Host σ) (memory : σ) (files : Workspace) (registry : Registry) :
    Charted host files (fresh memory files registry) := by
  have hnone : ∀ i : Nat, (fresh memory files registry).projects[i]? = none := fun _ => rfl
  refine ⟨rfl, fun _ _ h => absurd h List.not_mem_nil, fun i project h => ?_,
    fun i project refs h => ?_⟩
  all_goals
    rw [hnone i] at h
    cases h

namespace Charted

variable {host : Host σ} {ws : Workspace} {s t : State σ} {ref : ProjectRef}

variable (h : Charted host ws s)

include h

theorem canonical {i : Nat}
    (hproject : s.projects[i]? = some project) : ws.canonical project.dir = project.dir :=
  (congrArg Project.dir (h.shaped i project hproject)).symm

theorem libraryDirs {i : Nat} (hproject : s.projects[i]? = some project) :
    (project.libraryDirs.filter ws.isFolder).map ws.canonical = ws.libraryDirs project.dir := by
  have hdirs : project.libraryDirs = Project.libraryDirsOf (ws.canonical project.dir)
      (Project.propertiesOf ws project.dir) :=
    congrArg Project.libraryDirs (h.shaped i project hproject)
  rw [hdirs, h.canonical hproject]
  rfl

theorem sound : s.Sound := by
  refine ⟨fun entry hentry => (h.cached entry.1 entry.2 hentry).2.has, ?_⟩
  intro i project refs hproject hrefs ref href
  exact ((h.linked i project refs hproject hrefs).2 ref href).has

theorem spared (ht : s.Spared t) : Charted host ws t := by
  have hback : ∀ {i : Nat} {project : Project}, t.projects[i]? = some project →
      ∃ old, s.projects[i]? = some old ∧ old.core = project.core ∧ old.dir = project.dir := by
    intro i project hproject
    obtain ⟨old, hold, hcore⟩ := ht.projects.symm.getElem? hproject
    exact ⟨old, hold, hcore, Project.core_congr Project.dir (fun _ => rfl) hcore⟩
  refine ⟨ht.files.trans h.files, fun key ref hcached => ?_, fun i project hproject => ?_,
    fun i project refs hproject hrefs => ?_⟩
  · obtain ⟨hkey, hmade⟩ := h.cached key ref (ht.cache ▸ hcached)
    exact ⟨hkey, ht.projects.made hmade⟩
  · obtain ⟨old, hold, hcore, hdir⟩ := hback hproject
    rw [← hdir, ← Project.core_congr Project.chart (fun _ => rfl) hcore]
    exact h.shaped i old hold
  · obtain ⟨old, hold, hcore, hdir⟩ := hback hproject
    have hlibraries := Project.core_congr Project.libraries (fun _ => rfl) hcore
    obtain ⟨hdirs, hmade⟩ := h.linked i old refs hold (hlibraries.trans hrefs)
    exact ⟨hdir ▸ hdirs, fun ref href => ht.projects.made (hmade ref href)⟩

theorem changed (index : Nat) (hchange : ∀ project, s.projects[index]? = some project →
      (change project).chart = project.chart ∧ ∀ refs, (change project).libraries = some refs →
          refs.map ProjectRef.dir = ws.libraryDirs project.dir ∧ ∀ ref ∈ refs, s.Made ref) :
    Charted host ws (s.changed index change) := by
  have hmade : ∀ {ref}, s.Made ref → State.Made (s.changed index change) ref :=
    fun hs => hs.changed index fun project hproject =>
      Project.chart_congr Project.dir (fun _ => rfl) (hchange project hproject).1
  refine ⟨h.files, fun key ref hcached => ?_, fun i project hproject => ?_,
    fun i project refs hproject hrefs => ?_⟩
  · obtain ⟨hkey, hs⟩ := h.cached key ref hcached
    exact ⟨hkey, hmade hs⟩
  · obtain ⟨old, hold, ⟨rfl, rfl⟩ | rfl⟩ := getElem?_of_modify hproject
    · have hsame := (hchange old hold).1
      have hdir : (change old).dir = old.dir := Project.chart_congr Project.dir (fun _ => rfl) hsame
      rw [hsame, hdir]
      exact h.shaped _ old hold
    · exact h.shaped i project hold
  · obtain ⟨old, hold, ⟨rfl, rfl⟩ | rfl⟩ := getElem?_of_modify hproject
    · obtain ⟨hsame, hlinked⟩ := hchange old hold
      have hdir : (change old).dir = old.dir := Project.chart_congr Project.dir (fun _ => rfl) hsame
      obtain ⟨hdirs, hall⟩ := hlinked refs hrefs
      exact ⟨hdir ▸ hdirs, fun ref href => hmade (hall ref href)⟩
    · obtain ⟨hdirs, hall⟩ := h.linked i project refs hold hrefs
      exact ⟨hdirs, fun ref href => hmade (hall ref href)⟩

theorem altered (index : Nat) (hchange : ∀ project, (change project).chart = project.chart ∧
      (change project).libraries = project.libraries) :
    Charted host ws (s.changed index change) := by
  refine h.changed index fun project hproject => ⟨(hchange project).1, fun refs hrefs => ?_⟩
  exact h.linked index project refs hproject ((hchange project).2 ▸ hrefs)

theorem added (hshape : project.chart = (host.shape ws project.dir).chart)
    (hlibraries : project.libraries = none) :
    Charted host ws (s.extended project) := by
  refine ⟨h.files, fun key ref hcached => ?_, fun i other hother => ?_,
    fun i other refs hother hrefs => ?_⟩
  · obtain ⟨hkey, hmade⟩ := h.cached key ref hcached
    exact ⟨hkey, hmade.added project⟩
  · rcases getElem?_of_push hother with rfl | hold
    · exact hshape
    · exact h.shaped i other hold
  · rcases getElem?_of_push hother with rfl | hold
    · cases hlibraries.symm.trans hrefs
    · obtain ⟨hdirs, hall⟩ := h.linked i other refs hold hrefs
      exact ⟨hdirs, fun ref href => (hall ref href).added project⟩

theorem kept {cache : List (String × ProjectRef)}
    (hcache : ∀ key ref, (key, ref) ∈ cache → ref.dir = key ∧ s.Made ref) :
    Charted host ws { s with cache } :=
  { h with cached := hcache }

theorem overridden (href : s.Made ref) :
    Charted host ws (s.changed ref.index (host.overrides ref.dir).apply) := by
  obtain ⟨known, hknown, hdir⟩ := href
  refine h.changed ref.index fun project hproject => ⟨?_, fun refs =>
    h.linked _ project refs hproject⟩
  rw [hknown] at hproject
  cases hproject
  have hshape := h.shaped _ known hknown
  rw [hdir] at hshape
  calc ((host.overrides ref.dir).apply known).chart
      = (host.overrides ref.dir).apply known.chart := rfl
    _ = (host.overrides ref.dir).apply (host.shape ws ref.dir).chart := by rw [hshape]
    _ = ((host.overrides ref.dir).apply (host.shape ws ref.dir)).chart := rfl
    _ = (host.shape ws ref.dir).chart := by rw [Host.shape, FolderOverrides.apply_apply]
    _ = known.chart := hshape.symm

end Charted

def State.Kept (s : State σ) : Prop :=
  ∀ (i : Nat) project, s.projects[i]? = some project →
    s.cache.lookup project.dir = some ⟨i, project.dir⟩

/-- The projects of a client that keeps them: each is the one of its directory, and the only one. -/
structure Stocked (host : Host σ) (ws : Workspace) (s : State σ) : Prop
    extends Charted host ws s where
  kept : s.Kept

theorem stocked_fresh (host : Host σ) (memory : σ) (files : Workspace) (registry : Registry) :
    Stocked host files (fresh memory files registry) := by
  refine ⟨charted_fresh host memory files registry, fun i project h => ?_⟩
  cases (show (fresh memory files registry).projects[i]? = none from rfl).symm.trans h

namespace State.Kept

variable {s t : State σ}

theorem lookup (h : s.Kept) {ref : ProjectRef} (href : s.Made ref) :
    s.cache.lookup ref.dir = some ref := by
  obtain ⟨project, hproject, hdir⟩ := href
  have hkept := h _ project hproject
  rwa [hdir] at hkept

theorem spared (h : s.Kept) (ht : s.Spared t) : t.Kept := by
  intro i project hproject
  obtain ⟨old, hold, hcore⟩ := ht.projects.symm.getElem? hproject
  rw [ht.cache, ← Project.core_congr Project.dir (fun _ => rfl) hcore]
  exact h i old hold

theorem changed (h : s.Kept) (index : Nat)
    (hchange : ∀ project, (change project).dir = project.dir) :
    Kept (s.changed index change) := by
  intro i project hproject
  obtain ⟨old, hold, ⟨-, rfl⟩ | rfl⟩ := getElem?_of_modify hproject
  · rw [hchange]
    exact h i old hold
  · exact h i project hold

theorem added (h : s.Kept) (hnone : s.cache.lookup project.dir = none) : Kept { s with
      projects := s.projects.push project
      cache := s.cache ++ [(project.dir, ⟨s.projects.size, project.dir⟩)] } := by
  intro i other hother
  replace hother : (s.projects.push project)[i]? = some other := hother
  show (s.cache ++ [_]).lookup other.dir = _
  rw [Array.getElem?_push] at hother
  rw [List.lookup_append]
  by_cases hi : i = s.projects.size
  · rw [if_pos hi] at hother
    cases hother
    rw [hnone, List.lookup_cons_self, hi]
    rfl
  · rw [if_neg hi] at hother
    rw [h i other hother]
    rfl

end State.Kept

theorem Stocked.spared {host : Host σ} {ws : Workspace} {s t : State σ} (h : Stocked host ws s)
    (ht : s.Spared t) : Stocked host ws t :=
  ⟨h.toCharted.spared ht, h.kept.spared ht⟩

namespace Engine

open Run

variable {host : Host σ} {opts : Options} {ws : Workspace} {E : Fault → Prop} {s s' : State σ}

/-! ## Looking projects up -/

theorem charted_linked {t : State σ} {ref : ProjectRef} {refs : List ProjectRef}
    (hs : Charted host ws s) (ht : Charted host ws t)
    (hdirs : List.Forall₂ (fun library ref => ref.dir = ws.canonical library)
      ((s.project ref).libraryDirs.filter ws.isFolder) refs)
    (hmade : ∀ other ∈ refs, t.Made other)
    (hrun : (host.engine opts).lookUpLibraries (s.project ref).dir (s.project ref).libraryDirs s =
      .ok refs t) :
    Charted host ws (t.changed ref.index ({ · with libraries := some refs })) := by
  replace hdirs : refs.map ProjectRef.dir =
      ((s.project ref).libraryDirs.filter ws.isFolder).map ws.canonical := by
    rw [← List.forall₂_eq_eq_eq, List.forall₂_map_left_iff, List.forall₂_map_right_iff]
    exact hdirs.flip
  refine ht.changed _ fun project hproject => ⟨rfl, fun found hfound => ?_⟩
  cases hfound
  refine ⟨?_, hmade⟩
  cases hold : s.projects[ref.index]? with
  | none =>
    -- A project that was not made references nothing, so nothing was made for it.
    have hempty : (s.project ref).libraryDirs = [] := by
      rw [State.project, Array.getD_eq_getD_getElem?, hold]
      rfl
    rw [hempty] at hrun
    cases hrun
    cases hold.symm.trans hproject
  | some old =>
    have hsame : s.project ref = old := by
      rw [State.project, Array.getD_eq_getD_getElem?, hold]
      rfl
    have hlater := (frames_of_finds host fun h => ((h.searches opts).lookUpLibraries
      (s.project ref).dir (s.project ref).libraryDirs).keeps).ok hrun
    obtain ⟨kept, hkept, hdir, -⟩ := hlater.projects _ old hold
    cases hkept.symm.trans hproject
    rw [hdirs, hsame, hs.libraryDirs hold, hdir]

section Search

variable {A : State σ → State σ → Prop} (hhost : Careful host opts ws E A)

include hhost

theorem charted_projectAt (hs : Charted host ws s) (dir reference : String)
    (hendless : ws.linksEnd dir = false → E .endless) :
    Ensures E (Charted host ws) (fun ref t => ref.dir = ws.canonical dir ∧ t.Made ref)
      ((host.engine opts).projectAt dir reference s) := by
  refine hhost.projectAt hs.files hendless (fun t ht => hs.spared (hhost.spared ht))
    (fun t ref t' ht hprovided => ?_) reference
  replace hs := hs.spared (hhost.spared ht)
  have hnew : ∀ reference, Charted host ws
      (t.extended ((host.shape ws (ws.canonical dir)).shownFrom reference)) := by
    intro reference
    refine hs.added ?_ rfl
    rw [host.shape_dir]
    rfl
  have hmade : ∀ reference, State.Made
      (t.extended ((host.shape ws (ws.canonical dir)).shownFrom reference))
      ⟨t.projects.size, ws.canonical dir⟩ := by
    intro reference
    have hlast := t.made_added ((host.shape ws (ws.canonical dir)).shownFrom reference)
    rwa [host.shape_dir] at hlast
  cases hprovided with
  | known hkey =>
    obtain ⟨hdir, hmade⟩ := hs.cached _ ref (mem_of_lookup hkey)
    exact ⟨hs.overridden hmade, hdir, hmade.changed _ fun _ _ => rfl⟩
  | lent reference _ => exact ⟨hnew reference, rfl, hmade reference⟩
  | kept reference _ =>
    refine ⟨(hnew reference).kept fun key ref hentry => ?_, rfl, hmade reference⟩
    rcases List.mem_append.1 hentry with hold | hlast
    · obtain ⟨hkey, hold⟩ := hs.cached key ref hold
      exact ⟨hkey, hold.added _⟩
    · cases List.mem_singleton.1 hlast
      exact ⟨rfl, hmade reference⟩

theorem seeks_charted : Seeks (host.engine opts) (Charted host ws) where
  projectAt := fun dir reference _ hs =>
    (charted_projectAt hhost.lenient hs dir reference fun _ => trivial).keeps
  libraries := fun ref _ hs => hhost.lenient.libraries Charted.files
    (fun ht hu => ht.spared (hhost.spared hu))
    (fun library _ ht => charted_projectAt hhost.lenient ht library library fun _ => trivial) ref hs
    fun _ _ => charted_linked hs
  pointed := fun index _ _ hchange hs => hs.altered index fun p =>
    ⟨congrArg Project.outline (hchange p),
      Project.eq_of_resetSubset Project.libraries (fun _ => rfl) (hchange p)⟩

variable (hkeeps : host.keepsProjects = true)

include hkeeps

theorem stocked_projectAt (hs : Stocked host ws s) (dir reference : String)
    (hendless : ws.linksEnd dir = false → E .endless) :
    Ensures E (Stocked host ws) (fun ref t => ref.dir = ws.canonical dir ∧ t.Made ref)
      ((host.engine opts).projectAt dir reference s) := by
  have hkept : Ensures E State.Kept (fun _ _ => True)
      ((host.engine opts).projectAt dir reference s) := by
    refine hhost.projectAt hs.files hendless (fun t ht => hs.kept.spared (hhost.spared ht))
      (fun t ref t' ht hprovided => ⟨?_, trivial⟩) reference
    have ht := hs.kept.spared (hhost.spared ht)
    cases hprovided with
    | known hkey => exact ht.changed _ fun _ => rfl
    | lent _ hlent => cases hlent.symm.trans hkeeps
    | kept reference hkey =>
      rw [← host.shape_dir ws dir reference] at hkey
      have hnew := ht.added hkey
      rwa [host.shape_dir] at hnew
  exact ((charted_projectAt hhost hs.toCharted dir reference hendless).and hkept).mono
    (fun _ hfault => hfault.1) (fun _ ht => ⟨ht.1, ht.2⟩) fun _ _ href => href.1

theorem seeks_stocked : Seeks (host.engine opts) (Stocked host ws) where
  projectAt := fun dir reference _ hs =>
    (stocked_projectAt hhost.lenient hkeeps hs dir reference fun _ => trivial).keeps
  libraries := fun ref _ hs => hhost.lenient.libraries (fun ht => ht.files)
    (fun ht hu => ht.spared (hhost.spared hu))
    (fun library _ ht => stocked_projectAt hhost.lenient hkeeps ht library library fun _ => trivial)
    ref hs
    fun _ _ ht hdirs hmade hrun => ⟨charted_linked hs.toCharted ht.toCharted hdirs hmade hrun,
      ht.kept.changed _ fun _ => rfl⟩
  pointed := fun index change _ hchange hs =>
    ⟨(seeks_charted hhost).pointed index change hchange hs.toCharted, hs.kept.changed index fun p =>
      Project.eq_of_resetSubset Project.dir (fun _ => rfl) (hchange p)⟩

end Search
end Engine

/-! ## The projects of given paths -/

namespace Discovery

open Run Engine

variable {host : Host σ} {opts : Options} {ws : Workspace} {E : Fault → Prop} {s s' : State σ}
  {all : List String} {found : Found}

def IsPart (ws : Workspace) (all : List String) (path : String) : Prop :=
  path ∈ all ∧ ¬ (ws.isFolder path = true ∧ Project.isProjectDir ws path = true)

theorem isPart_or_folder (hproper : ws.Proper)
    (hall : ∀ path ∈ all, ∃ names, Path.Spells names path) {path dir : String}
    (h : (path, dir) ∈ all.flatMap (sites ws)) :
    IsPart ws all path ∨ ws.isFolder path = true ∧ dir = path := by
  obtain ⟨given, hgiven, hsite⟩ := List.mem_flatMap.1 h
  rw [sites] at hsite
  by_cases hfolder : ws.isFolder given = true
  · rw [if_pos hfolder] at hsite
    by_cases hproject : Project.isProjectDir ws given = true
    · rw [if_pos hproject] at hsite
      cases List.mem_singleton.1 hsite
      exact .inr ⟨hfolder, rfl⟩
    · rw [if_neg hproject] at hsite
      cases hnear : projectAmong? ws ((ancestors given).take 2) with
      | some above =>
        rw [hnear] at hsite
        cases List.mem_singleton.1 hsite
        exact .inl ⟨hgiven, fun hboth => hproject hboth.2⟩
      | none =>
        rw [hnear] at hsite
        obtain ⟨dir, hbelow, heq⟩ := List.mem_map.1 hsite
        cases heq
        exact .inr ⟨isFolder_of_mem_below hproper (hall given hgiven) hfolder hbelow, rfl⟩
  · rw [if_neg hfolder] at hsite
    cases hnear : projectAmong? ws (ancestors given) with
    | some above =>
      rw [hnear] at hsite
      cases List.mem_singleton.1 hsite
      exact .inl ⟨hgiven, fun hboth => hfolder hboth.1⟩
    | none =>
      rw [hnear] at hsite
      cases hsite

theorem seeking_charted {A : State σ → State σ → Prop} (hhost : Careful host opts ws E A)
    (hendless : ∀ dir, ws.linksEnd dir = false → E .endless) :
    Seeking host opts ws E (Charted host ws) fun dir ref => ref.dir = ws.canonical dir where
  files := Charted.files
  noted := fun _ _ hs => { hs with }
  projectAt := fun dir reference _ hs => charted_projectAt hhost hs dir reference (hendless dir)

theorem notes_found {A : State σ → State σ → Prop} (hhost : Careful host opts ws (fun _ => True) A)
    {stopped : State σ → Bool} {paths : List String} (hs : Charted host ws s)
    (h : Gathers (host.engine opts) stopped paths s found s') :
    found.Notes (fun dir ref => ref.dir = ws.canonical dir)
      ((paths.map (Path.resolve ws.cwd)).flatMap (sites ws)) s' := by
  have hadd := (seeking_charted hhost fun _ _ => trivial).addPaths stopped (.inl trivial)
    (paths.map (Path.resolve s.files.cwd)) (spelled_resolve s.files.cwd paths) hs .nil
  rw [h, hs.files] at hadd
  exact hadd.2.2 found rfl

theorem finds_made (host : Host σ) (ref : ProjectRef) :
    Finds host (fun s => s.Made ref) (fun _ => True) fun _ => True where
  configured := fun _ _ _ _ _ _ hs => hs.changed _ fun _ _ => rfl
  changed := fun _ _ _ hchange hs => hs.changed _ fun project _ => (hchange project).1
  added := fun project _ _ hs => hs.added project
  linked := fun _ _ _ _ _ _ hs => hs.changed _ fun _ _ => rfl

section Resolve

variable {A : State σ → State σ → Prop} (hhost : Careful host opts ws (fun _ => True) A)
  {stopped : State σ → Bool} {paths : List String} {roots : List ProjectRef}
  (hs : Charted host ws s) (h : resolve (host.engine opts) stopped paths s = .ok roots s')

include hhost hs h

theorem made_found {found : Found} {s₁ : State σ}
    (hfound : Gathers (host.engine opts) stopped paths s found s₁) :
    ∀ ref ∈ found.map Prod.snd, s'.Made ref := by
  intro ref href
  obtain ⟨entry, hentry, rfl⟩ := List.mem_map.1 href
  rw [resolve_of_found hfound] at h
  exact (((finds_made host entry.2).seeks opts).resolves.settle paths found).keeps.ok
    ((notes_found hhost hs hfound).refs entry hentry).1 h

theorem charted_resolve : Charted host ws s' ∧ ∀ root ∈ roots, s'.Made root := by
  refine ⟨((seeks_charted hhost).resolve stopped paths).ok hs h, fun root hroot => ?_⟩
  obtain ⟨found, t, hfound⟩ := found_of_mem h hroot
  obtain ⟨_, -, -, -, -, hroots⟩ := resolve_settles hs.sound hfound h
  exact made_found hhost hs h hfound root ((hroots root).1 hroot).1

theorem charted_links {root : ProjectRef} (hroot : root ∈ roots) :
    ∃ refs, (s'.project root).libraries = some refs ∧
      refs.map ProjectRef.dir = ws.libraryDirs root.dir ∧ ∀ ref ∈ refs, s'.Made ref := by
  obtain ⟨hs', hmade⟩ := charted_resolve hhost hs h
  obtain ⟨refs, hrefs⟩ := resolve_knows hs.sound h root hroot
  obtain ⟨hproject, hdir⟩ := (hmade root hroot).project_eq
  have hlinked := hs'.linked _ _ refs hproject hrefs
  rw [hdir] at hlinked
  exact ⟨refs, hrefs, hlinked⟩

theorem charted_points (hproper : ws.Proper) {root other : ProjectRef} (hroot : root ∈ roots)
    (hother : Relation.ReflTransGen s'.Links root other) {given : List String}
    (hgiven : (s'.project other).subset = some given) :
    given.Nodup ∧ ∀ path ∈ given, IsPart ws (paths.map (Path.resolve ws.cwd)) path := by
  obtain ⟨found, t, hfound⟩ := found_of_mem h hroot
  obtain ⟨_, -, -, -, -, hroots⟩ := resolve_settles hs.sound hfound h
  obtain ⟨-, hproject⟩ := resolve_points hs.sound hfound h root
    ((hroots root).1 hroot).1 other hother
  have hfiles := (charted_resolve hhost hs h).1.files
  have hnotes := notes_found hhost hs hfound
  have hpointed : ((partsOf ws found other.index).foldl Project.addFile
      (s'.project other).resetSubset).PointedAt (partsOf ws found other.index) :=
    Project.pointedAt_foldl rfl _
  rw [hfiles] at hproject
  rw [← hproject] at hpointed
  constructor
  · have hreset : ((s'.project other).resetSubset.subset.getD []).Nodup := List.nodup_nil
    have hnodup := Project.nodup_foldl (partsOf ws found other.index) hreset
    rwa [← hproject, hgiven] at hnodup
  · intro path hpath
    have hpart := (hpointed.mem path).1 (by rwa [hgiven])
    obtain ⟨ref, hentry, -, hwhole⟩ := mem_partsOf.1 hpart
    obtain ⟨-, dir, hsite, hdir⟩ := hnotes.refs _ hentry
    refine (isPart_or_folder hproper (spelled_resolve ws.cwd paths) hsite).resolve_right ?_
    rintro ⟨hfolder, rfl⟩
    rw [isWhole, hfolder, hdir, Bool.true_and, beq_self_eq_true, Bool.or_true] at hwhole
    cases hwhole

end Resolve
end Discovery
end ProjectLint
