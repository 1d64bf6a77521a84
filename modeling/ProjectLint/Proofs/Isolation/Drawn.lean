/-
Projects that a client keeps. There is one for each canonical directory, and but for where it was
reached from it is what its directory says, whoever asked for it first: the same folders, the same
libraries, the same configuration. So a search draws the same picture whatever other paths it is
given, and a given project directory that no other given one leads to is a root.
-/
import ProjectLint.Proofs.Charts
import ProjectLint.Proofs.Isolation.Aside

namespace ProjectLint

open Relation

/-! ## Kept projects -/

def Workspace.Reaches (ws : Workspace) : String → String → Prop :=
  TransGen fun dir library => library ∈ ws.libraryDirs dir

/-- Projects, and the libraries that are known of them, are as the files have them. -/
structure Drawn (host : Host σ) (s : State σ) : Prop where
  kept : ∀ (i : Nat) project, s.projects[i]? = some project →
    s.cache.lookup project.dir = some ⟨i, project.dir⟩
  cached : ∀ key ref, (key, ref) ∈ s.cache → ref.dir = key ∧ s.Made ref
  shaped : ∀ (i : Nat) project, s.projects[i]? = some project →
    project.outline = (host.shape s.files project.dir).outline
  trusted : s.Trusted host
  linked : ∀ (i : Nat) project refs, s.projects[i]? = some project →
    project.libraries = some refs →
    refs.map ProjectRef.dir = s.files.libraryDirs project.dir ∧
      ∀ ref ∈ refs, s.cache.lookup ref.dir = some ref

theorem drawn_fresh (host : Host σ) (memory : σ) (files : Workspace) (registry : Registry) :
    Drawn host (fresh memory files registry) := by
  have hnone : ∀ i : Nat, (fresh memory files registry).projects[i]? = none := fun _ => rfl
  refine ⟨fun i project h => ?_, fun _ _ h => absurd h List.not_mem_nil, fun i project h => ?_,
    fun i project config h => ?_, fun i project refs h => ?_⟩
  all_goals
    rw [hnone i] at h
    cases h

namespace Drawn

variable {host : Host σ} {p : Privacy σ τ} {s s' : State σ} {ref : ProjectRef}
variable {other : ProjectRef}

theorem charted (h : Drawn host s) : Charted host s.files s where
  files := rfl
  cached := h.cached
  shaped := fun i project hproject =>
    congrArg Project.resetSubset (h.shaped i project hproject)
  linked := fun i project refs hproject hrefs => by
    obtain ⟨hdirs, hkept⟩ := h.linked i project refs hproject hrefs
    exact ⟨hdirs, fun ref href => (h.cached _ ref (mem_of_lookup (hkept ref href))).2⟩

theorem unpointed (h : Drawn host s) (i : Nat) : s.Unpointed i :=
  fun project hproject => congrArg Project.subset (h.shaped i project hproject)

theorem of_stocked (h : Stocked host s.files s) (hunpointed : ∀ i, s.Unpointed i)
    (htrusted : s.Trusted host) : Drawn host s where
  kept := h.kept
  cached := h.cached
  shaped := fun i project hproject => by
    have hshape := h.shaped i project hproject
    rwa [Project.chart, Project.resetSubset_of_none (hunpointed i project hproject)] at hshape
  trusted := htrusted
  linked := fun i project refs hproject hrefs => by
    obtain ⟨hdirs, hmade⟩ := h.linked i project refs hproject hrefs
    exact ⟨hdirs, fun ref href => h.kept.lookup (hmade ref href)⟩

theorem lookup (h : Drawn host s) {key : String} (hkey : s.cache.lookup key = some ref) :
    ref.dir = key ∧ s.Made ref :=
  h.cached key ref (mem_of_lookup hkey)

theorem unique (href : s.cache.lookup ref.dir = some ref)
    (hother : s.cache.lookup other.dir = some other) (hdir : ref.dir = other.dir) :
    ref = other := by
  rw [hdir, hother] at href
  exact (Option.some.inj href).symm

theorem links (h : Drawn host s) (href : s.cache.lookup ref.dir = some ref)
    (hlinks : s.Links ref other) :
    other.dir ∈ s.files.libraryDirs ref.dir ∧ s.cache.lookup other.dir = some other := by
  obtain ⟨refs, hrefs, hmem⟩ := hlinks
  obtain ⟨hproject, hdir⟩ := (h.lookup href).2.project_eq
  obtain ⟨hdirs, hkept⟩ := h.linked _ _ refs hproject hrefs
  rw [← hdir, ← hdirs]
  exact ⟨List.mem_map_of_mem hmem, hkept other hmem⟩

theorem reaches (h : Drawn host s) (href : s.cache.lookup ref.dir = some ref)
    (hreach : ReflTransGen s.Links ref other) :
    s.cache.lookup other.dir = some other ∧ (other = ref ∨ s.files.Reaches ref.dir other.dir) := by
  induction hreach with
  | refl => exact ⟨href, .inl rfl⟩
  | tail _ hlinks ih =>
    obtain ⟨hlibrary, hkept⟩ := h.links ih.1 hlinks
    refine ⟨hkept, .inr ?_⟩
    rcases ih.2 with rfl | hreach
    · exact .single hlibrary
    · exact hreach.tail hlibrary

end Drawn

/-! ## Looking projects up -/

namespace State.Trusted

variable {host : Host σ} {s : State σ}

theorem changed (h : s.Trusted host) (index : Nat) {change : Project → Project}
    (hchange : ∀ project, (change project).dir = project.dir ∧
      (change project).configuration = project.configuration) :
    Trusted host (s.changed index change) := by
  intro i project config hproject hconfig
  obtain ⟨old, hold, ⟨-, rfl⟩ | rfl⟩ := getElem?_of_modify hproject
  · rw [(hchange old).1]
    exact h i old config hold ((hchange old).2 ▸ hconfig)
  · exact h i project config hold hconfig

theorem added (h : s.Trusted host) {project : Project} (hproject : project.configuration = none) :
    Trusted host (s.extended project) := by
  intro i other config hother hconfig
  rcases getElem?_of_push hother with rfl | hold
  · cases hproject.symm.trans hconfig
  · exact h i other config hold hconfig

end State.Trusted

structure Searching (host : Host σ) (p : Privacy σ τ) (s s' : State σ) : Prop extends
    Unseen p s s' where
  stocked : Stocked host s.files s'
  trusted : s'.Trusted host

theorem Searching.aside {host : Host σ} {p : Privacy σ τ} {s t u : State σ}
    (h : Searching host p s t) (hu : Aside host p t u) : Searching host p s u where
  toUnseen := h.toUnseen.trans hu.toUnseen
  stocked := h.stocked.spared ⟨hu.files, hu.cache, hu.projects⟩
  trusted := hu.trusted h.trusted

namespace Engine

open Run

variable {host : Host σ} {p : Privacy σ τ} {s s' : State σ}

theorem Careful.of_isolated (hhost : host.Isolated p) (opts : Options) (ws : Workspace) :
    Careful host opts ws (fun _ => True) (Aside host p) where
  refl := .refl
  trans := .trans
  spared := fun h => ⟨h.files, h.cache, h.projects⟩
  noted := fun _ s => .write s rfl
  asked := fun dir reference s _ => by
    obtain ⟨t, hcall, haside⟩ := (tidy_engine hhost opts).call (.getProject dir reference) rfl s
    rw [hcall]
    exact ⟨(Aside.write s rfl).trans haside, trivial⟩
  told := fun error message s _ => by
    obtain ⟨t, hcall, haside⟩ := (tidy_engine hhost opts).call (.log error message none) rfl s
    rw [hcall]
    exact ⟨(Aside.write s rfl).trans haside, trivial⟩

section Searches

variable (hhost : host.Isolated p) (opts : Options)

include hhost

theorem searching_projectAt {t : State σ} (ht : Searching host p s t) (dir reference : String) :
    Ensures (fun _ => True) (Searching host p s)
      (fun ref u => ref.dir = s.files.canonical dir ∧ u.Made ref)
      ((host.engine opts).projectAt dir reference t) := by
  have hcareful := Careful.of_isolated hhost opts s.files
  have htrusted : Ensures (fun _ => True) (fun u => Unseen p s u ∧ u.Trusted host)
      (fun _ _ => True) ((host.engine opts).projectAt dir reference t) := by
    refine hcareful.projectAt ht.files (fun _ => trivial)
      (fun u hu => ⟨(ht.aside hu).toUnseen, (ht.aside hu).trusted⟩)
        (fun u ref u' hu hprovided => ⟨?_, trivial⟩) reference
    have hu := ht.aside hu
    cases hprovided with
    | known => exact ⟨{ hu.toUnseen with }, hu.trusted.changed _ fun _ => ⟨rfl, rfl⟩⟩
    | kept => exact ⟨{ hu.toUnseen with }, hu.trusted.added rfl⟩
    | lent => exact ⟨{ hu.toUnseen with }, hu.trusted.added rfl⟩
  exact ((stocked_projectAt hcareful hhost.keepsProjects ht.stocked dir reference
    fun _ => trivial).and htrusted).mono (fun _ _ => trivial) (fun _ hu => ⟨hu.2.1, hu.1, hu.2.2⟩)
    fun _ _ href => href.1

theorem seeks_searching : Seeks (host.engine opts) (Searching host p s) where
  noted := fun _ ht => ht.aside (.write _ rfl)
  projectAt := fun dir reference _ ht => (searching_projectAt hhost opts ht dir reference).keeps
  libraries := fun ref _ ht => (Careful.of_isolated hhost opts s.files).libraries
    (fun hu => hu.files) Searching.aside
    (fun library _ hu => searching_projectAt hhost opts hu library library) ref ht
    fun _ _ hu hdirs hmade hrun =>
      { hu.toUnseen with
        stocked := ⟨charted_linked ht.stocked.toCharted hu.stocked.toCharted hdirs hmade hrun,
          hu.stocked.kept.changed _ fun _ => rfl⟩
        trusted := hu.trusted.changed _ fun _ => ⟨rfl, rfl⟩ }
  pointed := fun index change _ hchange ht =>
    { ht.toUnseen with
      stocked := (seeks_stocked (Careful.of_isolated hhost opts s.files)
        hhost.keepsProjects).pointed index change hchange ht.stocked
      trusted := ht.trusted.changed _ fun project =>
        ⟨Project.eq_of_resetSubset Project.dir (fun _ => rfl) (hchange project),
          Project.eq_of_resetSubset Project.configuration (fun _ => rfl) (hchange project)⟩ }

end Searches
end Engine

/-! ## The roots of a search -/

namespace Discovery

open Run Engine

variable {host : Host σ} {p : Privacy σ τ} {s s' : State σ} {all : List String}
variable {paths : List String}

/-- Each path is the folder of a project. -/
def AllProjects (ws : Workspace) (paths : List String) : Prop :=
  ∀ path ∈ paths, ws.isFolder path = true ∧ Project.isProjectDir ws path = true

instance (ws : Workspace) (paths : List String) : Decidable (AllProjects ws paths) :=
  inferInstanceAs (Decidable (∀ path ∈ paths,
    ws.isFolder path = true ∧ Project.isProjectDir ws path = true))

theorem sites_of_project {ws : Workspace} {path : String} (hfolder : ws.isFolder path = true)
    (hproject : Project.isProjectDir ws path = true) : sites ws path = [(path, path)] := by
  rw [sites, if_pos hfolder, if_pos hproject]

structure Named (host : Host σ) (p : Privacy σ τ) (s : State σ) (paths : List String)
    (found : Found) (s₁ : State σ) : Prop extends Searching host p s s₁ where
  given : ∀ path ∈ paths, ∃ entry ∈ found, entry.1 = path
  refs : ∀ entry ∈ found, entry.1 ∈ paths ∧ entry.2.dir = s.files.canonical entry.1

theorem named_addPaths (hhost : host.Isolated p) (opts : Options) (hs : Searching host p s s)
    (hcanceled : s.canceled = false)
    (hall : AllProjects s.files (paths.map (Path.resolve s.files.cwd))) {result : Option Found}
    (h : addPaths (host.engine opts) State.canceled (paths.map (Path.resolve s.files.cwd))
      (paths.map (Path.resolve s.files.cwd)) [] s = .ok result s') : ∃ found, result = some found ∧
      Named host p s (paths.map (Path.resolve s.files.cwd)) found s' := by
  have hseek : Seeking host opts s.files (fun _ => True) (Searching host p s)
      fun dir ref => ref.dir = s.files.canonical dir :=
    ⟨fun ht => ht.files, fun _ _ ht => ht.aside (.write _ rfl), fun dir reference _ ht =>
      searching_projectAt hhost opts ht dir reference⟩
  have hadd := hseek.addPaths State.canceled (.inl trivial)
    (paths.map (Path.resolve s.files.cwd)) (spelled_resolve s.files.cwd paths) hs .nil
  rw [h] at hadd
  obtain ⟨hs', hnone, hsome⟩ := hadd
  cases result with
  | none => cases (hs'.canceled.trans hcanceled).symm.trans (hnone rfl)
  | some found =>
    obtain ⟨hpaths, hrefs⟩ := hsome found rfl
    have hsites : ∀ paths, AllProjects s.files paths →
        paths.flatMap (sites s.files) = paths.map fun path => (path, path) := by
      intro paths hall
      rw [← List.flatMap_singleton' (paths.map _), List.flatMap_map]
      exact List.flatMap_congr fun path hpath => sites_of_project (hall path hpath).1
        (hall path hpath).2
    rw [List.nil_append, hsites _ hall] at hpaths hrefs
    refine ⟨found, rfl, hs', fun path hpath => ?_, fun entry hentry => ?_⟩
    · have hmem : path ∈ found.map Prod.fst := by
        rw [hpaths, mem_distinct, List.map_map]
        exact List.mem_map.2 ⟨path, hpath, rfl⟩
      exact List.mem_map.1 hmem
    · obtain ⟨-, dir, hsite, hdir⟩ := hrefs entry hentry
      obtain ⟨path, hpath, heq⟩ := List.mem_map.1 hsite
      obtain ⟨rfl, rfl⟩ := Prod.mk.inj heq
      exact ⟨hpath, hdir⟩

theorem unpointed_resolve (hhost : host.Isolated p) (opts : Options) {found : Found}
    {roots : List ProjectRef} {s₁ : State σ}
    (hfound : Gathers (host.engine opts) State.canceled paths s found s₁)
    (hs₁ : Searching host p s s₁)
    (h : resolve (host.engine opts) State.canceled paths s = .ok roots s') {i : Nat}
    (hs : s.Unpointed i) (hwhole : partsOf s.files found i = []) : s'.Unpointed i := by
  have hprobes := (searches_unpointed host opts i).probes
  have hadd := (Probes.addPaths (fun _ => hprobes)
    (halting_never fun hst => congrArg State.canceled hst.1) _ _ []).mirrors.keeps.ok hs hfound
  rw [resolve_of_found hfound] at h
  obtain ⟨_, s₂, hreset, h⟩ := bind_eq_ok h
  obtain ⟨_, s₃, hpoint, h⟩ := bind_eq_ok h
  obtain ⟨libraries, s₄, hlibraries, h⟩ := bind_eq_ok h
  obtain ⟨_, s₅, hdistinct, hend⟩ := bind_eq_ok h
  cases hend
  have hs₂ := (hprobes.resetSubsets _).keeps.ok hadd hreset
  have hs₃ : s₃.Unpointed i := by
    obtain ⟨projects, rfl, hprojects⟩ := pointAt_eq hpoint
    intro project hproject
    replace hproject : projects[i]? = some project := hproject
    have hfiles := ((seeks_searching hhost opts).resolves.resetSubsets _).keeps.ok hs₁ hreset
    rw [hprojects i, hfiles.files, hwhole] at hproject
    exact hs₂ project (by simpa using hproject)
  have hs₄ := (hprobes.librariesOf _).keeps.ok hs₃ hlibraries
  have hs₅ := (hprobes.checkDistinct _).keeps.ok hs₄ hdistinct
  exact hs₅

/-- No project leads to another of them. -/
def Apart (ws : Workspace) (paths : List String) : Prop :=
  ∀ path ∈ paths, ∀ other ∈ paths, ws.canonical other ≠ ws.canonical path →
    ¬ ws.Reaches (ws.canonical other) (ws.canonical path)

structure Rooted (host : Host σ) (p : Privacy σ τ) (paths : List String) (roots : List ProjectRef)
    (s s' : State σ) : Prop extends Unseen p s s' where
  drawn : Drawn host s'
  nodup : roots.Nodup
  kept : ∀ root ∈ roots, s'.cache.lookup root.dir = some root
  knows : ∀ root ∈ roots, ∃ refs, (s'.project root).libraries = some refs
  given : ∀ root ∈ roots, ∃ path ∈ paths, root.dir = s.files.canonical path
  all : Apart s.files paths → ∀ path ∈ paths, ∃ root ∈ roots, root.dir = s.files.canonical path

theorem rooted_resolve (hhost : host.Isolated p) (opts : Options)
    (hs : Drawn host s) (hcanceled : s.canceled = false)
    (hall : AllProjects s.files (paths.map (Path.resolve s.files.cwd))) {roots : List ProjectRef}
    (h : resolve (host.engine opts) State.canceled paths s = .ok roots s') :
    Rooted host p paths roots s s' := by
  have hstart : Searching host p s s := ⟨.refl s, ⟨hs.charted, hs.kept⟩, hs.trusted⟩
  have hend := ((seeks_searching hhost opts).resolve State.canceled paths).ok hstart h
  have hrun := h
  rw [resolve, get_bind] at hrun
  obtain ⟨result, s₁, hfound, -⟩ := bind_eq_ok hrun
  obtain ⟨found, rfl, hnamed⟩ := named_addPaths hhost opts hstart hcanceled hall hfound
  have hwhole : ∀ i, partsOf s.files found i = [] := by
    intro i
    refine List.eq_nil_iff_forall_not_mem.2 fun path hpath => ?_
    obtain ⟨ref, hentry, -, hpart⟩ := mem_partsOf.1 hpath
    obtain ⟨hgiven, hdir⟩ := hnamed.refs _ hentry
    rw [isWhole, (hall _ hgiven).1, hdir, Bool.true_and, beq_self_eq_true, Bool.or_true] at hpart
    cases hpart
  have hdrawn : Drawn host s' := by
    refine .of_stocked (by rw [hend.files]; exact hend.stocked) (fun i => ?_) hend.trusted
    exact unpointed_resolve hhost opts hfound hnamed.toSearching h (hs.unpointed i) (hwhole i)
  have hmade := made_found (Careful.of_isolated hhost opts s.files) hs.charted h hfound
  obtain ⟨hreferences, hroots⟩ := resolve_spec hs.charted.sound hfound h
  have hgiven : ∀ ref ∈ found.map Prod.snd, ∃ path ∈ paths, ref.dir = s.files.canonical path := by
    intro ref href
    obtain ⟨entry, hentry, rfl⟩ := List.mem_map.1 href
    obtain ⟨hpath, hdir⟩ := hnamed.refs entry hentry
    obtain ⟨path, hpath, hfull⟩ := List.mem_map.1 hpath
    exact ⟨path, hpath, by rw [hdir, ← hfull, Workspace.canonical_resolve]⟩
  refine ⟨hend.toUnseen, hdrawn,
    (roots_sublist hfound h).nodup (nodup_distinct _),
    fun root hroot => hend.stocked.kept.lookup (hmade root ((hroots root).1 hroot).1),
    resolve_knows hs.charted.sound h,
    fun root hroot => hgiven root ((hroots root).1 hroot).1, fun hapart path hpath => ?_⟩
  obtain ⟨entry, hentry, hfull⟩ := hnamed.given _ (List.mem_map_of_mem hpath)
  have hmem : entry.2 ∈ found.map Prod.snd := List.mem_map_of_mem hentry
  have hdir : entry.2.dir = s.files.canonical path := by
    rw [(hnamed.refs entry hentry).2, hfull, Workspace.canonical_resolve]
  refine ⟨entry.2, (hroots entry.2).2 ⟨hmem, fun other hother href => ?_⟩, hdir⟩
  obtain ⟨hreach, hne⟩ := (hreferences other hother entry.2).1 href
  obtain ⟨otherPath, hotherPath, hotherDir⟩ := hgiven other hother
  have hlookup := hend.stocked.kept.lookup (hmade other hother)
  obtain ⟨hkept, rfl | hreaches⟩ := hdrawn.reaches hlookup hreach
  · exact hne rfl
  · rw [hend.files, hotherDir, hdir] at hreaches
    refine hapart path hpath otherPath hotherPath (fun heq => hne ?_) hreaches
    exact Drawn.unique hkept hlookup (by rw [hdir, hotherDir, heq])

end Discovery
end ProjectLint
