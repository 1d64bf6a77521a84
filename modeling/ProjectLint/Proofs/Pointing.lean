/-
Runs that are pointed at one file. A scan that a run makes of a file of a project for itself is made
again by a run that is given the path of the file alone, as long as the name of the file says of it
what the stage that scanned it took it for, and the nearest project above it is the one that it was
scanned for. The ending of markup is taken in lower case only, so another spelling of it is lost.
-/
import ProjectLint.Proofs.Arrivals
import ProjectLint.Proofs.Cancellation
import ProjectLint.Proofs.LibraryScans
import ProjectLint.Proofs.Whereabouts

namespace ProjectLint

open Run Engine Journal

/-! ## The project of a file -/

namespace Discovery

variable {host : Host σ} {opts : Options} {ws : Workspace} {s s' : State σ}
  {names : List String} {file dir : String}

theorem ne_of_nearest (hfile : Path.resolve ws.cwd file = file)
    (h : projectAmong? ws (ancestors file) = some dir) : file ≠ dir := by
  have hspelled := Path.Spells.resolve ws.cwd file
  rw [hfile] at hspelled
  exact ((projectAmong?_above hspelled (Path.length_le_parts hspelled)).1 dir h).ne.symm

section File

variable (hhost : host.KeepsTo Action.KeepsFiles)
  (hs : Charted host ws s) (hfile : Path.resolve ws.cwd file = file)
  (hplain : ws.isFolder file = false) (hnearest : projectAmong? ws (ancestors file) = some dir)

include hhost hs hplain hnearest

theorem addPaths_file {result : Option Found}
    (h : addPaths (host.engine opts) State.canceled [file] [file] [] s = .ok result s') :
    (∃ ref, result = some [(file, ref)] ∧ ref.dir = ws.canonical dir) ∨
      result = none ∧ s'.canceled = true := by
  rw [addPaths, get_bind, hs.files, hplain, if_neg Bool.false_ne_true] at h
  obtain ⟨found, s₁, hadd, h⟩ := bind_eq_ok h
  rw [addFile, get_bind, hs.files, hnearest] at hadd
  obtain ⟨ref, s₂, hproject, hadd⟩ := bind_eq_ok hadd
  cases hadd
  have hmade := charted_projectAt (.of_within hhost opts _) hs dir dir fun _ => trivial
  rw [hproject] at hmade
  dsimp only at h
  rw [get_bind] at h
  cases hstopped : s₁.canceled with
  | true =>
    rw [hstopped] at h
    cases h
    exact .inr ⟨rfl, hstopped⟩
  | false =>
    rw [hstopped] at h
    cases h
    exact .inl ⟨ref, rfl, hmade.2.1⟩

include hfile

theorem resolve_file {roots : List ProjectRef}
    (h : resolve (host.engine opts) State.canceled [file] s = .ok roots s')
    (hs' : s'.canceled = false) (hcanonical : ws.canonical dir = dir) :
    ∃ ref, roots = [ref] ∧ ref.dir = dir ∧ (s'.project ref).subset = some [file] := by
  have hall : [file].map (Path.resolve s.files.cwd) = [file] := by
    rw [List.map_singleton, hs.files, hfile]
  have hresolve := h
  rw [resolve, get_bind, hall] at h
  obtain ⟨result, s₁, hadd, hrest⟩ := bind_eq_ok h
  rcases addPaths_file hhost hs hplain hnearest hadd with ⟨ref, rfl, hdir⟩ | ⟨rfl, hstopped⟩
  · rw [← hall] at hadd
    have hmem : ref ∈ [(file, ref)].map Prod.snd := List.mem_cons_self
    obtain ⟨t, -, -, hsound, hknown, hroots⟩ :=
      resolve_settles hs.sound hadd hresolve
    have hroot : ref ∈ roots := by
      refine (hroots ref).2 ⟨hmem, fun other hother own hown hin => ?_⟩
      cases List.mem_singleton.1 hother
      obtain ⟨-, -, hown⟩ := allLibraries_spec hsound (hknown ref hmem).1 hown
      exact ((hown ref).1 hin).2 rfl
    have honly : roots = [ref] := by
      have hsub := roots_sublist hadd hresolve
      exact (List.sublist_singleton.1 hsub).resolve_left (List.ne_nil_of_mem hroot)
    refine ⟨ref, honly, hdir.trans hcanonical, ?_⟩
    obtain ⟨-, hproject⟩ := resolve_points hs.sound hadd hresolve ref hmem ref .refl
    have hfiles := (charted_resolve (.of_within hhost opts _) hs hresolve).1.files
    have hpart : partsOf s'.files [(file, ref)] ref.index = [file] := by
      have hne : file ≠ ref.dir := by
        rw [hdir, hcanonical]
        exact ne_of_nearest hfile hnearest
      rw [partsOf, hfiles]
      simp [isWhole, hplain, hne]
    rw [hproject, hpart]
    rfl
  · cases hrest
    rw [hstopped] at hs'
    cases hs'

end File
end Discovery

namespace ScopeSet

theorem covers_of_kind {a : ScopeSet} {kind : Context.Kind}
    (h : kind.categories.any a.contains = true) :
    ∀ category ∈ kind.categories, a.covers category = true := by
  cases kind with
  | plain => exact List.forall_mem_singleton.2 (covers_of_any h)
  | source => exact covers_of_any_pair rfl rfl h
  | bytecode => exact List.forall_mem_singleton.2 (covers_of_any h)
  | markup folder =>
    cases folder with
    | none => exact List.forall_mem_singleton.2 (covers_of_any h)
    | some => exact covers_of_any_pair rfl rfl h

end ScopeSet

theorem State.Chosen.serves {s : State σ} {root : ProjectRef} {config : Configuration}
    (h : s.Chosen root config) (hphase : s.phase = 1) {name : DetectorClass} {issue : Issue}
    {category : Scope} (hissue : issue ∈ s.registry.enabledIssues config name)
    (hadmits : s.scope.admits issue.scope = true) (hlists : issue.scope.contains category = true) :
    ∃ detector, detector.className = name ∧ detector ∈ s.selection.bucket category := by
  cases h with
  | later _ hlater _ =>
    rw [hphase] at hlater
    exact absurd hlater (Nat.lt_irrefl 1)
  | first _ _ hmembers =>
    obtain ⟨scope, hmember, hcategory⟩ :=
      (s.registry.offers_selectedClasses config s.scope).2 ⟨issue, hissue, hadmits, hlists⟩
    rw [← hmembers] at hmember
    obtain ⟨⟨detector, scope⟩, hchosen, heq⟩ := List.mem_map.1 hmember
    cases heq
    exact ⟨detector, rfl, Selection.mem_bucket.2 ⟨scope, hchosen, hcategory⟩⟩

theorem State.Stands.made {b s : State σ} (h : b.Stands s) {ref : ProjectRef} (href : b.Made ref) :
    s.Made ref := by
  obtain ⟨project, hproject, hdir⟩ := href
  have hsame := h.projects ref.index
  rw [hproject] at hsame
  obtain ⟨other, hother, hfixed⟩ := Option.map_eq_some_iff.1 hsame
  exact ⟨other, hother, (congrArg Project.dir hfixed).trans hdir⟩

theorem Engine.lasts_made (ref : ProjectRef) : Lasts fun s : State σ => s.Made ref where
  projects := fun h heq => by rwa [State.Made, heq]
  configured := fun _ _ _ _ _ _ h => h.changed _ fun _ _ => rfl
  changed := fun _ _ _ hchange h => h.changed _ fun project _ => (hchange project).1
  added := fun project _ _ h => h.added project
  linked := fun _ _ _ _ _ _ h => h.changed _ fun _ _ => rfl

namespace Pointing

open Arrivals Grounds

variable {host : Host σ} {opts : Options} {ws : Workspace} {s u : State σ}

/-! ## A run that is given one file -/

theorem phase_of_checkAll {ref : ProjectRef} {elapsed : Int}
    (hrun : (host.engine opts).checkAll ref [] elapsed s = .ok () u) (hu : u.canceled = false) :
    ∃ v detectors t,
      (host.engine opts).fire .starting none (s.entered 1) = .ok () v ∧
      (host.engine opts).plan ownSlot ((host.engine opts).configuration ref) v.scope v =
        .ok detectors t ∧
      (detectors ≠ [] → ∃ w, (host.engine opts).checkPhase ref { t with memo := none } =
        .ok () w ∧ w.canceled = false ∧ w.written <+: u.written) ∧
      ∀ {I : State σ → Prop}, Lasts I → I t → I u := by
  rw [checkAll_eq] at hrun
  obtain ⟨_, v, hfire, hrun⟩ := bind_eq_ok hrun
  obtain ⟨last, x, hroots, hfinish⟩ := bind_eq_ok hrun
  have hx := (LibraryScans.wrote_finish hfinish hu).1
  have hv := LibraryScans.checkRoots_not_canceled hroots hx
  rw [checkRoots, get_bind, if_neg (Bool.eq_false_iff.1 hv)] at hroots
  obtain ⟨_, y, hroot, hroots⟩ := bind_eq_ok hroots
  cases hroots
  have hgrown :=
    (EventProtocol.finish_spec host opts (List.mem_singleton_self ref) elapsed x).grown
  rw [hfinish, endState_ok] at hgrown
  have hlast : ∀ {I : State σ → Prop}, Lasts I → I x → I u :=
    fun hI hs => (hI.finish host opts ref elapsed).ok hs hfinish
  rcases checkRoot_cases (host.engine opts) ref v with
    ⟨fault, t, -, hfault⟩ | ⟨detectors, t, hplan, ⟨hnone, hend⟩ | ⟨-, hend⟩⟩
  · cases hfault.symm.trans hroot
  · cases hend.symm.trans hroot
    exact ⟨v, detectors, t, hfire, hplan, fun hne => absurd hnone hne,
      fun hI hs => hlast hI (hI.projects hs rfl)⟩
  · rw [hend] at hroot
    obtain ⟨_, w, hproject, hrepeat⟩ := bind_eq_ok hroot
    obtain ⟨hw, hrepeat⟩ := unlessCanceled_eq_ok hrepeat hx
    have hmore := Cancellation.repeatPhases_grown host opts ref w
    rw [hrepeat, endState_ok] at hmore
    refine ⟨v, detectors, t, hfire, hplan, fun _ => ⟨w, ?_, hw, hmore.trans hgrown⟩, ?_⟩
    · exact LibraryScans.checkPhase_of_checkProject hproject hw
    · intro I hI ht
      have hforgot : I { t with memo := none } := hI.projects ht rfl
      have hchecked := (hI.checkProject host opts ref).ok hforgot hproject
      exact hlast hI ((hI.repeatPhases host opts ref).ok hchecked hrepeat)

theorem recorded_of_earlier {before start : List Entry} {c : Context} (h : start <+: before)
    (hs : Recorded before c s) : Recorded start c s := by
  obtain ⟨new, hnew, hc⟩ := hs
  obtain ⟨more, rfl⟩ := h
  refine ⟨more ++ new, by rwa [← List.append_assoc], ?_⟩
  rw [scans, List.filterMap_append]
  exact List.mem_append_right _ hc

theorem scope_ready_file (s : State σ) {ref : ProjectRef} {file : String}
    (hgiven : (s.project ref).subset = some [file]) (category : Scope) :
    (s.ready none [ref]).scope.contains category = true ↔ category ∈ Layout.scopesOf file := by
  rw [State.ready, List.map_singleton, hgiven]
  simp [Layout.inferScope, ScopeSet.ofList]

section OneFile

variable (hhost : host.KeepsTo Action.KeepsFiles)
  (hstateless : host.Stateless opts) (hs : Charted host ws s) {file dir name : String}
  {kind : Context.Kind} (hground : Ground host opts ws dir name file kind)

include hhost hs hstateless hground

theorem recorded_of_analyze (hfile : ws.isFile file = true)
    (hspelled : Path.resolve ws.cwd file = file)
    (hnearest : Discovery.projectAmong? ws (Discovery.ancestors file) = some dir)
    (hcanonical : ws.canonical dir = dir)
    (hkind : ∃ category ∈ Layout.scopesOf file, category ∈ kind.categories) {issue : Issue}
    {category : Scope} (hcategory : category ∈ kind.categories)
    (habout : issue.scope.About category) (hlists : issue.scope.contains category = true)
    {elapsed : Int} (hrun : (host.engine opts).analyze [file] none elapsed s = .ok () u)
    (hu : u.canceled = false)
    (henabled : ∀ ref config, ref.dir = dir → u.Made ref → u.Configured ref config →
      issue ∈ s.registry.enabledIssues config name) :
    ∃ ref, ref.dir = dir ∧ Recorded s.written (Pass.context ⟨ref, ref⟩ file kind) u := by
  have hplain : ws.isFolder file = false := by
    rw [Workspace.isFile, Option.any_eq_true] at hfile
    obtain ⟨entry, hentry, hfile⟩ := hfile
    rw [Workspace.isFolder, hentry]
    cases entry <;> first | rfl | cases hfile
  have hbegun : Charted host ws (s.begun none) := { hs with }
  cases hresolve : Discovery.resolve (host.engine opts) State.canceled [file] (s.begun none) with
  | error fault found => cases (analyze_of_error hresolve).symm.trans hrun
  | ok roots found =>
  cases hfound : found.canceled with
  | true =>
    cases (analyze_of_canceled hresolve hfound).symm.trans hrun
    rw [hfound] at hu
    cases hu
  | false =>
  obtain ⟨ref, rfl, rfl, hgiven⟩ := Discovery.resolve_file hhost hbegun hspelled hplain hnearest
    hresolve hfound hcanonical
  obtain ⟨hcharted, hmade⟩ := Discovery.charted_resolve (.of_within hhost opts _) hbegun hresolve
  obtain ⟨refs, hrefs, -⟩ :=
    Discovery.charted_links (.of_within hhost opts _) hbegun hresolve (List.mem_singleton_self ref)
  have href : found.Made ref := hmade ref (List.mem_singleton_self ref)
  rw [analyze_of_cons hresolve hfound] at hrun
  obtain ⟨v, detectors, t, hfire, hplan, hphase, hlasts⟩ := phase_of_checkAll hrun hu
  -- What the search has found stands, and the scope is that of the file.
  have hsettles := settles_stands hhost found
  have hentered : found.Stands ((found.ready none [ref]).entered 1) :=
    { State.Stands.refl found with }
  have hv : found.Stands v := (hsettles.between opts fun _ => rfl).ok hentered hfire
  have ht : found.Stands t := (hsettles.plan opts ref v.scope).ok hv hplan
  have hfired := (frames_fire host opts .starting none).ok hfire
  have hplanned := plan_later host opts ref v.scope v
  rw [hplan, endState_ok] at hplanned
  have hscope : ∀ category, t.scope.contains category = true ↔ category ∈ Layout.scopesOf file := by
    rw [hplanned.scope, hfired.scope]
    exact scope_ready_file found hgiven
  have hinScope : kind.categories.any t.scope.contains = true := by
    obtain ⟨own, hown, hin⟩ := hkind
    exact List.any_eq_true.2 ⟨own, hin, (hscope own).2 hown⟩
  -- The class is chosen for the phase.
  obtain ⟨config, hchosen⟩ := chosen_of_plan (hv.made href).has hplan
  have hissue : issue ∈ t.registry.enabledIssues config name := by
    have hregistry : found.registry = s.registry := (Eligibility.framed_ready hresolve).registry
    rw [ht.registry, hregistry]
    exact henabled ref config rfl (hlasts (lasts_made ref) (ht.made href))
      (hlasts (lasts_configured ref config) hchosen.configured)
  have hadmits : t.scope.admits issue.scope = true :=
    ScopeSet.admits_of_about habout (ScopeSet.covers_of_kind hinScope category hcategory)
  obtain ⟨detector, rfl, hserves⟩ :=
    hchosen.serves hplanned.phase hissue hadmits hlists
  have hsome : detectors ≠ [] := by
    obtain ⟨scope, hmember, -⟩ := Selection.mem_bucket.1 hserves
    obtain ⟨_, _, members, _, -, -, rfl, rfl⟩ := plan_eq_ok hplan
    exact List.ne_nil_of_mem (List.mem_map_of_mem hmember)
  -- So the phase comes to the file, and all that follows adds to what it has written.
  have hshape : (t.project ref).chart = (host.shape ws ref.dir).chart := by
    obtain ⟨hproject, hdir⟩ := href.project_eq
    rw [ht.project Project.chart (fun _ => rfl), hcharted.shaped _ _ hproject, hdir]
  have hawaits : Awaits host ws { t with memo := none } ref detector.className kind :=
    ⟨ht.files.trans hcharted.files, hshape, hinScope, detector, category, rfl, hcategory, hserves⟩
  obtain ⟨w, hcheck, hw, hgrown⟩ := hphase hsome
  have hrecorded := recorded_of_checkPhase hhost hstateless hawaits hground
    ((ht.project Project.subset (fun _ => rfl) ref).trans hgiven) hfile hplain
    ((ht.project Project.libraries (fun _ => rfl) ref).trans hrefs) rfl hcheck hw
  have hearlier : s.written <+: t.written := by
    have hsearch := ((frames_resolve host opts State.canceled [file]).ok hresolve).grown
    have hstart : found.written <+: ((found.ready none [ref]).entered 1).written :=
      ⟨_, (State.written_write _ _).symm⟩
    exact hsearch.trans <| hstart.trans <| hfired.grown.trans hplanned.grown
  exact ⟨ref, rfl, (recorded_of_earlier hearlier hrecorded).grown hgrown⟩

end OneFile

/-! ## The same file in two runs -/

/-- Two runs enable the same issues for a project. -/
def Agree (registry : Registry) (t u : State σ) (project : ProjectRef) : Prop :=
  ∀ issue ∈ registry.issues, ∀ other config config', other.dir = project.dir →
    t.Configured project config → u.Made other → u.Configured other config' →
      config.isEnabled issue = config'.isEnabled issue

/-- A file on disk that some run scans for a project of its own is scanned by every run that is
given the file and is not canceled, if its name tells a category of what it was scanned as and the
nearest project above it is that project. -/
theorem pointed_file_scanned {t s' : State σ} {paths : List String} {scope : Option ScopeSet}
    {elapsed elapsed' : Int} {new new' : List Entry} {c : Context} (hs : Charted host s.files s)
    (hs' : Charted host s.files s') (hregistry : s'.registry = s.registry)
    (hproper : s.files.Proper) (hstateless : host.Stateless opts)
    (hhost : ∀ call moment memory,
      (host.react call moment memory).Within Action.KeepsFiles fun _ => True)
    (hsingle : ∀ issue ∈ s.registry.issues, ∃ category, ∀ other,
      issue.scope.contains other = true ↔ other = category)
    (ht : endState ((host.engine opts).analyze paths scope elapsed s) = t)
    (hnew : t.written = s.written ++ new) (hc : c ∈ scans new) (hown : c.main = some c.project)
    (hloose : c.archive? = none) (hfile : s.files.isFile c.file = true)
    (hspelled : Path.resolve s.files.cwd c.file = c.file)
    (hkind : ∃ category ∈ Layout.scopesOf c.file, category ∈ c.kind.categories)
    (hnearest : Discovery.projectAmong? s.files (Discovery.ancestors c.file) = some c.project.dir)
    (hrun : (host.engine opts).analyze [c.file] none elapsed' s' = .ok () u)
    (hu : u.canceled = false) (hagree : Agree s.registry t u c.project)
    (hnew' : u.written = s'.written ++ new') :
    ∃ ref, ref.dir = c.project.dir ∧ ⟨ref, some ref, c.file, c.kind⟩ ∈ scans new' := by
  subst ht
  have habsolute : Path.isAbsolute c.file = true :=
    hspelled ▸ (Path.Spells.resolve s.files.cwd c.file).isAbsolute
  obtain ⟨hcanonical, config, hconfig, name, hground, issue, hissue, category, hcategory, hlists⟩ :=
    founded_of_scan hs hproper hhost hnew hc hown hloose habsolute
  obtain ⟨hlisted, henabled⟩ := List.mem_filter.1 hissue
  have habout : issue.scope.About category := by
    obtain ⟨only, honly⟩ := hsingle issue hlisted
    intro other hother
    rw [(honly other).1 hother, (honly category).1 hlists]
    exact .inl rfl
  obtain ⟨ref, hdir, more, hmore, hscan⟩ := recorded_of_analyze hhost hstateless hs' hground hfile
    hspelled hnearest hcanonical hkind hcategory habout hlists hrun hu
    fun ref config' hdir hmade hconfig' => by
      rw [hregistry]
      refine List.mem_filter.2 ⟨hlisted, ?_⟩
      rwa [← hagree issue hlisted ref config config' hdir hconfig hmade hconfig']
  rw [hnew', List.prefix_append_right_inj] at hmore
  obtain ⟨rest, rfl⟩ := hmore
  refine ⟨ref, hdir, ?_⟩
  rw [scans, List.filterMap_append]
  exact List.mem_append_left _ hscan

theorem stateless_watchful : Restriction.watchfulHost.Stateless ⟨true⟩ where
  supplies := fun _ _ _ => rfl
  applies := fun _ _ _ _ => rfl
  parses := fun {context another} ws memory other _ hfile _ => by
    show (Scripted.trimmedText ws context.file).map _ = (Scripted.trimmedText ws another.file).map _
    rw [hfile]
  reads := fun {bytes parsed s s'} h t => by
    have hcall : ∀ t : State Scripted.Memory, ∃ u,
        (Restriction.watchfulHost.engine ⟨true⟩).invoke (.readClass bytes) t = .ok () u :=
      fun t => ⟨_, rfl⟩
    obtain ⟨u, hu⟩ := hcall s
    obtain ⟨v, hv⟩ := hcall t
    rw [readClass, consult, bind_of_ok hu, get_bind] at h
    rw [readClass, consult, bind_of_ok hv, get_bind]
    have hsame : (Restriction.watchfulHost.engine ⟨true⟩).host.readClass bytes v.host =
      (Restriction.watchfulHost.engine ⟨true⟩).host.readClass bytes u.host := rfl
    rw [hsame]
    generalize (Restriction.watchfulHost.engine ⟨true⟩).host.readClass bytes u.host = read at h ⊢
    cases read with
    | error fault => cases h
    | ok file =>
      cases h
      exact ⟨v, rfl⟩

theorem enabled_of_all {s : State σ} {issue : Issue} {ref : ProjectRef} {config : Configuration}
    (h : (s.projects.toList.all fun project =>
      project.configuration.all (·.isEnabled issue)) = true)
    (hconfig : s.Configured ref config) : config.isEnabled issue = true := by
  obtain ⟨project, hproject, hknown⟩ := hconfig
  have hmem : project ∈ s.projects.toList :=
    Array.mem_def.1 (Array.mem_of_getElem? hproject)
  have hall := List.all_eq_true.1 h project hmem
  rwa [hknown] at hall

def withLayout (name : String) : State Scripted.Memory :=
  fresh {} ⟨.folder "" true [.folder "w" true [.folder "a" true [
    .file "AndroidManifest.xml" (.bytes []),
    .folder "res" true [.folder "layout" true [.file name (.bytes [])]]]]], "/w"⟩
    ⟨[{ manifestIssue with scope := .ofList [.resourceFile] }]⟩

def layoutRun (name path : String) : Outcome Scripted.Memory Unit :=
  (Restriction.watchfulHost.engine ⟨true⟩).analyze [path] none 0 (withLayout name)

/-- A layout that a run for its project scans is scanned by a run for the layout. -/
theorem pointed_file_scanned_layout :
    ∃ context ∈ scans (endState (layoutRun "main.xml" "a")).written,
      context.file = "/w/a/res/layout/main.xml" ∧
      ∃ ref, ref.dir = context.project.dir ∧ ⟨ref, some ref, context.file, context.kind⟩ ∈
        scans (endState (layoutRun "main.xml" "/w/a/res/layout/main.xml")).written := by
  obtain ⟨hscans, henabled⟩ : (scans (endState (layoutRun "main.xml" "a")).written).map
      (fun context => (context.project, context.main, context.file, context.archive?,
        context.kind.categories)) =
      [(⟨0, "/w/a"⟩, some ⟨0, "/w/a"⟩, "/w/a/res/layout/main.xml", none,
        [.resourceFile, .allResourceFiles])] ∧
      ∀ issue ∈ (withLayout "main.xml").registry.issues,
        (endState (layoutRun "main.xml" "a")).projects.toList.all (fun project =>
          project.configuration.all (·.isEnabled issue)) = true := by
    decide +kernel
  obtain ⟨context, hcontext, hfacts⟩ := List.mem_map.1 (hscans ▸ List.mem_singleton_self _)
  obtain ⟨hproject, hmain, hfile, harchive, hcategories⟩ :
      context.project = ⟨0, "/w/a"⟩ ∧ context.main = some ⟨0, "/w/a"⟩ ∧
        context.file = "/w/a/res/layout/main.xml" ∧ context.archive? = none ∧
        context.kind.categories = [.resourceFile, .allResourceFiles] := by
    simpa only [Prod.mk.injEq] using hfacts
  obtain ⟨hrun, hu, henabled'⟩ :
      result? (layoutRun "main.xml" "/w/a/res/layout/main.xml") = some () ∧
      (endState (layoutRun "main.xml" "/w/a/res/layout/main.xml")).canceled = false ∧
      ∀ issue ∈ (withLayout "main.xml").registry.issues,
        (endState (layoutRun "main.xml" "/w/a/res/layout/main.xml")).projects.toList.all
          (fun project => project.configuration.all (·.isEnabled issue)) = true := by
    decide +kernel
  have hpointed : (Restriction.watchfulHost.engine ⟨true⟩).analyze [context.file] none 0
      (withLayout "main.xml") =
        .ok () (endState (layoutRun "main.xml" "/w/a/res/layout/main.xml")) := by
    rw [hfile]
    exact eq_ok_of_result? hrun
  have hcharted : Charted Restriction.watchfulHost (withLayout "main.xml").files
      (withLayout "main.xml") := charted_fresh _ _ _ _
  have hproper : (withLayout "main.xml").files.Proper := by decide +kernel
  have hagree : Agree (withLayout "main.xml").registry (endState (layoutRun "main.xml" "a"))
      (endState (layoutRun "main.xml" "/w/a/res/layout/main.xml")) context.project := by
    intro issue hissue other config config' _ hconfig _ hconfig'
    rw [enabled_of_all (henabled issue hissue) hconfig,
      enabled_of_all (henabled' issue hissue) hconfig']
  refine ⟨context, hcontext, hfile, pointed_file_scanned hcharted hcharted rfl hproper
    stateless_watchful (within_idle _) ?_ rfl (List.nil_append _).symm hcontext
    (hmain.trans (congrArg some hproject.symm)) harchive ?_ ?_ ?_ ?_ hpointed hu hagree
    (List.nil_append _).symm⟩
  · exact List.forall_mem_singleton.2 ⟨.resourceFile, fun other => by cases other <;> decide⟩
  · rw [hfile]
    decide +kernel
  · rw [hfile]
    decide +kernel
  · rw [hfile, hcategories]
    decide +kernel
  · rw [hfile, hproject]
    decide +kernel

/-- A layout whose name ends in capital letters is scanned by a run for its project, and by none
that is given the layout alone. -/
theorem pointed_file_passed_by :
    (∃ context ∈ scans (endState (layoutRun "main.XML" "a")).written,
      context.file = "/w/a/res/layout/main.XML" ∧ context.main = some context.project) ∧
    result? (layoutRun "main.XML" "/w/a/res/layout/main.XML") = some () ∧
    (endState (layoutRun "main.XML" "/w/a/res/layout/main.XML")).canceled = false ∧
    scans (endState (layoutRun "main.XML" "/w/a/res/layout/main.XML")).written = [] := by
  have hscans : (scans (endState (layoutRun "main.XML" "a")).written).map
      (fun context => (context.file, context.main, context.project)) =
        [("/w/a/res/layout/main.XML", some ⟨0, "/w/a"⟩, ⟨0, "/w/a"⟩)] := by
    decide +kernel
  obtain ⟨context, hcontext, hfacts⟩ := List.mem_map.1 (hscans ▸ List.mem_singleton_self _)
  obtain ⟨hfile, hmain, hproject⟩ : context.file = "/w/a/res/layout/main.XML" ∧
      context.main = some ⟨0, "/w/a"⟩ ∧ context.project = ⟨0, "/w/a"⟩ := by
    simpa only [Prod.mk.injEq] using hfacts
  obtain ⟨hrun, hcanceled, hnone⟩ :
      result? (layoutRun "main.XML" "/w/a/res/layout/main.XML") = some () ∧
      (endState (layoutRun "main.XML" "/w/a/res/layout/main.XML")).canceled = false ∧
      (scans (endState (layoutRun "main.XML" "/w/a/res/layout/main.XML")).written).isEmpty =
        true := by
    decide +kernel
  exact ⟨⟨context, hcontext, hfile, hmain.trans (congrArg some hproject.symm)⟩, hrun, hcanceled,
    List.isEmpty_iff.1 hnone⟩

end Pointing
end ProjectLint
