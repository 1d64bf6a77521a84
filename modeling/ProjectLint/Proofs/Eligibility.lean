/-
The issues that a detector is called for. A detector hears of a file because its class has an
enabled issue that lists the category of the file. In a first phase the scope of the run admits the
issue; a later phase repeats instances for all enabled issues of their class, so there the scope
need not admit the issue unless it lists that category alone.
-/
import ProjectLint.Proofs.Chapters
import ProjectLint.Proofs.Rounds
import ProjectLint.Proofs.Selections

namespace ProjectLint

variable {category : Scope} {detector : Detector} {config : Configuration} {root : ProjectRef}

/-! ## Categories of issues -/

namespace ScopeSet

variable {a b : ScopeSet} {category : Scope}

/-- There is nothing in the scope but this category and its counterpart. -/
def About (a : ScopeSet) (category : Scope) : Prop :=
  ∀ other, a.contains other = true → other = category ∨ category.counterpart? = some other

theorem covers_mono (h : ∀ category, a.contains category = true → b.contains category = true)
    (hcovers : a.covers category = true) : b.covers category = true := by
  rw [covers, Bool.or_eq_true] at hcovers ⊢
  refine hcovers.imp (h category) fun hother => ?_
  rw [Option.any_eq_true] at hother ⊢
  obtain ⟨other, hcounterpart, hin⟩ := hother
  exact ⟨other, hcounterpart, h other hin⟩

theorem admits_mono (h : ∀ category, a.contains category = true → b.contains category = true)
    {required : ScopeSet} (hadmits : a.admits required = true) : b.admits required = true :=
  List.all_eq_true.2 fun category hcategory =>
    covers_mono h (List.all_eq_true.1 hadmits category hcategory)

theorem admits_of_about {required : ScopeSet} (h : required.About category)
    (hcovers : a.covers category = true) : a.admits required = true := by
  refine List.all_eq_true.2 fun other hother => ?_
  rcases h other (mem_toList.1 hother) with rfl | hcounterpart
  · exact hcovers
  · have hback : other.counterpart? = some category := by
      cases category <;> cases hcounterpart <;> rfl
    rw [covers, hcounterpart, Option.any_some, Bool.or_eq_true] at hcovers
    rw [covers, hback, Option.any_some, Bool.or_eq_true]
    exact hcovers.symm

end ScopeSet

namespace Registry

def Offers (classes : List (DetectorClass × ScopeSet)) (name : DetectorClass) (category : Scope) :
    Prop :=
  ∃ scope, (name, scope) ∈ classes ∧ scope.contains category = true

variable {name : DetectorClass} {category : Scope}

theorem offers_selectedClasses (registry : Registry) (config : Configuration) (scope : ScopeSet) :
    Offers (registry.selectedClasses config scope) name category ↔
      ∃ issue ∈ registry.enabledIssues config name,
        scope.admits issue.scope = true ∧ issue.scope.contains category = true := by
  rw [selectedClasses_eq_classes, Offers]
  constructor
  · rintro ⟨categories, hclass, hcategory⟩
    obtain ⟨_, -, heq⟩ := List.mem_map.1 hclass
    cases heq
    rw [contains_categories, List.any_eq_true] at hcategory
    obtain ⟨issue, hissue, hlists⟩ := hcategory
    obtain ⟨hchosen, hclass⟩ := List.mem_filter.1 hissue
    obtain ⟨hmem, hboth⟩ := List.mem_filter.1 hchosen
    obtain ⟨henabled, hadmits⟩ := Bool.and_eq_true_iff.1 hboth
    exact ⟨issue, List.mem_filter.2 ⟨hmem, Bool.and_eq_true_iff.2 ⟨hclass, henabled⟩⟩,
      hadmits, hlists⟩
  · rintro ⟨issue, hissue, hadmits, hlists⟩
    obtain ⟨hmem, hboth⟩ := List.mem_filter.1 hissue
    obtain ⟨hclass, henabled⟩ := Bool.and_eq_true_iff.1 hboth
    have hchosen : issue ∈ chosen config scope registry.issues :=
      List.mem_filter.2 ⟨hmem, Bool.and_eq_true_iff.2 ⟨henabled, hadmits⟩⟩
    refine ⟨_, List.mem_map.2 ⟨name, mem_distinct.2 (List.mem_filterMap.2
      ⟨issue, hchosen, beq_iff_eq.1 hclass⟩), rfl⟩, ?_⟩
    rw [contains_categories, List.any_eq_true]
    exact ⟨issue, List.mem_filter.2 ⟨hchosen, hclass⟩, hlists⟩

end Registry

theorem Selection.mem_bucket {selection : Selection} : detector ∈ selection.bucket category ↔
      ∃ scope, (detector, scope) ∈ selection.members ∧ scope.contains category = true := by
  rw [bucket, List.mem_map]
  constructor
  · rintro ⟨⟨other, scope⟩, hmember, rfl⟩
    exact ⟨scope, List.mem_filter.1 hmember⟩
  · rintro ⟨scope, hmember⟩
    exact ⟨(detector, scope), List.mem_filter.2 hmember, rfl⟩

theorem Schedule.mem_bucket_repeating {registry : Registry} {requested : List Detector}
    (h : detector ∈ (repeating registry config requested).bucket category) :
    ∃ issue ∈ registry.enabledIssues config detector.className,
      issue.scope.contains category = true := by
  obtain ⟨scope, hmember, hcategory⟩ := Selection.mem_bucket.1 h
  obtain ⟨known, -, hknown⟩ := List.mem_filterMap.1 hmember
  cases hissues : registry.enabledIssues config known.className with
  | nil =>
    rw [hissues] at hknown
    cases hknown
  | cons issue rest =>
    rw [hissues] at hknown
    cases hknown
    rw [hissues]
    have hany := Registry.contains_categories (issue :: rest) category
    exact List.any_eq_true.1 (hany.symm.trans hcategory)

theorem State.Chosen.issue {s : State σ} (h : s.Chosen root config)
    (hdetector : detector ∈ s.selection.bucket category) :
    ∃ issue ∈ s.registry.enabledIssues config detector.className,
      issue.scope.contains category = true ∧ (s.phase = 1 → s.scope.admits issue.scope = true) := by
  cases h with
  | first _ _ hmembers =>
    obtain ⟨scope, hmember, hcategory⟩ := Selection.mem_bucket.1 hdetector
    have hoffers : Registry.Offers (s.registry.selectedClasses config s.scope)
        detector.className category :=
      ⟨scope, hmembers ▸ List.mem_map_of_mem hmember, hcategory⟩
    obtain ⟨issue, hissue, hadmits, hlists⟩ :=
      (s.registry.offers_selectedClasses config s.scope).1 hoffers
    exact ⟨issue, hissue, hlists, fun _ => hadmits⟩
  | later _ hphase hrepeats =>
    rw [hrepeats] at hdetector
    obtain ⟨issue, hissue, hlists⟩ := Schedule.mem_bucket_repeating hdetector
    refine ⟨issue, hissue, hlists, fun hfirst => ?_⟩
    rw [hfirst] at hphase
    exact absurd hphase (Nat.lt_irrefl 1)

theorem Hook.isLevel_of_categories {hook : Hook} (h : hook.categories = []) :
    hook.isLevel = true := by
  cases hook with
  | beforeProject | afterProject | beforeLibrary | afterLibrary => rfl
  | appliesToFolder | elementNames | attributeNames | nodeTypes => cases h
  | _ => exact absurd h (Context.Kind.categories_ne_nil _)

namespace Journal

def Entry.Eligible (registry : Registry) (config : Configuration) (scope : ScopeSet) : Entry → Prop
  | .called (.detector detector hook) moment => hook.isLevel = false →
      ∃ issue ∈ registry.enabledIssues config detector.className, ∃ category ∈ hook.categories,
        issue.scope.contains category = true ∧
          (moment.phase = 1 ∨ issue.scope.About category → scope.admits issue.scope = true)
  | _ => True

theorem Entry.eligible_of_aside {registry : Registry} {scope : ScopeSet}
    {entry : Entry} (h : entry.isAside = true) : entry.Eligible registry config scope := by
  cases entry with
  | called call moment =>
    cases call with
    | detector => cases h
    | _ => trivial
  | _ => trivial

end Journal

namespace Eligibility

open Run Engine Journal

variable {host : Host σ} {opts : Options} {registry : Registry} {scope : ScopeSet}
  {before : List Entry} {t s : State σ}

/-! ## One phase -/

def Called (t : State σ) : Entry → Prop
  | .called (.detector detector hook) moment =>
    moment.phase = t.phase ∧ (hook.isLevel = false → Minds t.Serving hook.categories detector)
  | _ => True

structure Underway (t : State σ) (before : List Entry) (s : State σ) : Prop where
  registry : s.registry = t.registry
  scope : s.scope = t.scope
  phase : s.phase = t.phase
  selection : s.selection = t.selection
  memo : ∀ memo, s.memo = some memo →
    memo.Fits (MarkupVisitor.Calls (MindsResources t.Serving)) fun _ => True
  wrote : ∃ new, s.written = before ++ new ∧ ∀ entry ∈ new, Called t entry ∧ entry.phaseOf? = none

namespace Underway

theorem write (h : Underway t before s) {entry : Entry} (hcalled : Called t entry)
    (hphase : entry.phaseOf? = none) : Underway t before (s.write entry) := by
  obtain ⟨new, hnew, hall⟩ := h.wrote
  refine { h with wrote := ⟨new ++ [entry], ?_, List.forall_mem_append.2 ⟨hall, ?_⟩⟩ }
  · rw [State.written_write, hnew, List.append_assoc]
  · exact List.forall_mem_singleton.2 ⟨hcalled, hphase⟩

theorem requested (h : Underway t before s) {schedule : Schedule}
    (hschedule : s.schedule = some schedule) (detector : Detector) (scope : Option ScopeSet) :
    Underway t before { s with schedule := some (schedule.request detector scope) } := by
  have hphase := h.phase
  have hselection := h.selection
  rw [State.phase, hschedule] at hphase
  rw [State.selection, hschedule] at hselection
  exact { h with phase := hphase, selection := hselection }

theorem finds (t : State σ) (before : List Entry) :
    Finds host (Underway t before) (fun _ => True) fun _ => True where
  called := fun {call s} hcall hs => by
    cases call with
    | detector => cases hcall
    | _ => exact hs.write trivial rfl
  logged := fun _ _ hs => hs.write trivial rfl
  observed := fun _ _ hs => hs.write trivial rfl
  submitted := fun _ _ _ hs => hs.write trivial rfl
  requested := fun detector scope _ s _ hschedule hs => by
    have hwritten : Underway t before (s.write (.requested detector scope)) := hs.write trivial rfl
    exact hwritten.requested hschedule detector scope

theorem surveys (t : State σ) (before : List Entry) (root : ProjectRef) :
    Surveys host opts (Underway t before) (fun _ => True) (fun _ => True) t.Serving
      (fun _ => True) root where
  toBears := (finds t before).toBears
  heard := fun hs => hs.write trivial rfl
  asked := fun hserves hhook hs => hs.write ⟨hs.phase, fun _ => ⟨_, hhook, hserves⟩⟩ rfl
  told := fun _ _ hlevel hs => by
    refine hs.write ⟨hs.phase, fun hfile => ?_⟩ rfl
    rw [Hook.isLevel_of_categories hlevel] at hfile
    cases hfile
  serves := fun hs hcovers ht detector hdetector =>
    ⟨ht.selection ▸ hdetector, hs.scope ▸ hcovers⟩
  applies := fun _ _ _ _ => trivial
  memo := fun hs hmemo => hs.memo _ hmemo
  remembered := fun hmemo hs => { hs with memo := hmemo }
  scanned := fun _ _ hs => hs.write trivial rfl
  announced := fun _ _ hs => hs.write trivial rfl
  read := fun _ _ _ hs => { hs with }
  libraries := (finds t before).libraries opts root

end Underway

theorem checkPhase_underway (host : Host σ) (opts : Options) (root : ProjectRef)
    (hmemo : t.memo = none) :
    Underway t (t.written ++ [.fired .scanningProject (some (projectContext root)) t.moment])
      (endState ((host.engine opts).checkPhase root t)) := by
  refine (Underway.surveys t _ root).checkPhase ⟨rfl, rfl, rfl, rfl, fun memo hknown => ?_, [], ?_,
    List.forall_mem_nil _⟩
  · cases hmemo.symm.trans hknown
  · rw [State.written_write, List.append_nil]

theorem eligible_of_called {entry : Entry} (hchosen : t.Chosen root config)
    (hwithin : ∀ category, t.scope.contains category = true → scope.contains category = true)
    (h : Called t entry) : entry.Eligible t.registry config scope := by
  cases entry with
  | called call moment =>
    cases call with
    | detector detector hook =>
      intro hfile
      obtain ⟨hphase, hminds⟩ := h
      obtain ⟨category, hcategory, hserves, hcovers⟩ := hminds hfile
      obtain ⟨issue, hissue, hlists, hadmits⟩ := hchosen.issue hserves
      refine ⟨issue, hissue, category, hcategory, hlists, ?_⟩
      rintro (hfirst | habout)
      · exact ScopeSet.admits_mono hwithin (hadmits (hphase.symm.trans hfirst))
      · exact ScopeSet.admits_of_about habout (ScopeSet.covers_mono hwithin hcovers)
    | _ => trivial
  | _ => trivial

/-! ## A run -/

structure Framed (registry : Registry) (scope : ScopeSet) (s : State σ) : Prop where
  registry : s.registry = registry
  within : ∀ category, s.scope.contains category = true → scope.contains category = true

theorem settles_framed (host : Host σ) (registry : Registry) (scope : ScopeSet) :
    Settles host (Framed registry scope) (fun _ => True) (fun _ => True) where
  narrowed := fun {s} hs => { hs with
    within := fun category hcategory => by
      have hboth : (s.scope.inter _).contains category = true := hcategory
      rw [ScopeSet.contains_inter, Bool.and_eq_true_iff] at hboth
      exact hs.within category hboth.1 }
  restored := fun hs₀ hs => { hs with within := hs₀.within }

theorem framed_ready {paths : List String} {given : Option ScopeSet} {roots : List ProjectRef}
    {found : State σ} (h : Discovery.resolve (host.engine opts) State.canceled paths
      (s.begun given) = .ok roots found) :
    Framed s.registry (Phases.runScope host opts paths given s) (found.ready given roots) := by
  have hkept := ((Phases.finds_unattended host (s.begun given)).resolve opts State.canceled
    paths).ok (.refl _) h
  refine ⟨hkept.2.2.1, fun category hcategory => ?_⟩
  rwa [Phases.runScope, Phases.foundRoots, h]

/-- Whatever a detector is told about a file in a phase of a project, its class has an issue for it
that the configuration of the project enables. The scope of the run admits the issue in a first
phase, and in every phase if the issue is about one category alone. -/
theorem hook_has_issue (host : Host σ) (opts : Options) {paths : List String}
    {given : Option ScopeSet} {elapsed : Int} {s : State σ} {new during : List Entry}
    {root : ProjectRef} {detector : Detector} {hook : Hook} {moment : Moment} (hs : s.Sound)
    (hnew : (endState ((host.engine opts).analyze paths given elapsed s)).written =
      s.written ++ new)
    (hphase : (root, during) ∈ sections Entry.phaseOf? new)
    (hcalled : .called (.detector detector hook) moment ∈ during)
    (hfile : hook.isLevel = false) :
    ∃ config, (endState ((host.engine opts).analyze paths given elapsed s)).Configured root config ∧
      ∃ issue ∈ s.registry.enabledIssues config detector.className,
        ∃ category ∈ hook.categories, issue.scope.contains category = true ∧
          (moment.phase = 1 ∨ issue.scope.About category →
            (Phases.runScope host opts paths given s).admits issue.scope = true) := by
  let final := endState ((host.engine opts).analyze paths given elapsed s)
  let admitting := Phases.runScope host opts paths given s
  have hall := sections_analyze Entry.phaseOf? (fun root during =>
      ∃ config, final.Configured root config ∧
        ∀ entry ∈ during, entry.Eligible s.registry config admitting)
    hs ?_ ?_ (fun hresolve => ⟨_, _, Framed s.registry admitting,
      settles_framed host s.registry admitting, { framed_ready hresolve with }, ?_⟩) hnew
  · obtain ⟨config, hconfig, heligible⟩ := hall _ hphase
    exact ⟨config, hconfig, heligible _ hcalled hfile⟩
  · exact fun entry => entry.phaseOf?_of_aside
  · rintro root during entry haside ⟨config, hconfig, heligible⟩
    refine ⟨config, hconfig, List.forall_mem_append.2 ⟨heligible, ?_⟩⟩
    exact List.forall_mem_singleton.2 (Entry.eligible_of_aside haside)
  · rintro before root config t - ⟨hframed, hsectioned⟩ hchosen hmemo hlasting
    have hunderway := checkPhase_underway host opts root hmemo
    obtain ⟨new, hwritten, hcalls⟩ := hunderway.wrote
    rw [List.append_assoc, List.singleton_append] at hwritten
    refine ⟨⟨hunderway.registry.trans hframed.registry, fun category hcategory => ?_⟩,
      hsectioned.opened hwritten rfl (fun entry hentry => (hcalls entry hentry).2)
        ⟨config, hlasting _ _ hchosen.configured, fun entry hentry => ?_⟩⟩
    · rw [hunderway.scope] at hcategory
      exact hframed.within category hcategory
    · rw [← hframed.registry]
      exact eligible_of_called hchosen hframed.within (hcalls entry hentry).1

def returningHost : Host Scripted.Memory :=
  Scripted.Embedding.host
    { detectors :=
        [("D", { scanners := [.markup], declared := [.markup],
                 rules := [{ trigger := "beforeCheckProject", phase := some 1,
                             commands := [.requestRepeat none none] }] })] }

def twoIssues : State Scripted.Memory :=
  fresh {} ⟨.folder "" true [.folder "w" true [.folder "a" true [
    .file "AndroidManifest.xml" (.bytes []),
    .folder "res" true [.folder "layout" true [.file "main.xml" (.bytes [])]]]]], "/w"⟩
    ⟨[manifestIssue,
      { manifestIssue with id := "J", scope := .ofList [.resourceFile, .proguardFile] }]⟩

def markupScope : ScopeSet :=
  .ofList [.manifest, .resourceFile]

def returningRun : Outcome Scripted.Memory Unit :=
  (returningHost.engine ⟨false⟩).analyze ["a"] (some markupScope) 0 twoIssues

def fileCall? : Entry → Option (Detector × Nat × List Scope)
  | .called (.detector detector hook) moment =>
    if hook.isLevel then none else some (detector, moment.phase, hook.categories)
  | _ => none

theorem call_of_fileCall {entries : List Entry} {phase : Nat} {categories : List Scope}
    (h : ∃ part ∈ sections Entry.phaseOf? entries, part.1 = root ∧
      (detector, phase, categories) ∈ part.2.filterMap fileCall?) :
    ∃ during hook moment, (root, during) ∈ sections Entry.phaseOf? entries ∧
      .called (.detector detector hook) moment ∈ during ∧ hook.isLevel = false ∧
      moment.phase = phase ∧ hook.categories = categories := by
  obtain ⟨⟨_, during⟩, hpart, rfl, hcall⟩ := h
  obtain ⟨entry, hentry, hseen⟩ := List.mem_filterMap.1 hcall
  cases entry with
  | called call moment =>
    cases call with
    | detector other hook =>
      rw [fileCall?] at hseen
      split at hseen
      · cases hseen
      · rename_i hlevel
        cases hseen
        exact ⟨during, hook, moment, hpart, hentry, Bool.eq_false_iff.2 hlevel, rfl, rfl⟩
    | _ => cases hseen
  | _ => cases hseen

/-- The detector hears of the manifest in the first phase, for an issue that the scope admits. -/
theorem hook_has_issue_manifest :
    ∃ during hook moment,
      (⟨0, "/w/a"⟩, during) ∈ sections Entry.phaseOf? (endState returningRun).written ∧
      .called (.detector ⟨"D", 1⟩ hook) moment ∈ during ∧ hook.categories = [.manifest] ∧
      ∃ config, (endState returningRun).Configured ⟨0, "/w/a"⟩ config ∧
        ∃ issue ∈ twoIssues.registry.enabledIssues config "D",
          ∃ category ∈ [Scope.manifest], issue.scope.contains category = true ∧
            (Phases.runScope returningHost ⟨false⟩ ["a"] (some markupScope) twoIssues).admits
              issue.scope = true := by
  have hcall : ∃ part ∈ sections Entry.phaseOf? (endState returningRun).written,
      part.1 = ⟨0, "/w/a"⟩ ∧ (⟨"D", 1⟩, 1, [.manifest]) ∈ part.2.filterMap fileCall? := by
    decide +kernel
  obtain ⟨during, hook, moment, hphase, hcalled, hfile, hfirst, hcategories⟩ :=
    call_of_fileCall hcall
  obtain ⟨config, hconfig, issue, hissue, category, hcategory, hlists, hadmits⟩ :=
    hook_has_issue returningHost ⟨false⟩ (sound_fresh _ _ _) (List.nil_append _).symm hphase hcalled
      hfile
  exact ⟨during, hook, moment, hphase, hcalled, hcategories, config, hconfig, issue, hissue,
    category, hcategories ▸ hcategory, hlists, hadmits (.inl hfirst)⟩

/-- In the second phase the detector, which asked for itself, hears of resources, although the scope
of the run admits no enabled issue of its class that lists them. -/
theorem later_phase_leaves_scope :
    requests (endState returningRun).written = [(⟨"D", 1⟩, none)] ∧
    ∃ during hook moment,
      (⟨0, "/w/a"⟩, during) ∈ sections Entry.phaseOf? (endState returningRun).written ∧
      .called (.detector ⟨"D", 1⟩ hook) moment ∈ during ∧ hook.isLevel = false ∧
      hook.categories = [.resourceFile, .allResourceFiles] ∧
      ∀ config, (endState returningRun).Configured ⟨0, "/w/a"⟩ config →
        ∀ issue ∈ twoIssues.registry.enabledIssues config "D",
          ∀ category ∈ hook.categories, issue.scope.contains category = true →
            markupScope.admits issue.scope = false := by
  have hcall : ∃ part ∈ sections Entry.phaseOf? (endState returningRun).written,
      part.1 = ⟨0, "/w/a"⟩ ∧
        (⟨"D", 1⟩, 2, [.resourceFile, .allResourceFiles]) ∈ part.2.filterMap fileCall? := by
    decide +kernel
  obtain ⟨during, hook, moment, hphase, hcalled, hfile, -, hcategories⟩ :=
    call_of_fileCall hcall
  have hnone : (((endState returningRun).projects[0]?).bind Project.configuration).all
      (fun config => (twoIssues.registry.enabledIssues config "D").all fun issue =>
        [Scope.resourceFile, .allResourceFiles].all fun category =>
          !issue.scope.contains category || !markupScope.admits issue.scope) = true := by
    decide +kernel
  refine ⟨by decide +kernel, during, hook, moment, hphase, hcalled, hfile, hcategories, ?_⟩
  rintro config ⟨project, hproject, hconfig⟩ issue hissue category hcategory hlists
  have hproject : (endState returningRun).projects[0]? = some project := hproject
  rw [hproject, Option.bind_some, hconfig, Option.all_some] at hnone
  rw [hcategories] at hcategory
  have hadmits := List.all_eq_true.1 (List.all_eq_true.1 hnone issue hissue) category hcategory
  rw [hlists] at hadmits
  simpa using hadmits

end Eligibility
end ProjectLint
