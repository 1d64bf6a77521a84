/-
The libraries that a run checks along with its root projects. The search for projects leaves out
whatever a found project leads to; the first phase of a root, in a run that is never canceled, scans
exactly the libraries that the root references itself. So a library of a library is left out by the
one and passed over by the other.

The proofs follow the plans of first phases and the scans of libraries that a run writes.
-/
import ProjectLint.Proofs.Planning

namespace ProjectLint

namespace Journal

def Entry.firstPlan? : Entry → Option (List Detector)
  | .planned phase detectors => if phase = 1 then some detectors else none
  | _ => none

def Entry.firstScan? : Entry → Option Context
  | .fired .scanningLibrary context moment => if moment.phase = 1 then context else none
  | _ => none

/-- The detectors chosen for first phases. -/
def firstPlans (entries : List Entry) : List (List Detector) :=
  entries.filterMap Entry.firstPlan?

def firstScans (entries : List Entry) : List Context :=
  entries.filterMap Entry.firstScan?

@[simp]
theorem firstPlans_append (first second : List Entry) :
    firstPlans (first ++ second) = firstPlans first ++ firstPlans second :=
  List.filterMap_append

@[simp]
theorem firstScans_append (first second : List Entry) :
    firstScans (first ++ second) = firstScans first ++ firstScans second :=
  List.filterMap_append

def Entry.IsLate (entry : Entry) : Prop :=
  entry.firstPlan? = none ∧ entry.firstScan? = none

theorem Entry.late_of_incidental {entry : Entry} (h : entry.isIncidental) : entry.IsLate := by
  cases entry <;> first | exact ⟨rfl, rfl⟩ | cases h

theorem mem_firstScans {entries : List Entry} {context : Context} :
    context ∈ firstScans entries ↔
      ∃ moment, .fired .scanningLibrary (some context) moment ∈ entries ∧ moment.phase = 1 := by
  rw [firstScans, List.mem_filterMap]
  constructor
  · rintro ⟨entry, hentry, hscan⟩
    cases entry with
    | fired event found moment =>
      cases event with
      | scanningLibrary =>
        by_cases hphase : moment.phase = 1
        · rw [Entry.firstScan?, if_pos hphase] at hscan
          exact ⟨moment, hscan ▸ hentry, hphase⟩
        · rw [Entry.firstScan?, if_neg hphase] at hscan
          cases hscan
      | _ => cases hscan
    | _ => cases hscan
  · rintro ⟨moment, hentry, hphase⟩
    exact ⟨_, hentry, by rw [Entry.firstScan?, if_pos hphase]⟩

end Journal

open Journal Engine Run

namespace LibraryScans

variable {plans plans' : List (List Detector)} {scans scans' : List Context} {s s' s'' : State σ}
variable {detectors : List Detector} {main project current : ProjectRef}
  {refs rest : List ProjectRef} {elapsed : Int} {known : ProjectRef → List ProjectRef}

def Wrote (plans : List (List Detector)) (scans : List Context) (s s' : State σ) : Prop :=
  ∃ new, s'.written = s.written ++ new ∧ firstPlans new = plans ∧ firstScans new = scans

namespace Wrote

theorem refl (s : State σ) : Wrote [] [] s s :=
  ⟨[], (List.append_nil _).symm, rfl, rfl⟩

theorem trans (h : Wrote plans scans s s') (h' : Wrote plans' scans' s' s'') :
    Wrote (plans ++ plans') (scans ++ scans') s s'' := by
  obtain ⟨first, hfirst, rfl, rfl⟩ := h
  obtain ⟨second, hsecond, rfl, rfl⟩ := h'
  exact ⟨first ++ second, by rw [hsecond, hfirst, List.append_assoc], firstPlans_append _ _,
    firstScans_append _ _⟩

theorem silent_trans (h : Wrote [] [] s s') (h' : Wrote plans scans s' s'') :
    Wrote plans scans s s'' :=
  h.trans h'

theorem trans_silent (h : Wrote plans scans s s') (h' : Wrote [] [] s' s'') :
    Wrote plans scans s s'' := by
  have hboth := h.trans h'
  rwa [List.append_nil, List.append_nil] at hboth

theorem write (s : State σ) (entry : Entry) :
    Wrote entry.firstPlan?.toList entry.firstScan?.toList s (s.write entry) := by
  refine ⟨[entry], s.written_write entry, ?_, ?_⟩
  · rw [firstPlans, List.filterMap_cons]
    cases entry.firstPlan? <;> rfl
  · rw [firstScans, List.filterMap_cons]
    cases entry.firstScan? <;> rfl

theorem of_later {announced : Entry → Prop} (h : State.Later announced s s')
    (hlate : ∀ entry, announced entry → entry.IsLate) : Wrote [] [] s s' := by
  obtain ⟨new, hnew, hall⟩ := h.wrote
  have hnone : ∀ entry ∈ new, entry.IsLate := fun entry hentry =>
    (hall entry hentry).elim Entry.late_of_incidental (hlate entry)
  exact ⟨new, hnew, List.filterMap_eq_nil_iff.2 fun entry hentry => (hnone entry hentry).1,
    List.filterMap_eq_nil_iff.2 fun entry hentry => (hnone entry hentry).2⟩

theorem of_quiet (h : State.Later Quiet s s') : Wrote [] [] s s' :=
  of_later h fun _ => False.elim

theorem of_events {phase : Nat} (h : State.Later (IsEvent phase) s s') (hphase : phase ≠ 1) :
    Wrote [] [] s s' := by
  refine of_later h ?_
  rintro _ ⟨event, context, moment, rfl, rfl⟩
  cases event with
  | scanningLibrary => exact ⟨rfl, if_neg hphase⟩
  | _ => exact ⟨rfl, rfl⟩

theorem of_plans {phase : Nat} (h : State.Later (IsPlan phase) s s') (hphase : phase ≠ 1) :
    Wrote [] [] s s' := by
  refine of_later h ?_
  rintro _ ⟨detectors, rfl⟩
  exact ⟨if_neg hphase, rfl⟩

end Wrote

/-! ## One root project -/

variable {host : Host σ} {opts : Options}

theorem wrote_fire {event : Event} {context : Option Context}
    (h : (host.engine opts).fire event context s = .ok () s') :
    Wrote [] (Entry.firstScan? (.fired event context s.moment)).toList s s' := by
  obtain ⟨s₁, hfire, hlater⟩ := fire_eq_ok host opts event context s
  rw [hfire] at h
  cases h
  exact (Wrote.write s (.fired event context s.moment)).trans_silent (.of_quiet hlater)

theorem wrote_scans {pass : Pass} (h : State.Later pass.Scans s s') : Wrote [] [] s s' := by
  refine .of_later h ?_
  rintro _ ⟨file, kind, moment, rfl⟩
  exact ⟨rfl, rfl⟩

theorem wrote_checkLibrary {library : ProjectRef} (hphase : s.phase = 1)
    (h : (host.engine opts).checkLibrary detectors main library s = .ok () s') :
    Wrote [] [libraryContext library main] s s' ∧ s'.phase = 1 := by
  obtain ⟨_, s₁, hfire, hrest⟩ := bind_eq_ok h
  have hmoment : s.moment.phase = 1 := hphase
  have hevent := wrote_fire hfire
  rw [Entry.firstScan?, if_pos hmoment] at hevent
  have hlater : State.Later (Pass.Scans ⟨library, main⟩) s₁ s' := by
    refine Frames.ok (.of_keeps fun b => ?_) hrest
    refine (tells_later host opts b _ _).bind fun _ => Keeps.unlessCanceled ?_
    refine Keeps.bind (fun t ht => ht.trans (frames_checkFiles host opts _ t)) fun _ => ?_
    exact (tells_later host opts b _ _).unlessCanceled
  refine ⟨hevent.trans_silent (wrote_scans hlater), ?_⟩
  rw [hlater.phase, (frames_fire host opts _ _).ok hfire |>.phase, hphase]

theorem wrote_eachLibrary {libraries : List ProjectRef} (hphase : s.phase = 1)
    (h : eachUntilCanceled libraries ((host.engine opts).checkLibrary detectors main) s =
      .ok () s') (hs' : s'.canceled = false) :
    Wrote [] (libraries.map (libraryContext · main)) s s' := by
  induction libraries generalizing s with
  | nil =>
    cases h
    exact .refl _
  | cons library rest ih =>
    rw [eachUntilCanceled] at h
    obtain ⟨_, s₁, hfirst, hrest⟩ := bind_eq_ok h
    obtain ⟨hlibrary, hphase₁⟩ := wrote_checkLibrary hphase hfirst
    obtain ⟨-, hrest⟩ := unlessCanceled_eq_ok hrest hs'
    exact hlibrary.trans (ih hphase₁ hrest)

theorem wrote_checkPhase (hphase : s.phase = 1)
    (hscope : s.scope.isSingleFile = false) (hrefs : (s.project project).libraries = some refs)
    (h : (host.engine opts).checkPhase project s = .ok () s') (hs' : s'.canceled = false) :
    Wrote [] (refs.map (libraryContext · project)) s s' := by
  rw [checkPhase, get_bind] at h
  obtain ⟨_, s₁, hfire, h⟩ := bind_eq_ok h
  obtain ⟨_, s₂, hbefore, h⟩ := bind_eq_ok h
  obtain ⟨-, h⟩ := unlessCanceled_eq_ok h hs'
  obtain ⟨_, s₃, hfiles, h⟩ := bind_eq_ok h
  obtain ⟨-, h⟩ := unlessCanceled_eq_ok h hs'
  obtain ⟨_, s₄, hlibraries, h⟩ := bind_eq_ok h
  obtain ⟨hs₄, hafter⟩ := unlessCanceled_eq_ok h hs'
  have hfired := (frames_fire host opts _ _).ok hfire
  have htold := (frames_tellUntilCanceled host opts _ _).ok hbefore
  have hscanned := (frames_checkFiles host opts _).ok hfiles
  have hended := (frames_tellUntilCanceled host opts _ _).ok hafter
  -- Nothing so far has touched the scope, the phase or the libraries that were looked up.
  have hlater : State.Later (fun _ => True) s s₃ :=
    (hfired.trans (htold.mono fun _ _ => trivial)).trans (hscanned.mono fun _ _ => trivial)
  rw [checkLibraries, get_bind, hlater.scope, hscope, if_neg Bool.false_ne_true,
    bind_of_ok (libraries_of_known _ (hlater.libraries hrefs))] at hlibraries
  have hscans := wrote_eachLibrary (hlater.phase.trans hphase) hlibraries hs₄
  have hfirst : Wrote [] [] s s₁ := wrote_fire hfire
  exact hfirst.silent_trans ((Wrote.of_quiet htold).silent_trans
    ((wrote_scans hscanned).silent_trans (hscans.trans_silent (.of_quiet hended))))

/-! ## All phases of all roots -/

theorem checkPhase_of_checkProject
    (h : (host.engine opts).checkProject project s = .ok () s') (hs' : s'.canceled = false) :
    (host.engine opts).checkPhase project s = .ok () s' := by
  obtain ⟨s₁, hphase, ⟨-, rfl⟩ | ⟨hs₁, hreport⟩⟩ := checkProject_cases h
  · exact hphase
  · have hkept := (reportCanceled_later host opts (projectContext project) s₁).canceled hs₁
    rw [hreport, endState_ok, hs'] at hkept
    cases hkept

theorem wrote_reportCanceled {context : Context}
    (h : (host.engine opts).reportCanceled context s = .ok () s') : Wrote [] [] s s' := by
  have hlater := reportCanceled_later host opts context s
  rw [h, endState_ok] at hlater
  refine (Wrote.of_later hlater ?_ : Wrote [] [] { s with cancelReported := true } s')
  rintro _ ⟨report, rfl⟩
  exact ⟨rfl, rfl⟩

theorem wrote_checkProject (hphase : s.phase ≠ 1)
    (h : (host.engine opts).checkProject project s = .ok () s') : Wrote [] [] s s' := by
  obtain ⟨s₁, hrun, hend⟩ := checkProject_cases h
  have hlater := checkPhase_later host opts project s
  rw [hrun, endState_ok] at hlater
  refine (Wrote.of_events hlater hphase).silent_trans ?_
  rcases hend with ⟨-, rfl⟩ | ⟨-, hreport⟩
  · exact .refl _
  · exact wrote_reportCanceled hreport

theorem wrote_extraPhases (fuel : Nat) (hphase : 0 < s.phase)
    (h : (host.engine opts).extraPhases project fuel s = .ok () s') : Wrote [] [] s s' := by
  induction fuel generalizing s with
  | zero =>
    cases h
    exact .refl _
  | succ fuel ih =>
    cases hadvance : (ownSlot.schedule s).advance? with
    | none =>
      rw [extraPhases_of_none _ _ _ hadvance] at h
      cases h
      exact .refl _
    | some advanced =>
      rw [extraPhases_of_some _ _ _ hadvance] at h
      have hadvanced : 1 < advanced.phase := by
        rw [(Schedule.advance?_eq_some hadvance).2, ← State.phase_eq]
        omega
      have hgoOn : ∀ {detectors : List Detector} {t : State σ}, t.phase = advanced.phase →
          (host.engine opts).goOn project fuel detectors t = .ok () s' →
          Wrote [] [] t s' := by
        intro detectors t ht hmore
        rw [goOn, get_bind] at hmore
        split at hmore
        · cases hmore
          exact .refl _
        · exact ih (by omega) hmore
      obtain ⟨_, s₁, hfire, h⟩ := bind_eq_ok h
      rw [bind_of_ok (x := modify State.narrow) rfl, laterPhases, get_bind] at h
      have hphase₁ : s₁.narrow.phase = advanced.phase :=
        ((frames_fire host opts _ _).ok hfire).phase
      have hfired : Wrote [] [] { s with schedule := some advanced } s₁ :=
        wrote_fire hfire
      refine hfired.silent_trans (?_ : Wrote [] [] s₁.narrow s')
      cases hempty : s₁.narrow.scope.isEmpty with
      | true =>
        rw [hempty] at h
        cases h
        exact .refl _
      | false =>
        rw [hempty, if_neg Bool.false_ne_true] at h
        obtain ⟨detectors, s₂, hreplan, h⟩ := bind_eq_ok h
        have hplanned := replan_later host opts project s₁.narrow
        rw [hreplan, endState_ok] at hplanned
        have hphase₂ := hplanned.phase.trans hphase₁
        refine (Wrote.of_plans hplanned (by omega)).silent_trans ?_
        rw [bind_of_ok (x := forgetVisitor) rfl] at h
        refine (?_ : Wrote [] [] { s₂ with memo := none } s')
        cases detectors with
        | nil => exact hgoOn hphase₂ h
        | cons first rest =>
          obtain ⟨_, s₃, hcheck, h⟩ := bind_eq_ok h
          have hphase₃ := phase_checkProject host opts hcheck
          refine (wrote_checkProject ?_ hcheck).silent_trans (hgoOn (hphase₃.trans hphase₂) h)
          show s₂.phase ≠ 1
          omega

theorem wrote_plan {scope : ScopeSet}
    (h : (host.engine opts).plan ownSlot ((host.engine opts).configuration project) scope s =
      .ok detectors s') : Wrote [detectors] [] s s' := by
  obtain ⟨config, s₁, members, s₂, hconfig, hmembers, rfl, rfl⟩ := plan_eq_ok h
  have hconfigured := (frames_configuration host opts project).ok hconfig
  obtain ⟨⟨serials, hmade⟩, -⟩ := (instantiateAll_spec (host.engine opts)
    (s₁.registry.selectedClasses config scope) s₁).1
  rw [hmembers, endState_ok] at hmade
  have hphase : (ownSlot.schedule s₂).phase = 1 := by
    rw [hmade, ← State.phase_eq]
    exact hconfigured.phase
  have hchosen : Wrote [members.map Prod.fst] [] s₁ (s₂.planned scope ⟨members⟩) := by
    rw [State.planned, hphase, hmade]
    exact (Wrote.write s₁ (.logged _)).silent_trans (Wrote.write _ (.planned 1 _))
  exact (Wrote.of_quiet hconfigured).silent_trans hchosen

def due (known : ProjectRef → List ProjectRef) (project : ProjectRef) : List Detector → List Context
  | [] => []
  | _ :: _ => (known project).map (libraryContext · project)

def dueAll (known : ProjectRef → List ProjectRef) (projects : List ProjectRef)
    (plans : List (List Detector)) : List Context :=
  (projects.zip plans).flatMap fun (project, detectors) => due known project detectors

theorem wrote_repeatPhases (hphase : 0 < s.phase)
    (h : (host.engine opts).repeatPhases project s = .ok () s') :
    Wrote [] [] s s' ∧ s'.scope = s.scope := by
  rw [repeatPhases, get_bind] at h
  cases hpending : (ownSlot.schedule s).isPending with
  | false =>
    rw [hpending] at h
    cases h
    exact ⟨.refl _, rfl⟩
  | true =>
    rw [hpending, if_pos rfl] at h
    obtain ⟨t, hextra, rfl⟩ := keepingScope_eq_ok h
    have hwrote := wrote_extraPhases _ hphase hextra
    exact ⟨hwrote, rfl⟩

theorem wrote_checkRoot (hscope : s.scope.isSingleFile = false)
    (hrefs : (s.project project).libraries = some (known project))
    (h : (host.engine opts).checkRoot project s = .ok () s') (hs' : s'.canceled = false) :
    ∃ detectors, Wrote [detectors] (due known project detectors) s s' ∧ s'.scope = s.scope := by
  rw [checkRoot, get_bind] at h
  obtain ⟨detectors, s₁, hplan, h⟩ := bind_eq_ok h
  rw [bind_of_ok (x := forgetVisitor) rfl] at h
  have hplanned := wrote_plan hplan
  have hlater := plan_later host opts project s.scope s
  rw [hplan, endState_ok] at hlater
  have hphase : s₁.phase = 1 := hlater.phase
  have hscope₁ : s₁.scope = s.scope := hlater.scope
  refine ⟨detectors, ?_⟩
  cases detectors with
  | nil =>
    cases h
    exact ⟨hplanned.trans_silent (Wrote.write { s₁ with memo := none } (.logged _)), hscope₁⟩
  | cons first rest =>
    obtain ⟨_, s₂, hcheck, h⟩ := bind_eq_ok h
    obtain ⟨hs₂, hrepeat⟩ := unlessCanceled_eq_ok h hs'
    have hrun := checkPhase_of_checkProject hcheck hs₂
    have hkept := checkPhase_later host opts project { s₁ with memo := none }
    rw [hrun, endState_ok] at hkept
    have hphase₂ : s₂.phase = 1 := hkept.phase.trans hphase
    obtain ⟨hrepeated, hscope'⟩ := wrote_repeatPhases (by omega) hrepeat
    have hscans := wrote_checkPhase (s := { s₁ with memo := none }) hphase
      (by rw [← hscope, ← hscope₁]) (hlater.libraries hrefs) hrun hs₂
    exact ⟨hplanned.trans (hscans.trans_silent hrepeated),
      hscope'.trans (hkept.scope.trans hscope₁)⟩

theorem checkRoots_not_canceled {e : Engine σ} {last : ProjectRef}
    (h : e.checkRoots current rest s = .ok last s')
    (hs' : s'.canceled = false) : s.canceled = false := by
  cases hs : s.canceled with
  | false => rfl
  | true =>
    rw [checkRoots_of_canceled e current rest hs] at h
    cases h
    exact hs.symm.trans hs'

theorem wrote_checkRoots {last : ProjectRef} (hscope : s.scope.isSingleFile = false)
    (hrest : ∀ root ∈ rest, (s.project root).libraries = some (known root))
    (h : (host.engine opts).checkRoots current rest s = .ok last s')
    (hs' : s'.canceled = false) :
    ∃ plans, plans.length = rest.length ∧ Wrote plans (dueAll known rest plans) s s' := by
  induction rest generalizing current s with
  | nil =>
    cases h
    exact ⟨[], rfl, .refl _⟩
  | cons project rest ih =>
    have hs := checkRoots_not_canceled h hs'
    rw [checkRoots, get_bind, hs] at h
    obtain ⟨_, s₁, hroot, h⟩ := bind_eq_ok h
    obtain ⟨hproject, hothers⟩ := List.forall_mem_cons.1 hrest
    obtain ⟨detectors, hfirst, hscope₁⟩ := wrote_checkRoot hscope hproject hroot
      (checkRoots_not_canceled h hs')
    obtain ⟨plans, hlength, hmore⟩ := ih (by rw [hscope₁, hscope]) (fun root hmem =>
      ((lasts_libraries root _).checkRoot host opts project).ok (hothers root hmem) hroot) h
    exact ⟨detectors :: plans, by rw [List.length_cons, List.length_cons, hlength],
      hfirst.trans hmore⟩

/-! ## The whole run -/

theorem wrote_conclude (h : (host.engine opts).conclude elapsed s = .ok () s') :
    Wrote [] [] s s' ∧ (s.canceled = true → s'.canceled = true) := by
  have hlater := (frames_fire host opts _ _).ok h
  have hclosing : Wrote [] [] s (s.closing elapsed) :=
    .of_quiet ((State.Later.refl s).write (.inl rfl))
  refine ⟨hclosing.silent_trans ?_, hlater.canceled⟩
  have hfire := wrote_fire h
  cases hs : s.canceled with
  | false =>
    rw [hs] at hfire
    exact hfire
  | true =>
    rw [hs] at hfire
    exact hfire

theorem wrote_finish
    (h : (host.engine opts).finish current elapsed s = .ok () s') (hs' : s'.canceled = false) :
    s.canceled = false ∧ Wrote [] [] s s' := by
  cases hs : s.canceled with
  | false =>
    rw [finish_of_not_canceled _ _ _ hs] at h
    exact ⟨rfl, (wrote_conclude h).1⟩
  | true =>
    rw [finish_of_canceled _ _ _ hs] at h
    obtain ⟨_, s₁, hreport, hend⟩ := bind_eq_ok h
    have hs₁ := (reportCanceled_later host opts (projectContext current) s).canceled hs
    rw [hreport, endState_ok] at hs₁
    have hstill := (wrote_conclude hend).2 hs₁
    rw [hs'] at hstill
    cases hstill

theorem wrote_checkAll {first : ProjectRef} (hscope : s.scope.isSingleFile = false)
    (hroots : ∀ root ∈ first :: rest, (s.project root).libraries = some (known root))
    (h : (host.engine opts).checkAll first rest elapsed s = .ok () s')
    (hs' : s'.canceled = false) : ∃ plans, plans.length = (first :: rest).length ∧
      Wrote plans (dueAll known (first :: rest) plans) s s' := by
  rw [checkAll_eq] at h
  obtain ⟨_, s₁, hfire, h⟩ := bind_eq_ok h
  obtain ⟨last, s₂, hchecked, hfinish⟩ := bind_eq_ok h
  obtain ⟨hs₂, hended⟩ := wrote_finish hfinish hs'
  have hentered : Wrote [] [] s (s.entered (rest.length + 1)) := Wrote.write
    { s with schedule := some {}, memo := none, cancelReported := false } (.logged _)
  have hstarted : Wrote [] [] s s₁ := hentered.silent_trans (wrote_fire hfire)
  have hlater := (frames_fire host opts _ _).ok hfire
  obtain ⟨plans, hlength, hwrote⟩ := wrote_checkRoots
    (by rw [show s₁.scope = s.scope from hlater.scope, hscope])
    (fun root hroot => hlater.libraries (hroots root hroot)) hchecked hs₂
  exact ⟨plans, hlength, hstarted.silent_trans (hwrote.trans_silent hended)⟩

theorem wrote_analyze {paths : List String} {scope : Option ScopeSet}
    {roots : List ProjectRef} {s₁ : State σ}
    (hroots : ∀ root ∈ roots, (s₁.project root).libraries = some (known root))
    (hresolve : (host.engine opts).seek paths scope s =
      .ok roots s₁) (hrun : (host.engine opts).analyze paths scope elapsed s = .ok () s')
    (hs' : s'.canceled = false) (hscope : (s₁.ready scope roots).scope.isSingleFile = false) :
    (∀ root ∈ roots, (s'.project root).libraries = some (known root)) ∧
      ∃ plans, plans.length = roots.length ∧ Wrote plans (dueAll known roots plans) s s' := by
  have hfound : Wrote [] [] (s.begun scope) s₁ :=
    .of_quiet ((frames_resolve host opts State.canceled paths).ok hresolve)
  have hs₁ : s₁.canceled = false := by
    cases hs₁ : s₁.canceled with
    | false => rfl
    | true =>
      rw [analyze_of_canceled hresolve hs₁] at hrun
      cases hrun
      exact hs₁.symm.trans hs'
  cases roots with
  | nil =>
    rw [analyze_of_nil hresolve hs₁] at hrun
    exact ⟨List.forall_mem_nil _, [], rfl,
      hfound.silent_trans (.of_quiet ((frames_log host opts _ _ _).ok hrun))⟩
  | cons first rest =>
    rw [analyze_of_cons hresolve hs₁] at hrun
    obtain ⟨plans, hlength, hwrote⟩ := wrote_checkAll hscope hroots hrun hs'
    refine ⟨fun root hroot => ?_, plans, hlength, hfound.silent_trans hwrote⟩
    have hcustody := (lasts_libraries root (known root)).custody host opts
    have hends := hcustody.checkAll (s := s₁.ready scope (first :: rest))
      (fun root' (_ : root' ∈ first :: rest) => trivial) elapsed (hroots root hroot)
    rw [hrun] at hends
    exact hends.endState

/-- In a first phase the library was scanned for the project. -/
def Scanned (new : List Entry) (project library : ProjectRef) : Prop :=
  ∃ moment, .fired .scanningLibrary (some (libraryContext library project)) moment ∈ new ∧
    moment.phase = 1

theorem mem_due {library : ProjectRef} : libraryContext library main ∈ due known project detectors ↔
      detectors ≠ [] ∧ project = main ∧ library ∈ known project := by
  cases detectors with
  | nil => exact ⟨fun h => absurd h List.not_mem_nil, fun h => absurd rfl h.1⟩
  | cons first rest =>
    rw [due, List.mem_map]
    constructor
    · rintro ⟨found, hfound, hsame⟩
      cases hsame
      exact ⟨List.cons_ne_nil _ _, rfl, hfound⟩
    · rintro ⟨-, rfl, hlibrary⟩
      exact ⟨library, hlibrary, rfl⟩

/-- Which libraries a run scans that is not canceled in the end: the first phase of a root, if it
has detectors, scans exactly those that the root references itself. So all its libraries are scanned
exactly if it references all of them itself. -/
theorem scanned_iff_links (host : Host σ) (opts : Options) {paths : List String}
    {scope : Option ScopeSet} {elapsed : Int}
    {roots : List ProjectRef} {s₁ : State σ} (hs : s.Sound)
    (hresolve : Discovery.resolve (host.engine opts) State.canceled paths (s.begun scope) =
      .ok roots s₁)
    (hrun : (host.engine opts).analyze paths scope elapsed s = .ok () s')
    (hcanceled : s'.canceled = false)
    (hscope : (s₁.ready scope roots).scope.isSingleFile = false) :
    ∃ new, s'.written = s.written ++ new ∧ (firstPlans new).length = roots.length ∧
      ∀ root detectors, (root, detectors) ∈ roots.zip (firstPlans new) → detectors ≠ [] →
        (∀ library, Scanned new root library ↔ s'.Links root library) ∧
        ((∀ library, Discovery.References (host.engine opts) s' root library →
            Scanned new root library) ↔
          ∀ library, Discovery.References (host.engine opts) s' root library →
            s'.Links root library) := by
  have hknows := Discovery.resolve_knows
    (State.Sound.mk (s := s.begun scope) hs.cache hs.libraries) hresolve
  let known (root : ProjectRef) := (s₁.project root).libraries.getD []
  have hknown : ∀ root ∈ roots, (s₁.project root).libraries = some (known root) := by
    intro root hroot
    obtain ⟨refs, hrefs⟩ := hknows root hroot
    simp only [known, hrefs, Option.getD_some]
  obtain ⟨hlasting, _, hlength, new, hnew, rfl, hscans⟩ :=
    wrote_analyze hknown hresolve hrun hcanceled hscope
  refine ⟨new, hnew, hlength, fun root detectors hentry hdetectors => ?_⟩
  have hrefs := hlasting root (List.of_mem_zip hentry).1
  have hscanned : ∀ library, Scanned new root library ↔ s'.Links root library := by
    intro library
    rw [Scanned, ← mem_firstScans, hscans, dueAll, List.mem_flatMap]
    constructor
    · rintro ⟨⟨other, chosen⟩, -, hdue⟩
      obtain ⟨-, rfl, hlibrary⟩ := mem_due.1 hdue
      exact ⟨_, hrefs, hlibrary⟩
    · rintro ⟨found, hfound, hlibrary⟩
      cases hrefs.symm.trans hfound
      exact ⟨(root, detectors), hentry, mem_due.2 ⟨hdetectors, rfl, hlibrary⟩⟩
  exact ⟨hscanned, forall₂_congr fun library _ => hscanned library⟩

/-! ## References two deep -/

def manifestEngine : Engine Scripted.Memory :=
  (Scripted.Embedding.host { detectors := [("D", {})] }).engine ⟨false⟩

def deep : State Scripted.Memory :=
  fresh {} (sideBySide [("a", "android.library.reference.1=../b"),
    ("b", "android.library.reference.1=../c"), ("c", "")]) ⟨[manifestIssue]⟩

def deepScope : Option ScopeSet :=
  some (.ofList [.manifest, .javaFile])

def deepRun : Outcome Scripted.Memory Unit :=
  manifestEngine.analyze ["a"] deepScope 0 deep

theorem resolve_deep :
    result? (Discovery.resolve manifestEngine State.canceled ["a"] (deep.begun deepScope)) =
      some [⟨0, "/w/a"⟩] := by
  decide +kernel

theorem deepRun_outcome :
    (result? deepRun = some () ∧ (endState deepRun).canceled = false) ∧
      (firstPlans (endState deepRun).written = [[⟨"D", 1⟩]] ∧
        (firstScans (endState deepRun).written).map Context.project = [⟨1, "/w/b"⟩]) ∧
      result? (manifestEngine.allLibraries ⟨0, "/w/a"⟩ (endState deepRun)) =
        some [⟨1, "/w/b"⟩, ⟨2, "/w/c"⟩] := by
  decide +kernel

/-- The run on the three projects scans for the root what it references itself. -/
theorem scanned_iff_links_deep :
    ∃ s₁ s' new,
      Discovery.resolve manifestEngine State.canceled ["a"] (deep.begun deepScope) =
        .ok [⟨0, "/w/a"⟩] s₁ ∧
      manifestEngine.analyze ["a"] deepScope 0 deep = .ok () s' ∧ s'.canceled = false ∧
      (s₁.ready deepScope [⟨0, "/w/a"⟩]).scope.isSingleFile = false ∧
      s'.written = deep.written ++ new ∧ firstPlans new = [[⟨"D", 1⟩]] ∧
      (∀ library, Scanned new ⟨0, "/w/a"⟩ library ↔ s'.Links ⟨0, "/w/a"⟩ library) ∧
      ((∀ library, Discovery.References manifestEngine s' ⟨0, "/w/a"⟩ library →
          Scanned new ⟨0, "/w/a"⟩ library) ↔
        ∀ library, Discovery.References manifestEngine s' ⟨0, "/w/a"⟩ library →
          s'.Links ⟨0, "/w/a"⟩ library) := by
  have hresolve := eq_ok_of_result? resolve_deep
  obtain ⟨⟨hcompletes, hcanceled⟩, ⟨hplanned, -⟩, -⟩ := deepRun_outcome
  have hrun := eq_ok_of_result? hcompletes
  have hscope : (State.ready deepScope [⟨0, "/w/a"⟩] (endState (Discovery.resolve manifestEngine
      State.canceled ["a"] (deep.begun deepScope)))).scope.isSingleFile = false := by decide
  obtain ⟨new, hnew, -, hall⟩ := scanned_iff_links _ _ (sound_fresh _ _ _) hresolve hrun
    hcanceled hscope
  have hplans : firstPlans new = [[⟨"D", 1⟩]] := by
    rw [← hplanned, hnew]
    rfl
  rw [hplans] at hall
  exact ⟨_, _, new, hresolve, hrun, hcanceled, hscope, hnew, hplans,
    hall _ [⟨"D", 1⟩] List.mem_cons_self (List.cons_ne_nil _ _)⟩

/-- The library of the library is a library of the root, and is not scanned. -/
theorem deep_library_not_scanned :
    ∃ s₁ s' new,
      Discovery.resolve manifestEngine State.canceled ["a"] (deep.begun deepScope) =
        .ok [⟨0, "/w/a"⟩] s₁ ∧
      manifestEngine.analyze ["a"] deepScope 0 deep = .ok () s' ∧ s'.canceled = false ∧
      (s₁.ready deepScope [⟨0, "/w/a"⟩]).scope.isSingleFile = false ∧
      s'.written = deep.written ++ new ∧ firstPlans new = [[⟨"D", 1⟩]] ∧
      Discovery.References manifestEngine s' ⟨0, "/w/a"⟩ ⟨2, "/w/c"⟩ ∧
      ¬ Scanned new ⟨0, "/w/a"⟩ ⟨2, "/w/c"⟩ := by
  obtain ⟨⟨hcompletes, hcanceled⟩, ⟨hplanned, hscans⟩, hreferences⟩ := deepRun_outcome
  refine ⟨_, _, (endState deepRun).written, eq_ok_of_result? resolve_deep,
    eq_ok_of_result? hcompletes, hcanceled, by decide, (List.nil_append _).symm, hplanned,
    ⟨_, _, eq_ok_of_result? hreferences, by decide⟩, fun hscanned => ?_⟩
  have hmem := List.mem_map_of_mem (f := Context.project) (mem_firstScans.2 hscanned)
  rw [hscans] at hmem
  cases List.mem_singleton.1 hmem

end LibraryScans
end ProjectLint
