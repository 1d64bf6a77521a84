/-
Brackets in a whole run. Whatever callbacks do and whenever they cancel the run, what a detector
hears of files it hears in brackets. A run that is not canceled also closes the brackets around
projects and libraries: in each phase the chosen detectors hear, each once, that the project begins
and that it ends, and in between, for each library in turn, that the library begins and ends, with
the files of the library checked inside.
-/
import ProjectLint.Proofs.Brackets.Stages
import ProjectLint.Proofs.LibraryPasses
import ProjectLint.Proofs.Requests
import ProjectLint.Proofs.Restriction

open scoped Computability

namespace ProjectLint
namespace Brackets

open Journal Run Engine

variable {t : State σ} {detectors : List Detector} {root : ProjectRef}

/-! ## The words of a completed phase -/

def library (root : ProjectRef) (detectors : List Detector) (ref : ProjectRef) : Language Mark :=
  {[.event .scanningLibrary (some (libraryContext ref root))]} *
    ({all detectors (.beforeLibrary (libraryContext ref root))} *
      (files ⟨ref, root⟩ * {all detectors (.afterLibrary (libraryContext ref root))}))

def block (root : ProjectRef) (detectors : List Detector) : Language Mark :=
  {[.event .scanningProject (some (projectContext root))]} *
    ({all detectors (.beforeProject (projectContext root))} *
      (files ⟨root, root⟩ * ((⨆ ref, library root detectors ref)∗ *
        {all detectors (.afterProject (projectContext root))})))

def phase : Language Mark :=
  {word | ∃ number detectors root, detectors ≠ [] ∧ detectors.Nodup ∧
    word ∈ {[.plan number detectors]} * block root detectors}

def pause : Language Mark :=
  {word | (∃ event context, event ∈ [Event.starting, .newPhase, .completed] ∧
      word = [.event event context]) ∨ ∃ number, word = [.plan number []]}

/-- The phases of a run, with pauses between them. -/
def course : Language Mark :=
  (pause + phase)∗

theorem pause_le_course : pause ≤ course :=
  le_trans le_self_add le_kstar

theorem phase_le_course : phase ≤ course :=
  le_trans le_add_self le_kstar

theorem course_mul_course : course * course = course :=
  kstar_mul_kstar _

theorem nil_mem_course : [] ∈ course :=
  Language.nil_mem_kstar _

/-! ## One phase -/

variable {s s' : State σ} {M M' : Language Mark}

theorem one_le_bracketed : 1 ≤ bracketed :=
  fun w hw => (Language.mem_one w).1 hw ▸ closed_bracketed.nil

theorem all_mem_bracketed (detectors : List Detector) {hook : Hook}
    (hhook : hook.isOnFile = false) : all detectors hook ∈ bracketed := by
  refine fun detector => .of_aside fun mark hmark => ?_
  obtain ⟨called, -, rfl⟩ := List.mem_map.1 hmark
  exact fun _ => hhook

theorem bracketed_mul_bracketed : bracketed * bracketed ≤ bracketed := by
  intro w hw
  obtain ⟨first, hfirst, second, hsecond, rfl⟩ := Language.mem_mul.1 hw
  exact closed_bracketed.append hfirst hsecond

theorem Tells.follow {x : Run σ α} {f : α → Run σ β} {Q : α → Prop} {R : β → Prop}
    (hx : Tells bracketed M x s Q) (hf : ∀ a s', Q a → Tells bracketed M' (f a) s' R) :
    Tells bracketed (M * M') (x >>= f) s R :=
  (hx.bind hf).mono bracketed_mul_bracketed le_rfl

theorem Tells.goOn {x : Run σ α} {f : α → Run σ β} {Q : α → Prop} {R : β → Prop}
    (hx : Tells bracketed course x s Q) (hf : ∀ a s', Q a → Tells bracketed course (f a) s' R) :
    Tells bracketed course (x >>= f) s R :=
  (hx.follow hf).mono le_rfl course_mul_course.le

theorem Tells.rest {x : Run σ α} {Q : α → Prop} (hx : Tells 1 1 x s Q) :
    Tells bracketed course x s Q :=
  hx.mono one_le_bracketed fun w hw => (Language.mem_one w).1 hw ▸ nil_mem_course

variable {host : Host σ} {opts : Options}

theorem tells_announce (event : Event) (context : Option Context) :
    Tells bracketed {[.event event context]} ((host.engine opts).fire event context) s := by
  refine (tells_fire event context).mono ?_ le_rfl
  rintro _ rfl detector
  exact .aside trivial .nil

theorem tells_tellUntilCanceled (detectors : List Detector) {hook : Hook}
    (hhook : hook.isOnFile = false) :
    Tells bracketed {all detectors hook}
      ((host.engine opts).tellUntilCanceled detectors hook) s := by
  induction detectors generalizing s with
  | nil => exact (Tells.pure trivial).mono one_le_bracketed le_rfl
  | cons detector rest ih =>
    have hfirst : Tells bracketed {[.hook detector hook]}
        ((host.engine opts).ask detector hook) s := by
      refine (tells_ask detector hook).mono ?_ le_rfl
      rintro _ rfl
      exact all_mem_bracketed [detector] hhook
    exact (hfirst.follow fun _ _ _ => .unlessCanceled closed_bracketed.nil ih).mono le_rfl
      (singleton_mul _ _)

theorem tells_checked (pass : Pass) :
    Tells bracketed (files pass) ((host.engine opts).checkFiles pass) s :=
  (tells_checkFiles pass).mono (files_le_bracketed pass) le_rfl

theorem tells_checkLibrary (detectors : List Detector) (root ref : ProjectRef) :
    Tells bracketed (library root detectors ref)
      ((host.engine opts).checkLibrary detectors root ref) s := by
  refine (tells_announce _ _).follow fun _ _ _ => ?_
  refine (tells_tellUntilCanceled detectors rfl).follow fun _ _ _ =>
    .unlessCanceled closed_bracketed.nil ?_
  exact (tells_checked _).follow fun _ _ _ =>
    .unlessCanceled closed_bracketed.nil (tells_tellUntilCanceled detectors rfl)

theorem tells_checkLibraries (detectors : List Detector) (root : ProjectRef) :
    Tells bracketed (⨆ ref, library root detectors ref)∗
      ((host.engine opts).checkLibraries detectors root) s := by
  have hnil : 1 ≤ (⨆ ref, library root detectors ref)∗ := one_le_kstar
  have heach : ∀ (refs : List ProjectRef) (s : State σ),
      Tells bracketed (⨆ ref, library root detectors ref)∗
        (eachUntilCanceled refs ((host.engine opts).checkLibrary detectors root)) s := by
    intro refs
    induction refs with
    | nil => exact fun _ => (Tells.pure trivial).mono one_le_bracketed hnil
    | cons ref rest ih =>
      intro s
      refine Tells.mono (.follow (tells_checkLibrary detectors root ref)
        fun _ s' _ => .unlessCanceled closed_bracketed.nil (ih s')) le_rfl ?_
      exact le_trans (mul_le_mul_left (le_iSup (library root detectors) ref) _) mul_kstar_le_kstar
  refine .inspect (.ite _ ((Tells.pure trivial).mono one_le_bracketed hnil) ?_)
  exact .still_bind (fun b => (finds_still host b).libraries opts root) heach

theorem tells_checkPhase (root : ProjectRef) :
    Tells bracketed (block root s.selection.detectors) ((host.engine opts).checkPhase root) s := by
  refine .inspect ((tells_announce _ _).follow fun _ _ _ => ?_)
  refine (tells_tellUntilCanceled _ rfl).follow fun _ _ _ =>
    .unlessCanceled closed_bracketed.nil ?_
  refine (tells_checked _).follow fun _ _ _ =>
    .unlessCanceled closed_bracketed.nil ?_
  exact (tells_checkLibraries _ root).follow fun _ _ _ =>
    .unlessCanceled closed_bracketed.nil (tells_tellUntilCanceled _ rfl)

theorem still_reportCanceled (context : Context) (b : State σ) :
    Keeps (Still b) ((host.engine opts).reportCanceled context) := by
  have hbears := (finds_still host b).toBears
  exact .inspect fun s _ => .ite _ (.pure ()) (Keeps.bind (.modify fun hs => { hs with })
    fun _ t ht => hbears.submit (hbears.serves opts) (ht.write rfl))

theorem tells_checkProject (root : ProjectRef) :
    Tells bracketed (block root s.selection.detectors)
      ((host.engine opts).checkProject root) s := by
  have hreport : ∀ t : State σ, Tells bracketed 1 (get >>= fun u : State σ =>
      if u.canceled then (host.engine opts).reportCanceled (projectContext root)
      else pure ()) t := fun t => by
    refine .inspect (Tells.mono (.ite _ ?_ (.pure trivial)) one_le_bracketed le_rfl)
    exact .still (still_reportCanceled (projectContext root))
  rw [← mul_one (block root s.selection.detectors)]
  exact (tells_checkPhase root).follow fun _ _ _ => hreport _

/-! ## Choices of detectors -/

theorem Fit.rescheduled {schedule : Schedule} (hs : Fit s)
    (hselection : schedule.selection = (ownSlot.schedule s).selection)
    (hrequested : schedule.requested.Nodup) : Fit { s with schedule := some schedule } :=
  ⟨hselection ▸ hs.selected, hrequested, hs.remembered⟩

structure Chose (s s' : State σ) (detectors : List Detector) : Prop where
  marked : ∃ number, Marked {[.plan number detectors]} {[.plan number detectors]} s s'
  nodup : detectors.Nodup
  selection : s'.selection.detectors = detectors

theorem Marked.still {L : Language Mark} (h : Marked L M s t) (hstill : Still t s') :
    Marked L M s s' := by
  rw [← mul_one L, ← mul_one M]
  exact h.trans (hstill.marked h.fit)

theorem chose_of_choose {selection : Selection} (ht : Fit t)
    (hnodup : selection.detectors.Nodup) (h : ownSlot.choose selection t = .ok () s') :
    Chose t s' selection.detectors := by
  cases h
  refine ⟨⟨(ownSlot.schedule t).phase, ?_⟩, hnodup, rfl⟩
  let chosen : State σ := { t with schedule := some { ownSlot.schedule t with selection } }
  have hfit : Fit chosen := ⟨hnodup, ht.requested, ht.remembered⟩
  have hmark : mark? (.planned (ownSlot.schedule t).phase selection.detectors) =
      some (.plan (ownSlot.schedule t).phase selection.detectors) := rfl
  exact (Still.after hfit hmark (.refl _)).of_state rfl rfl

theorem Chose.of_still (hs : Fit s) (hstill : Still s t)
    (h : Chose t s' detectors) : Chose s s' detectors := by
  obtain ⟨number, hmarked⟩ := h.marked
  have hboth := (hstill.marked hs).trans hmarked
  rw [one_mul] at hboth
  exact ⟨⟨number, hboth⟩, h.nodup, h.selection⟩

theorem Chose.of_state (h : Chose t s' detectors)
    (hwritten : t.written = s.written) (hcanceled : t.canceled = s.canceled) :
    Chose s s' detectors := by
  obtain ⟨number, hmarked⟩ := h.marked
  exact ⟨⟨number, hmarked.of_state hwritten hcanceled⟩, h.nodup, h.selection⟩

theorem still_select (config : Configuration) (scope : ScopeSet) (b : State σ) :
    Keeps (Still b) ((host.engine opts).select config scope) := by
  have hone : ∀ name, Keeps (Still b) ((host.engine opts).instantiate name) := by
    refine fun name => .inspect fun s hs => ?_
    cases (host.engine opts).host.construct name s.host with
    | error fault => exact .throw fault
    | ok _ => exact fun _ _ => { hs with }
  have hall : ∀ classes, Keeps (Still b) ((host.engine opts).instantiateAll classes) := by
    intro classes
    induction classes with
    | nil => exact .pure []
    | cons entry rest ih => exact (hone entry.1).bind fun _ => ih.bind fun _ => .pure _
  exact .inspect fun s _ => (hall _).bind fun members =>
    (Keeps.record fun hs => hs.write rfl).bind fun _ => .pure _

theorem nodup_select {config : Configuration} {scope : ScopeSet} {selection : Selection}
    (h : (host.engine opts).select config scope s = .ok selection s') :
    selection.detectors.Nodup := by
  rw [select, get_bind] at h
  obtain ⟨members, s₁, hmembers, h⟩ := bind_eq_ok h
  cases h
  obtain ⟨hclasses, -⟩ := (instantiateAll_spec _ _ _).2 members s₁ hmembers
  have hnames := s.registry.nodup_selectedClasses config scope
  rw [← hclasses, List.map_map] at hnames
  refine List.Nodup.of_map Detector.className ?_
  rw [Selection.detectors, List.map_map]
  exact hnames

theorem chose_plan {scope : ScopeSet} (hs : Fit s)
    (h : (host.engine opts).plan ownSlot ((host.engine opts).configuration root) scope s =
      .ok detectors s') : Chose s s' detectors := by
  rw [plan, bind_of_ok (x := ownSlot.change restarted) rfl] at h
  obtain ⟨config, s₁, hconfig, h⟩ := bind_eq_ok h
  obtain ⟨selection, s₂, hselect, h⟩ := bind_eq_ok h
  obtain ⟨_, s₃, hchoose, h⟩ := bind_eq_ok h
  obtain ⟨_, s₄, hcheck, h⟩ := bind_eq_ok h
  cases h
  obtain rfl := checkSelection_eq_ok hcheck
  have hfit : Fit s.restarted := hs.rescheduled rfl List.nodup_nil
  have hbears := (finds_still host s.restarted).toBears
  have hasked : Still s.restarted s₁ :=
    (hbears.configuration (hbears.serves opts) root).ok (.refl _) hconfig
  have hstill : Still s.restarted s₂ :=
    (still_select config scope s.restarted).ok hasked hselect
  have hchose := chose_of_choose (hstill.fit hfit) (nodup_select hselect) hchoose
  exact (hchose.of_still hfit hstill).of_state rfl rfl

theorem chose_replan (hs : Fit s)
    (h : (host.engine opts).replan ownSlot ((host.engine opts).configuration root) s =
      .ok detectors s') : Chose s s' detectors := by
  rw [replan, get_bind, bind_of_ok (x := ownSlot.change _) rfl] at h
  obtain ⟨config, s₁, hconfig, h⟩ := bind_eq_ok h
  rw [get_bind] at h
  obtain ⟨_, s₂, hchoose, h⟩ := bind_eq_ok h
  rw [get_bind] at h
  obtain ⟨_, s₃, hnote, h⟩ := bind_eq_ok h
  obtain ⟨_, s₄, hcheck, h⟩ := bind_eq_ok h
  cases h
  obtain rfl := checkSelection_eq_ok hcheck
  let spent : State σ := { s with schedule := some { ownSlot.schedule s with requests := none } }
  have hfit : Fit spent := hs.rescheduled rfl List.nodup_nil
  have hbears := (finds_still host spent).toBears
  have hasked : Still spent s₁ :=
    (hbears.configuration (hbears.serves opts) root).ok (.refl _) hconfig
  have hnodup : (Schedule.repeating s₁.registry config
      (ownSlot.schedule s).requested).detectors.Nodup := by
    rw [Schedule.detectors_repeating]
    exact hs.requested.filter _
  have hchose := ((chose_of_choose (hasked.fit hfit) hnodup hchoose).of_still hfit
    hasked).of_state (s := s) rfl rfl
  cases hnote
  obtain ⟨number, hmarked⟩ := hchose.marked
  exact ⟨⟨number, hmarked.still ((Still.refl _).write rfl)⟩, hchose.nodup, hchose.selection⟩

/-! ## All phases of all projects -/

theorem Chose.passed (h : Chose s s' []) : Marked bracketed course s s' := by
  obtain ⟨number, hmarked⟩ := h.marked
  refine hmarked.mono ?_ (le_trans ?_ pause_le_course)
  · rintro _ rfl detector
    exact .aside trivial .nil
  · rintro _ rfl
    exact .inr ⟨number, rfl⟩

theorem Fit.forgotten (hs : Fit s) : Fit { s with memo := none } :=
  ⟨hs.selected, hs.requested, fun _ _ hmemo => by cases hmemo⟩

theorem Chose.checked (h : Chose s t detectors)
    (hdetectors : detectors ≠ []) {f : Unit → Run σ Unit}
    (hf : ∀ t, Tells bracketed course (f ()) t)
    (hrun : ((host.engine opts).checkProject root >>= f) { t with memo := none } =
      .ok () s') : Marked bracketed course s s' := by
  obtain ⟨number, hmarked⟩ := h.marked
  have hrest : Marked bracketed (block root detectors * course) t s' := by
    rw [← h.selection]
    refine Marked.of_state (t := { t with memo := none }) ?_ rfl rfl
    exact ((tells_checkProject root).follow (fun _ t _ => hf t) hmarked.fit.forgotten () s' hrun).1
  refine (hmarked.trans hrest).mono ?_ ?_
  · refine le_trans (mul_le_mul_left ?_ _) bracketed_mul_bracketed
    rintro _ rfl detector
    exact .aside trivial .nil
  · rw [← mul_assoc]
    refine le_trans (mul_le_mul_left (le_trans ?_ phase_le_course) _) course_mul_course.le
    exact fun word hword => ⟨number, detectors, root, hdetectors, h.nodup, hword⟩

theorem tells_pause (event : Event) (hevent : event ∈ [Event.starting, .newPhase, .completed])
    (context : Option Context) :
    Tells bracketed course ((host.engine opts).fire event context) s := by
  refine (tells_announce event context).mono le_rfl (le_trans ?_ pause_le_course)
  rintro _ rfl
  exact .inl ⟨event, context, hevent, rfl⟩

theorem Fit.advanced {advanced : Schedule} (hs : Fit s)
    (h : (ownSlot.schedule s).advance? = some advanced) :
    Fit { s with schedule := some advanced } := by
  rw [Schedule.advance?] at h
  by_cases hlast : Options.maxPhases ≤ (ownSlot.schedule s).phase
  · rw [if_pos hlast] at h
    cases h
  · rw [if_neg hlast] at h
    cases h
    exact hs.rescheduled rfl hs.requested

theorem tells_extraPhases (root : ProjectRef) (fuel : Nat) :
    Tells bracketed course ((host.engine opts).extraPhases root fuel) s := by
  induction fuel generalizing s with
  | zero => exact .rest (.pure trivial)
  | succ fuel ih =>
    have hgoOn : ∀ detectors (s : State σ),
        Tells bracketed course ((host.engine opts).goOn root fuel detectors) s :=
      fun detectors s => .inspect (.ite _ (.rest (.pure trivial)) ih)
    have hlater : ∀ s : State σ,
        Tells bracketed course ((host.engine opts).laterPhases root fuel) s := by
      refine fun s => .inspect (.ite _ (.rest (.pure trivial)) ?_)
      intro hs a s' h
      obtain ⟨detectors, t, hreplan, h⟩ := bind_eq_ok h
      have hchose := chose_replan hs hreplan
      obtain ⟨_, hmarked⟩ := hchose.marked
      rw [bind_of_ok (x := forgetVisitor) rfl] at h
      cases detectors with
      | nil =>
        have hrest := (hgoOn [] _ hmarked.fit.forgotten a s' h).1
        have hboth := hchose.passed.trans (hrest.of_state (s := t) rfl rfl)
        exact ⟨hboth.mono bracketed_mul_bracketed course_mul_course.le, trivial⟩
      | cons first rest =>
        exact ⟨hchose.checked (List.cons_ne_nil first rest) (hgoOn (first :: rest)) h, trivial⟩
    intro hs a s' h
    cases hadvance : (ownSlot.schedule s).advance? with
    | none =>
      rw [extraPhases_of_none _ _ _ hadvance] at h
      cases h
      exact ⟨.refl hs closed_bracketed.nil fun _ => nil_mem_course, trivial⟩
    | some advanced =>
      rw [extraPhases_of_some _ _ _ hadvance] at h
      have hnarrowed : ∀ t : State σ, Tells bracketed course (do
          modify State.narrow
          (host.engine opts).laterPhases root fuel) t := fun t =>
        .modify_bind rfl rfl (fun ht => { ht with }) (hlater t.narrow)
      have hannounced := (tells_pause .newPhase (by decide) _).goOn
        (fun _ t _ => hnarrowed t) (hs.advanced hadvance) a s' h
      exact ⟨hannounced.1.of_state rfl rfl, trivial⟩

theorem tells_checkRoot (root : ProjectRef) :
    Tells bracketed course ((host.engine opts).checkRoot root) s := by
  have hrepeat : ∀ s : State σ,
      Tells bracketed course ((host.engine opts).repeatPhases root) s := by
    refine fun s => .inspect (.ite _ ?_ (.rest (.pure trivial)))
    intro hs a s' h
    obtain ⟨t, ht, rfl⟩ := keepingScope_eq_ok h
    have hend := (tells_extraPhases root _ hs a t ht).1
    exact ⟨{ hend with }, trivial⟩
  intro hs a s' h
  rcases checkRoot_cases (host.engine opts) root s with
    ⟨fault, t, -, herror⟩ | ⟨detectors, t, hplan, ⟨rfl, hpassed⟩ | ⟨hdetectors, hchecked⟩⟩
  · rw [herror] at h
    cases h
  · rw [hpassed] at h
    cases h
    have hmarked := (chose_plan hs hplan).passed
    refine ⟨?_, trivial⟩
    have hforgotten : Marked bracketed course s { t with memo := none } :=
      ⟨hmarked.wrote, hmarked.canceled, hmarked.fit.forgotten⟩
    exact hforgotten.still ((Still.refl _).write rfl)
  · rw [hchecked] at h
    exact ⟨(chose_plan hs hplan).checked hdetectors
      (fun t => .unlessCanceled closed_bracketed.nil (hrepeat t)) h, trivial⟩

theorem tells_checkRoots (current : ProjectRef) (roots : List ProjectRef) :
    Tells bracketed course ((host.engine opts).checkRoots current roots) s := by
  induction roots generalizing current s with
  | nil => exact .rest (.pure trivial)
  | cons root rest ih =>
    exact .inspect (.ite _ (.rest (.pure trivial))
      ((tells_checkRoot root).goOn fun _ _ _ => ih root))

theorem tells_finish (current : ProjectRef) (elapsed : Int) :
    Tells bracketed course ((host.engine opts).finish current elapsed) s := by
  have hconclude : ∀ s : State σ,
      Tells bracketed course ((host.engine opts).conclude elapsed) s := by
    intro s hs a s' h
    have hclosing : Still s (s.closing elapsed) := (Still.refl s).write rfl
    have hfit : Fit (s.closing elapsed) := hclosing.fit hs
    cases hcanceled : s.canceled with
    | true =>
      have hfired := (tells_announce _ none hfit a s' h).1
      have hboth := (hclosing.marked hs).trans hfired
      rw [one_mul, one_mul] at hboth
      have hend : s'.canceled = true := hboth.canceled hcanceled
      obtain ⟨new, hnew, hword, -⟩ := hboth.wrote
      refine ⟨⟨⟨new, hnew, hword, fun hlive => ?_⟩, hboth.canceled, hboth.fit⟩, trivial⟩
      rw [hend] at hlive
      cases hlive
    | false =>
      rw [conclude, hcanceled] at h
      have hfired := (tells_pause .completed (by decide) none hfit a s' h).1
      have hboth := (hclosing.marked hs).trans hfired
      rw [one_mul, one_mul] at hboth
      exact ⟨hboth, trivial⟩
  intro hs a s' h
  cases hcanceled : s.canceled with
  | true =>
    rw [finish_of_canceled _ _ _ hcanceled] at h
    exact Tells.still_bind (still_reportCanceled (projectContext current))
      (fun _ => hconclude) hs a s' h
  | false =>
    rw [finish_of_not_canceled _ _ _ hcanceled] at h
    exact hconclude s hs a s' h

theorem fit_unplanned (s : State σ) :
    Fit { s with schedule := some {}, memo := none, cancelReported := false } :=
  ⟨List.nodup_nil, List.nodup_nil, fun _ _ hmemo => by cases hmemo⟩

theorem marked_entered (s : State σ) (count : Nat) : Marked 1 1 s (s.entered count) :=
  (((Still.refl _).write rfl).marked (fit_unplanned s)).of_state rfl rfl

theorem marked_checkAll (first : ProjectRef) (rest : List ProjectRef) (elapsed : Int)
    (h : (host.engine opts).checkAll first rest elapsed s = .ok () s') :
    Marked bracketed course s s' := by
  rw [checkAll_eq] at h
  have hentered := marked_entered s (rest.length + 1)
  have hrun := ((tells_pause .starting (by decide) none).goOn (fun _ _ _ =>
    (tells_checkRoots first (first :: rest)).goOn fun current _ _ =>
      tells_finish current elapsed) hentered.fit () s' h).1
  have hboth := hentered.trans hrun
  rwa [one_mul, one_mul] at hboth

/-- What a detector hears of files it hears in brackets, in every run that returns. In a run that
is not canceled, the brackets around projects and libraries are closed as well. -/
theorem analyze_brackets_hooks (host : Host σ) (opts : Options) (paths : List String)
    (scope : Option ScopeSet) (elapsed : Int)
    (h : (host.engine opts).analyze paths scope elapsed s = .ok () s') :
    ∃ new, s'.written = s.written ++ new ∧
      (∀ detector, Bracketed detector (marks new)) ∧
      (s'.canceled = false → marks new ∈ course) := by
  cases hresolve : Discovery.resolve (host.engine opts) State.canceled paths (s.begun scope) with
  | error fault t =>
    rw [analyze_of_error hresolve] at h
    cases h
  | ok roots t =>
    have hfound : Still (s.begun scope) t :=
      ((finds_still host _).resolve opts State.canceled paths).ok (.refl _) hresolve
    obtain ⟨found, hwritten, hsilent⟩ := hfound.wrote
    have hquiet : Still (s.begun scope) s' → ∃ new, s'.written = s.written ++ new ∧
        (∀ detector, Bracketed detector (marks new)) ∧
        (s'.canceled = false → marks new ∈ course) := by
      rintro hstill
      obtain ⟨new, hnew, hmarks⟩ := hstill.wrote
      exact ⟨new, hnew, fun _ => hmarks ▸ .nil, fun _ => hmarks ▸ nil_mem_course⟩
    cases hcanceled : t.canceled with
    | true =>
      rw [analyze_of_canceled hresolve hcanceled] at h
      cases h
      exact hquiet hfound
    | false =>
      cases roots with
      | nil =>
        rw [analyze_of_nil hresolve hcanceled] at h
        exact hquiet ((still_log _ _ _ _).ok hfound h)
      | cons first rest =>
        rw [analyze_of_cons hresolve hcanceled] at h
        obtain ⟨new, hnew, hword, hended⟩ :=
          (marked_checkAll first rest elapsed h).wrote
        refine ⟨found ++ new, ?_, ?_, ?_⟩
        · rw [hnew, ← List.append_assoc]
          exact congrArg (· ++ new) hwritten
        · rw [marks_append, hsilent]
          exact hword
        · rw [marks_append, hsilent]
          exact hended

def calls (word : List Mark) : List (String × Option String) :=
  word.filterMap fun mark =>
    match mark with
    | .hook _ hook => some (hook.name, hook.context?.map Context.file)
    | _ => none

def pairedRun : Outcome Scripted.Memory Unit :=
  (Restriction.watchfulHost.engine ⟨false⟩).analyze ["a"] (some (.ofList [.manifest, .javaFile])) 0
    (LibraryPasses.referring "android.library.reference.1=../b")

theorem analyze_brackets_hooks_paired :
    (result? pairedRun = some () ∧ (endState pairedRun).canceled = false) ∧
      calls (marks (endState pairedRun).written) =
        [("beforeCheckProject", some "/w/a"),
          ("getApplicableElements", none), ("getApplicableAttributes", none),
          ("beforeCheckFile", some "/w/a/AndroidManifest.xml"),
          ("visitDocument", some "/w/a/AndroidManifest.xml"),
          ("afterCheckFile", some "/w/a/AndroidManifest.xml"),
          ("beforeCheckLibraryProject", some "/w/b"),
          ("getApplicableElements", none), ("getApplicableAttributes", none),
          ("beforeCheckFile", some "/w/b/AndroidManifest.xml"),
          ("visitDocument", some "/w/b/AndroidManifest.xml"),
          ("afterCheckFile", some "/w/b/AndroidManifest.xml"),
          ("afterCheckLibraryProject", some "/w/b"), ("afterCheckProject", some "/w/a")] ∧
      (∀ detector, Bracketed detector (marks (endState pairedRun).written)) ∧
      marks (endState pairedRun).written ∈ course := by
  have hrun : result? pairedRun = some () ∧ (endState pairedRun).canceled = false := by
    decide +kernel
  obtain ⟨new, hnew, hbracketed, hcourse⟩ := analyze_brackets_hooks _ _ _ _ _
    (eq_ok_of_result? hrun.1)
  have hsame : (endState pairedRun).written = new := hnew.trans (List.nil_append new)
  rw [hsame]
  refine ⟨hrun, ?_, hbracketed, hcourse hrun.2⟩
  rw [← hsame]
  decide +kernel

end Brackets
end ProjectLint
