/-
The events of a run, whatever callbacks do and whenever they cancel it. They form a word of a fixed
language: the start, the blocks of the root projects in order, each with at most two repetitions,
and one final event. A canceled run has reported so exactly once.

The words of a part of a run that is broken off are words of the part themselves, so the proofs
treat the ways to end alike: `Course` relates the state before a part to the state after it.
-/
import Mathlib.Computability.Language
import Mathlib.Order.CompletePartialOrder
import ProjectLint.Proofs.Frame

open scoped Computability

namespace ProjectLint

namespace Journal

/-- An event with what it is about. -/
abbrev Signal := Event × Option Context

def Entry.signal? : Entry → Option Signal
  | .fired event context _ => some (event, context)
  | _ => none

def Entry.engineReport? : Entry → Option Report
  | .submitted .engine report => some report
  | _ => none

/-- The events that were sent, in order. -/
def signals (entries : List Entry) : List Signal :=
  entries.filterMap Entry.signal?

/-- What the engine itself reported. -/
def engineReports (entries : List Entry) : List Report :=
  entries.filterMap Entry.engineReport?

@[simp]
theorem signals_append (first second : List Entry) :
    signals (first ++ second) = signals first ++ signals second :=
  List.filterMap_append

@[simp]
theorem engineReports_append (first second : List Entry) :
    engineReports (first ++ second) = engineReports first ++ engineReports second :=
  List.filterMap_append

theorem Entry.signal?_of_incidental {entry : Entry} (h : entry.isIncidental) :
    entry.signal? = none := by
  cases entry <;> first | rfl | cases h

theorem Entry.engineReport?_of_incidental {entry : Entry} (h : entry.isIncidental) :
    entry.engineReport? = none := by
  cases entry with
  | submitted author report => cases author <;> first | rfl | cases h
  | _ => rfl

end Journal

open Journal Engine Run

theorem State.Later.silent {s s' : State σ} (h : State.Later Quiet s s') :
    ∃ new, s'.written = s.written ++ new ∧ signals new = [] ∧ engineReports new = [] := by
  obtain ⟨new, hnew, hall⟩ := h.wrote
  have hincidental : ∀ entry ∈ new, entry.isIncidental := fun entry hentry =>
    (hall entry hentry).resolve_right id
  refine ⟨new, hnew, List.filterMap_eq_nil_iff.2 fun entry hentry => ?_,
    List.filterMap_eq_nil_iff.2 fun entry hentry => ?_⟩
  · exact Entry.signal?_of_incidental (hincidental entry hentry)
  · exact Entry.engineReport?_of_incidental (hincidental entry hentry)

namespace EventProtocol

variable {t : State σ} {project : ProjectRef} {r : Outcome σ Unit}

/-! ## The language of a run -/

def files (pass : Pass) : Language Signal :=
  {word | ∃ file kind, word = [(.scanningFile, some (pass.context file kind))]}∗

def library (project : ProjectRef) : Language Signal :=
  ⨆ library, {[(.scanningLibrary, some (libraryContext library project))]} *
    files ⟨library, project⟩

def block (project : ProjectRef) : Language Signal :=
  {[(.scanningProject, some (projectContext project))]} *
    (files ⟨project, project⟩ * (library project)∗)

def repetition (project : ProjectRef) : Language Signal :=
  {[(.newPhase, some (projectContext project))]} * (1 + block project)

def repetitions (project : ProjectRef) : Nat → Language Signal
  | 0 => 1
  | n + 1 => 1 + repetition project * repetitions project n

def phases (project : ProjectRef) : Language Signal :=
  block project * repetitions project 2

def opening (roots : List ProjectRef) : Language Signal :=
  {[(.starting, none)]} * (roots.map fun root => 1 + phases root).prod

def protocol (roots : List ProjectRef) : Language Signal :=
  opening roots * ({[(.completed, none)]} + {[(.canceled, none)]})

def canceledReport (root : ProjectRef) : Report :=
  ⟨projectContext root, .canceled, none, Issue.canceledMessage, .null⟩

theorem nil_mem_one_add (L : Language Signal) : [] ∈ 1 + L :=
  .inl Language.nil_mem_one

theorem nil_mem_repetitions (project : ProjectRef) (n : Nat) : [] ∈ repetitions project n := by
  cases n with
  | zero => exact Language.nil_mem_one
  | succ n => exact nil_mem_one_add _

theorem nil_mem_roots (roots : List ProjectRef) :
    [] ∈ (roots.map fun root => 1 + phases root).prod := by
  induction roots with
  | nil => exact Language.nil_mem_one
  | cons root rest ih =>
    rw [List.map_cons, List.prod_cons]
    exact Language.append_mem_mul (nil_mem_one_add _) ih

/-! ## Words of some signals only -/

section AllOf

variable {P : Signal → Prop} {L M : Language Signal} {project : ProjectRef}

def allOf (P : Signal → Prop) : Language Signal :=
  {word | ∀ signal ∈ word, P signal}

theorem mul_le_allOf (hL : L ≤ allOf P) (hM : M ≤ allOf P) : L * M ≤ allOf P := by
  rintro _ ⟨first, hfirst, second, hsecond, rfl⟩ signal hsignal
  exact (List.mem_append.1 hsignal).elim (hL hfirst signal) (hM hsecond signal)

theorem kstar_le_allOf (hL : L ≤ allOf P) : L∗ ≤ allOf P := by
  intro _ hword signal hsignal
  obtain ⟨words, rfl, hwords⟩ := Language.mem_kstar.1 hword
  obtain ⟨word, hmem, hsignal⟩ := List.mem_flatten.1 hsignal
  exact hL (hwords word hmem) signal hsignal

theorem one_le_allOf : (1 : Language Signal) ≤ allOf P := by
  rintro _ rfl signal hsignal
  exact absurd hsignal List.not_mem_nil

theorem one_add_le_allOf (hL : L ≤ allOf P) : 1 + L ≤ allOf P :=
  fun _ hword => hword.elim (fun h => one_le_allOf h) fun h => hL h

theorem singleton_le_allOf {signal : Signal} (h : P signal) :
    ({[signal]} : Language Signal) ≤ allOf P := by
  rintro _ rfl other hother
  rw [List.mem_singleton.1 hother]
  exact h

structure Allows (P : Signal → Prop) (project : ProjectRef) : Prop where
  scanned : P (.scanningProject, some (projectContext project))
  file : ∀ (pass : Pass) file kind, P (.scanningFile, some (pass.context file kind))
  library : ∀ library, P (.scanningLibrary, some (libraryContext library project))
  repeated : P (.newPhase, some (projectContext project))

theorem Allows.block_le (h : Allows P project) : block project ≤ allOf P := by
  have hfiles : ∀ pass, files pass ≤ allOf P := by
    intro pass
    refine kstar_le_allOf ?_
    rintro _ ⟨file, kind, rfl⟩
    exact singleton_le_allOf (h.file pass file kind) rfl
  refine mul_le_allOf (singleton_le_allOf h.scanned)
    (mul_le_allOf (hfiles _) (kstar_le_allOf (iSup_le fun library => ?_)))
  exact mul_le_allOf (singleton_le_allOf (h.library library)) (hfiles _)

theorem Allows.phases_le (h : Allows P project) : phases project ≤ allOf P := by
  have hrepetitions : ∀ n, repetitions project n ≤ allOf P := by
    intro n
    induction n with
    | zero => exact one_le_allOf
    | succ n ih =>
      refine one_add_le_allOf (mul_le_allOf (mul_le_allOf ?_ ?_) ih)
      · exact singleton_le_allOf h.repeated
      · exact one_add_le_allOf h.block_le
  exact mul_le_allOf h.block_le (hrepetitions 2)

def ongoing : Language Signal :=
  {word | ∀ signal ∈ word, signal.1 ≠ .completed ∧ signal.1 ≠ .canceled}

theorem opening_le_ongoing (roots : List ProjectRef) : opening roots ≤ ongoing := by
  have hgoes : ∀ event ∈ [Event.starting, .scanningProject, .scanningFile, .scanningLibrary,
      .newPhase], event ≠ .completed ∧ event ≠ .canceled := by decide
  have hallows : ∀ root, Allows (fun signal => signal.1 ≠ .completed ∧ signal.1 ≠ .canceled) root :=
    fun root => ⟨hgoes .scanningProject (by decide), fun _ _ _ => hgoes .scanningFile (by decide),
      fun _ => hgoes .scanningLibrary (by decide), hgoes .newPhase (by decide)⟩
  refine mul_le_allOf (singleton_le_allOf (hgoes .starting (by decide))) ?_
  induction roots with
  | nil => exact one_le_allOf
  | cons root rest ih =>
    rw [List.map_cons, List.prod_cons]
    exact mul_le_allOf (one_add_le_allOf (hallows root).phases_le) ih

end AllOf

/-! ## Courses -/

variable {roots : List ProjectRef} {L M : Language Signal} {s s' s'' : State σ}

def Reported (roots : List ProjectRef) (s s' : State σ) (new : List Entry) : Prop :=
  (s'.cancelReported = s.cancelReported ∧ engineReports new = []) ∨
    (s.cancelReported = false ∧ s'.cancelReported = true ∧ s'.canceled = true ∧
      ∃ root ∈ roots, engineReports new = [canceledReport root])

structure Course (roots : List ProjectRef) (L : Language Signal) (s s' : State σ) : Prop where
  wrote : ∃ new, s'.written = s.written ++ new ∧ signals new ∈ L ∧ Reported roots s s' new
  canceled : s.canceled = true → s'.canceled = true

namespace Course

variable {x : Run σ α} {f : α → Run σ β}

theorem mono (h : Course roots L s s') (hle : L ≤ M) : Course roots M s s' := by
  obtain ⟨new, hnew, hword, hreported⟩ := h.wrote
  exact ⟨⟨new, hnew, hle hword, hreported⟩, h.canceled⟩

theorem trans (h : Course roots L s s') (h' : Course roots M s' s'') :
    Course roots (L * M) s s'' := by
  obtain ⟨first, hfirst, hword, hreported⟩ := h.wrote
  obtain ⟨second, hsecond, hword', hreported'⟩ := h'.wrote
  refine ⟨⟨first ++ second, by rw [hsecond, hfirst, List.append_assoc], ?_, ?_⟩,
    h'.canceled ∘ h.canceled⟩
  · rw [signals_append]
    exact Language.append_mem_mul hword hword'
  · rw [Reported, engineReports_append]
    rcases hreported with ⟨hkept, hnone⟩ | ⟨hbefore, hafter, hcanceled, root, hroot, hone⟩
    · rw [hnone, List.nil_append, ← hkept]
      exact hreported'
    · rcases hreported' with ⟨hkept', hnone'⟩ | ⟨hbefore', _⟩
      · rw [hnone', List.append_nil]
        exact .inr ⟨hbefore, hkept'.trans hafter, h'.canceled hcanceled, root, hroot, hone⟩
      · rw [hafter] at hbefore'
        cases hbefore'

theorem grown (h : Course roots L s s') : s.written <+: s'.written := by
  obtain ⟨new, hnew, -⟩ := h.wrote
  exact ⟨new, hnew.symm⟩

theorem trans_nil (h : Course roots L s s') (hM : [] ∈ M) : Course roots (L * M) s s' := by
  obtain ⟨new, hnew, hword, hreported⟩ := h.wrote
  refine ⟨⟨new, hnew, ?_, hreported⟩, h.canceled⟩
  rw [← List.append_nil (signals new)]
  exact Language.append_mem_mul hword hM

theorem of_state (h : Course roots L t s') (hwritten : t.written = s.written)
    (hreported : t.cancelReported = s.cancelReported) (hcanceled : t.canceled = s.canceled) :
    Course roots L s s' := by
  obtain ⟨new, hnew, hword, hreport⟩ := h.wrote
  rw [Reported, hreported] at hreport
  exact ⟨⟨new, hwritten ▸ hnew, hword, hreport⟩, fun hs => h.canceled (hcanceled.trans hs)⟩

theorem refl (s : State σ) (hL : [] ∈ L) : Course roots L s s :=
  ⟨⟨[], (List.append_nil _).symm, hL, .inl ⟨rfl, rfl⟩⟩, id⟩

theorem of_later {announced : Entry → Prop} {K : Language Signal} (h : State.Later announced s s')
    (hsignal : ∀ entry signal, announced entry → entry.signal? = some signal → [signal] ∈ K)
    (hreport : ∀ entry, announced entry → entry.engineReport? = none) :
    Course roots K∗ s s' := by
  obtain ⟨new, hnew, hall⟩ := h.wrote
  refine ⟨⟨new, hnew, ?_, .inl ⟨h.cancelReported, ?_⟩⟩, h.canceled⟩
  · rw [← List.flatMap_singleton' (signals new), List.flatMap_def]
    refine Language.join_mem_kstar fun word hword => ?_
    obtain ⟨signal, hmem, rfl⟩ := List.mem_map.1 hword
    obtain ⟨entry, hentry, hsome⟩ := List.mem_filterMap.1 hmem
    rcases hall entry hentry with hincidental | hannounced
    · rw [Entry.signal?_of_incidental hincidental] at hsome
      cases hsome
    · exact hsignal entry signal hannounced hsome
  · refine List.filterMap_eq_nil_iff.2 fun entry hentry => ?_
    exact (hall entry hentry).elim Entry.engineReport?_of_incidental (hreport entry)

theorem of_silent {announced : Entry → Prop} (h : State.Later announced s s')
    (hsignal : ∀ entry, announced entry → entry.signal? = none)
    (hreport : ∀ entry, announced entry → entry.engineReport? = none) (hL : [] ∈ L) :
    Course roots L s s' := by
  have hstar : Course roots (0 : Language Signal)∗ s s' := by
    refine of_later h (fun entry signal hannounced hsome => ?_) hreport
    rw [hsignal entry hannounced] at hsome
    cases hsome
  rw [kstar_zero] at hstar
  exact hstar.mono fun word hword => (Language.mem_one word).1 hword ▸ hL

theorem of_quiet (h : State.Later Quiet s s') (hL : [] ∈ L) : Course roots L s s' :=
  of_silent h (fun _ hquiet => hquiet.elim) (fun _ hquiet => hquiet.elim) hL

theorem of_plan {phase : Nat} (h : State.Later (IsPlan phase) s s') (hL : [] ∈ L) :
    Course roots L s s' :=
  of_silent h (by rintro _ ⟨detectors, rfl⟩; rfl) (by rintro _ ⟨detectors, rfl⟩; rfl) hL

theorem bind (hx : Course roots L s (endState (x s)))
    (hM : [] ∈ M) (hf : ∀ a s', x s = .ok a s' → Course roots M s' (endState (f a s'))) :
    Course roots (L * M) s (endState ((x >>= f) s)) := by
  cases hxs : x s with
  | ok a s' =>
    rw [hxs, endState_ok] at hx
    rw [bind_of_ok hxs]
    exact hx.trans (hf a s' hxs)
  | error fault s' =>
    rw [hxs, endState_error] at hx
    rw [bind_of_error hxs]
    exact hx.trans_nil hM

theorem silent_bind (hx : Course roots 1 s (endState (x s)))
    (hM : [] ∈ M) (hf : ∀ a s', x s = .ok a s' → Course roots M s' (endState (f a s'))) :
    Course roots M s (endState ((x >>= f) s)) := by
  rw [← one_mul M]
  exact bind hx hM hf

theorem bind_silent (hx : Course roots L s (endState (x s)))
    (hf : ∀ a s', x s = .ok a s' → Course roots 1 s' (endState (f a s'))) :
    Course roots L s (endState ((x >>= f) s)) := by
  rw [← mul_one L]
  exact bind hx Language.nil_mem_one hf

theorem ite {y : Run σ α} (c : Prop) [Decidable c] (hx : Course roots L s (endState (x s)))
    (hy : Course roots L s (endState (y s))) :
    Course roots L s (endState ((if c then x else y) s)) :=
  iteInduction (motive := fun (z : Run σ α) => Course roots L s (endState (z s))) (fun _ => hx)
    fun _ => hy

theorem unlessCanceled {x : Run σ Unit} (hx : Course roots L s (endState (x s)))
    (hL : [] ∈ L) : Course roots L s (endState (unlessCanceled x s)) := by
  cases hs : s.canceled with
  | true =>
    rw [unlessCanceled_of_canceled hs]
    exact .refl s hL
  | false =>
    rw [unlessCanceled_of_not_canceled hs]
    exact hx

theorem keepingScope (hx : Course roots L s (endState (x s))) :
    Course roots L s (endState (keepingScope x s)) := by
  rw [endState_keepingScope]
  exact ⟨hx.wrote, hx.canceled⟩

theorem eachUntilCanceled {operation : α → Run σ Unit} (elements : List α)
    (h : ∀ element s, Course roots L s (endState (operation element s))) (s : State σ) :
    Course roots L∗ s (endState (eachUntilCanceled elements operation s)) := by
  induction elements generalizing s with
  | nil => exact .refl s (Language.nil_mem_kstar L)
  | cons element rest ih =>
    rw [Run.eachUntilCanceled]
    refine mono (bind (h element s) (Language.nil_mem_kstar L) fun _ s' _ => ?_) mul_kstar_le_kstar
    exact (ih s').unlessCanceled (Language.nil_mem_kstar L)

end Course

/-! ## The parts of a run -/

variable {host : Host σ} {opts : Options}

theorem course_fire (host : Host σ) (opts : Options) (event : Event) (context : Option Context)
    (s : State σ) :
    Course roots {[(event, context)]} s (endState ((host.engine opts).fire event context s)) := by
  obtain ⟨s', hfire, hlater⟩ := fire_eq_ok host opts event context s
  have hwrite : Course roots {[(event, context)]} s (s.write (.fired event context s.moment)) :=
    ⟨⟨[.fired event context s.moment], s.written_write _, rfl, .inl ⟨rfl, rfl⟩⟩, id⟩
  rw [hfire, endState_ok, ← mul_one {[(event, context)]}]
  exact hwrite.trans (.of_quiet hlater Language.nil_mem_one)

theorem course_tellUntilCanceled (detectors : List Detector) (hook : Hook) (s : State σ) :
    Course roots 1 s (endState ((host.engine opts).tellUntilCanceled detectors hook s)) :=
  .of_quiet (frames_tellUntilCanceled host opts detectors hook s) Language.nil_mem_one

theorem course_checkFiles (pass : Pass) (s : State σ) :
    Course roots (files pass) s (endState ((host.engine opts).checkFiles pass s)) := by
  refine .of_later (frames_checkFiles host opts pass s) ?_ ?_
  · rintro _ signal ⟨file, kind, moment, rfl⟩ hsome
    exact ⟨file, kind, by rw [← Option.some.inj hsome]⟩
  · rintro _ ⟨file, kind, moment, rfl⟩
    rfl

theorem course_checkLibrary (detectors : List Detector) (main library : ProjectRef) (s : State σ) :
    Course roots (EventProtocol.library main) s
      (endState ((host.engine opts).checkLibrary detectors main library s)) := by
  have hfiles : [] ∈ files ⟨library, main⟩ := Language.nil_mem_kstar _
  refine Course.mono (L := {[(.scanningLibrary, some (libraryContext library main))]} *
    files ⟨library, main⟩) ?_ fun word hword => Language.mem_iSup.2 ⟨library, hword⟩
  refine .bind (course_fire host opts _ _ s) hfiles fun _ s₁ _ => ?_
  refine .silent_bind (course_tellUntilCanceled _ _ s₁) hfiles fun _ s₂ _ => ?_
  refine .unlessCanceled ?_ hfiles
  refine .bind_silent (course_checkFiles _ s₂) fun _ s₃ _ => ?_
  exact .unlessCanceled (course_tellUntilCanceled _ _ s₃) Language.nil_mem_one

theorem course_checkLibraries (detectors : List Detector) (project : ProjectRef) (s : State σ) :
    Course roots (library project)∗ s
      (endState ((host.engine opts).checkLibraries detectors project s)) := by
  have hnil := Language.nil_mem_kstar (library project)
  rw [checkLibraries, get_bind]
  cases s.scope.isSingleFile with
  | true => exact .refl s hnil
  | false =>
    refine .silent_bind (.of_quiet (frames_libraries host opts project s)
      Language.nil_mem_one) hnil fun libraries s' _ => ?_
    exact .eachUntilCanceled libraries (course_checkLibrary detectors project) s'

theorem course_checkPhase (project : ProjectRef) (s : State σ) :
    Course roots (block project) s (endState ((host.engine opts).checkPhase project s)) := by
  have hlibraries := Language.nil_mem_kstar (library project)
  have hrest : [] ∈ files ⟨project, project⟩ * (library project)∗ :=
    Language.append_mem_mul (Language.nil_mem_kstar _) hlibraries
  rw [checkPhase, get_bind]
  refine .bind (course_fire host opts _ _ s) hrest fun _ s₁ _ => ?_
  refine .silent_bind (course_tellUntilCanceled _ _ s₁) hrest fun _ s₂ _ => ?_
  refine .unlessCanceled ?_ hrest
  refine .bind (course_checkFiles _ s₂) hlibraries fun _ s₃ _ => ?_
  refine .unlessCanceled ?_ hlibraries
  refine .bind_silent (course_checkLibraries _ project s₃) fun _ s₄ _ => ?_
  exact .unlessCanceled (course_tellUntilCanceled _ _ s₄) Language.nil_mem_one

theorem course_reportCanceled (host : Host σ) (opts : Options) (hproject : project ∈ roots)
    {s : State σ}
    (hs : s.canceled = true) : Course roots 1 s (endState
      ((host.engine opts).reportCanceled (projectContext project) s)) := by
  cases hreported : s.cancelReported with
  | true =>
    rw [reportCanceled_of_reported _ _ hreported]
    exact .refl s Language.nil_mem_one
  | false =>
    rw [reportCanceled_of_not_reported _ _ hreported]
    let s₁ := { s with cancelReported := true }.write (.submitted .engine (canceledReport project))
    have hwrite : Course roots 1 s s₁ :=
      ⟨⟨[.submitted .engine (canceledReport project)], State.written_write _ _, rfl,
        .inr ⟨hreported, rfl, hs, project, hproject, rfl⟩⟩, id⟩
    rw [← one_mul 1]
    exact hwrite.trans (.of_quiet (submit_later host opts _ _ _) Language.nil_mem_one)

theorem course_checkProject (hproject : project ∈ roots) (s : State σ) :
    Course roots (block project) s (endState ((host.engine opts).checkProject project s)) := by
  refine .bind_silent (course_checkPhase project s) fun _ s' _ => ?_
  rw [get_bind]
  cases hs' : s'.canceled with
  | false => exact .refl s' Language.nil_mem_one
  | true => exact course_reportCanceled host opts hproject hs'

theorem course_extraPhases (host : Host σ) (opts : Options) (hproject : project ∈ roots)
    (fuel : Nat) :
    ∀ s : State σ, Course roots (repetitions project (Options.maxPhases - s.phase)) s
      (endState ((host.engine opts).extraPhases project fuel s)) := by
  induction fuel with
  | zero => exact fun s => .refl s (nil_mem_repetitions project _)
  | succ fuel ih =>
    intro s
    cases hadvance : (ownSlot.schedule s).advance? with
    | none =>
      rw [extraPhases_of_none _ _ _ hadvance]
      exact .refl s (nil_mem_repetitions project _)
    | some advanced =>
      obtain ⟨hlast, hadvanced⟩ := Schedule.advance?_eq_some hadvance
      rw [← State.phase_eq] at hlast hadvanced
      have hroom : Options.maxPhases - s.phase = Options.maxPhases - advanced.phase + 1 := by
        omega
      rw [extraPhases_of_some _ _ _ hadvance, hroom, repetitions, repetition, mul_assoc]
      refine Course.mono ?_ le_add_self
      have hmore := nil_mem_repetitions project (Options.maxPhases - advanced.phase)
      have hnil := Language.append_mem_mul (nil_mem_one_add (block project)) hmore
      have hgoOn : ∀ (detectors : List Detector) (t : State σ), t.phase = advanced.phase →
          Course roots (repetitions project (Options.maxPhases - advanced.phase)) t
            (endState ((host.engine opts).goOn project fuel detectors t)) := by
        intro detectors t ht
        rw [goOn, get_bind, ← ht]
        exact .ite _ (.refl t (nil_mem_repetitions project _)) (ih t)
      refine .of_state (t := { s with schedule := some advanced }) ?_ rfl rfl rfl
      refine .bind (course_fire host opts _ _ _) hnil fun _ s₁ hs₁ => ?_
      have hphase₁ : s₁.narrow.phase = advanced.phase :=
        ((frames_fire host opts _ _).ok hs₁).phase
      rw [bind_of_ok (x := modify State.narrow) rfl, laterPhases, get_bind]
      refine .of_state (t := s₁.narrow) (.ite _ (.refl _ hnil) ?_) rfl rfl rfl
      have hreplan := replan_later host opts project s₁.narrow
      refine .silent_bind (.of_plan hreplan Language.nil_mem_one) hnil fun detectors s₂ hs₂ => ?_
      rw [hs₂, endState_ok] at hreplan
      have hphase₂ := hreplan.phase.trans hphase₁
      refine .of_state (t := { s₂ with memo := none }) ?_ rfl rfl rfl
      cases detectors with
      | nil =>
        refine (hgoOn [] { s₂ with memo := none } hphase₂).mono fun word hword => ?_
        exact Language.append_mem_mul (nil_mem_one_add _) hword
      | cons first rest =>
        refine .bind ((course_checkProject hproject _).mono le_add_self) hmore
          fun _ s₃ hs₃ => hgoOn (first :: rest) s₃ ?_
        exact (phase_checkProject host opts hs₃).trans hphase₂

theorem course_repeatPhases (hproject : project ∈ roots) {s : State σ} (hphase : s.phase = 1) :
    Course roots (repetitions project 2) s
      (endState ((host.engine opts).repeatPhases project s)) := by
  rw [repeatPhases, get_bind]
  refine .ite _ (.keepingScope ?_) (.refl s (nil_mem_repetitions project _))
  have hextra := course_extraPhases host opts hproject Options.maxPhases s
  rwa [hphase] at hextra

theorem course_checkRoot (host : Host σ) (opts : Options) (hproject : project ∈ roots)
    (s : State σ) :
    Course roots (1 + phases project) s (endState ((host.engine opts).checkRoot project s)) := by
  have hnil := nil_mem_one_add (phases project)
  have hplan := plan_later host opts project s.scope s
  rw [checkRoot, get_bind]
  refine .silent_bind (.of_state (.of_plan hplan Language.nil_mem_one) rfl rfl rfl) hnil
    fun detectors s₁ hs₁ => ?_
  rw [hs₁, endState_ok] at hplan
  refine .of_state (t := { s₁ with memo := none }) ?_ rfl rfl rfl
  cases detectors with
  | nil => exact .of_quiet ((State.Later.refl _).write (.inl rfl)) hnil
  | cons first rest =>
    refine Course.mono (L := phases project) ?_ le_add_self
    refine .bind (course_checkProject hproject _) (nil_mem_repetitions project 2)
      fun _ s₂ hs₂ => .unlessCanceled ?_ (nil_mem_repetitions project 2)
    exact course_repeatPhases hproject ((phase_checkProject host opts hs₂).trans hplan.phase)

theorem course_checkRoots (host : Host σ) (opts : Options) (rest : List ProjectRef)
    (hrest : ∀ root ∈ rest, root ∈ roots) :
    ∀ (current : ProjectRef) (s : State σ),
      Course roots (rest.map fun root => 1 + phases root).prod s
        (endState ((host.engine opts).checkRoots current rest s)) := by
  induction rest with
  | nil => exact fun current s => .refl s Language.nil_mem_one
  | cons project rest ih =>
    intro current s
    rw [checkRoots, get_bind]
    refine .ite _ (.refl s (nil_mem_roots (project :: rest))) ?_
    rw [List.map_cons, List.prod_cons]
    refine .bind (course_checkRoot host opts (hrest project List.mem_cons_self) s)
      (nil_mem_roots rest) fun _ s' _ => ?_
    exact ih (fun root hroot => hrest root (List.mem_cons_of_mem _ hroot)) project s'

theorem checkRoots_mem (e : Engine σ) {rest : List ProjectRef} {current last : ProjectRef}
    {s s' : State σ} (h : e.checkRoots current rest s = .ok last s') : last ∈ current :: rest := by
  induction rest generalizing current s with
  | nil =>
    cases h
    exact List.mem_cons_self
  | cons project rest ih =>
    rw [checkRoots, get_bind] at h
    cases hs : s.canceled with
    | true =>
      rw [hs] at h
      cases h
      exact List.mem_cons_self
    | false =>
      rw [hs] at h
      obtain ⟨_, s₁, _, hmore⟩ := bind_eq_ok h
      exact List.mem_cons_of_mem _ (ih hmore)

def Concludes (roots : List ProjectRef) (L : Language Signal) (s s' : State σ) : Prop :=
  ∃ t after, Course roots L s t ∧ (t.canceled = true → t.cancelReported = true) ∧
    s'.written = t.written ++
      .fired (if t.canceled then .canceled else .completed) none t.moment :: after ∧
    signals after = [] ∧ engineReports after = []

def Ends (roots : List ProjectRef) (L : Language Signal) (s : State σ) : Outcome σ Unit → Prop
  | .ok _ s' => Concludes roots L s s'
  | .error _ s' => Course roots L s s'

theorem Ends.grown (h : Ends roots L s r) : s.written <+: (endState r).written := by
  cases r with
  | ok _ s' =>
    obtain ⟨t, after, ht, -, hwritten, -⟩ := h
    exact ht.grown.trans ⟨_, hwritten.symm⟩
  | error fault s' => exact Course.grown h

theorem Ends.after (ht : Course roots L s t) (h : Ends roots 1 t r) : Ends roots L s r := by
  rw [← mul_one L]
  cases r with
  | ok _ s' =>
    obtain ⟨u, after, hu, hreported, hwritten⟩ := h
    exact ⟨u, after, ht.trans hu, hreported, hwritten⟩
  | error fault s' => exact ht.trans h

theorem concludes_of_reported (elapsed : Int) (ht : Course roots L s t)
    (hreported : t.canceled = true → t.cancelReported = true) :
    ∃ s', (host.engine opts).conclude elapsed t = .ok () s' ∧ Concludes roots L s s' := by
  obtain ⟨s', hfire, hlater⟩ := fire_eq_ok host opts
    (if t.canceled then .canceled else .completed) none (t.closing elapsed)
  obtain ⟨after, hafter, hsignals, hreports⟩ := hlater.silent
  refine ⟨s', hfire, t.closing elapsed, after, ?_, hreported, ?_, hsignals, hreports⟩
  · rw [← mul_one L]
    exact ht.trans (.of_quiet ((State.Later.refl t).write (.inl rfl)) Language.nil_mem_one)
  · rw [hafter, State.written_write, List.append_assoc]
    rfl

theorem finish_spec (host : Host σ) (opts : Options) {current : ProjectRef}
    (hcurrent : current ∈ roots) (elapsed : Int)
    (s : State σ) : Ends roots 1 s ((host.engine opts).finish current elapsed s) := by
  cases hs : s.canceled with
  | false =>
    have hstill : Course roots 1 s s := .refl s Language.nil_mem_one
    obtain ⟨s', hend, hconcludes⟩ := concludes_of_reported elapsed hstill
      fun h => by rw [hs] at h; cases h
    rw [finish_of_not_canceled _ _ _ hs, hend]
    exact hconcludes
  | true =>
    have hreport := course_reportCanceled host opts hcurrent hs
    have hreported :=
      (reportCanceled_later host opts (projectContext current) s).cancelReported
    rw [finish_of_canceled _ _ _ hs]
    cases hrun : (host.engine opts).reportCanceled (projectContext current) s with
    | error fault s' =>
      rw [bind_of_error hrun]
      rwa [hrun, endState_error] at hreport
    | ok _ t =>
      rw [hrun, endState_ok] at hreport hreported
      obtain ⟨s', hend, hconcludes⟩ := concludes_of_reported elapsed hreport fun _ => hreported
      rw [bind_of_ok hrun, hend]
      exact hconcludes

theorem checkRoots_finish_spec (first : ProjectRef) (rest : List ProjectRef) (elapsed : Int)
    {s : State σ} (ht : Course (first :: rest) {[(.starting, none)]} s t) :
    Ends (first :: rest) (opening (first :: rest)) s
      (((host.engine opts).checkRoots first (first :: rest) >>=
        fun current => (host.engine opts).finish current elapsed) t) := by
  have hroots := ht.trans (course_checkRoots host opts (first :: rest) (fun _ => id) first t)
  cases hrun : (host.engine opts).checkRoots first (first :: rest) t with
  | error fault s' =>
    rw [bind_of_error hrun]
    rwa [hrun, endState_error] at hroots
  | ok last u =>
    rw [hrun, endState_ok] at hroots
    have hlast : last ∈ first :: rest :=
      (List.mem_cons.1 (checkRoots_mem _ hrun)).elim (fun h => h ▸ List.mem_cons_self) id
    rw [bind_of_ok hrun]
    exact .after hroots (finish_spec host opts hlast elapsed u)

theorem checkAll_spec (first : ProjectRef) (rest : List ProjectRef) (elapsed : Int) (s : State σ) :
    Ends (first :: rest) (opening (first :: rest)) { s with cancelReported := false }
      ((host.engine opts).checkAll first rest elapsed s) := by
  have hnoted : Course (first :: rest) 1 { s with cancelReported := false }
      (s.entered (rest.length + 1)) :=
    .of_state (.of_quiet ((State.Later.refl _).write (.inl rfl)) Language.nil_mem_one) rfl rfl rfl
  obtain ⟨t, hfire, -⟩ := fire_eq_ok host opts .starting none (s.entered (rest.length + 1))
  have hstart := hnoted.trans (course_fire host opts .starting none _)
  rw [one_mul, hfire, endState_ok] at hstart
  rw [checkAll_eq, bind_of_ok hfire]
  exact checkRoots_finish_spec first rest elapsed hstart

/-! ## The whole run -/

/-- The events are a whole protocol. The last says how the run ended, and only a canceled run is
reported. -/
def Completed (roots : List ProjectRef) (new : List Entry) : Prop :=
  signals new ∈ protocol roots ∧
    ∃ before event moment after, new = before ++ .fired event none moment :: after ∧
      signals after = [] ∧ event = (if moment.canceled then .canceled else .completed) ∧
      if moment.canceled then ∃ root ∈ roots, engineReports new = [canceledReport root]
      else engineReports new = []

/-- The events are the start of a protocol, and none of them says that the run is over. -/
def BrokenOff (roots : List ProjectRef) (new : List Entry) : Prop :=
  (∃ rest, signals new ++ rest ∈ protocol roots) ∧
    ∀ signal ∈ signals new, signal.1 ≠ .completed ∧ signal.1 ≠ .canceled

theorem Concludes.completed {s s' : State σ} (h : Concludes roots (opening roots) s s')
    (hs : s.cancelReported = false) :
    ∃ new, s'.written = s.written ++ new ∧ Completed roots new := by
  obtain ⟨t, after, ht, hreported, hwritten, hsignals, hreports⟩ := h
  obtain ⟨before, hbefore, hword, hreport⟩ := ht.wrote
  let event : Event := if t.canceled then .canceled else .completed
  have hnew : engineReports (before ++ .fired event none t.moment :: after) =
      engineReports before := by
    rw [engineReports_append]
    show engineReports before ++ engineReports after = engineReports before
    rw [hreports, List.append_nil]
  refine ⟨before ++ .fired event none t.moment :: after, ?_, ?_,
    before, event, t.moment, after, rfl, hsignals, rfl, ?_⟩
  · rw [hwritten, hbefore, List.append_assoc]
  · have hlast : signals (.fired event none t.moment :: after) = [(event, none)] := by
      show (event, none) :: signals after = [(event, none)]
      rw [hsignals]
    rw [signals_append, hlast]
    refine Language.append_mem_mul hword ?_
    cases hcanceled : t.canceled with
    | true => exact .inr (by simp only [event, hcanceled, if_true]; rfl)
    | false => exact .inl (by simp only [event, hcanceled]; rfl)
  · rw [hnew]
    show if t.canceled then _ else _
    cases hcanceled : t.canceled with
    | true =>
      rcases hreport with ⟨hkept, -⟩ | ⟨-, -, -, hone⟩
      · rw [hreported hcanceled, hs] at hkept
        cases hkept
      · exact hone
    | false =>
      rcases hreport with ⟨-, hnone⟩ | ⟨-, -, htrue, -⟩
      · exact hnone
      · rw [hcanceled] at htrue
        cases htrue

theorem Course.brokenOff {s s' : State σ} (h : Course roots (opening roots) s s') :
    ∃ new, s'.written = s.written ++ new ∧ BrokenOff roots new := by
  obtain ⟨new, hnew, hword, -⟩ := h.wrote
  refine ⟨new, hnew, ⟨[(.completed, none)], ?_⟩, opening_le_ongoing roots hword⟩
  exact Language.append_mem_mul hword (.inl rfl)

theorem Completed.append_left {found new : List Entry} (h : Completed roots new)
    (hsilent : signals found = []) (hnone : engineReports found = []) :
    Completed roots (found ++ new) := by
  have hsignals : signals (found ++ new) = signals new := by
    rw [signals_append, hsilent, List.nil_append]
  have hreports : engineReports (found ++ new) = engineReports new := by
    rw [engineReports_append, hnone, List.nil_append]
  obtain ⟨hword, before, event, moment, after, rfl, hlast⟩ := h
  rw [Completed, hsignals, hreports]
  exact ⟨hword, found ++ before, event, moment, after, (List.append_assoc ..).symm, hlast⟩

theorem Ends.heard {found : List Entry}
    (hsilent : signals found = []) (hnone : engineReports found = []) :
    Ends roots (opening roots) t r → t.cancelReported = false →
      t.written = s.written ++ found → ∃ new, (endState r).written = s.written ++ new ∧ match r with
        | .ok _ _ => Completed roots new | .error _ _ => BrokenOff roots new := by
  intro h ht hfound
  cases r with
  | ok _ s' =>
    obtain ⟨new, hnew, hcompleted⟩ := Concludes.completed h ht
    refine ⟨found ++ new, ?_, hcompleted.append_left hsilent hnone⟩
    rw [endState_ok, hnew, hfound, List.append_assoc]
  | error fault s' =>
    obtain ⟨new, hnew, hbroken⟩ := Course.brokenOff h
    refine ⟨found ++ new, ?_, ?_⟩
    · rw [endState_error, hnew, hfound, List.append_assoc]
    · rwa [BrokenOff, signals_append, hsilent, List.nil_append]

end EventProtocol
end ProjectLint
