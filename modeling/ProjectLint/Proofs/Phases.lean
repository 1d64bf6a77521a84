/-
The phases of a project. What a run writes for a project falls into legs, one for each phase: what
leads to the choice of detectors, the choice, and what follows it. The detectors of a later leg are
those for which repeats were asked since the choice before, in the order of first asking; its scope
is what of the scope before was asked for.
-/
import ProjectLint.Proofs.Requests

namespace ProjectLint
namespace Phases

open Journal Run Engine

variable {s : State σ}

/-- One phase: what it is for, how it begins and what happens in it. -/
structure Leg where
  phase : Nat
  scope : ScopeSet
  detectors : List Detector
  /-- What leads to the choice of detectors: for a first phase the configuration is asked for, a
  later one is announced. -/
  opening : List Entry
  during : List Entry

namespace Leg

def entries (leg : Leg) : List Entry :=
  leg.opening ++ .planned leg.phase leg.detectors :: leg.during

def pending (leg : Leg) : List Request :=
  (if leg.phase = 1 then requests leg.opening else []) ++ requests leg.during

structure Proper (host : Host σ) (root : ProjectRef) (leg : Leg) : Prop where
  bounds : 1 ≤ leg.phase ∧ leg.phase ≤ Options.maxPhases
  opening : hooks leg.opening = []
  called : ∀ detector hook moment, .called (.detector detector hook) moment ∈ leg.during →
    detector ∈ leg.detectors ∧ moment.phase = leg.phase ∧
      ∀ context, hook.context? = some context → context.rootProject = root
  own : host.RepeatsOwn → requests leg.opening = [] ∧
    ∀ request ∈ requests leg.during, request.1 ∈ leg.detectors

def Scoped (leg : Leg) : Prop :=
  ∀ detector hook moment, .called (.detector detector hook) moment ∈ leg.during →
    moment.scope = leg.scope

end Leg

def Announces (root : ProjectRef) (entries : List Entry) : Prop :=
  ∃ moment rest, entries = .fired .newPhase (some (projectContext root)) moment :: rest

/-- A phase in which detectors were called is followed by another for those that are to run
again. -/
structure Leads (registry : Registry) (config : Configuration) (root : ProjectRef)
    (leg next : Leg) : Prop where
  called : hooks leg.during ≠ []
  announced : Announces root next.opening
  phase : next.phase = leg.phase + 1
  detectors : next.detectors =
    (distinct ((leg.pending ++ requests next.opening).map Prod.fst)).filter fun detector =>
      !(registry.enabledIssues config detector.className).isEmpty

structure Narrows (leg next : Leg) : Prop where
  scope : ∀ category, next.scope.contains category = true ↔
    leg.scope.contains category = true ∧ Wanted (leg.pending ++ requests next.opening) category
  inScope : next.scope.isEmpty = false

def Follows (registry : Registry) (config : Configuration) (root : ProjectRef)
    (leg next : Leg) : Prop :=
  Leads registry config root leg next ∧ Narrows leg next

def Ended (root : ProjectRef) (last : Leg) (closing : List Entry) : Prop :=
  closing = [] ∧ (last.detectors = [] ∨ last.phase = Options.maxPhases ∨ last.pending = []) ∨
    Announces root closing ∧ ∀ category, last.scope.contains category = true →
      ¬ Wanted (last.pending ++ requests closing) category

/-- A run that returns and was not canceled. -/
def Completes (r : Outcome σ α) : Prop :=
  ∃ a t, r = .ok a t ∧ t.canceled = false

theorem not_completes_error (fault : Fault) (t : State σ) :
    ¬ Completes (.error fault t : Outcome σ α) := by
  rintro ⟨_, _, h, -⟩
  cases h

theorem not_completes_canceled (a : α) {t : State σ} (h : t.canceled = true) :
    ¬ Completes (.ok a t : Outcome σ α) := by
  rintro ⟨_, _, hend, hlive⟩
  cases hend
  rw [h] at hlive
  cases hlive

/-! ## Calls of a phase -/

section Called

variable (host : Host σ) (opts : Options)

theorem keeps_grown {announced : Entry → Prop} {x : Run σ α} (h : Frames announced x)
    (entries : List Entry) : Keeps (entries <+: ·.written) x :=
  fun s hs => hs.trans (h s).grown

theorem called_checkPhase (root : ProjectRef) {first : Detector} {rest : List Detector}
    (h : s.selection.detectors = first :: rest) :
    ∃ heard moment, s.written ++ (heard ++
        [.called (.detector first (.beforeProject (projectContext root))) moment]) <+:
      (endState ((host.engine opts).checkPhase root s)).written := by
  obtain ⟨s₁, hfire, -⟩ := fire_eq_ok host opts .scanningProject (some (projectContext root)) s
  have hlater := (frames_fire host opts .scanningProject (some (projectContext root))).ok hfire
  obtain ⟨heard, hheard⟩ := hlater.grown
  refine ⟨heard, s₁.moment, ?_⟩
  have htell := fun detectors hook =>
    keeps_grown (frames_tellUntilCanceled host opts detectors hook)
  have hfiles := fun pass => keeps_grown (frames_checkFiles host opts pass)
  have hlibrary : ∀ library entries, Keeps (entries <+: ·.written)
      ((host.engine opts).checkLibrary (first :: rest) root library) := fun library entries =>
    (keeps_grown (frames_fire host opts _ _) entries).bind fun _ =>
      (htell _ _ entries).bind fun _ => .unlessCanceled <|
        (hfiles _ entries).bind fun _ => .unlessCanceled (htell _ _ entries)
  have hlibraries : ∀ entries, Keeps (entries <+: ·.written)
      ((host.engine opts).checkLibraries (first :: rest) root) := fun entries =>
    .inspect fun _ _ => .ite _ (.pure ()) <|
      (keeps_grown (frames_libraries host opts root) entries).bind fun libraries =>
        .eachUntilCanceled libraries fun library _ => hlibrary library entries
  rw [checkPhase, get_bind, bind_of_ok hfire, h, ← List.append_assoc, hheard]
  have hasked := (invoke_later host opts
    (.detector first (.beforeProject (projectContext root))) s₁).grown
  rw [State.written_write] at hasked
  refine Keeps.bindAt (Keeps.bindAt hasked fun _ => .unlessCanceled (htell _ _ _)) fun _ => ?_
  exact .unlessCanceled <| (hfiles _ _).bind fun _ => .unlessCanceled <|
    (hlibraries _).bind fun _ => .unlessCanceled (htell _ _ _)

theorem hooks_checkProject (root : ProjectRef) {new : List Entry} (h : s.selection.detectors ≠ [])
    (hnew : (endState ((host.engine opts).checkProject root s)).written = s.written ++ new) :
    hooks new ≠ [] := by
  obtain ⟨first, rest, hdetectors⟩ := List.exists_cons_of_ne_nil h
  obtain ⟨heard, moment, hcalled⟩ := called_checkPhase host opts root hdetectors
  have hreported : ∀ entries, Keeps (entries <+: ·.written) (get >>= fun s =>
      if s.canceled then (host.engine opts).reportCanceled (projectContext root)
      else pure () : Run σ Unit) := by
    refine fun entries => .inspect fun _ _ => .ite _ (fun t ht => ?_) (.pure ())
    exact ht.trans (reportCanceled_later host opts (projectContext root) t).grown
  obtain ⟨more, hmore⟩ := Keeps.bindAt hcalled fun _ => hreported _
  have hprefix : s.written ++ new = s.written ++ (heard ++
      .called (.detector first (.beforeProject (projectContext root))) moment :: more) := by
    rw [← hnew, checkProject, ← hmore]
    simp
  rw [List.append_cancel_left hprefix, hooks_append]
  simp [hooks, Entry.hook?]

end Called

/-! ## Later phases -/

theorem hooks_of_announcing {host : Host σ} {entries : List Entry}
    (h : ∀ entry ∈ entries, Announcing host entry) : hooks entries = [] := by
  refine List.filterMap_eq_nil_iff.2 fun entry hentry => ?_
  have hannouncing := h entry hentry
  cases entry with
  | called call moment =>
    cases call with
    | detector detector hook => exact absurd rfl (hannouncing detector hook)
    | _ => rfl
  | _ => rfl

theorem requests_of_announcing {host : Host σ} {entries : List Entry}
    (h : ∀ entry ∈ entries, Announcing host entry) (hown : host.RepeatsOwn) :
    requests entries = [] := by
  refine List.filterMap_eq_nil_iff.2 fun entry hentry => ?_
  have hannouncing := h entry hentry
  cases entry with
  | requested detector scope => exact absurd hown hannouncing
  | _ => rfl

structure OnLeg (leg : Leg) (s : State σ) : Prop where
  schedule : ∃ planned : Schedule, planned.requests = none ∧ planned.phase = leg.phase ∧
    s.schedule = some (planned.asked leg.pending)
  scope : s.scope = leg.scope

structure Announced (host : Host σ) (root : ProjectRef) (leg : Leg) (s t : State σ)
    (opening : List Entry) : Prop where
  announces : Announces root opening
  announcing : ∀ entry ∈ opening, Announcing host entry
  written : t.written = s.written ++ opening
  schedule : ∃ planned : Schedule, planned.requests = none ∧ planned.phase = leg.phase + 1 ∧
    t.schedule = some (planned.asked (leg.pending ++ requests opening))
  scope : ∀ category, t.scope.contains category = true ↔
    leg.scope.contains category = true ∧ Wanted (leg.pending ++ requests opening) category
  registry : t.registry = s.registry
  serials : t.serials = s.serials

section Later

variable (host : Host σ) (opts : Options) {root : ProjectRef} {config : Configuration}

variable {leg : Leg}

theorem extraPhases_announces (fuel : Nat) (hleg : OnLeg leg s)
    (hphase : leg.phase < Options.maxPhases) (hpending : leg.pending ≠ [])
    (hconfig : s.Configured root config) :
    ∃ t opening, Announced host root leg s t opening ∧ t.Configured root config ∧
      (host.engine opts).extraPhases root (fuel + 1) s =
        (host.engine opts).laterPhases root fuel t := by
  obtain ⟨planned, hnone, hplanned, hschedule⟩ := hleg.schedule
  let advanced : Schedule := { planned.asked leg.pending with phase := leg.phase + 1 }
  have hadvance : (ownSlot.schedule s).advance? = some advanced := by
    show (s.schedule.getD {}).advance? = _
    rw [hschedule, Option.getD_some, Schedule.advance?, Schedule.phase_asked, hplanned,
      if_neg (Nat.not_le_of_lt hphase)]
  obtain ⟨s₁, hfire, heq⟩ := extraPhases_announced host opts root fuel hadvance
  have hknown : s₁.Configured root config :=
    ((lasts_configured root config).fire host opts _ _).ok
      (s := { s with schedule := some advanced }) hconfig hfire
  have htended := tended_fire host opts .newPhase (some (projectContext root))
    { s with schedule := some advanced }
  rw [hfire, endState_ok] at htended
  obtain ⟨heard, hwritten, hall, hasked⟩ := htended.wrote
  let opening := Entry.fired .newPhase (some (projectContext root))
    (State.moment { s with schedule := some advanced }) :: heard
  let stepped : Schedule := { planned with phase := leg.phase + 1 }
  have hstepped : s₁.schedule = some (stepped.asked (leg.pending ++ requests opening)) := by
    have hadvanced : stepped.asked leg.pending = advanced :=
      Schedule.asked_withPhase planned (leg.phase + 1) leg.pending
    rw [hasked, Schedule.asked_append, hadvanced]
    rfl
  have hmore : leg.pending ++ requests opening ≠ [] := by simp [hpending]
  refine ⟨s₁.narrow, opening, ⟨⟨_, _, rfl⟩, ?_, ?_, ?_, ?_, ?_, ?_⟩, hknown, heq⟩
  · intro entry hentry
    rcases List.mem_cons.1 hentry with rfl | hentry
    · trivial
    · exact hall entry hentry
  · show s₁.written = _
    rw [hwritten, State.written_write, List.append_assoc]
    rfl
  · exact ⟨stepped, hnone, rfl, hstepped⟩
  · intro category
    have hown : ownSlot.schedule s₁ = stepped.asked (leg.pending ++ requests opening) := by
      show s₁.schedule.getD {} = _
      rw [hstepped, Option.getD_some]
    have hscope : s₁.scope = leg.scope := htended.scope.trans hleg.scope
    show ((ownSlot.schedule s₁).narrowed s₁.scope).contains category = true ↔ _
    rw [hown, hscope]
    have hfree : stepped.requests = none := hnone
    exact Schedule.narrowed_asked hfree hmore leg.scope category
  · exact htended.registry
  · exact htended.serials

def nextLeg (leg : Leg) (t : State σ) (config : Configuration) (opening during : List Entry) :
    Leg :=
  { phase := leg.phase + 1
    scope := t.scope
    detectors := (t.repeating config).detectors
    opening
    during := .logged ⟨.debug, "[DetectorScheduler] Phase " ++ toString (leg.phase + 1) ++
      ": repeating " ++ toString (t.repeating config).members.length ++ " of " ++
      toString (ownSlot.schedule t).requested.length ++ " requested detectors", []⟩ :: during }

namespace Announced

variable {host} {leg : Leg} {s t : State σ} {opening : List Entry}
  (h : Announced host root leg s t opening)

include h

theorem requested :
    (ownSlot.schedule t).requested = distinct ((leg.pending ++ requests opening).map Prod.fst) ∧
      (ownSlot.schedule t).phase = leg.phase + 1 := by
  obtain ⟨planned, hnone, hplanned, hschedule⟩ := h.schedule
  have hown : ownSlot.schedule t = planned.asked (leg.pending ++ requests opening) := by
    show t.schedule.getD {} = _
    rw [hschedule, Option.getD_some]
  rw [hown, Schedule.phase_asked]
  exact ⟨Schedule.requested_asked hnone _, hplanned⟩

theorem follows (hcalled : hooks leg.during ≠ []) (hscope : t.scope.isEmpty = false)
    (during : List Entry) :
    Follows s.registry config root leg (nextLeg leg t config opening during) := by
  refine ⟨⟨hcalled, h.announces, rfl, ?_⟩, h.scope, hscope⟩
  show (Schedule.repeating t.registry config (ownSlot.schedule t).requested).detectors = _
  rw [Schedule.detectors_repeating, h.requested.1, h.registry]
  rfl

theorem proper (hphase : leg.phase < Options.maxPhases) {during : List Entry}
    (hduring : ∀ entry ∈ during,
      Attending host root (t.repeating config).detectors (leg.phase + 1) t.scope entry) :
    (nextLeg leg t config opening during).Proper host root ∧
      (nextLeg leg t config opening during).Scoped := by
  have hmem : ∀ entry, entry ∈ (nextLeg leg t config opening during).during →
      Attending host root (t.repeating config).detectors (leg.phase + 1) t.scope entry := by
    intro entry hentry
    rcases List.mem_cons.1 hentry with rfl | hentry
    · trivial
    · exact hduring entry hentry
  have hone : 1 ≤ leg.phase + 1 := Nat.succ_le_succ (Nat.zero_le _)
  refine ⟨⟨⟨hone, hphase⟩, hooks_of_announcing h.announcing, ?_, ?_⟩, ?_⟩
  · intro detector hook moment hcalled
    obtain ⟨hdetector, hmoment, -, hcontext⟩ := hmem _ hcalled
    exact ⟨hdetector, hmoment, hcontext⟩
  · intro hown
    refine ⟨requests_of_announcing h.announcing hown, fun request hrequest => ?_⟩
    exact hmem _ (mem_requests.1 hrequest) hown
  · intro detector hook moment hcalled
    exact (hmem _ hcalled).2.2.1

theorem written_replanned :
    (t.replanned config).written = s.written ++ (nextLeg leg t config opening []).entries := by
  show (State.write (State.write _ _) _).written = _
  rw [State.written_write, State.written_write]
  show t.written ++ _ ++ _ = _
  rw [h.written, h.requested.2]
  simp [Leg.entries, nextLeg]

theorem leg_checkProject (hphase : 1 ≤ leg.phase ∧ leg.phase < Options.maxPhases)
    (hdetectors : (t.repeating config).detectors ≠ []) {v : State σ}
    (hv : endState ((host.engine opts).checkProject root (t.repeated config)) = v) :
    ∃ next, (∃ during, next = nextLeg leg t config opening during) ∧
      OnLeg next v ∧ (next.Proper host root ∧ next.Scoped) ∧ hooks next.during ≠ [] ∧
      v.written = s.written ++ next.entries ∧ v.registry = s.registry ∧ v.serials = s.serials := by
  have htended : Tended (Attending host root (t.repeating config).detectors
      (ownSlot.schedule t).phase t.scope) (t.repeated config) v := by
    rw [← hv]
    exact tended_checkProject (s := t.repeated config) host opts root rfl
  obtain ⟨during, hwritten, hall, hasked⟩ := htended.wrote
  rw [h.requested.2] at hall
  have hcalled : hooks during ≠ [] :=
    hooks_checkProject host opts root (s := t.repeated config) hdetectors (by rw [hv, hwritten])
  let planned : Schedule :=
    { ownSlot.schedule t with requests := none, selection := t.repeating config }
  refine ⟨_, ⟨during, rfl⟩, ⟨⟨planned, rfl, h.requested.2, ?_⟩, htended.scope⟩,
    h.proper hphase.2 hall, hcalled, ?_, htended.registry.trans h.registry,
    htended.serials.trans h.serials⟩
  · have hpending : (nextLeg leg t config opening during).pending = requests during := by
      have hlater : (nextLeg leg t config opening during).phase ≠ 1 := by
        show leg.phase + 1 ≠ 1
        omega
      rw [Leg.pending, if_neg hlater]
      rfl
    rw [hasked, hpending]
    rfl
  · have hreplanned : (t.repeated config).written =
        s.written ++ (nextLeg leg t config opening []).entries := h.written_replanned
    rw [hwritten, hreplanned]
    simp [Leg.entries, nextLeg]

end Announced

structure Onward (host : Host σ) (config : Configuration) (root : ProjectRef) (leg : Leg)
    (s : State σ) (r : Outcome σ Unit) (legs : List Leg)
    (closing : List Entry) : Prop where
  written : (endState r).written = s.written ++ (legs.flatMap Leg.entries ++ closing)
  chain : List.IsChain (Follows s.registry config root) (leg :: legs)
  proper : ∀ leg ∈ legs, leg.Proper host root ∧ leg.Scoped
  silent : hooks closing = []
  ended : Completes r → Ended root (legs.getLastD leg) closing
  registry : (endState r).registry = s.registry
  serials : (endState r).serials = s.serials

namespace Onward

variable {host} {leg next : Leg} {s v : State σ} {r : Outcome σ Unit}
  {legs : List Leg} {closing : List Entry}

theorem nil (hwritten : (endState r).written = s.written)
    (hregistry : (endState r).registry = s.registry) (hserials : (endState r).serials = s.serials)
    (hended : Completes r → Ended root leg []) : Onward host config root leg s r [] [] where
  written := by rw [hwritten]; simp
  chain := .singleton leg
  proper := fun _ hleg => absurd hleg List.not_mem_nil
  silent := rfl
  ended := hended
  registry := hregistry
  serials := hserials

theorem cons (h : Onward host config root next v r legs closing)
    (hfollows : Follows s.registry config root leg next)
    (hproper : next.Proper host root ∧ next.Scoped)
    (hwritten : v.written = s.written ++ next.entries) (hregistry : v.registry = s.registry)
    (hserials : v.serials = s.serials) :
    Onward host config root leg s r (next :: legs) closing where
  written := by
    rw [h.written, hwritten]
    simp
  chain := by
    have hchain := h.chain
    rw [hregistry] at hchain
    exact List.isChain_cons_cons.2 ⟨hfollows, hchain⟩
  proper := fun other hother => by
    rcases List.mem_cons.1 hother with rfl | hother
    · exact hproper
    · exact h.proper other hother
  silent := h.silent
  ended := fun hr => by
    rw [List.getLastD_cons]
    exact h.ended hr
  registry := h.registry.trans hregistry
  serials := h.serials.trans hserials

end Onward

theorem OnLeg.schedule_eq (h : OnLeg leg s) : (ownSlot.schedule s).phase = leg.phase ∧
      (ownSlot.schedule s).isPending = !leg.pending.isEmpty := by
  obtain ⟨planned, hnone, hphase, hschedule⟩ := h.schedule
  have hown : ownSlot.schedule s = planned.asked leg.pending := by
    show s.schedule.getD {} = _
    rw [hschedule, Option.getD_some]
  rw [hown, Schedule.phase_asked, Schedule.isPending_asked hnone]
  exact ⟨hphase, rfl⟩

theorem goOn_cases (e : Engine σ) (root : ProjectRef) (fuel : Nat) {detectors : List Detector}
    (h : OnLeg leg s) (hdetectors : detectors ≠ []) :
    e.goOn root fuel detectors s = .ok () s ∧
        (s.canceled = false → Options.maxPhases ≤ leg.phase ∨ leg.pending = []) ∨
      leg.phase < Options.maxPhases ∧ leg.pending ≠ [] ∧
        e.goOn root fuel detectors s = e.extraPhases root fuel s := by
  obtain ⟨hphase, hpending⟩ := h.schedule_eq
  rw [goOn, get_bind, hphase, hpending]
  by_cases hlast : Options.maxPhases ≤ leg.phase
  · rw [if_pos (by simp [hlast])]
    exact .inl ⟨rfl, fun _ => .inl hlast⟩
  · by_cases hnone : leg.pending = []
    · rw [if_pos (by simp [hnone])]
      exact .inl ⟨rfl, fun _ => .inr hnone⟩
    · cases hcanceled : s.canceled with
      | true =>
        rw [if_pos (by simp [hdetectors])]
        exact .inl ⟨rfl, fun hlive => by cases hlive⟩
      | false =>
        rw [if_neg (by simp [hlast, hnone])]
        exact .inr ⟨Nat.lt_of_not_le hlast, hnone, rfl⟩

theorem onward_extraPhases (fuel : Nat) (hleg : OnLeg leg s)
    (hphase : 1 ≤ leg.phase ∧ leg.phase < Options.maxPhases) (hpending : leg.pending ≠ [])
    (hcalled : hooks leg.during ≠ []) (hconfig : s.Configured root config)
    (hfuel : Options.maxPhases ≤ leg.phase + fuel) : ∃ legs closing, Onward host config root leg s
      ((host.engine opts).extraPhases root fuel s) legs closing := by
  induction fuel generalizing leg s with
  | zero => omega
  | succ fuel ih =>
    obtain ⟨t, opening, hopening, hknown, heq⟩ :=
      extraPhases_announces host opts fuel hleg hphase.2 hpending hconfig
    rw [heq]
    rcases laterPhases_cases (host.engine opts) fuel hknown with
      ⟨hscope, hrun⟩ |
      ⟨hscope, ⟨fault, hrun⟩ | ⟨hdetectors, hrun⟩ | ⟨first, rest, hdetectors, hrun⟩⟩
    · -- Nothing is left in scope: the announcement is all there is of the phase.
      rw [hrun]
      refine ⟨[], opening, ⟨hopening.written, .singleton leg,
        fun _ h => absurd h List.not_mem_nil, hooks_of_announcing hopening.announcing,
        fun _ => .inr ⟨hopening.announces, ?_⟩, hopening.registry, hopening.serials⟩⟩
      intro category hcategory hwanted
      have hcontains := (hopening.scope category).2 ⟨hcategory, hwanted⟩
      have hmem := ScopeSet.mem_toList.2 hcontains
      rw [List.isEmpty_iff.1 hscope] at hmem
      exact List.not_mem_nil hmem
    · rw [hrun]
      refine ⟨[_], [], .cons (.nil rfl rfl rfl ?_) (hopening.follows hcalled hscope [])
        (hopening.proper hphase.2 fun _ h => nomatch h) hopening.written_replanned
        hopening.registry hopening.serials⟩
      exact fun h => absurd h (not_completes_error fault _)
    · rw [hrun]
      refine ⟨[_], [], .cons (.nil rfl rfl rfl ?_) (hopening.follows hcalled hscope [])
        (hopening.proper hphase.2 fun _ h => nomatch h) hopening.written_replanned
        hopening.registry hopening.serials⟩
      exact fun _ => .inl ⟨rfl, .inl hdetectors⟩
    · have hsome : first :: rest ≠ [] := List.cons_ne_nil first rest
      have hrepeats : (t.repeating config).detectors ≠ [] := by rwa [hdetectors]
      obtain ⟨next, ⟨during, hnext⟩, honLeg, hproper, hhooks, hwritten, hregistry, hserials⟩ :=
        hopening.leg_checkProject opts hphase hrepeats rfl
      have hfollows : Follows s.registry config root leg next :=
        hnext ▸ hopening.follows hcalled hscope during
      have hlater : next.phase = leg.phase + 1 := hfollows.1.phase
      have hbounds := hproper.1.bounds
      rw [hrun]
      cases hcheck : (host.engine opts).checkProject root (t.repeated config) with
      | error fault v =>
        rw [hcheck, endState_error] at honLeg hwritten hregistry hserials
        rw [bind_of_error hcheck]
        refine ⟨[next], [], .cons (.nil rfl rfl rfl ?_) hfollows hproper hwritten hregistry
          hserials⟩
        exact fun h => absurd h (not_completes_error fault _)
      | ok _ v =>
        rw [hcheck, endState_ok] at honLeg hwritten hregistry hserials
        rw [bind_of_ok hcheck]
        rcases goOn_cases (host.engine opts) root fuel honLeg hsome with
          ⟨hstop, hwhy⟩ | ⟨hmore, hasked, hgoOn⟩
        · rw [hstop]
          refine ⟨[next], [], .cons (.nil rfl rfl rfl ?_) hfollows hproper hwritten hregistry
            hserials⟩
          rintro ⟨_, _, hend, hcanceled⟩
          cases hend
          refine .inl ⟨rfl, .inr ((hwhy hcanceled).imp_left fun hlast => ?_)⟩
          exact Nat.le_antisymm hbounds.2 hlast
        · have hstill : v.Configured root config :=
            ((lasts_configured root config).checkProject host opts root).ok
              (s := t.repeated config) hknown hcheck
          obtain ⟨legs, closing, honward⟩ :=
            ih honLeg ⟨hbounds.1, hmore⟩ hasked hhooks hstill (by omega)
          rw [hgoOn]
          exact ⟨next :: legs, closing, honward.cons hfollows hproper hwritten hregistry hserials⟩

theorem Onward.keepingScope {host : Host σ} {x : Run σ Unit}
    {legs : List Leg} {closing : List Entry}
    (h : Onward host config root leg s (x s) legs closing) :
    Onward host config root leg s (keepingScope x s) legs closing ∧
      (endState (keepingScope x s)).scope = s.scope := by
  rw [Run.keepingScope]
  cases hx : x s with
  | ok _ t =>
    rw [hx] at h
    refine ⟨⟨h.written, h.chain, h.proper, h.silent, ?_, h.registry, h.serials⟩, rfl⟩
    rintro ⟨_, _, hend, hcanceled⟩
    cases hend
    exact h.ended ⟨(), t, rfl, hcanceled⟩
  | error fault t =>
    rw [hx] at h
    exact ⟨⟨h.written, h.chain, h.proper, h.silent, fun h => absurd h (not_completes_error _ _),
      h.registry, h.serials⟩, rfl⟩

theorem onward_repeatPhases (hleg : OnLeg leg s) (hphase : leg.phase = 1)
    (hcalled : hooks leg.during ≠ []) (hconfig : s.Configured root config) :
    ∃ legs closing, Onward host config root leg s
        (unlessCanceled ((host.engine opts).repeatPhases root) s) legs closing ∧
      (endState (unlessCanceled ((host.engine opts).repeatPhases root) s)).scope = s.scope := by
  cases hcanceled : s.canceled with
  | true =>
    rw [unlessCanceled_of_canceled hcanceled]
    exact ⟨[], [], .nil rfl rfl rfl fun h => absurd h (not_completes_canceled () hcanceled), rfl⟩
  | false =>
    rw [unlessCanceled_of_not_canceled hcanceled, repeatPhases, get_bind, hleg.schedule_eq.2]
    by_cases hnone : leg.pending = []
    · rw [hnone]
      exact ⟨[], [], .nil rfl rfl rfl fun _ => .inl ⟨rfl, .inr (.inr hnone)⟩, rfl⟩
    · have hmax : Options.maxPhases = 3 := rfl
      rw [if_pos (by simp [hnone])]
      obtain ⟨legs, closing, honward⟩ := onward_extraPhases host opts Options.maxPhases hleg
        (by omega) hnone hcalled hconfig (by omega)
      exact ⟨legs, closing, honward.keepingScope⟩

end Later

/-! ## No phase after the last

A schedule is asked for its next phase only while there is one, so it makes no difference what would
be done otherwise. -/

section Fallback

def anotherPhase (e : Engine σ) (project : ProjectRef) (fallback next : Run σ Unit) :
    Run σ Unit := do
  match (ownSlot.schedule (← get)).advance? with
  | none => fallback
  | some advanced =>
    setSchedule advanced
    e.fire .newPhase (some (projectContext project))
    let s ← get
    let scope := (ownSlot.schedule s).narrowed s.scope
    set { s with scope }
    if scope.isEmpty then pure ()
    else
      let detectors ← e.replan ownSlot (e.configuration project)
      forgetVisitor
      match detectors with
      | [] => pure ()
      | _ => e.checkProject project
      let s ← get
      let schedule := ownSlot.schedule s
      if (s.canceled && !detectors.isEmpty) || Options.maxPhases ≤ schedule.phase ||
          !schedule.isPending then pure ()
      else next

variable (fallback : Run σ Unit)

def extraPhasesOr (e : Engine σ) (project : ProjectRef) : Nat → Run σ Unit
  | 0 => pure ()
  | fuel + 1 => anotherPhase e project fallback (extraPhasesOr e project fuel)

/-- The phases for a root, with a fallback for the phases past the limit. -/
def checkRootOr (e : Engine σ) (project : ProjectRef) : Run σ Unit := do
  let detectors ← e.plan ownSlot (e.configuration project) (← get).scope
  forgetVisitor
  match detectors with
  | [] => note .debug ("[LintEngine] No detectors enabled for " ++ project.dir ++ "; skipping")
  | _ =>
    e.checkProject project
    unlessCanceled do
      if (ownSlot.schedule (← get)).isPending then
        keepingScope (extraPhasesOr fallback e project Options.maxPhases)
      else pure ()

theorem extraPhases_succ (e : Engine σ) (project : ProjectRef) (fuel : Nat) :
    e.extraPhases project (fuel + 1) =
      anotherPhase e project (pure ()) (e.extraPhases project fuel) := rfl

theorem anotherPhase_congr (e : Engine σ) (project : ProjectRef) (other : Run σ Unit)
    {next next' : Run σ Unit} (hnext : ∀ t, t.phase < Options.maxPhases → next t = next' t)
    (h : s.phase < Options.maxPhases) :
    anotherPhase e project fallback next s = anotherPhase e project other next' s := by
  have hgoOn : ∀ detectors : List Detector, (do
      let s ← get
      let schedule := ownSlot.schedule s
      if (s.canceled && !detectors.isEmpty) || Options.maxPhases ≤ schedule.phase ||
          !schedule.isPending then pure ()
      else next : Run σ Unit) = (do
      let s ← get
      let schedule := ownSlot.schedule s
      if (s.canceled && !detectors.isEmpty) || Options.maxPhases ≤ schedule.phase ||
          !schedule.isPending then pure ()
      else next') := by
    intro detectors
    funext t
    rw [get_bind, get_bind]
    by_cases hlast : Options.maxPhases ≤ (ownSlot.schedule t).phase
    · simp [hlast]
    · have hsame : next t = next' t := hnext t (by
        rw [State.phase_eq]
        exact Nat.lt_of_not_le hlast)
      split
      · rfl
      · exact hsame
  rw [State.phase_eq] at h
  rw [anotherPhase, anotherPhase, get_bind, get_bind, Schedule.advance?,
    if_neg (Nat.not_le_of_lt h)]
  simp only [hgoOn]

theorem extraPhasesOr_eq (e : Engine σ) (project : ProjectRef) (fuel : Nat)
    (h : s.phase < Options.maxPhases) :
    extraPhasesOr fallback e project fuel s = e.extraPhases project fuel s := by
  induction fuel generalizing s with
  | zero => rfl
  | succ fuel ih =>
    rw [extraPhasesOr, extraPhases_succ]
    exact anotherPhase_congr fallback e project (pure ()) (fun t ht => ih ht) h

theorem checkRootOr_eq (host : Host σ) (opts : Options) (project : ProjectRef) (s : State σ) :
    checkRootOr fallback (host.engine opts) project s = (host.engine opts).checkRoot project s := by
  rw [checkRootOr, checkRoot, get_bind, get_bind]
  have hlater := plan_later host opts project s.scope s
  cases hplan : (host.engine opts).plan ownSlot ((host.engine opts).configuration project)
      s.scope s with
  | error fault t => rw [bind_of_error hplan, bind_of_error hplan]
  | ok detectors t =>
    rw [hplan, endState_ok] at hlater
    rw [bind_of_ok hplan, bind_of_ok hplan, bind_of_ok (x := forgetVisitor) rfl,
      bind_of_ok (x := forgetVisitor) rfl]
    cases detectors with
    | nil => rfl
    | cons first rest =>
      show ((host.engine opts).checkProject project >>= _) _ =
        ((host.engine opts).checkProject project >>= _) _
      cases hcheck : (host.engine opts).checkProject project { t with memo := none } with
      | error fault u => rw [bind_of_error hcheck, bind_of_error hcheck]
      | ok _ u =>
        have hphase : u.phase = 1 :=
          (phase_checkProject host opts hcheck).trans hlater.phase
        have hextra := extraPhasesOr_eq fallback (host.engine opts) project
          Options.maxPhases (s := u) (by rw [hphase]; decide)
        rw [bind_of_ok hcheck, bind_of_ok hcheck]
        show (if u.canceled then pure () else _ : Run σ Unit) u =
          (if u.canceled then pure () else _ : Run σ Unit) u
        split
        · rfl
        · rw [repeatPhases, get_bind, get_bind]
          split
          · rw [keepingScope, keepingScope, hextra]
          · rfl

end Fallback
end Phases
end ProjectLint
