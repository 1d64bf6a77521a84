/-
What the parts of a run leave as it was. Callbacks write down what they do, may cancel the run and
may make projects known; the scope, the phase and the announcements of the engine are not theirs to
change. An operation that keeps the relation below to its start stays within that frame.
-/
import ProjectLint.Proofs.Attendance

namespace ProjectLint

def Journal.Entry.isIncidental : Journal.Entry → Bool
  | .fired .. | .planned .. | .submitted .engine _ => false
  | .submitted .embedding _ | .called .. | .requested .. | .logged _ | .observed _ => true

def Project.Later (p q : Project) : Prop :=
  q.dir = p.dir ∧ ∀ refs, p.libraries = some refs → q.libraries = some refs

theorem Schedule.advance?_eq_some {schedule advanced : Schedule}
    (h : schedule.advance? = some advanced) :
    schedule.phase < Options.maxPhases ∧ advanced.phase = schedule.phase + 1 := by
  rw [Schedule.advance?] at h
  by_cases hlast : Options.maxPhases ≤ schedule.phase
  · rw [if_pos hlast] at h
    cases h
  · rw [if_neg hlast] at h
    cases h
    exact ⟨Nat.lt_of_not_le hlast, rfl⟩

theorem getElem?_of_modify {xs : Array α} {f : α → α} {index i : Nat} {b : α}
    (h : (xs.modify index f)[i]? = some b) :
    ∃ a, xs[i]? = some a ∧ (index = i ∧ b = f a ∨ b = a) := by
  rw [Array.getElem?_modify] at h
  by_cases hi : index = i
  · rw [if_pos hi] at h
    obtain ⟨a, ha, rfl⟩ := Option.map_eq_some_iff.1 h
    exact ⟨a, ha, .inl ⟨hi, rfl⟩⟩
  · rw [if_neg hi] at h
    exact ⟨b, h, .inr rfl⟩

theorem getElem?_of_push {xs : Array α} {a b : α} {i : Nat} (h : (xs.push a)[i]? = some b) :
    b = a ∨ xs[i]? = some b := by
  rw [Array.getElem?_push] at h
  by_cases hi : i = xs.size
  · rw [if_pos hi] at h
    exact .inl (Option.some.inj h).symm
  · rw [if_neg hi] at h
    exact .inr h

theorem getElem?_modify_of {xs : Array α} {a : α} {i : Nat} (h : xs[i]? = some a) (index : Nat)
    (f : α → α) : ∃ b, (xs.modify index f)[i]? = some b ∧ (index = i ∧ b = f a ∨ b = a) := by
  rw [Array.getElem?_modify, h]
  by_cases hi : index = i
  · exact ⟨f a, if_pos hi, .inl ⟨hi, rfl⟩⟩
  · exact ⟨a, if_neg hi, .inr rfl⟩

theorem getElem?_push_of {xs : Array α} {b : α} {i : Nat} (h : xs[i]? = some b) (a : α) :
    (xs.push a)[i]? = some b := by
  have hi : i < xs.size := (Array.getElem?_eq_some_iff.1 h).1
  rw [Array.getElem?_push, if_neg (Nat.ne_of_lt hi), h]

theorem map_getElem?_modify (xs : Array α) (index i : Nat) {f : α → β} {change : α → α}
    (h : ∀ a, f (change a) = f a) : (xs.modify index change)[i]?.map f = xs[i]?.map f := by
  rw [Array.getElem?_modify]
  by_cases hi : index = i
  · rw [if_pos hi, Option.map_map]
    exact congrArg (Option.map · xs[i]?) (funext h)
  · rw [if_neg hi]

namespace State

theorem phase_eq (s : State σ) : s.phase = (Engine.ownSlot.schedule s).phase := by
  show (s.schedule.map Schedule.phase).getD 1 = (s.schedule.getD {}).phase
  cases s.schedule with
  | none => rfl
  | some schedule => rfl

/-- What may have become of a state when beside incidental entries only `announced` ones were
written. -/
structure Later (announced : Journal.Entry → Prop) (b s : State σ) : Prop where
  wrote : ∃ new, s.written = b.written ++ new ∧ ∀ entry ∈ new, entry.isIncidental ∨ announced entry
  scope : s.scope = b.scope
  phase : s.phase = b.phase
  cancelReported : s.cancelReported = b.cancelReported
  canceled : b.canceled = true → s.canceled = true
  projects : ∀ (i : Nat) p, b.projects[i]? = some p → ∃ q, s.projects[i]? = some q ∧ p.Later q

namespace Later

variable {announced announced' : Journal.Entry → Prop} {b s t : State σ}

theorem refl (s : State σ) : Later announced s s where
  wrote := ⟨[], (List.append_nil _).symm, fun _ hentry => absurd hentry List.not_mem_nil⟩
  scope := rfl
  phase := rfl
  cancelReported := rfl
  canceled := id
  projects := fun _ p hp => ⟨p, hp, rfl, fun _ => id⟩

variable (h : Later announced b s)

include h

theorem trans (h' : Later announced s t) : Later announced b t where
  wrote := by
    obtain ⟨first, hfirst, hall⟩ := h.wrote
    obtain ⟨second, hsecond, hall'⟩ := h'.wrote
    refine ⟨first ++ second, by rw [hsecond, hfirst, List.append_assoc], fun entry hentry => ?_⟩
    exact (List.mem_append.1 hentry).elim (hall entry) (hall' entry)
  scope := h'.scope.trans h.scope
  phase := h'.phase.trans h.phase
  cancelReported := h'.cancelReported.trans h.cancelReported
  canceled := h'.canceled ∘ h.canceled
  projects := fun i p hp => by
    obtain ⟨q, hq, hdir, hrefs⟩ := h.projects i p hp
    obtain ⟨r, hr, hdir', hrefs'⟩ := h'.projects i q hq
    exact ⟨r, hr, hdir'.trans hdir, fun refs hp => hrefs' refs (hrefs refs hp)⟩

theorem mono (himp : ∀ entry, announced entry → announced' entry) : Later announced' b s := by
  obtain ⟨new, hnew, hall⟩ := h.wrote
  exact ⟨⟨new, hnew, fun entry hentry => (hall entry hentry).imp id (himp entry)⟩, h.scope, h.phase,
    h.cancelReported, h.canceled, h.projects⟩

theorem write {entry : Journal.Entry}
    (hentry : entry.isIncidental ∨ announced entry) : Later announced b (s.write entry) := by
  obtain ⟨new, hnew, hall⟩ := h.wrote
  refine ⟨⟨new ++ [entry], ?_, ?_⟩, h.scope, h.phase, h.cancelReported, h.canceled, h.projects⟩
  · rw [written_write, hnew, List.append_assoc]
  · intro other hother
    rcases List.mem_append.1 hother with hold | hlast
    · exact hall other hold
    · rw [List.mem_singleton.1 hlast]
      exact hentry

theorem rescope (scope : ScopeSet) : Later announced { b with scope } { s with scope } :=
  ⟨h.wrote, rfl, h.phase, h.cancelReported, h.canceled, h.projects⟩

theorem grown : b.written <+: s.written := by
  obtain ⟨new, hnew, -⟩ := h.wrote
  exact ⟨new, hnew.symm⟩

theorem libraries {ref : ProjectRef} {refs : List ProjectRef}
    (hrefs : (b.project ref).libraries = some refs) : (s.project ref).libraries = some refs := by
  rw [State.project, Array.getD_eq_getD_getElem?] at hrefs ⊢
  cases hp : b.projects[ref.index]? with
  | none => rw [hp] at hrefs; cases hrefs
  | some p =>
    rw [hp] at hrefs
    obtain ⟨q, hq, _, hlater⟩ := h.projects _ p hp
    rw [hq]
    exact hlater refs hrefs

theorem changed (index : Nat) (change : Project → Project) (hdir : ∀ p, (change p).dir = p.dir)
    (hrefs : ∀ p, b.projects[index]? = some p → ∀ refs, p.libraries = some refs →
      ∀ q, q.libraries = some refs → (change q).libraries = some refs) :
    Later announced b (s.changed index change) := by
  refine ⟨h.wrote, h.scope, h.phase, h.cancelReported, h.canceled, fun i p hp => ?_⟩
  obtain ⟨q, hq, hpq, hlater⟩ := h.projects i p hp
  obtain ⟨r, hr, ⟨rfl, rfl⟩ | rfl⟩ := getElem?_modify_of hq index change
  · exact ⟨_, hr, (hdir q).trans hpq, fun refs hp' => hrefs p hp refs hp' q (hlater refs hp')⟩
  · exact ⟨r, hr, hpq, hlater⟩

end Later
end State

/-! ## Planning -/

namespace Engine

open Run

variable {e e' : Engine σ} {ρ : State σ → State σ → Prop}

structure Selects (e e' : Engine σ) (ρ : State σ → State σ → Prop) : Prop extends Kin e e' where
  memory : ∀ {s t}, ρ s t → s.host = t.host
  registry : ∀ {s t}, ρ s t → s.registry = t.registry
  serials : ∀ {s t}, ρ s t → s.serials = t.serials
  noted : ∀ entry {s t}, ρ s t → ρ (s.write (.logged entry)) (t.write (.logged entry))
  counted : ∀ serials {s t}, ρ s t → ρ { s with serials } { t with serials }

namespace Selects

variable (h : Selects e e' ρ)

include h

theorem instantiate (name : DetectorClass) :
    Mirrors ρ Eq (e.instantiate name) (e'.instantiate name) := by
  intro s t hst
  have hconstruct : e'.host.construct name t.host = e.host.construct name s.host := by
    rw [h.answer Host.construct fun _ _ => rfl, h.memory hst]
  rw [Engine.instantiate, Engine.instantiate, get_bind, get_bind, hconstruct, h.serials hst]
  cases e.host.construct name s.host with
  | error fault => exact .error fault hst
  | ok made => exact .ok rfl (h.counted _ hst)

theorem select (config : Configuration) (scope : ScopeSet) :
    Mirrors ρ Eq (e.select config scope) (e'.select config scope) := by
  have hall : ∀ classes, Mirrors ρ Eq (e.instantiateAll classes) (e'.instantiateAll classes) := by
    intro classes
    induction classes with
    | nil => exact .pure rfl
    | cons entry rest ih =>
      obtain ⟨name, scope⟩ := entry
      rw [Engine.instantiateAll, Engine.instantiateAll]
      exact (h.instantiate name).andThen fun detector => ih.andThen fun others => .pure rfl
  refine .read fun s t hst => ?_
  rw [h.registry hst]
  exact (hall _).andThen fun members => Mirrors.andThen (.modify (h.noted _)) fun _ => .pure rfl

theorem checkSelection (selection : Selection) :
    Mirrors ρ Eq (e.checkSelection selection) (e'.checkSelection selection) := by
  rw [Engine.checkSelection, Engine.checkSelection, Engine.misplaced?, Engine.misplaced?,
    h.options, h.answer Host.scans fun _ _ => rfl]
  refine .ite Iff.rfl ?_ (.pure rfl)
  cases Scope.all.findSome? _ with
  | some fault => exact .throw fault
  | none => exact .pure rfl

end Selects

structure Plans (e e' : Engine σ) (ρ : State σ → State σ → Prop) : Prop
    extends Selects e e' ρ where
  schedule : ∀ {s t}, ρ s t → ownSlot.schedule s = ownSlot.schedule t
  scheduled : ∀ (schedule : Schedule) {s t}, schedule.phase = (ownSlot.schedule t).phase →
    ρ s t → ρ { s with schedule := some schedule } { t with schedule := some schedule }
  planned : ∀ detectors {s t}, ρ s t →
    ρ (s.write (.planned (ownSlot.schedule s).phase detectors))
      (t.write (.planned (ownSlot.schedule t).phase detectors))

namespace Plans

variable (h : Plans e e' ρ)

include h

theorem changeSlot (change : Schedule → Schedule)
    (hchange : ∀ schedule, (change schedule).phase = schedule.phase) :
    Respects ρ (ownSlot.change change) := by
  intro s t hst
  show Matches ρ Eq (.ok () { s with schedule := some (change (ownSlot.schedule s)) })
    (.ok () { t with schedule := some (change (ownSlot.schedule t)) })
  rw [h.schedule hst]
  exact .ok rfl (h.scheduled _ (hchange _) hst)

theorem choose (selection : Selection) : Respects ρ (ownSlot.choose selection) := by
  rw [Slot.choose]
  exact Mirrors.andThen (h.changeSlot _ fun _ => rfl) fun _ s t hst =>
    .ok rfl (h.planned selection.detectors hst)

section Configuration

variable {project : ProjectRef}
  (hconfig : Mirrors ρ Eq (e.configuration project) (e'.configuration project))

include hconfig

theorem plan (scope : ScopeSet) {s t : State σ}
    (hst : ρ { s with schedule := some (restarted (ownSlot.schedule s)) }
      { t with schedule := some (restarted (ownSlot.schedule t)) }) :
    Matches ρ Eq (e.plan ownSlot (e.configuration project) scope s)
      (e'.plan ownSlot (e'.configuration project) scope t) := by
  have hrest : Mirrors ρ Eq
      (do let selection ← e.select (← e.configuration project) scope
          ownSlot.choose selection
          e.checkSelection selection
          return selection.detectors)
      (do let selection ← e'.select (← e'.configuration project) scope
          ownSlot.choose selection
          e'.checkSelection selection
          return selection.detectors) :=
    hconfig.andThen fun config =>
      (h.select config scope).andThen fun selection => (h.choose selection).andThen fun _ =>
        (h.checkSelection selection).andThen fun _ => .pure rfl
  exact hrest _ _ hst

theorem replan :
    Mirrors ρ Eq (e.replan ownSlot (e.configuration project))
      (e'.replan ownSlot (e'.configuration project)) := by
  refine .read fun s t hst => ?_
  rw [h.schedule hst]
  refine Mirrors.andThen (h.changeSlot _ fun _ => rfl) fun _ => ?_
  refine hconfig.andThen fun config => .read fun u v huv => ?_
  rw [h.registry huv]
  refine (h.choose _).andThen fun _ => .read fun s' t' hst' => ?_
  rw [h.schedule hst']
  refine Mirrors.andThen (.modify (h.noted _)) fun _ => ?_
  exact (h.checkSelection _).andThen fun _ => .pure rfl

end Configuration
end Plans

/-! ## What the frame outlasts -/

variable {announced : Journal.Entry → Prop} (host : Host σ)

theorem finds_later (b : State σ) :
    Finds host (State.Later announced b) (fun _ => True) (fun _ => True) where
  called := fun _ h => h.write (.inl rfl)
  logged := fun _ _ h => h.write (.inl rfl)
  observed := fun _ _ h => h.write (.inl rfl)
  submitted := fun _ _ _ h => h.write (.inl rfl)
  requested := fun detector scope schedule s _ hschedule h => by
    have hphase : s.phase = schedule.phase := by rw [State.phase, hschedule]; rfl
    have hwrite : State.Later announced b (s.write (.requested detector scope)) :=
      h.write (.inl rfl)
    exact { hwrite with phase := hphase.symm.trans h.phase }
  configured := fun _ _ _ _ _ _ h => h.changed _ _ (fun _ => rfl) fun _ _ _ _ _ hq => hq
  canceled := fun _ h => { h with canceled := fun _ => rfl }
  changed := fun _ _ _ hchange h =>
    h.changed _ _ (fun p => (hchange p).1) fun _ _ _ _ q hq => (hchange q).2.1.trans hq
  added := fun project s _ h => by
    refine { h with projects := fun i p hp => ?_ }
    obtain ⟨q, hq, hlater⟩ := h.projects i p hp
    exact ⟨q, getElem?_push_of hq project, hlater⟩
  linked := fun ref refs s₀ s h₀ hnone h => by
    refine h.changed ref.index _ (fun _ => rfl) fun p hp refs' hrefs' => ?_
    -- The project had libraries at the start, so it had them when none were found.
    have hproject : (b.project ref).libraries = some refs' := by
      rw [State.project, Array.getD_eq_getD_getElem?, hp]
      exact hrefs'
    have hknown : (s₀.project ref).libraries = some refs' := h₀.libraries hproject
    rw [hnone] at hknown
    cases hknown

theorem hears_later (b : State σ) :
    Hears host (State.Later announced b) (fun _ => True) (fun _ => True) where
  toBears := (finds_later host b).toBears
  heard := fun h => h.write (.inl rfl)

theorem scans_later (b : State σ) {C : Context → Prop}
    (hC : ∀ c (moment : Moment), C c → moment.phase = b.phase →
      announced (.fired .scanningFile (some c) moment)) :
    Scans host (State.Later announced b) (fun _ => True) (fun _ => True) (fun _ => True) C :=
  { hears_later host b with
    asked := fun _ _ _ h => h.write (.inl rfl)
    scanned := fun hc h => h.write (.inr (hC _ _ hc h.phase))
    selection := fun _ _ _ => trivial
    memo := fun _ => Naming.memo_alone _ fun _ => trivial
    remembered := fun _ h => { h with } }

/-! ## Operations within the frame -/

def Frames (announced : Journal.Entry → Prop) (x : Run σ α) : Prop :=
  ∀ s, State.Later announced s (endState (x s))

def Quiet : Journal.Entry → Prop := fun _ => False

def Pass.Scans (pass : Pass) (entry : Journal.Entry) : Prop :=
  ∃ file kind moment, entry = .fired .scanningFile (some (pass.context file kind)) moment

def IsPlan (phase : Nat) (entry : Journal.Entry) : Prop :=
  ∃ detectors, entry = .planned phase detectors

def IsEvent (phase : Nat) (entry : Journal.Entry) : Prop :=
  ∃ event context moment, entry = .fired event context moment ∧ moment.phase = phase

theorem Frames.of_keeps {x : Run σ α} (h : ∀ b, Keeps (State.Later announced b) x) :
    Frames announced x :=
  fun s => h s s (.refl s)

theorem Frames.ok {x : Run σ α} (h : Frames announced x) {s s' : State σ} {a : α}
    (hx : x s = .ok a s') : State.Later announced s s' := by
  have hlater := h s
  rwa [hx] at hlater

variable (opts : Options)

theorem serves_later (b : State σ) : (host.engine opts).Serves (State.Later announced b) :=
  (finds_later host b).serves opts

theorem frames_of_finds {x : Run σ α}
    (h : ∀ {I}, Finds host I (fun _ => True) (fun _ => True) → Keeps I x) : Frames Quiet x :=
  .of_keeps fun b => h (finds_later host b)

theorem frames_log (error : Option String) (message : String) (context : Option Context) :
    Frames Quiet ((host.engine opts).log error message context) :=
  frames_of_finds host fun h => h.log opts error message context

theorem configures_later (b : State σ) (ref : ProjectRef) :
    Respects (Diagonal (State.Later announced b)) ((host.engine opts).configuration ref) :=
  .of_keeps (Bears.configuration (finds_later host b).toBears (serves_later host opts b) ref)

theorem frames_configuration (ref : ProjectRef) :
    Frames Quiet ((host.engine opts).configuration ref) :=
  .of_keeps fun b => (configures_later host opts b ref).keeps

theorem frames_libraries (ref : ProjectRef) : Frames Quiet ((host.engine opts).libraries ref) :=
  frames_of_finds host fun h => h.libraries opts ref

theorem frames_resolve (stopped : State σ → Bool) (paths : List String) :
    Frames Quiet (Discovery.resolve (host.engine opts) stopped paths) :=
  frames_of_finds host fun h => h.resolve opts stopped paths

theorem frames_notifyAll (listeners : List Listener) (event : Event) (context : Option Context) :
    Frames Quiet ((host.engine opts).notifyAll listeners event context) :=
  .of_keeps fun b => (hears_later host b).notifyAll opts listeners event context

theorem tells_later (b : State σ) (detectors : List Detector) (hook : Hook) :
    Keeps (State.Later announced b) ((host.engine opts).tellUntilCanceled detectors hook) :=
  .eachUntilCanceled detectors fun _ _ _ hs =>
    (finds_later host b).ask opts (Script.within_true _) (hs.write (.inl rfl))

theorem frames_tellUntilCanceled (detectors : List Detector) (hook : Hook) :
    Frames Quiet ((host.engine opts).tellUntilCanceled detectors hook) :=
  .of_keeps fun b => tells_later host opts b detectors hook

theorem selects_later (b : State σ) :
    Selects (host.engine opts) (host.engine opts) (Diagonal (State.Later announced b)) where
  toKin := .refl _
  memory := fun hst => congrArg State.host hst.1
  registry := fun hst => congrArg State.registry hst.1
  serials := fun hst => congrArg State.serials hst.1
  noted := fun _ _ _ hst => hst.map fun h => h.write (.inl rfl)
  counted := fun serials _ _ hst => hst.map (f := fun s => { s with serials }) fun h => { h with }

theorem fires_later (b : State σ) {event : Event} {context : Option Context}
    (h : ∀ moment : Moment, moment.phase = b.phase → announced (.fired event context moment)) :
    Keeps (State.Later announced b) ((host.engine opts).fire event context) :=
  fun s hs => (hears_later host b).fire opts (hs.write (.inr (h s.moment hs.phase)))

theorem frames_fire (event : Event) (context : Option Context) :
    Frames (fun _ => True) ((host.engine opts).fire event context) :=
  .of_keeps fun b => fires_later host opts b fun _ _ => trivial

theorem frames_checkFiles (pass : Pass) :
    Frames pass.Scans ((host.engine opts).checkFiles pass) := by
  refine .of_keeps fun b => ?_
  have hscans : Scans host (State.Later pass.Scans b) (fun _ => True) (fun _ => True)
      (fun _ => True) fun c => ∃ file kind, c = pass.context file kind :=
    scans_later host b fun _ moment ⟨file, kind, hc⟩ _ => ⟨file, kind, moment, by rw [hc]⟩
  exact ((hscans.stages opts).checkFiles
    ((finds_later host b).samePass fun file kind => ⟨file, kind, rfl⟩)).keeps

theorem checkPhase_later (project : ProjectRef) (s : State σ) :
    State.Later (IsEvent s.phase) s (endState ((host.engine opts).checkPhase project s)) := by
  have hevent : ∀ event context (moment : Moment), moment.phase = s.phase →
      IsEvent s.phase (.fired event context moment) :=
    fun event context moment hphase => ⟨event, context, moment, rfl, hphase⟩
  have hattends : Attends host (State.Later (IsEvent s.phase) s) (fun _ => True) (fun _ => True)
      (fun _ => True) project :=
    { finds_later host s, scans_later host s fun c moment _ => hevent _ (some c) moment with
      askedLevel := fun _ _ h => h.write (.inl rfl)
      announced := fun _ _ h => h.write (.inr (hevent _ _ _ h.phase)) }
  exact hattends.checkPhase opts s (.refl s)

theorem plans_later (b : State σ) :
    Plans (host.engine opts) (host.engine opts) (Diagonal (State.Later (IsPlan b.phase) b)) where
  toSelects := selects_later host opts b
  schedule := fun hst => congrArg ownSlot.schedule hst.1
  scheduled := by
    rintro schedule s _ hphase ⟨rfl, h⟩
    exact ⟨rfl, { h with phase := (hphase.trans (State.phase_eq s).symm).trans h.phase }⟩
  planned := by
    rintro detectors s _ ⟨rfl, h⟩
    refine ⟨rfl, h.write (.inr ⟨detectors, ?_⟩)⟩
    rw [← State.phase_eq, h.phase]

theorem replan_later (project : ProjectRef) (s : State σ) :
    State.Later (IsPlan s.phase) s (endState ((host.engine opts).replan ownSlot
      ((host.engine opts).configuration project) s)) :=
  ((plans_later host opts s).replan (configures_later host opts s project)).keeps s (.refl s)

theorem invoke_later (call : Call) (s : State σ) :
    State.Later Quiet (s.write (.called call s.moment))
      (endState ((host.engine opts).invoke call s)) :=
  (finds_later host _).invoke opts (Script.within_true _) (.refl _)

theorem submit_later (author : Journal.Author) (report : Report) (s : State σ) :
    State.Later Quiet (s.write (.submitted author report))
      (endState ((host.engine opts).submit author report s)) :=
  Bears.submit (finds_later host _).toBears (serves_later host opts _) (.refl _)

theorem reportCanceled_of_reported (e : Engine σ) (context : Context) {s : State σ}
    (h : s.cancelReported = true) : e.reportCanceled context s = .ok () s := by
  rw [reportCanceled, get_bind, if_pos h]
  rfl

theorem reportCanceled_of_not_reported (e : Engine σ) (context : Context) {s : State σ}
    (h : s.cancelReported = false) :
    e.reportCanceled context s =
      e.submit .engine ⟨context, .canceled, none, Issue.canceledMessage, .null⟩
        { s with cancelReported := true } := by
  rw [reportCanceled, get_bind, h]
  rfl

theorem reportCanceled_later (context : Context) (s : State σ) :
    State.Later (fun entry => ∃ report, entry = .submitted .engine report)
      { s with cancelReported := true }
      (endState ((host.engine opts).reportCanceled context s)) := by
  cases h : s.cancelReported with
  | true =>
    rw [reportCanceled_of_reported _ context h, endState_ok, ← h]
    exact .refl s
  | false =>
    rw [reportCanceled_of_not_reported _ context h]
    exact ((State.Later.refl _).write (.inr ⟨_, rfl⟩)).trans
      ((submit_later host opts _ _ _).mono fun _ hquiet => hquiet.elim)

theorem phase_checkProject {project : ProjectRef} {s s' : State σ}
    (h : (host.engine opts).checkProject project s = .ok () s') : s'.phase = s.phase := by
  obtain ⟨s₁, hphase, ⟨-, rfl⟩ | ⟨-, hreport⟩⟩ := checkProject_cases h
  · have hkept := (checkPhase_later host opts project s).phase
    rwa [hphase, endState_ok] at hkept
  · have hkept := (checkPhase_later host opts project s).phase
    have hsame := (reportCanceled_later host opts (projectContext project) s₁).phase
    rw [hphase, endState_ok] at hkept
    rw [hreport, endState_ok] at hsame
    exact hsame.trans hkept

theorem plan_later (project : ProjectRef) (scope : ScopeSet) (s : State σ) :
    State.Later (IsPlan 1) { s with schedule := some (restarted (ownSlot.schedule s)) }
      (endState ((host.engine opts).plan ownSlot
        ((host.engine opts).configuration project) scope s)) :=
  ((plans_later host opts _).plan (configures_later host opts _ project) scope
    ⟨rfl, .refl _⟩).endState.2

section Telling

variable {e : Engine σ} {event : Event} {context : Option Context} {listener : Listener}
  {s s' : State σ}

theorem notify_of_ok (h : e.invoke (.listener listener event context) s = .ok () s') :
    e.notify event context listener s = .ok () s' := by
  rw [notify, bind_of_ok (a := .ok ()) (by rw [attempt, h])]
  rfl

theorem notify_of_error {fault : Fault}
    (h : e.invoke (.listener listener event context) s = .error fault s') :
    e.notify event context listener s = .ok () (s'.write (.logged ⟨.warn,
      "[EventNotifier] Listener failed on " ++ event.name ++ ": " ++ fault.text, []⟩)) := by
  rw [notify, bind_of_ok (a := .error fault) (by rw [attempt, h])]
  rfl

end Telling

theorem notifyAll_eq_ok (e : Engine σ) (listeners : List Listener) (event : Event)
    (context : Option Context) (s : State σ) :
    ∃ s', e.notifyAll listeners event context s = .ok () s' := by
  induction listeners generalizing s with
  | nil => exact ⟨s, rfl⟩
  | cons listener rest ih =>
    have hfirst : ∃ s', e.notify event context listener s = .ok () s' := by
      cases hcall : e.invoke (.listener listener event context) s with
      | ok _ s' => exact ⟨s', notify_of_ok hcall⟩
      | error fault s' => exact ⟨_, notify_of_error hcall⟩
    obtain ⟨s', hs'⟩ := hfirst
    rw [notifyAll, each, bind_of_ok hs']
    exact ih s'

theorem fire_eq_ok (event : Event) (context : Option Context) (s : State σ) :
    ∃ s', (host.engine opts).fire event context s = .ok () s' ∧
      State.Later Quiet (s.write (.fired event context s.moment)) s' := by
  obtain ⟨s', hs'⟩ := notifyAll_eq_ok (host.engine opts) s.listeners event context
    (s.write (.fired event context s.moment))
  exact ⟨s', hs', (frames_notifyAll host opts s.listeners event context).ok hs'⟩

end Engine
end ProjectLint
