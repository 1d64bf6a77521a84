/-
Requests to run again. The schedule of a run is what its last plan made of it, and the requests
written down since: they are kept in the order of first asking, and the categories they ask for are
put together. No call and no phase changes a schedule in any other way.

Which entries a part of a run may write differs from part to part, so the invariant takes them as a
parameter; a request may be made only if its entry may be written.
-/
import ProjectLint.Proofs.Planning

namespace ProjectLint

namespace Journal

/-- Who is to repeat, and with what scope. -/
abbrev Request := Detector × Option ScopeSet

def Entry.request? : Entry → Option Request
  | .requested detector scope => some (detector, scope)
  | _ => none

/-- The requests for a repeat, in order. -/
def requests (entries : List Entry) : List Request :=
  entries.filterMap Entry.request?

@[simp]
theorem requests_append (first second : List Entry) :
    requests (first ++ second) = requests first ++ requests second :=
  List.filterMap_append

theorem mem_requests {request : Request} {entries : List Entry} :
    request ∈ requests entries ↔ .requested request.1 request.2 ∈ entries := by
  rw [requests, List.mem_filterMap]
  constructor
  · rintro ⟨entry, hentry, hrequest⟩
    cases entry with
    | requested detector scope =>
      cases hrequest
      exact hentry
    | _ => cases hrequest
  · intro hentry
    exact ⟨_, hentry, rfl⟩

def Wanted (requests : List Request) (category : Scope) : Prop :=
  ∃ request ∈ requests, (request.2.getD .all).contains category = true

end Journal

namespace Schedule

open Journal

def asked (schedule : Schedule) (requests : List Request) : Schedule :=
  requests.foldl (fun schedule request => schedule.request request.1 request.2) schedule

theorem asked_append (schedule : Schedule) (first second : List Request) :
    schedule.asked (first ++ second) = (schedule.asked first).asked second :=
  List.foldl_append

theorem asked_concat (schedule : Schedule) (requests : List Request) (request : Request) :
    schedule.asked (requests ++ [request]) =
      (schedule.asked requests).request request.1 request.2 := by
  rw [asked_append]
  rfl

theorem asked_eq (schedule : Schedule) (requests : List Request) :
    schedule.asked requests =
      { schedule with
        requests := requests.foldl (fun known request =>
          some (Requests.add known request.1 request.2)) schedule.requests } := by
  induction requests generalizing schedule with
  | nil => rfl
  | cons request rest ih => exact ih (schedule.request request.1 request.2)

@[simp]
theorem phase_asked (schedule : Schedule) (requests : List Request) :
    (schedule.asked requests).phase = schedule.phase := by
  rw [asked_eq]

@[simp]
theorem selection_asked (schedule : Schedule) (requests : List Request) :
    (schedule.asked requests).selection = schedule.selection := by
  rw [asked_eq]

theorem asked_withPhase (schedule : Schedule) (phase : Nat) (requests : List Request) :
    ({ schedule with phase } : Schedule).asked requests =
      { schedule.asked requests with phase } := by
  rw [asked_eq, asked_eq]

theorem asked_withSelection (schedule : Schedule) (selection : Selection)
    (requests : List Request) :
    ({ schedule with selection } : Schedule).asked requests =
      { schedule.asked requests with selection } := by
  rw [asked_eq, asked_eq]

variable {schedule : Schedule} (h : schedule.requests = none)

include h

theorem requested_asked (requests : List Request) :
    (schedule.asked requests).requested = distinct (requests.map Prod.fst) := by
  induction requests using List.reverseRecOn with
  | nil =>
    show (schedule.requests.map _).getD [] = []
    rw [h]
    rfl
  | append_singleton requests request ih =>
    rw [List.map_append, List.map_singleton, distinct_concat, asked_concat, ← ih]
    have hmem : request.1 ∈ requests.map Prod.fst ↔
        request.1 ∈ (schedule.asked requests).requested := by
      rw [ih, mem_distinct]
    simp only [hmem]
    show (Requests.add (schedule.asked requests).requests request.1 request.2).detectors = _
    rw [requested]
    cases hknown : (schedule.asked requests).requests with
    | none => simp [Requests.add]
    | some known =>
      show (if known.detectors.contains request.1 then _ else _) = _
      simp

theorem isPending_asked (requests : List Request) :
    (schedule.asked requests).isPending = !requests.isEmpty := by
  induction requests using List.reverseRecOn with
  | nil => rw [isPending, asked, List.foldl_nil, h]; rfl
  | append_singleton requests request ih =>
    rw [asked_concat]
    simp [isPending, Schedule.request]

omit h in
theorem detectors_repeating (registry : Registry) (config : Configuration)
    (detectors : List Detector) :
    (repeating registry config detectors).detectors = detectors.filter fun detector =>
      !(registry.enabledIssues config detector.className).isEmpty := by
  rw [repeating, Selection.detectors, List.map_filterMap, ← List.filterMap_eq_filter]
  refine List.filterMap_congr fun detector _ => ?_
  cases h : registry.enabledIssues config detector.className with
  | nil => simp [Option.guard, h]
  | cons issue issues => simp [Option.guard, h]

theorem narrowed_asked {requests : List Request} (hrequests : requests ≠ []) (scope : ScopeSet)
    (category : Scope) :
    ((schedule.asked requests).narrowed scope).contains category = true ↔
      scope.contains category = true ∧ Wanted requests category := by
  have hunion : requests ≠ [] → ∃ known, (schedule.asked requests).requests = some known ∧
      (known.scope.contains category = true ↔ Wanted requests category) := by
    clear hrequests
    induction requests using List.reverseRecOn with
    | nil => exact fun hnil => absurd rfl hnil
    | append_singleton requests request ih =>
      intro _
      refine ⟨Requests.add (schedule.asked requests).requests request.1 request.2, ?_, ?_⟩
      · rw [asked_concat]
        rfl
      · by_cases hnil : requests = []
        · subst hnil
          have hnone : (schedule.asked []).requests = none := h
          rw [hnone]
          simp [Requests.add, Wanted]
        · obtain ⟨known, hknown, hiff⟩ := ih hnil
          rw [hknown]
          show (known.scope.union (request.2.getD .all)).contains category = true ↔ _
          rw [ScopeSet.contains_union, Bool.or_eq_true, hiff]
          simp only [Wanted, List.mem_append, List.mem_singleton]
          constructor
          · rintro (⟨other, hother, hcategory⟩ | hcategory)
            · exact ⟨other, .inl hother, hcategory⟩
            · exact ⟨request, .inr rfl, hcategory⟩
          · rintro ⟨other, hother | rfl, hcategory⟩
            · exact .inl ⟨other, hother, hcategory⟩
            · exact .inr hcategory
  obtain ⟨known, hknown, hiff⟩ := hunion hrequests
  rw [narrowed, hknown, ScopeSet.contains_inter, Bool.and_eq_true, ← hiff]
  rfl

end Schedule

/-! ## Who asks -/

def Action.Requests (allowed : Detector → Prop) : Action → Prop
  | .requestRepeat detector _ => allowed detector
  | _ => True

def Script.Requests (allowed : Detector → Prop) (script : Script σ) : Prop :=
  script.Within (Action.Requests allowed) fun _ => True

theorem Script.Requests.mono {allowed allowed' : Detector → Prop} {script : Script σ}
    (h : script.Requests allowed) (himp : ∀ detector, allowed detector → allowed' detector) :
    script.Requests allowed' := by
  refine Within.mono (fun action => ?_) (fun _ => id) h
  cases action with
  | requestRepeat detector scope => exact himp detector
  | _ => exact id

theorem Script.Requests.of_all {allowed : Detector → Prop} (script : Script σ)
    (h : ∀ detector, allowed detector) : script.Requests allowed := by
  refine Within.mono (fun action _ => ?_) (fun _ => id) script.within_true
  cases action with
  | requestRepeat detector scope => exact h detector
  | _ => trivial

def Host.Reticent (host : Host σ) : Prop :=
  ∀ (call : Call) moment memory, call.isClient = true →
    (host.react call moment memory).Requests fun _ => False

/-- Detectors ask for a repeat of themselves only, and nobody else asks. -/
structure Host.RepeatsOwn (host : Host σ) : Prop where
  own : ∀ detector hook moment memory,
    (host.react (.detector detector hook) moment memory).Requests (· = detector)
  listeners : ∀ listener event context moment memory,
    (host.react (.listener listener event context) moment memory).Requests fun _ => False
  client : host.Reticent

namespace Engine

open Run Journal

/-- What may have become of a state when only entries of a certain kind were written: the requests
among them are taken, and the rest of the schedule is as it was. -/
structure Tended (P : Entry → Prop) (b s : State σ) : Prop where
  wrote : ∃ new, s.written = b.written ++ new ∧ (∀ entry ∈ new, P entry) ∧
    s.schedule = b.schedule.map (·.asked (requests new))
  scope : s.scope = b.scope
  registry : s.registry = b.registry
  serials : s.serials = b.serials

namespace Tended

variable {P : Entry → Prop} {b s t : State σ}

theorem refl (s : State σ) : Tended P s s := by
  refine ⟨⟨[], (List.append_nil _).symm, fun _ h => absurd h List.not_mem_nil, ?_⟩, rfl, rfl, rfl⟩
  show s.schedule = s.schedule.map id
  rw [Option.map_id]
  rfl

variable (h : Tended P b s)

include h

theorem write {entry : Entry} (hentry : P entry)
    (hrequest : entry.request? = none) : Tended P b (s.write entry) := by
  obtain ⟨new, hnew, hall, hasked⟩ := h.wrote
  refine ⟨⟨new ++ [entry], ?_, fun other hother => ?_, ?_⟩, h.scope, h.registry, h.serials⟩
  · rw [State.written_write, hnew, List.append_assoc]
  · rcases List.mem_append.1 hother with hold | hlast
    · exact hall other hold
    · rw [List.mem_singleton.1 hlast]
      exact hentry
  · have hnone : requests [entry] = [] := by rw [requests, List.filterMap_cons, hrequest]; rfl
    rw [requests_append, hnone, List.append_nil]
    exact hasked

theorem request {detector : Detector} {scope : Option ScopeSet}
    {schedule : Schedule} (hentry : P (.requested detector scope))
    (hschedule : s.schedule = some schedule) :
    Tended P b { s.write (.requested detector scope) with
      schedule := some (schedule.request detector scope) } := by
  obtain ⟨new, hnew, hall, hasked⟩ := h.wrote
  refine ⟨⟨new ++ [.requested detector scope], ?_, fun other hother => ?_, ?_⟩, h.scope, h.registry,
    h.serials⟩
  · show (s.write _).written = _
    rw [State.written_write, hnew, List.append_assoc]
  · rcases List.mem_append.1 hother with hold | hlast
    · exact hall other hold
    · rw [List.mem_singleton.1 hlast]
      exact hentry
  · rw [hschedule] at hasked
    cases hb : b.schedule with
    | none => rw [hb] at hasked; cases hasked
    | some planned =>
      rw [hb] at hasked
      have hplanned : schedule = planned.asked (requests new) := Option.some.inj hasked
      rw [requests_append, Option.map_some, Schedule.asked_append, ← hplanned]
      rfl

theorem selection : s.selection = b.selection := by
  obtain ⟨new, -, -, hasked⟩ := h.wrote
  rw [State.selection, State.selection, hasked]
  cases b.schedule with
  | none => rfl
  | some planned => exact Schedule.selection_asked planned _

theorem phase : s.phase = b.phase := by
  obtain ⟨new, -, -, hasked⟩ := h.wrote
  rw [State.phase, State.phase, hasked]
  cases b.schedule with
  | none => rfl
  | some planned => exact Schedule.phase_asked planned _

end Tended

/-! ## Parts of a run -/

structure Permits (host : Host σ) (P : Entry → Prop) (A : Detector → Prop) : Prop where
  called : ∀ {call : Call} moment, call.isClient = true → P (.called call moment)
  logged : ∀ entry, P (.logged entry) := by exact fun _ => trivial
  observed : ∀ observation, P (.observed observation) := by exact fun _ => trivial
  submitted : ∀ report, P (.submitted .embedding report) := by exact fun _ => trivial
  requested : ∀ detector scope, A detector → P (.requested detector scope) := by
    exact fun _ _ => id
  reacts : ∀ {call : Call} moment memory, call.isClient = true →
    (host.react call moment memory).Requests A

variable {host : Host σ} {P : Entry → Prop} {A : Detector → Prop}

theorem requests_client {p : Prop} (hclient : p → host.Reticent) (hA : ¬ p → ∀ detector, A detector)
    {call : Call} (moment : Moment) (memory : σ) (hcall : call.isClient = true) :
    (host.react call moment memory).Requests A := by
  by_cases hp : p
  · exact (hclient hp call moment memory hcall).mono fun _ hfalse => hfalse.elim
  · exact .of_all _ (hA hp)

theorem finds_tended (h : Permits host P A) (b : State σ) :
    Finds host (Tended P b) (Action.Requests A) (fun _ => True) where
  reacts := h.reacts
  called := fun hcall hs => hs.write (h.called _ hcall) rfl
  logged := fun entry _ hs => hs.write (h.logged entry) rfl
  observed := fun observation _ hs => hs.write (h.observed observation) rfl
  submitted := fun report _ _ hs => hs.write (h.submitted report) rfl
  requested := fun detector scope _ _ hmay hschedule hs =>
    hs.request (h.requested detector scope hmay) hschedule

theorem tended_configuration (h : Permits host P A) (opts : Options) (ref : ProjectRef)
    (s : State σ) : Tended P s (endState ((host.engine opts).configuration ref s)) := by
  have hfinds := finds_tended h s
  exact Bears.configuration hfinds.toBears (hfinds.serves opts) ref s (.refl s)

theorem hears_tended (h : Permits host P A)
    (hcalled : ∀ listener event context moment,
      P (.called (.listener listener event context) moment))
    (hheeds : ∀ listener event context moment memory,
      (host.react (.listener listener event context) moment memory).Requests A) (b : State σ) :
    Hears host (Tended P b) (Action.Requests A) (fun _ => True) where
  toBears := (finds_tended h b).toBears
  heeds := hheeds
  heard := fun hs => hs.write (hcalled _ _ _ _) rfl

def Preparing (host : Host σ) : Entry → Prop
  | .called call _ => call.isClient = true
  | .requested _ _ => ¬ host.Reticent
  | .logged _ | .observed _ | .submitted .embedding _ => True
  | .fired .. | .planned .. | .submitted .engine _ => False

theorem permits_preparing (host : Host σ) :
    Permits host (Preparing host) fun _ => ¬ host.Reticent where
  called := fun _ hcall => hcall
  reacts := requests_client id fun hnot _ => hnot

def Announcing (host : Host σ) : Entry → Prop
  | .called call _ => ∀ detector hook, call ≠ .detector detector hook
  | .requested _ _ => ¬ host.RepeatsOwn
  | .logged _ | .observed _ | .submitted .embedding _ | .fired .. => True
  | .planned .. | .submitted .engine _ => False

theorem Call.ne_detector_of_isClient {call : Call} (h : call.isClient = true) (detector : Detector)
    (hook : Hook) : call ≠ .detector detector hook := by
  rintro rfl
  cases h

theorem permits_announcing (host : Host σ) :
    Permits host (Announcing host) fun _ => ¬ host.RepeatsOwn where
  called := fun _ hcall => Call.ne_detector_of_isClient hcall
  reacts := requests_client Host.RepeatsOwn.client fun hnot _ => hnot

theorem hears_announcing (host : Host σ) (b : State σ) :
    Hears host (Tended (Announcing host) b) (Action.Requests fun _ => ¬ host.RepeatsOwn)
      (fun _ => True) := by
  refine hears_tended (permits_announcing host) (fun _ _ _ _ _ _ h => nomatch h) ?_ b
  intro listener event context moment memory
  by_cases hown : host.RepeatsOwn
  · exact (hown.listeners _ _ _ _ _).mono fun _ hfalse => hfalse.elim
  · exact .of_all _ fun _ => hown

theorem tended_fire (host : Host σ) (opts : Options) (event : Event) (context : Option Context)
    (s : State σ) :
    Tended (Announcing host) (s.write (.fired event context s.moment))
      (endState ((host.engine opts).fire event context s)) :=
  (hears_announcing host _).fire opts (.refl _)

def Attending (host : Host σ) (root : ProjectRef) (detectors : List Detector) (phase : Nat)
    (scope : ScopeSet) : Entry → Prop
  | .called (.detector detector hook) moment =>
    detector ∈ detectors ∧ moment.phase = phase ∧ moment.scope = scope ∧
      ∀ context, hook.context? = some context → context.rootProject = root
  | .requested detector _ => host.RepeatsOwn → detector ∈ detectors
  | .fired event _ _ => event ≠ .newPhase
  | .planned .. => False
  | _ => True

section Attending

variable {root : ProjectRef} {detectors : List Detector} {phase : Nat} {scope : ScopeSet}

theorem attending_of_isClient {call : Call} (moment : Moment) (h : call.isClient = true) :
    Attending host root detectors phase scope (.called call moment) := by
  cases call with
  | detector detector hook => cases h
  | _ => trivial

theorem permits_attending (host : Host σ) (root : ProjectRef) (detectors : List Detector)
    (phase : Nat) (scope : ScopeSet) :
    Permits host (Attending host root detectors phase scope)
      fun detector => host.RepeatsOwn → detector ∈ detectors where
  called := attending_of_isClient
  reacts := requests_client Host.RepeatsOwn.client fun hnot _ hown => absurd hown hnot

theorem hears_attending (host : Host σ) (root : ProjectRef) (detectors : List Detector)
    (phase : Nat) (scope : ScopeSet) (b : State σ) :
    Hears host (Tended (Attending host root detectors phase scope) b)
      (Action.Requests fun detector => host.RepeatsOwn → detector ∈ detectors)
      (fun _ => True) := by
  refine hears_tended (permits_attending host root detectors phase scope)
    (fun _ _ _ _ => trivial) ?_ b
  intro listener event context moment memory
  by_cases hown : host.RepeatsOwn
  · exact (hown.listeners _ _ _ _ _).mono fun _ hfalse => hfalse.elim
  · exact .of_all _ fun _ h => absurd h hown

structure InPhase (host : Host σ) (root : ProjectRef) (b s : State σ) : Prop
    extends Tended (Attending host root b.selection.detectors b.phase b.scope) b s where
  memo : Option.Rel (Naming.alone (· ∈ b.selection.detectors) (·.rootProject = root)).Memos
    s.memo s.memo

theorem attends_inPhase (host : Host σ) (root : ProjectRef) (b : State σ) :
    Attends host (InPhase host root b)
      (Action.Requests fun detector => host.RepeatsOwn → detector ∈ b.selection.detectors)
      (fun _ => True) (· ∈ b.selection.detectors) root := by
  have hfinds := finds_tended (permits_attending host root b.selection.detectors b.phase b.scope) b
  have hhears := hears_attending host root b.selection.detectors b.phase b.scope b
  have hasked : ∀ {d hook s}, d ∈ b.selection.detectors →
      (∀ c, hook.context? = some c → c.rootProject = root) → InPhase host root b s →
      InPhase host root b (s.write (.called (.detector d hook) s.moment)) :=
    fun hd hcontext ⟨hs, hmemo⟩ =>
      ⟨hs.write ⟨hd, hs.phase, hs.scope, hcontext⟩ rfl, hmemo⟩
  exact {
    reacts := hfinds.reacts
    called := fun hcall ⟨hs, hmemo⟩ => ⟨hfinds.called hcall hs, hmemo⟩
    logged := fun entry _ ⟨hs, hmemo⟩ => ⟨hfinds.logged entry hs, hmemo⟩
    observed := fun observation _ ⟨hs, hmemo⟩ => ⟨hfinds.observed observation hs, hmemo⟩
    submitted := fun report _ hmay ⟨hs, hmemo⟩ => ⟨hfinds.submitted report hmay hs, hmemo⟩
    requested := fun detector scope schedule _ hmay hschedule ⟨hs, hmemo⟩ =>
      ⟨hfinds.requested detector scope schedule hmay hschedule hs, hmemo⟩
    heeds := hhears.heeds
    heard := fun ⟨hs, hmemo⟩ => ⟨hhears.heard hs, hmemo⟩
    answers := fun {d} hook moment memory hd => by
      by_cases hown : host.RepeatsOwn
      · exact (hown.own d hook moment memory).mono fun _ heq _ => heq ▸ hd
      · exact Script.Requests.of_all _ fun _ h => absurd h hown
    asked := fun hd _ hcontext hs => hasked hd hcontext hs
    scanned := fun _ ⟨hs, hmemo⟩ => ⟨hs.write (fun h => nomatch h) rfl, hmemo⟩
    selection := fun ⟨hs, _⟩ d hd => hs.selection ▸ hd
    memo := InPhase.memo
    remembered := fun hmemo hs => { hs with memo := hmemo }
    askedLevel := hasked
    announced := fun hevent _ ⟨hs, hmemo⟩ => ⟨hs.write hevent rfl, hmemo⟩ }

theorem tended_checkProject (host : Host σ) (opts : Options) (root : ProjectRef) {s : State σ}
    (hmemo : s.memo = none) :
    Tended (Attending host root s.selection.detectors s.phase s.scope) s
      (endState ((host.engine opts).checkProject root s)) := by
  have hattends := attends_inPhase host root s
  have hkeeps : Keeps (InPhase host root s) ((host.engine opts).checkProject root) := by
    refine (hattends.checkPhase opts).bind fun _ => .inspect fun _ _ => .ite _ ?_ (.pure ())
    refine .inspect fun _ _ => .ite _ (.pure ()) ?_
    refine Keeps.bind (.modify fun hs => { hs with }) fun _ t ht => ?_
    exact Bears.submit hattends.toBears (hattends.serves opts) ⟨ht.1.write trivial rfl, ht.2⟩
  refine (hkeeps s ⟨.refl s, ?_⟩).1
  rw [hmemo]
  exact .none

end Attending
end Engine
end ProjectLint
