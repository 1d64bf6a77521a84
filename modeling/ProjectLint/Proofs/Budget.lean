/-
What is written late. An operation is bounded by what it may still write once the run is canceled:
so many events, so many calls about projects and libraries as a whole, and calls about so many
files. The bounds of operations that follow each other add up, but not across a look at the
cancellation: a run that gets past it has written nothing late.
-/
import Mathlib.Algebra.GroupWithZero.Nat
import Mathlib.Algebra.Order.Group.Nat
import Mathlib.Algebra.Order.Monoid.Prod
import ProjectLint.Proofs.EventProtocol
import ProjectLint.Proofs.Planning

namespace ProjectLint

namespace Hook

def file? (hook : Hook) : Option Context :=
  if hook.isLevel then none else hook.context?

end Hook

namespace Journal

/-- When an event was sent or a callback made. -/
def Entry.moment? : Entry → Option Moment
  | .fired _ _ moment => some moment
  | .called _ moment => some moment
  | _ => none

/-- Numbers of events, of calls about projects and libraries, and of files that calls are about. -/
abbrev Cost : Type :=
  Nat × Nat × Nat

/-- Entries that cost at most so much, with no event of a new phase. -/
structure Tail (cost : Cost) (entries : List Entry) : Prop where
  events : (signals entries).length ≤ cost.1
  phases : ∀ signal ∈ signals entries, signal.1 ≠ .newPhase
  levels : ((hooks entries).filter Hook.isLevel).length ≤ cost.2.1
  files : ∃ contexts : List Context, contexts.length ≤ cost.2.2 ∧
    ∀ hook ∈ hooks entries, ∀ c, hook.file? = some c → c ∈ contexts

namespace Tail

variable {cost cost' : Cost} {first second : List Entry}

theorem append (h : Tail cost first) (h' : Tail cost' second) :
    Tail (cost + cost') (first ++ second) where
  events := by
    rw [signals_append, List.length_append]
    exact Nat.add_le_add h.events h'.events
  phases := by
    intro signal hsignal
    rw [signals_append, List.mem_append] at hsignal
    exact hsignal.elim (h.phases signal) (h'.phases signal)
  levels := by
    rw [hooks_append, List.filter_append, List.length_append]
    exact Nat.add_le_add h.levels h'.levels
  files := by
    obtain ⟨contexts, hlength, hall⟩ := h.files
    obtain ⟨contexts', hlength', hall'⟩ := h'.files
    refine ⟨contexts ++ contexts', ?_, fun hook hhook c hc => ?_⟩
    · rw [List.length_append]
      exact Nat.add_le_add hlength hlength'
    · rw [hooks_append, List.mem_append] at hhook
      rw [List.mem_append]
      exact hhook.imp (fun hmem => hall hook hmem c hc) fun hmem => hall' hook hmem c hc

theorem mono (h : Tail cost first) (hcost : cost ≤ cost') : Tail cost' first := by
  obtain ⟨contexts, hlength, hall⟩ := h.files
  exact ⟨h.events.trans hcost.1, h.phases, h.levels.trans hcost.2.1, contexts,
    hlength.trans hcost.2.2, hall⟩

theorem of_minor {contexts : List Context} (hsignal : ∀ entry ∈ first, entry.signal? = none)
    (hhook : ∀ entry ∈ first, ∀ hook, entry.hook? = some hook →
      hook.isLevel = false ∧ ∀ c, hook.context? = some c → c ∈ contexts) :
    Tail (0, 0, contexts.length) first := by
  have hsignals : signals first = [] := List.filterMap_eq_nil_iff.2 hsignal
  have hhooks : ∀ hook ∈ hooks first,
      hook.isLevel = false ∧ ∀ c, hook.context? = some c → c ∈ contexts := by
    intro hook hmem
    obtain ⟨entry, hentry, heq⟩ := List.mem_filterMap.1 hmem
    exact hhook entry hentry hook heq
  have hlevels : (hooks first).filter Hook.isLevel = [] :=
    List.filter_eq_nil_iff.2 fun hook hmem => by rw [(hhooks hook hmem).1]; exact Bool.false_ne_true
  refine ⟨?_, ?_, ?_, contexts, Nat.le_refl _, fun hook hmem c hc => ?_⟩
  · rw [hsignals]
    exact Nat.le_refl _
  · intro signal hmem
    rw [hsignals] at hmem
    exact absurd hmem List.not_mem_nil
  · rw [hlevels]
    exact Nat.le_refl _
  · obtain ⟨hlevel, hcontext⟩ := hhooks hook hmem
    rw [Hook.file?, hlevel] at hc
    exact hcontext c hc

theorem nil : Tail 0 [] := by
  have hnone : Tail (0, 0, ([] : List Context).length) [] :=
    of_minor (fun _ h => absurd h List.not_mem_nil) fun _ h => absurd h List.not_mem_nil
  exact hnone

theorem event (event : Event) (context : Option Context) (moment : Moment)
    (h : event ≠ .newPhase) : Tail (1, 0, 0) [.fired event context moment] :=
  ⟨Nat.le_refl _, fun _ hmem => List.mem_singleton.1 hmem ▸ h, Nat.le_refl _, [], Nat.le_refl _,
    fun _ hmem => absurd hmem List.not_mem_nil⟩

theorem level (detector : Detector) (hook : Hook) (moment : Moment) (h : hook.isLevel = true) :
    Tail (0, 1, 0) [.called (.detector detector hook) moment] := by
  refine ⟨Nat.le_refl _, fun _ hmem => absurd hmem List.not_mem_nil, ?_, [], Nat.le_refl _, ?_⟩
  · exact List.length_filter_le _ _
  · intro other hmem c hc
    rw [List.mem_singleton.1 hmem, Hook.file?, h] at hc
    cases hc

end Tail
end Journal

namespace Engine

open Run Journal

variable {s t u : State σ} {early late early' late' : List Entry}
variable {entry : Entry}

structure PartedBy (written written' : List Entry) (canceled canceled' : Bool)
    (early late : List Entry) : Prop where
  written : written' = written ++ (early ++ late)
  isEarly : ∀ entry ∈ early, ∀ moment, entry.moment? = some moment → moment.canceled = false
  isLate : ∀ entry ∈ late, ∀ moment, entry.moment? = some moment → moment.canceled = true
  before : canceled = true → early = []
  after : canceled' = false → late = []
  canceled : canceled = true → canceled' = true

/-- What is written between two states, parted where the run is canceled. -/
abbrev Parted (s s' : State σ) : List Entry → List Entry → Prop :=
  PartedBy s.written s'.written s.canceled s'.canceled

namespace Parted

theorem of_state (hwritten : t.written = s.written)
    (hcanceled : s.canceled = true → t.canceled = true) : Parted s t [] [] :=
  ⟨by rw [hwritten, List.append_nil, List.append_nil], fun _ h => absurd h List.not_mem_nil,
    fun _ h => absurd h List.not_mem_nil, fun _ => rfl, fun _ => rfl, hcanceled⟩

theorem trans (h : Parted s t early late) (h' : Parted t u early' late') :
    Parted s u (early ++ early') (late ++ late') where
  written := by
    rw [h'.written, h.written]
    cases ht : t.canceled with
    | false => rw [h.after ht]; simp
    | true => rw [h'.before ht]; simp
  isEarly := by
    intro entry hentry
    exact (List.mem_append.1 hentry).elim (h.isEarly entry) (h'.isEarly entry)
  isLate := by
    intro entry hentry
    exact (List.mem_append.1 hentry).elim (h.isLate entry) (h'.isLate entry)
  before := by
    intro hs
    rw [h.before hs, h'.before (h.canceled hs)]
    rfl
  after := by
    intro hu
    have ht : t.canceled = false := by
      cases ht : t.canceled with
      | false => rfl
      | true => rw [h'.canceled ht] at hu; cases hu
    rw [h.after ht, h'.after hu]
    rfl
  canceled := h'.canceled ∘ h.canceled

theorem write_early (s : State σ) (hs : s.canceled = false)
    (hmoment : ∀ moment, entry.moment? = some moment → moment = s.moment) :
    Parted s (s.write entry) [entry] [] where
  written := s.written_write entry
  isEarly := by
    intro other hother moment hsome
    rw [List.mem_singleton.1 hother] at hsome
    rw [hmoment moment hsome]
    exact hs
  isLate := fun _ h => absurd h List.not_mem_nil
  before := fun h => by rw [hs] at h; cases h
  after := fun _ => rfl
  canceled := id

theorem write_late (s : State σ) (hs : s.canceled = true)
    (hmoment : ∀ moment, entry.moment? = some moment → moment = s.moment) :
    Parted s (s.write entry) [] [entry] where
  written := s.written_write entry
  isEarly := fun _ h => absurd h List.not_mem_nil
  isLate := by
    intro other hother moment hsome
    rw [List.mem_singleton.1 hother] at hsome
    rw [hmoment moment hsome]
    exact hs
  before := fun _ => rfl
  after := fun h => by
    rw [show (s.write entry).canceled = true from hs] at h
    cases h
  canceled := id

end Parted

/-! ## Entries that count for little -/

def Minor (contexts : List Context) (entry : Entry) : Prop :=
  entry.signal? = none ∧ ∀ hook, entry.hook? = some hook →
    hook.isLevel = false ∧ ∀ c, hook.context? = some c → c ∈ contexts

def Ledger (contexts : List Context) (b s : State σ) : Prop :=
  ∃ early late, Parted b s early late ∧ ∀ entry ∈ late, Minor contexts entry

namespace Ledger

variable {contexts : List Context} {b : State σ}

theorem refl (s : State σ) : Ledger contexts s s :=
  ⟨[], [], .of_state rfl id, fun _ h => absurd h List.not_mem_nil⟩

theorem of_state (h : Ledger contexts b s) (hwritten : t.written = s.written)
    (hcanceled : s.canceled = true → t.canceled = true) : Ledger contexts b t := by
  obtain ⟨early, late, hparted, hminor⟩ := h
  have hend := hparted.trans (.of_state hwritten hcanceled)
  rw [List.append_nil, List.append_nil] at hend
  exact ⟨early, late, hend, hminor⟩

theorem write (h : Ledger contexts b s) (hentry : Minor contexts entry)
    (hmoment : ∀ moment, entry.moment? = some moment → moment = s.moment) :
    Ledger contexts b (s.write entry) := by
  obtain ⟨early, late, hparted, hminor⟩ := h
  cases hs : s.canceled with
  | false =>
    have hend := hparted.trans (.write_early s hs hmoment)
    rw [List.append_nil] at hend
    exact ⟨_, _, hend, hminor⟩
  | true =>
    refine ⟨_, _, hparted.trans (.write_late s hs hmoment), fun other hother => ?_⟩
    rcases List.mem_append.1 hother with hold | hlast
    · exact hminor other hold
    · rw [List.mem_singleton.1 hlast]
      exact hentry

theorem write_aside (h : Ledger contexts b s) (hsignal : entry.signal? = none)
    (hhook : entry.hook? = none)
    (hmoment : ∀ moment, entry.moment? = some moment → moment = s.moment) :
    Ledger contexts b (s.write entry) :=
  h.write ⟨hsignal, fun _ hsome => by rw [hhook] at hsome; cases hsome⟩ hmoment

end Ledger

variable (host : Host σ)

theorem finds_ledger (contexts : List Context) (b : State σ) :
    Finds host (Ledger contexts b) (fun _ => True) (fun _ => True) where
  called := fun {call s} hcall h => by
    refine h.write_aside rfl ?_ fun moment hmoment => (Option.some.inj hmoment).symm
    cases call with
    | detector detector hook => cases hcall
    | listener listener event context => cases hcall
    | _ => rfl
  logged := fun _ _ h => h.write_aside rfl rfl fun _ hmoment => nomatch hmoment
  observed := fun _ _ h => h.write_aside rfl rfl fun _ hmoment => nomatch hmoment
  submitted := fun _ _ _ h => h.write_aside rfl rfl fun _ hmoment => nomatch hmoment
  requested := fun detector scope _ s _ _ h => by
    have hwrite : Ledger contexts b (s.write (.requested detector scope)) :=
      h.write_aside rfl rfl fun _ hmoment => nomatch hmoment
    exact hwrite
  canceled := fun _ h => h.of_state rfl fun _ => rfl

theorem asks_ledger (contexts : List Context) (b : State σ) :
    Asks host (Ledger contexts b) (fun _ => True) (fun _ => True) (fun _ => True)
      (· ∈ contexts) where
  toBears := (finds_ledger host contexts b).toBears
  asked := fun {d hook s} _ hlevel hcontext h => by
    refine h.write ⟨rfl, fun other hother => ?_⟩ fun moment hmoment =>
      (Option.some.inj hmoment).symm
    rw [← Option.some.inj hother]
    exact ⟨hlevel, hcontext⟩

theorem scans_ledger (b : State σ) :
    Scans host (Ledger [] b) (fun _ => True) (fun _ => True) (fun _ => True) (· ∈ []) where
  toAsks := asks_ledger host [] b
  heard := fun h => h.write_aside rfl rfl fun _ hmoment => (Option.some.inj hmoment).symm
  scanned := fun hc => absurd hc List.not_mem_nil
  selection := fun _ _ _ => trivial
  memo := fun _ => Naming.memo_alone _ fun _ => trivial
  remembered := fun _ h => h

/-! ## What operations spend -/

def Spent (cost : Cost) (s s' : State σ) : Prop :=
  ∃ early late, Parted s s' early late ∧ Tail cost late

def Spends (cost : Cost) (x : Run σ α) : Prop :=
  ∀ s, Spent cost s (endState (x s))

namespace Spent

variable {cost cost' : Cost}

theorem refl (s : State σ) : Spent 0 s s :=
  ⟨[], [], .of_state rfl id, .nil⟩

theorem of_state (hwritten : t.written = s.written) (hcanceled : t.canceled = s.canceled) :
    Spent 0 s t :=
  ⟨[], [], .of_state hwritten fun h => hcanceled.trans h, .nil⟩

theorem of_ledger {contexts : List Context} (h : Ledger contexts s t) :
    Spent (0, 0, contexts.length) s t := by
  obtain ⟨early, late, hparted, hminor⟩ := h
  exact ⟨early, late, hparted, .of_minor (fun entry hentry => (hminor entry hentry).1)
    fun entry hentry => (hminor entry hentry).2⟩

theorem mono (h : Spent cost s t) (hcost : cost ≤ cost') : Spent cost' s t := by
  obtain ⟨early, late, hparted, htail⟩ := h
  exact ⟨early, late, hparted, htail.mono hcost⟩

theorem free (h : Spent 0 s t) : Spent cost s t :=
  h.mono zero_le

theorem trans (h : Spent cost s t) (h' : Spent cost' t u) : Spent (cost + cost') s u := by
  obtain ⟨early, late, hparted, htail⟩ := h
  obtain ⟨early', late', hparted', htail'⟩ := h'
  exact ⟨_, _, hparted.trans hparted', htail.append htail'⟩

theorem changed (h : Spent cost s t) (hwritten : u.written = t.written)
    (hcanceled : u.canceled = t.canceled) : Spent cost s u :=
  h.trans (of_state hwritten hcanceled)

theorem trans_calm (h : Spent cost s t) (ht : t.canceled = false)
    (h' : Spent cost' t u) : Spent cost' s u := by
  obtain ⟨early, late, hparted, -⟩ := h
  obtain ⟨early', late', hparted', htail'⟩ := h'
  have hend := hparted.trans hparted'
  rw [hparted.after ht, List.nil_append] at hend
  exact ⟨_, _, hend, htail'⟩

theorem write (s : State σ) (entry : Entry)
    (hmoment : ∀ moment, entry.moment? = some moment → moment = s.moment)
    (hentry : Tail cost [entry]) : Spent cost s (s.write entry) := by
  cases hs : s.canceled with
  | false => exact ⟨_, _, .write_early s hs hmoment, Tail.nil.mono zero_le⟩
  | true => exact ⟨_, _, .write_late s hs hmoment, hentry⟩

theorem aside (h : Spent cost s t) (hsignal : entry.signal? = none)
    (hhook : entry.hook? = none) (hmoment : entry.moment? = none) :
    Spent cost s (t.write entry) := by
  have hledger : Ledger [] t (t.write entry) := by
    refine (Ledger.refl t).write_aside hsignal hhook fun _ hsome => ?_
    rw [hmoment] at hsome
    cases hsome
  exact h.trans (of_ledger hledger)

theorem write_calm (hs : s.canceled = false) (entry : Entry)
    (hmoment : ∀ moment, entry.moment? = some moment → moment = s.moment) :
    Spent 0 s (s.write entry) :=
  ⟨_, _, .write_early s hs hmoment, .nil⟩

end Spent

namespace Spends

variable {cost cost' : Cost}
variable {x : Run σ α}

theorem ok {a : α} (h : Spends cost x) (hx : x s = .ok a t) : Spent cost s t := by
  have hspent := h s
  rwa [hx] at hspent

theorem pure (a : α) : Spends 0 (pure a : Run σ α) :=
  fun s => .refl s

theorem throw (fault : Fault) : Spends 0 (throw fault : Run σ α) :=
  fun s => .refl s

theorem modify {f : State σ → State σ}
    (h : ∀ s, (f s).written = s.written ∧ (f s).canceled = s.canceled) :
    Spends 0 (modify f) :=
  fun s => .of_state (h s).1 (h s).2

theorem of_keeps (contexts : List Context)
    (h : ∀ b, Keeps (Ledger contexts b) x) : Spends (0, 0, contexts.length) x :=
  fun s => .of_ledger (h s s (.refl s))

theorem mono (h : Spends cost x) (hcost : cost ≤ cost') : Spends cost' x :=
  fun s => (h s).mono hcost

theorem free (h : Spends 0 x) : Spends cost x :=
  h.mono zero_le

theorem inspect {k : State σ → Run σ α} (h : ∀ s, Spends cost (k s)) : Spends cost (get >>= k) :=
  fun s => h s s

theorem ite {y : Run σ α} (c : Prop) [Decidable c] (hx : Spends cost x)
    (hy : Spends cost y) : Spends cost (if c then x else y) :=
  iteInduction (fun _ => hx) fun _ => hy

theorem bind {f : α → Run σ β} (hx : Spends cost x) (hf : ∀ a, Spends cost' (f a)) :
    Spends (cost + cost') (x >>= f) := by
  intro s
  have hspent := hx s
  cases h : x s with
  | ok a t =>
    rw [h] at hspent
    rw [bind_of_ok h]
    exact hspent.trans (hf a t)
  | error fault t =>
    rw [h] at hspent
    rw [bind_of_error h]
    exact hspent.mono le_self_add

theorem after_free {f : α → Run σ β} (hx : Spends 0 x)
    (hf : ∀ a, Spends cost (f a)) : Spends cost (x >>= f) := by
  have hbind := hx.bind hf
  rwa [zero_add] at hbind

theorem guarded {x y : Run σ Unit} (hx : Spends cost x) (hy : Spends cost y) :
    Spends cost (x >>= fun _ => unlessCanceled y) := by
  intro s
  have hspent := hx s
  cases h : x s with
  | ok a t =>
    rw [h] at hspent
    rw [bind_of_ok h]
    cases ht : t.canceled with
    | true =>
      rw [unlessCanceled_of_canceled ht]
      exact hspent
    | false =>
      rw [unlessCanceled_of_not_canceled ht]
      exact hspent.trans_calm ht (hy t)
  | error fault t =>
    rw [h] at hspent
    rw [bind_of_error h]
    exact hspent

theorem guarded_bind {y : α → Run σ Unit} {z : Run σ Unit}
    (hx : Spends cost (x >>= y)) (hz : Spends cost z) :
    Spends cost (x >>= fun a => y a >>= fun _ => unlessCanceled z) := by
  have hguarded := hx.guarded hz
  rwa [bind_assoc] at hguarded

theorem eachUntilCanceled {f : α → Run σ Unit} (elements : List α)
    (h : ∀ a ∈ elements, Spends cost (f a)) :
    Spends cost (eachUntilCanceled elements f) := by
  induction elements with
  | nil => exact (pure ()).free
  | cons element rest ih =>
    obtain ⟨hfirst, hrest⟩ := List.forall_mem_cons.1 h
    rw [Run.eachUntilCanceled]
    exact hfirst.guarded (ih hrest)

end Spends

end Engine
end ProjectLint
