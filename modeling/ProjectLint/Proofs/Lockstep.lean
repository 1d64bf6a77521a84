/-
Two operations in step. Run from related states, both end with results that stand for each other or
both with the same fault, in related states again. With a relation that holds of equal states only,
being in step with oneself says that an invariant is kept.

Cancellation lets one of two runs end early. `Cuts` is the relation for that case: the operations
are in step, or the first has stopped at a check while the second went on.
-/
import Mathlib.Data.List.Forall2
import ProjectLint.Run.Analysis

namespace ProjectLint

open List (Forall₂)

/-- How an operation ends: with a result or a fault, and a state either way. -/
abbrev Outcome (σ : Type) : Type → Type :=
  EStateM.Result Fault (State σ)

variable {s' : State σ}

namespace State

/-- The journal as a list. -/
def written (s : State σ) : List Journal.Entry :=
  s.journal.toList

/-- A state with one more entry in its journal. -/
def write (s : State σ) (entry : Journal.Entry) : State σ :=
  { s with journal := s.journal.push entry }

@[simp]
theorem written_write (s : State σ) (entry : Journal.Entry) :
    (s.write entry).written = s.written ++ [entry] := by
  simp [written, write]

/-- A state in which a run begins. -/
def begun (scope : Option ScopeSet) (s : State σ) : State σ :=
  { s with canceled := false, scope := scope.getD .all }

/-- The state after the search, with the scope for the roots that were found. -/
def ready (scope : Option ScopeSet) (roots : List ProjectRef) (s : State σ) : State σ :=
  { s with
    scope := scope.getD (Layout.inferScope (roots.map fun ref => (s.project ref).subset)) }

def entered (count : Nat) (s : State σ) : State σ :=
  { s with schedule := some {}, memo := none, cancelReported := false }.write
    (.logged ⟨.info, "[LintEngine] Checking " ++ toString count ++ " projects",
      [("scope", .text s.scope.text)]⟩)

def closing (elapsed : Int) (s : State σ) : State σ :=
  s.write (.logged ⟨.info, "[LintEngine] " ++ (if s.canceled then "Canceled" else "Completed") ++
    " after " ++ Log.duration elapsed, []⟩)

def narrow (s : State σ) : State σ :=
  { s with scope := (Engine.ownSlot.schedule s).narrowed s.scope }

end State

/-- The search for projects that a run begins with. -/
abbrev Engine.seek (e : Engine σ) (paths : List String) (scope : Option ScopeSet) (s : State σ) :
    Outcome σ (List ProjectRef) :=
  Discovery.resolve e State.canceled paths (s.begun scope)

namespace Run

variable {r : Outcome σ α} {a : α} {x y : Run σ α} {f : α → Run σ β}
  {s t : State σ} {ρ : State σ → State σ → Prop} {r' : Outcome σ β}
  {R : α → β → Prop} {g : β → Run σ Unit} {k : State σ → Run σ α} {elements : List α}
  {elements' : List β}

/-- The state at the end, after a fault as well. -/
def endState : Outcome σ α → State σ
  | .ok _ s => s
  | .error _ s => s

@[simp]
theorem endState_ok (a : α) (s : State σ) : endState (.ok a s) = s := rfl

@[simp]
theorem endState_error (fault : Fault) (s : State σ) :
    endState (.error fault s : Outcome σ α) = s := rfl

def result? : Outcome σ α → Option α
  | .ok a _ => some a
  | .error _ _ => none

theorem eq_ok_of_result? (h : result? r = some a) : r = .ok a (endState r) := by
  cases r with
  | ok b s =>
    cases h
    rfl
  | error fault s => cases h

theorem get_bind (k : State σ → Run σ α) (s : State σ) : (get >>= k) s = k s s := rfl

theorem bind_of_ok (h : x s = .ok a s') : (x >>= f) s = f a s' := by
  show EStateM.bind x f s = f a s'
  rw [EStateM.bind, h]

theorem bind_of_error {fault : Fault}
    (h : x s = .error fault s') : (x >>= f) s = .error fault s' := by
  show EStateM.bind x f s = .error fault s'
  rw [EStateM.bind, h]

theorem bind_congr_left (h : x s = y t) : (x >>= f) s = (y >>= f) t := by
  show EStateM.bind x f s = EStateM.bind y f t
  rw [EStateM.bind, EStateM.bind, h]

theorem bind_eq_ok {b : β}
    (h : (x >>= f) s = .ok b s') : ∃ a t, x s = .ok a t ∧ f a t = .ok b s' := by
  cases hx : x s with
  | ok a t => exact ⟨a, t, rfl, by rwa [bind_of_ok hx] at h⟩
  | error fault t => rw [bind_of_error hx] at h; cases h

theorem endState_keepingScope (x : Run σ α) (s : State σ) :
    endState (keepingScope x s) = { endState (x s) with scope := s.scope } := by
  rw [keepingScope]
  cases x s <;> rfl

theorem keepingScope_eq_ok (h : keepingScope x s = .ok a s') :
    ∃ t, x s = .ok a t ∧ s' = { t with scope := s.scope } := by
  rw [keepingScope] at h
  cases hx : x s with
  | ok b t =>
    rw [hx] at h
    cases h
    exact ⟨t, rfl, rfl⟩
  | error fault t =>
    rw [hx] at h
    cases h

theorem unlessCanceled_of_canceled {x : Run σ Unit} (h : s.canceled = true) :
    unlessCanceled x s = .ok () s := by
  show (if s.canceled then pure () else x : Run σ Unit) s = .ok () s
  rw [if_pos h]
  rfl

theorem unlessCanceled_of_not_canceled {x : Run σ Unit} (h : s.canceled = false) :
    unlessCanceled x s = x s := by
  show (if s.canceled then pure () else x : Run σ Unit) s = x s
  rw [if_neg (by rw [h]; exact Bool.false_ne_true)]

theorem unlessCanceled_eq_ok {x : Run σ Unit}
    (h : unlessCanceled x s = .ok () s') (hs' : s'.canceled = false) :
    s.canceled = false ∧ x s = .ok () s' := by
  cases hs : s.canceled with
  | false => exact ⟨rfl, by rwa [unlessCanceled_of_not_canceled hs] at h⟩
  | true =>
    rw [unlessCanceled_of_canceled hs] at h
    cases h
    rw [hs] at hs'
    cases hs'

/-! ## In step -/

/-- The same result or fault, in related states. -/
inductive Alike (ρ : State σ → State σ → Prop) :
    Outcome σ α → Outcome σ α → Prop
  | ok (a : α) {s t : State σ} : ρ s t → Alike ρ (.ok a s) (.ok a t)
  | error (fault : Fault) {s t : State σ} : ρ s t → Alike ρ (.error fault s) (.error fault t)

theorem Alike.endState {r' : Outcome σ α} (h : Alike ρ r r') : ρ (endState r) (endState r') := by
  cases h with
  | ok _ h => exact h
  | error _ h => exact h

/-- Two outcomes of one kind: values that stand for each other, or the same fault, in related
states. -/
inductive Matches (ρ : State σ → State σ → Prop) (R : α → β → Prop) :
    Outcome σ α → Outcome σ β → Prop
  | ok {a : α} {b : β} {s t : State σ} : R a b → ρ s t → Matches ρ R (.ok a s) (.ok b t)
  | error (fault : Fault) {s t : State σ} : ρ s t → Matches ρ R (.error fault s) (.error fault t)

theorem Matches.endState (h : Matches ρ R r r') : ρ (endState r) (endState r') := by
  cases h with
  | ok _ h => exact h
  | error _ h => exact h

theorem Matches.mono {ρ' : State σ → State σ → Prop}
    (h : Matches ρ R r r') (hρ : ∀ {s t}, ρ s t → ρ' s t) : Matches ρ' R r r' := by
  cases h with
  | ok hab hend => exact .ok hab (hρ hend)
  | error fault hend => exact .error fault (hρ hend)

theorem Matches.alike {r' : Outcome σ α} (h : Matches ρ Eq r r') : Alike ρ r r' := by
  cases h with
  | ok hab hend => exact hab ▸ .ok _ hend
  | error fault hend => exact .error fault hend

def Diagonal (I : State σ → Prop) (s t : State σ) : Prop :=
  s = t ∧ I s

def Mirrors (ρ : State σ → State σ → Prop) (R : α → β → Prop) (x : Run σ α) (y : Run σ β) : Prop :=
  ∀ s t, ρ s t → Matches ρ R (x s) (y t)

/-- An operation that does not tell related states apart. -/
abbrev Respects (ρ : State σ → State σ → Prop) (x : Run σ α) : Prop :=
  Mirrors ρ Eq x x

namespace Mirrors

variable {ρ : State σ → State σ → Prop} {R : α → β → Prop} {R' : α' → β' → Prop}

theorem of_ok {y : Run σ β} (h : Mirrors ρ R x y) {t' : State σ}
    {b : β} (hst : ρ s t) (hx : x s = .ok a s') (hy : y t = .ok b t') : ρ s' t' := by
  have hmatch := h s t hst
  rw [hx, hy] at hmatch
  exact hmatch.endState

theorem follow {y : Run σ β} (h : Mirrors ρ R x y)
    (hst : ρ s t) (hx : x s = .ok a s') : ∃ b t', y t = .ok b t' ∧ R a b ∧ ρ s' t' := by
  have hmatch := h s t hst
  rw [hx] at hmatch
  generalize y t = r at hmatch ⊢
  cases hmatch with
  | ok hab hend => exact ⟨_, _, rfl, hab, hend⟩

theorem imp {R' : α → β → Prop} {y : Run σ β} (h : Mirrors ρ R x y)
    (hR : ∀ a b, R a b → R' a b) : Mirrors ρ R' x y := by
  intro s t hst
  have hmatch := h s t hst
  generalize x s = r at hmatch ⊢
  generalize y t = r' at hmatch ⊢
  cases hmatch with
  | ok hab hend => exact .ok (hR _ _ hab) hend
  | error fault hend => exact .error fault hend

theorem pure {b : β} (h : R a b) : Mirrors ρ R (pure a) (pure b) :=
  fun _ _ hst => .ok h hst

theorem throw (fault : Fault) : Mirrors ρ R (throw fault) (throw fault) :=
  fun _ _ hst => .error fault hst

theorem bind {y : Run σ β} {f : α → Run σ α'} {g : β → Run σ β'}
    (hx : Mirrors ρ R x y) (hf : ∀ a b, R a b → Mirrors ρ R' (f a) (g b)) :
    Mirrors ρ R' (x >>= f) (y >>= g) := by
  intro s t hst
  have hmatch := hx s t hst
  generalize hr : x s = r at hmatch
  generalize hr' : y t = r' at hmatch
  cases hmatch with
  | ok hab h =>
    rw [bind_of_ok hr, bind_of_ok hr']
    exact hf _ _ hab _ _ h
  | error fault h =>
    rw [bind_of_error hr, bind_of_error hr']
    exact .error fault h

theorem andThen {f : α → Run σ α'} {g : α → Run σ β'} (hx : Mirrors ρ Eq x y)
    (hf : ∀ a, Mirrors ρ R' (f a) (g a)) : Mirrors ρ R' (x >>= f) (y >>= g) :=
  hx.bind fun a _ heq => heq ▸ hf a

theorem modify {f g : State σ → State σ} (h : ∀ {s t}, ρ s t → ρ (f s) (g t)) :
    Mirrors ρ Eq (modify f) (modify g) :=
  fun _ _ hst => .ok rfl (h hst)

theorem read {l : State σ → Run σ β}
    (h : ∀ s t, ρ s t → Mirrors ρ R (k s) (l t)) : Mirrors ρ R (get >>= k) (get >>= l) :=
  fun s t hst => h s t hst s t hst

theorem attempt (h : Mirrors ρ Eq x y) : Mirrors ρ Eq (attempt x) (attempt y) := by
  intro s t hst
  have hmatch := h s t hst
  rw [Run.attempt, Run.attempt]
  generalize x s = r at hmatch
  generalize y t = r' at hmatch
  cases hmatch with
  | ok hab h => exact .ok (congrArg Except.ok hab) h
  | error fault h => exact .ok rfl h

theorem ite {x' : Run σ α} {y y' : Run σ β} {c d : Prop} [Decidable c] [Decidable d]
    (hcd : c ↔ d) (h : Mirrors ρ R x y) (h' : Mirrors ρ R x' y') :
    Mirrors ρ R (if c then x else x') (if d then y else y') := by
  by_cases hc : c
  · rw [if_pos hc, if_pos (hcd.1 hc)]
    exact h
  · rw [if_neg hc, if_neg (mt hcd.2 hc)]
    exact h'

theorem each {f : α → Run σ Unit}
    (helements : Forall₂ R elements elements') (h : ∀ a b, R a b → Mirrors ρ Eq (f a) (g b)) :
    Mirrors ρ Eq (each elements f) (each elements' g) := by
  induction helements with
  | nil => exact pure rfl
  | cons hab _ ih =>
    rw [Run.each, Run.each]
    exact (h _ _ hab).bind fun _ _ _ => ih

theorem each_same {f g : α → Run σ Unit} (elements : List α) (h : ∀ a, Mirrors ρ Eq (f a) (g a)) :
    Mirrors ρ Eq (Run.each elements f) (Run.each elements g) := by
  refine each (R := Eq) (List.forall₂_same.2 fun _ _ => rfl) ?_
  rintro a _ rfl
  exact h a

theorem carry_same {f g : α → β → Run σ β} (elements : List α) (start : β)
    (h : ∀ a b, Mirrors ρ Eq (f a b) (g a b)) :
    Mirrors ρ Eq (Run.carry elements start f) (Run.carry elements start g) := by
  induction elements generalizing start with
  | nil => exact pure rfl
  | cons element rest ih =>
    rw [Run.carry, Run.carry]
    refine (h element start).bind ?_
    rintro next _ rfl
    exact ih next

theorem unlessCanceled {x y : Run σ Unit} (hcanceled : ∀ {s t}, ρ s t → s.canceled = t.canceled)
    (h : Mirrors ρ Eq x y) : Mirrors ρ Eq (unlessCanceled x) (unlessCanceled y) := by
  refine read fun s t hst => ?_
  rw [hcanceled hst]
  exact ite Iff.rfl (pure rfl) h

theorem eachUntilCanceled {f : α → Run σ Unit}
    (hcanceled : ∀ {s t}, ρ s t → s.canceled = t.canceled)
    (helements : Forall₂ R elements elements') (h : ∀ a b, R a b → Mirrors ρ Eq (f a) (g b)) :
    Mirrors ρ Eq (eachUntilCanceled elements f) (eachUntilCanceled elements' g) := by
  induction helements with
  | nil => exact pure rfl
  | cons hab _ ih =>
    rw [Run.eachUntilCanceled, Run.eachUntilCanceled]
    exact (h _ _ hab).bind fun _ _ _ => ih.unlessCanceled hcanceled

theorem eachUntilCanceled_same {f g : α → Run σ Unit}
    (hcanceled : ∀ {s t}, ρ s t → s.canceled = t.canceled) (elements : List α)
    (h : ∀ a, Mirrors ρ Eq (f a) (g a)) :
    Mirrors ρ Eq (Run.eachUntilCanceled elements f) (Run.eachUntilCanceled elements g) := by
  refine eachUntilCanceled (R := Eq) hcanceled (List.forall₂_same.2 fun _ _ => rfl) ?_
  rintro a _ rfl
  exact h a

theorem question {answer answer' : σ → α} {call call' : α → Run σ Unit}
    (hanswer : ∀ {s t}, ρ s t → answer s.host = answer' t.host)
    (hcall : ∀ a, Mirrors ρ Eq (call a) (call' a)) :
    Mirrors ρ Eq (do let a := answer (← get).host; call a; return a)
      (do let a := answer' (← get).host; call' a; return a) := by
  refine read fun s t hst => ?_
  rw [hanswer hst]
  exact (hcall _).bind fun _ _ _ => pure rfl

theorem consult {e e' : Engine σ} {call call' : Call}
    {answer answer' : Workspace → σ → Except Fault α}
    (hcall : Mirrors ρ Eq (e.invoke call) (e'.invoke call'))
    (hanswer : ∀ {s t}, ρ s t → answer s.files s.host = answer' t.files t.host) :
    Mirrors ρ Eq (e.consult call answer) (e'.consult call' answer') := by
  refine hcall.bind fun _ _ _ => read fun s t hst => ?_
  rw [hanswer hst]
  cases answer' t.files t.host with
  | ok a => exact pure rfl
  | error fault => exact throw fault

end Mirrors

/-! ## Cut short -/

section Cut

variable {ι : Type} {ρ κ : ι → State σ → State σ → Prop}
variable {spent : α → Prop}

def Halted (κ : State σ → State σ → Prop) (spent : α → Prop) (r r' : Outcome σ α) : Prop :=
  ∃ a s, r = .ok a s ∧ spent a ∧ κ s (endState r')

def Cuts (ρ κ : ι → State σ → State σ → Prop) (spent : α → Prop) (x y : Run σ α) : Prop :=
  ∀ i s t, ρ i s t → Matches (ρ i) Eq (x s) (y t) ∨ Halted (κ i) spent (x s) (y t)

/-- What relates a run that has stopped to the one that goes on. The second can be continued by
itself, and how far it gets makes no difference to the first. -/
structure Halting (ρ κ : ι → State σ → State σ → Prop) (stopped : State σ → Bool) : Prop where
  behind : ∀ {i s t}, ρ i s t → stopped s = false → stopped t = false
  stop : ∀ {i s t}, ρ i s t → stopped s = true → stopped t = false → κ i s t
  stopped : ∀ {i s t}, κ i s t → stopped s = true
  onward : ∀ {i s t}, κ i s t → ∃ j, ρ j t t ∧ ∀ {s' t'}, ρ j s' t' ∨ κ j s' t' → κ i s t'

variable {stopped : State σ → Bool}

theorem halting_never {ρ : State σ → State σ → Prop} (h : ∀ {s t}, ρ s t → stopped s = stopped t) :
    Halting (fun _ : Unit => ρ) (fun _ _ _ => False) stopped where
  behind := fun hst hs => (h hst).symm.trans hs
  stop := fun hst hs ht => by
    rw [h hst, ht] at hs
    cases hs
  stopped := False.elim
  onward := False.elim

theorem Mirrors.cuts (h : ∀ i, Mirrors (ρ i) Eq x y) : Cuts ρ κ spent x y :=
  fun i s t hst => .inl (h i s t hst)

theorem Mirrors.bind_cuts {R : α → α' → Prop} {y : Run σ α'}
    {g : α' → Run σ β} {spent : β → Prop} (hx : ∀ i, Mirrors (ρ i) R x y)
    (hf : ∀ a b, R a b → Cuts ρ κ spent (f a) (g b)) : Cuts ρ κ spent (x >>= f) (y >>= g) := by
  intro i s t hst
  have hmatch := hx i s t hst
  generalize hr : x s = r at hmatch
  generalize hr' : y t = r' at hmatch
  cases hmatch with
  | ok hab h =>
    rw [bind_of_ok hr, bind_of_ok hr']
    exact hf _ _ hab _ _ _ h
  | error fault h =>
    rw [bind_of_error hr, bind_of_error hr']
    exact .inl (.error fault h)

namespace Cuts

theorem mirrors {ρ : State σ → State σ → Prop}
    (h : Cuts (fun _ : Unit => ρ) (fun _ _ _ => False) spent x y) : Mirrors ρ Eq x y := by
  intro s t hst
  rcases h () s t hst with hmatch | ⟨_, _, _, _, hfalse⟩
  · exact hmatch
  · exact hfalse.elim

theorem pure (a : α) : Cuts ρ κ spent (pure a) (pure a) :=
  Mirrors.cuts fun _ => .pure rfl

theorem read {l : State σ → Run σ α} (h : ∀ i s t, ρ i s t → Cuts ρ κ spent (k s) (l t)) :
    Cuts ρ κ spent (get >>= k) (get >>= l) :=
  fun i s t hst => h i s t hst i s t hst

theorem ite {x' y' : Run σ α} {c d : Prop} [Decidable c] [Decidable d]
    (hcd : c ↔ d) (h : Cuts ρ κ spent x y) (h' : Cuts ρ κ spent x' y') :
    Cuts ρ κ spent (if c then x else x') (if d then y else y') := by
  by_cases hc : c
  · rw [if_pos hc, if_pos (hcd.1 hc)]
    exact h
  · rw [if_neg hc, if_neg (mt hcd.2 hc)]
    exact h'

theorem onward (hκ : Halting ρ κ stopped)
    (h : Cuts ρ κ spent x y) {i : ι} (hst : κ i s t) : κ i s (endState (y t)) := by
  obtain ⟨j, halone, honward⟩ := hκ.onward hst
  rcases h j t t halone with hmatch | ⟨_, _, _, _, hlater⟩
  · exact honward (.inl hmatch.endState)
  · exact honward (.inr hlater)

theorem bind {g : α → Run σ β} {spent' : β → Prop}
    (hκ : Halting ρ κ stopped) (hx : Cuts ρ κ spent x y) (hf : ∀ a, Cuts ρ κ spent' (f a) (g a))
    (hidle : ∀ a s, spent a → stopped s = true → ∃ b, f a s = .ok b s ∧ spent' b) :
    Cuts ρ κ spent' (x >>= f) (y >>= g) := by
  intro i s t hst
  rcases hx i s t hst with hmatch | ⟨a, s', hxs, hspent, hhalt⟩
  · generalize hr : x s = r at hmatch
    generalize hr' : y t = r' at hmatch
    cases hmatch with
    | ok hab h =>
      rw [bind_of_ok hr, bind_of_ok hr', hab]
      exact hf _ _ _ _ h
    | error fault h =>
      rw [bind_of_error hr, bind_of_error hr']
      exact .inl (.error fault h)
  · -- The first run passes `f` by, and how far the second gets with `g` makes no difference to it.
    obtain ⟨b, hfb, hspent'⟩ := hidle a s' hspent (hκ.stopped hhalt)
    rw [bind_of_ok hxs, hfb]
    refine .inr ⟨b, s', rfl, hspent', ?_⟩
    cases hy : y t with
    | ok a' t' =>
      rw [hy] at hhalt
      rw [bind_of_ok hy]
      exact (hf a').onward hκ hhalt
    | error fault t' =>
      rw [hy] at hhalt
      rwa [bind_of_error hy]

theorem unlessStopped {l : State σ → Run σ α}
    (hκ : Halting ρ κ stopped) (ha : spent a) (h : Cuts ρ κ spent (get >>= k) (get >>= l)) :
    Cuts ρ κ spent (get >>= fun s => if stopped s then Pure.pure a else k s)
      (get >>= fun s => if stopped s then Pure.pure a else l s) := by
  intro i s t hst
  rw [get_bind, get_bind]
  cases hs : stopped s with
  | false =>
    rw [hκ.behind hst hs]
    exact h i s t hst
  | true =>
    cases ht : stopped t with
    | true => exact .inl (.ok rfl hst)
    | false => exact .inr ⟨a, s, rfl, ha, h.onward hκ (hκ.stop hst hs ht)⟩

section Canceled

variable (hκ : Halting ρ κ State.canceled)

include hκ

theorem unlessCanceled {x y : Run σ Unit} (h : Cuts ρ κ (fun _ => True) x y) :
    Cuts ρ κ (fun _ => True) (unlessCanceled x) (unlessCanceled y) :=
  unlessStopped hκ trivial h

theorem guarded {x y z w : Run σ Unit} (hx : Cuts ρ κ (fun _ => True) x y)
    (hz : Cuts ρ κ (fun _ => True) z w) :
    Cuts ρ κ (fun _ => True) (x >>= fun _ => Run.unlessCanceled z)
      (y >>= fun _ => Run.unlessCanceled w) :=
  hx.bind hκ (fun _ => hz.unlessCanceled hκ) fun _ _ _ hs =>
    ⟨(), unlessCanceled_of_canceled hs, trivial⟩

theorem eachUntilCanceled {f : α → Run σ Unit} (helements : Forall₂ R elements elements')
    (h : ∀ a b, R a b → Cuts ρ κ (fun _ => True) (f a) (g b)) :
    Cuts ρ κ (fun _ => True) (eachUntilCanceled elements f) (eachUntilCanceled elements' g) := by
  induction helements with
  | nil => exact pure ()
  | cons hab _ ih =>
    rw [Run.eachUntilCanceled, Run.eachUntilCanceled]
    exact (h _ _ hab).guarded hκ ih

theorem eachUntilCanceled_same {f g : α → Run σ Unit} (elements : List α)
    (h : ∀ a, Cuts ρ κ (fun _ => True) (f a) (g a)) :
    Cuts ρ κ (fun _ => True) (Run.eachUntilCanceled elements f)
      (Run.eachUntilCanceled elements g) := by
  refine eachUntilCanceled (R := Eq) hκ (List.forall₂_same.2 fun _ _ => rfl) ?_
  rintro a _ rfl
  exact h a

end Canceled
end Cuts
end Cut
end Run

/-! ## The shape of a run

A run is one of four things, depending on what its search for projects comes to. -/

namespace Engine

open Run

variable {e : Engine σ} {paths : List String} {scope : Option ScopeSet} {elapsed : Int}
  {s s₁ : State σ}
variable {project : ProjectRef}

theorem analyze_of_error {fault : Fault} (h : e.seek paths scope s = .error fault s₁) :
    e.analyze paths scope elapsed s = .error fault s₁ := by
  rw [analyze, bind_of_ok (x := modify _) rfl]
  exact bind_of_error h

theorem analyze_of_ok {roots : List ProjectRef} (h : e.seek paths scope s = .ok roots s₁) :
    e.analyze paths scope elapsed s = unlessCanceled (do
      match roots with
      | [] => e.log none ("No projects found for " ++ Text.joined ", " paths)
      | first :: rest =>
        modify fun s => s.ready scope roots
        e.checkAll first rest elapsed) s₁ := by
  rw [analyze, bind_of_ok (x := modify _) rfl]
  exact bind_of_ok h

theorem analyze_of_canceled {roots : List ProjectRef} (h : e.seek paths scope s = .ok roots s₁)
    (hs₁ : s₁.canceled = true) : e.analyze paths scope elapsed s = .ok () s₁ :=
  (analyze_of_ok h).trans (unlessCanceled_of_canceled hs₁)

theorem analyze_of_nil (h : e.seek paths scope s = .ok [] s₁) (hs₁ : s₁.canceled = false) :
    e.analyze paths scope elapsed s =
      e.log none ("No projects found for " ++ Text.joined ", " paths) none s₁ :=
  (analyze_of_ok h).trans (unlessCanceled_of_not_canceled hs₁)

theorem analyze_of_cons {first : ProjectRef} {rest : List ProjectRef}
    (h : e.seek paths scope s = .ok (first :: rest) s₁)
    (hs₁ : s₁.canceled = false) :
    e.analyze paths scope elapsed s =
      e.checkAll first rest elapsed (s₁.ready scope (first :: rest)) :=
  (analyze_of_ok h).trans (unlessCanceled_of_not_canceled hs₁)

theorem checkProject_of_ok {e : Engine σ} {s s₁ : State σ}
    (h : e.checkPhase project s = .ok () s₁) : e.checkProject project s =
      if s₁.canceled then e.reportCanceled (projectContext project) s₁ else .ok () s₁ := by
  rw [checkProject, bind_of_ok h, get_bind]
  cases s₁.canceled <;> rfl

theorem checkProject_of_error {e : Engine σ} {s s₁ : State σ}
    {fault : Fault} (h : e.checkPhase project s = .error fault s₁) :
    e.checkProject project s = .error fault s₁ := by
  rw [checkProject, bind_of_error h]

theorem checkProject_cases {e : Engine σ} {s : State σ} (h : e.checkProject project s = .ok () s') :
    ∃ s₁, e.checkPhase project s = .ok () s₁ ∧ (s₁.canceled = false ∧ s' = s₁ ∨
        s₁.canceled = true ∧ e.reportCanceled (projectContext project) s₁ = .ok () s') := by
  obtain ⟨_, s₁, hphase, -⟩ := bind_eq_ok h
  refine ⟨s₁, hphase, ?_⟩
  rw [checkProject_of_ok hphase] at h
  cases hs₁ : s₁.canceled with
  | false =>
    rw [hs₁] at h
    cases h
    exact .inl ⟨rfl, rfl⟩
  | true =>
    rw [hs₁] at h
    exact .inr ⟨rfl, h⟩

theorem checkAll_eq (e : Engine σ) (first : ProjectRef) (rest : List ProjectRef) (elapsed : Int)
    (s : State σ) :
    e.checkAll first rest elapsed s = (do
      e.fire .starting
      let current ← e.checkRoots first (first :: rest)
      e.finish current elapsed : Run σ Unit) (s.entered (rest.length + 1)) :=
  rfl

def goOn (e : Engine σ) (project : ProjectRef) (fuel : Nat) (detectors : List Detector) :
    Run σ Unit := do
  let s ← get
  if (s.canceled && !detectors.isEmpty) || Options.maxPhases ≤ (ownSlot.schedule s).phase ||
      !(ownSlot.schedule s).isPending then pure ()
  else e.extraPhases project fuel

def laterPhases (e : Engine σ) (project : ProjectRef) (fuel : Nat) : Run σ Unit := do
  if (← get).scope.isEmpty then pure ()
  else
    let detectors ← e.replan ownSlot (e.configuration project)
    forgetVisitor
    match detectors with
    | [] => e.goOn project fuel []
    | first :: rest =>
      e.checkProject project
      e.goOn project fuel (first :: rest)

theorem extraPhases_of_none (e : Engine σ) (project : ProjectRef) (fuel : Nat) {s : State σ}
    (h : (ownSlot.schedule s).advance? = none) : e.extraPhases project fuel s = .ok () s := by
  cases fuel with
  | zero => rfl
  | succ fuel =>
    rw [extraPhases, get_bind, h]
    rfl

theorem extraPhases_of_some (e : Engine σ) (project : ProjectRef) (fuel : Nat) {s : State σ}
    {advanced : Schedule} (h : (ownSlot.schedule s).advance? = some advanced) :
    e.extraPhases project (fuel + 1) s = (do
      e.fire .newPhase (some (projectContext project))
      modify State.narrow
      e.laterPhases project fuel : Run σ Unit) { s with schedule := some advanced } := by
  rw [extraPhases, get_bind, h]
  refine congrFun (congrArg (e.fire .newPhase _ >>= ·) (funext fun _ => funext fun t => ?_)) _
  show (if t.narrow.scope.isEmpty then pure () else _ : Run σ Unit) t.narrow =
    (if t.narrow.scope.isEmpty then pure () else _ : Run σ Unit) t.narrow
  cases t.narrow.scope.isEmpty with
  | true => rfl
  | false =>
    refine congrFun (congrArg (e.replan ownSlot _ >>= ·) (funext fun detectors => ?_)) _
    cases detectors <;> rfl

theorem checkRoots_of_canceled (e : Engine σ) (current : ProjectRef) (rest : List ProjectRef)
    {s : State σ} (h : s.canceled = true) : e.checkRoots current rest s = .ok current s := by
  cases rest with
  | nil => rfl
  | cons project rest =>
    rw [checkRoots, get_bind, if_pos h]
    rfl

def conclude (e : Engine σ) (elapsed : Int) : Run σ Unit := fun s =>
  e.fire (if s.canceled then .canceled else .completed) none (s.closing elapsed)

theorem finish_of_canceled (e : Engine σ) (current : ProjectRef) (elapsed : Int) {s : State σ}
    (h : s.canceled = true) :
    e.finish current elapsed s =
      (e.reportCanceled (projectContext current) >>= fun _ => e.conclude elapsed) s := by
  rw [finish, get_bind, if_pos h]
  rfl

theorem finish_of_not_canceled (e : Engine σ) (current : ProjectRef) (elapsed : Int)
    {s : State σ} (h : s.canceled = false) :
    e.finish current elapsed s = e.conclude elapsed s := by
  rw [finish, get_bind, if_neg (by rw [h]; exact Bool.false_ne_true)]
  rfl

end Engine
end ProjectLint
