/-
What a section of the journal may show. A loop that announces the elements of a list one by one,
some of them and at most up to a cancellation, announces a sublist of it. So much is allotted to the
section in which it runs; every announcement spends an element, and what is left over is forgone.
-/
import ProjectLint.Proofs.Rounds

namespace ProjectLint

namespace Run

variable {x : Run σ α} {f : α → Run σ β}

/-! ## Operations that spend -/

def Turns (A B : State σ → Prop) (x : Run σ α) : Prop :=
  ∀ s, A s → B (endState (x s))

namespace Turns

variable {A B C : State σ → Prop}

theorem bind (hx : Turns A B x) (hf : ∀ a, Turns B C (f a))
    (hBC : ∀ {s}, B s → C s) : Turns A C (x >>= f) := by
  intro s hs
  have hend := hx s hs
  cases hrun : x s with
  | ok a t =>
    rw [hrun] at hend
    rw [bind_of_ok hrun]
    exact hf a t hend
  | error fault t =>
    rw [hrun] at hend
    rw [bind_of_error hrun]
    exact hBC hend

theorem unlessCanceled {x : Run σ Unit} (hx : Turns A B x) (hAB : ∀ {s}, A s → B s) :
    Turns A B (unlessCanceled x) := by
  intro s hs
  cases hcanceled : s.canceled with
  | true =>
    rw [unlessCanceled_of_canceled hcanceled]
    exact hAB hs
  | false =>
    rw [unlessCanceled_of_not_canceled hcanceled]
    exact hx s hs

end Turns

def Lenient (I : List γ → State σ → Prop) : Prop :=
  ∀ more less s, less.Sublist more → I more s → I less s

theorem Lenient.forgo {I : List γ → State σ → Prop} (hI : Lenient I) {cost rest : List γ}
    {s : State σ} (hs : I (cost ++ rest) s) : I rest s :=
  hI _ _ s (List.sublist_append_right cost rest) hs

def Spends (I : List γ → State σ → Prop) (x : Run σ α) (cost : List γ) : Prop :=
  ∀ rest, Turns (I (cost ++ rest)) (I rest) x

namespace Spends

variable {I : List γ → State σ → Prop} {cost more : List γ}

theorem of_keeps (h : ∀ rest, Keeps (I rest) x) : Spends I x [] :=
  h

theorem mono (hI : Lenient I) (h : Spends I x cost) (hcost : cost.Sublist more) : Spends I x more :=
  fun rest s hs => h rest s (hI _ _ s (hcost.append (List.Sublist.refl rest)) hs)

theorem pure (hI : Lenient I) (a : α) : Spends I (pure a : Run σ α) cost :=
  fun _ _ hs => hI.forgo hs

theorem bind (hI : Lenient I) (hx : Spends I x cost)
    (hf : ∀ a, Spends I (f a) more) : Spends I (x >>= f) (cost ++ more) := by
  intro rest
  rw [List.append_assoc]
  exact (hx (more ++ rest)).bind (fun a => hf a rest) hI.forgo

theorem bind_free (hI : Lenient I) (hx : Spends I x cost)
    (hf : ∀ a, Spends I (f a) []) : Spends I (x >>= f) cost := by
  have hboth := hx.bind hI hf
  rwa [List.append_nil] at hboth

theorem free_bind (hI : Lenient I) (hx : Spends I x [])
    (hf : ∀ a, Spends I (f a) cost) : Spends I (x >>= f) cost :=
  hx.bind hI hf

theorem after {Q : α → Prop} (hI : Lenient I)
    (hx : ∀ rest, Keeps (I rest) x) (hQ : ∀ {rest s a t}, I rest s → x s = .ok a t → Q a)
    (hf : ∀ a, Q a → Spends I (f a) cost) : Spends I (x >>= f) cost := by
  intro rest s hs
  have hend := hx _ s hs
  cases hrun : x s with
  | ok a t =>
    rw [hrun] at hend
    rw [bind_of_ok hrun]
    exact hf a (hQ hs hrun) rest t hend
  | error fault t =>
    rw [hrun] at hend
    rw [bind_of_error hrun]
    exact hI.forgo hend

theorem inspect {k : State σ → Run σ α} (h : ∀ {rest s}, I rest s → Spends I (k s) cost) :
    Spends I (get >>= k) cost :=
  fun rest s hs => h hs rest s hs

theorem ite {y : Run σ α} {c : Prop} [Decidable c] (hx : c → Spends I x cost)
    (hy : ¬ c → Spends I y cost) : Spends I (if c then x else y) cost :=
  iteInduction (motive := (Spends I · cost)) hx hy

theorem unlessCanceled (hI : Lenient I) {x : Run σ Unit} (h : Spends I x cost) :
    Spends I (unlessCanceled x) cost :=
  fun rest => (h rest).unlessCanceled hI.forgo

theorem eachUntilCanceled (hI : Lenient I) {f : α → Run σ Unit} {costs : α → List γ}
    (elements : List α) (h : ∀ a ∈ elements, Spends I (f a) (costs a)) :
    Spends I (eachUntilCanceled elements f) (elements.flatMap costs) := by
  induction elements with
  | nil => exact pure hI ()
  | cons element rest ih =>
    obtain ⟨hfirst, hrest⟩ := List.forall_mem_cons.1 h
    rw [Run.eachUntilCanceled, List.flatMap_cons]
    exact hfirst.bind hI fun _ => (ih hrest).unlessCanceled hI

end Spends
end Run

namespace Journal

variable {entry : Entry}

/-! ## What is left of an allotment -/

def Keeping (shows : Entry → Option γ) (allotted : β → List γ) (b : β)
    (during : List Entry) : Prop :=
  (during.filterMap shows).Sublist (allotted b)

def Left (opens : Entry → Option β) (shows : Entry → Option γ) (allotted : List γ)
    (start : List Entry) (rest : List γ) (s : State σ) : Prop :=
  ∃ during, s.written = start ++ during ∧ (∀ entry ∈ during, opens entry = none) ∧
    (during.filterMap shows ++ rest).Sublist allotted

namespace Left

variable {opens : Entry → Option β} {shows : Entry → Option γ} {allotted rest : List γ}
  {start : List Entry} {s t : State σ}

theorem full (s : State σ) : Left opens shows allotted s.written allotted s :=
  ⟨[], (List.append_nil _).symm, List.forall_mem_nil _, List.Sublist.refl _⟩

theorem less {more : List γ} (h : Left opens shows allotted start more s)
    (hless : rest.Sublist more) : Left opens shows allotted start rest s := by
  obtain ⟨during, hwritten, hopens, hmore⟩ := h
  exact ⟨during, hwritten, hopens, ((List.Sublist.refl _).append hless).trans hmore⟩

theorem append {more : List Entry} (h : Left opens shows allotted start rest s)
    (hwritten : t.written = s.written ++ more)
    (hmore : ∀ entry ∈ more, opens entry = none ∧ shows entry = none) :
    Left opens shows allotted start rest t := by
  obtain ⟨during, hduring, hopens, hrest⟩ := h
  refine ⟨during ++ more, by rw [hwritten, hduring, List.append_assoc],
    List.forall_mem_append.2 ⟨hopens, fun entry hentry => (hmore entry hentry).1⟩, ?_⟩
  rw [List.filterMap_append, List.filterMap_eq_nil_iff.2 fun entry hentry => (hmore entry hentry).2,
    List.append_nil]
  exact hrest

theorem write (h : Left opens shows allotted start rest s)
    (hopens : opens entry = none) (hshows : shows entry = none) :
    Left opens shows allotted start rest (s.write entry) :=
  h.append (State.written_write s entry) (List.forall_mem_singleton.2 ⟨hopens, hshows⟩)

theorem spend {c : γ} (h : Left opens shows allotted start (c :: rest) s)
    (hopens : opens entry = none) (hshows : shows entry = some c) :
    Left opens shows allotted start rest (s.write entry) := by
  obtain ⟨during, hduring, hall, hrest⟩ := h
  refine ⟨during ++ [entry], by rw [State.written_write, hduring, List.append_assoc],
    List.forall_mem_append.2 ⟨hall, List.forall_mem_singleton.2 hopens⟩, ?_⟩
  rw [List.filterMap_append, List.filterMap_cons_some hshows, List.filterMap_nil, List.append_assoc]
  exact hrest

theorem sectioned {P : β → List Entry → Prop} {before : List Entry} {b : β}
    (hs : Sectioned opens P before s) (hentry : opens entry = some b)
    (h : Left opens shows allotted (s.write entry).written rest t)
    (hP : ∀ during : List Entry, (during.filterMap shows).Sublist allotted → P b during) :
    Sectioned opens P before t := by
  obtain ⟨during, hduring, hopens, hrest⟩ := h
  rw [State.written_write, List.append_assoc, List.singleton_append] at hduring
  exact hs.opened hduring hentry hopens (hP during ((List.sublist_append_left _ _).trans hrest))

end Left

theorem Keeping.aside {shows : Entry → Option γ} {allotted : β → List γ} {b : β}
    {during : List Entry} (h : Keeping shows allotted b during)
    (hentry : shows entry = none) : Keeping shows allotted b (during ++ [entry]) := by
  rw [Keeping, List.filterMap_append, List.filterMap_cons_none hentry, List.filterMap_nil,
    List.append_nil]
  exact h

end Journal
end ProjectLint
