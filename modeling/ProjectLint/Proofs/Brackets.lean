/-
The marks that a check leaves in the journal, and brackets among them. A detector hears that a file
begins, is shown the file, and hears that the file is done, so what is shown of a file never reaches
it outside of the first call and the last, and these stand after the event that announces the file.

`Marked` says which words a step may add, and which of them remain if the run is not canceled by
then; it holds of steps that return, for a fault can break a pair of brackets.
-/
import Mathlib.Computability.Language
import Mathlib.Order.CompletePartialOrder
import ProjectLint.Proofs.Isolation.Chapter

open scoped Computability

namespace ProjectLint

variable {context : Context}

namespace Hook

def isOnFile : Hook → Bool
  | .beforeFile _ | .afterFile _ => true
  | hook => hook.visited?.isSome

theorem of_visited {hook : Hook} (h : hook.visited? = some context) :
    hook.isLevel = false ∧ hook.context? = some context := by
  cases hook <;> cases h <;> exact ⟨rfl, rfl⟩

end Hook

namespace Brackets

open Journal Run Engine

/-- What a journal says of events, hooks and plans. -/
inductive Mark
  | event (event : Event) (context : Option Context)
  | hook (detector : Detector) (hook : Hook)
  | plan (phase : Nat) (detectors : List Detector)

def mark? : Entry → Option Mark
  | .fired event context _ => some (.event event context)
  | .called (.detector detector hook) _ => some (.hook detector hook)
  | .planned phase detectors => some (.plan phase detectors)
  | _ => none

/-- The marks of a journal, in order. -/
def marks (entries : List Entry) : List Mark :=
  entries.filterMap mark?

@[simp]
theorem marks_append (first second : List Entry) :
    marks (first ++ second) = marks first ++ marks second :=
  List.filterMap_append

def all (detectors : List Detector) (hook : Hook) : List Mark :=
  detectors.map (Mark.hook · hook)

/-! ## Brackets -/

namespace Mark

def IsAside (detector : Detector) : Mark → Prop
  | .hook called asked => called = detector → asked.isOnFile = false
  | _ => True

def IsInside (detector : Detector) (context : Context) : Mark → Prop
  | .hook called asked =>
    asked.isLevel = false ∧ (called = detector → asked.visited? = some context)
  | _ => False

def IsHook : Mark → Prop
  | .hook _ _ => True
  | _ => False

theorem isAside_of_ne {detector called : Detector} (hook : Hook) (h : called ≠ detector) :
    IsAside detector (.hook called hook) :=
  fun hsame => absurd hsame h

end Mark

inductive Grouped (detector : Detector) (context : Context) : List Mark → Prop
  | nil : Grouped detector context []
  | aside {mark : Mark} {rest : List Mark} : mark.IsHook → mark.IsAside detector →
      Grouped detector context rest → Grouped detector context (mark :: rest)
  | group {inside rest : List Mark} : (∀ mark ∈ inside, mark.IsInside detector context) →
      Grouped detector context rest →
      Grouped detector context (.hook detector (.beforeFile context) ::
        (inside ++ .hook detector (.afterFile context) :: rest))

/-- Each file is announced; then the hooks for it come, in groups that a hook before the file opens
and one after it closes. -/
inductive Bracketed (detector : Detector) : List Mark → Prop
  | nil : Bracketed detector []
  | aside {mark : Mark} {rest : List Mark} : mark.IsAside detector →
      Bracketed detector rest → Bracketed detector (mark :: rest)
  | file {context : Context} {groups rest : List Mark} : Grouped detector context groups →
      Bracketed detector rest →
      Bracketed detector (.event .scanningFile (some context) :: (groups ++ rest))

section Words

variable {detector : Detector} {context : Context} {v w : List Mark}

theorem Grouped.append (hv : Grouped detector context v) (hw : Grouped detector context w) :
    Grouped detector context (v ++ w) := by
  induction hv with
  | nil => exact hw
  | aside hhook haside _ ih => exact .aside hhook haside ih
  | group hinside _ ih =>
    rw [List.cons_append, List.append_assoc, List.cons_append]
    exact .group hinside ih

theorem Grouped.of_aside (h : ∀ mark ∈ w, mark.IsHook ∧ mark.IsAside detector) :
    Grouped detector context w := by
  induction w with
  | nil => exact .nil
  | cons mark rest ih =>
    obtain ⟨⟨hhook, haside⟩, hrest⟩ := List.forall_mem_cons.1 h
    exact .aside hhook haside (ih hrest)

theorem Bracketed.append (hv : Bracketed detector v) (hw : Bracketed detector w) :
    Bracketed detector (v ++ w) := by
  induction hv with
  | nil => exact hw
  | aside haside _ ih => exact .aside haside ih
  | file hgroups _ ih =>
    rw [List.cons_append, List.append_assoc]
    exact .file hgroups ih

theorem Bracketed.of_aside (h : ∀ mark ∈ w, mark.IsAside detector) : Bracketed detector w := by
  induction w with
  | nil => exact .nil
  | cons mark rest ih =>
    obtain ⟨hmark, hrest⟩ := List.forall_mem_cons.1 h
    exact .aside hmark (ih hrest)

theorem grouped_visit {detectors : List Detector} (hdetectors : detectors.Nodup)
    {inside : List Mark} (hinside : ∀ mark ∈ inside,
      ∃ called ∈ detectors, ∃ hook : Hook, hook.visited? = some context ∧
        mark = .hook called hook) :
    Grouped detector context
      (all detectors (.beforeFile context) ++ (inside ++ all detectors (.afterFile context))) := by
  have hothers : ∀ {others : List Detector} (hook : Hook), detector ∉ others →
      ∀ mark ∈ all others hook, mark.IsHook ∧ mark.IsAside detector := by
    intro others hook hnot mark hmark
    obtain ⟨called, hcalled, rfl⟩ := List.mem_map.1 hmark
    exact ⟨trivial, Mark.isAside_of_ne hook fun hsame => hnot (hsame ▸ hcalled)⟩
  by_cases hmem : detector ∈ detectors
  · obtain ⟨before, after, rfl⟩ := List.append_of_mem hmem
    have hsplit := List.nodup_middle.1 hdetectors
    obtain ⟨hfirst, hlast⟩ := not_or.1 <| List.mem_append.not.1 (List.nodup_cons.1 hsplit).1
    have hword : all (before ++ detector :: after) (.beforeFile context) ++
        (inside ++ all (before ++ detector :: after) (.afterFile context)) =
        all before (.beforeFile context) ++ .hook detector (.beforeFile context) ::
          ((all after (.beforeFile context) ++ inside ++ all before (.afterFile context)) ++
            .hook detector (.afterFile context) :: all after (.afterFile context)) := by
      simp [all]
    rw [hword]
    refine (Grouped.of_aside (hothers _ hfirst)).append (.group ?_ (.of_aside (hothers _ hlast)))
    have hbracket : ∀ {others : List Detector} {hook : Hook}, hook.isLevel = false →
        detector ∉ others → ∀ mark ∈ all others hook, mark.IsInside detector context := by
      intro others hook hlevel hnot mark hmark
      obtain ⟨called, hcalled, rfl⟩ := List.mem_map.1 hmark
      exact ⟨hlevel, fun hsame => absurd (hsame ▸ hcalled) hnot⟩
    refine List.forall_mem_append.2 ⟨List.forall_mem_append.2 ⟨hbracket rfl hlast, ?_⟩,
      hbracket rfl hfirst⟩
    intro mark hmark
    obtain ⟨called, -, hook, hvisited, rfl⟩ := hinside mark hmark
    exact ⟨(Hook.of_visited hvisited).1, fun _ => hvisited⟩
  · refine (Grouped.of_aside (hothers _ hmem)).append
      (.append (.of_aside fun mark hmark => ?_) (.of_aside (hothers _ hmem)))
    obtain ⟨called, hcalled, hook, -, rfl⟩ := hinside mark hmark
    exact ⟨trivial, Mark.isAside_of_ne hook fun hsame => hmem (hsame ▸ hcalled)⟩

end Words

/-! ## Languages -/

structure Closed (L : Language Mark) : Prop where
  nil : [] ∈ L
  append : ∀ {v w}, v ∈ L → w ∈ L → v ++ w ∈ L

theorem Closed.within {L : Language Mark} (h : Closed L) (P : Mark → Prop) :
    Closed {w | w ∈ L ∧ ∀ mark ∈ w, P mark} :=
  ⟨⟨h.nil, List.forall_mem_nil _⟩, fun hv hw =>
    ⟨h.append hv.1 hw.1, List.forall_mem_append.2 ⟨hv.2, hw.2⟩⟩⟩

def bracketed : Language Mark :=
  {w | ∀ detector, Bracketed detector w}

theorem closed_bracketed : Closed bracketed :=
  ⟨fun _ => .nil, fun hv hw detector => (hv detector).append (hw detector)⟩

def showing (detectors : List Detector) (context : Context) : Language Mark :=
  {w | ∀ mark ∈ w, ∃ called ∈ detectors, ∃ hook : Hook, hook.visited? = some context ∧
    mark = .hook called hook}

theorem closed_showing (detectors : List Detector) (context : Context) :
    Closed (showing detectors context) :=
  ⟨List.forall_mem_nil _, fun hv hw => List.forall_mem_append.2 ⟨hv, hw⟩⟩

def Mark.IsAbout (context : Context) : Mark → Prop
  | .hook _ asked => asked.isLevel = false ∧ ∀ c, asked.context? = some c → c = context
  | _ => False

def onFile (context : Context) : Language Mark :=
  {w | (∀ detector, Grouped detector context w) ∧ ∀ mark ∈ w, mark.IsAbout context}

theorem closed_onFile (context : Context) : Closed (onFile context) :=
  .within (L := {w | ∀ detector, Grouped detector context w})
    ⟨fun _ => .nil, fun hv hw detector => (hv detector).append (hw detector)⟩ _

theorem isAbout_of_visited {detector : Detector} {hook : Hook}
    (h : hook.visited? = some context) : (Mark.hook detector hook).IsAbout context :=
  ⟨(Hook.of_visited h).1, fun _ hc => Option.some.inj (hc.symm.trans (Hook.of_visited h).2)⟩

theorem visit_mem_onFile {detectors : List Detector} (hdetectors : detectors.Nodup)
    {inside : List Mark} (hinside : inside ∈ showing detectors context) :
    all detectors (.beforeFile context) ++ (inside ++ all detectors (.afterFile context)) ∈
      onFile context := by
  have hall : ∀ {hook : Hook}, hook.isLevel = false → hook.context? = some context →
      ∀ mark ∈ all detectors hook, mark.IsAbout context := by
    intro hook hlevel hcontext mark hmark
    obtain ⟨called, -, rfl⟩ := List.mem_map.1 hmark
    exact ⟨hlevel, fun _ hc => Option.some.inj (hc.symm.trans hcontext)⟩
  refine ⟨fun detector => grouped_visit hdetectors hinside, List.forall_mem_append.2
    ⟨hall rfl rfl, List.forall_mem_append.2 ⟨fun mark hmark => ?_, hall rfl rfl⟩⟩⟩
  obtain ⟨called, -, hook, hvisited, rfl⟩ := hinside mark hmark
  exact isAbout_of_visited hvisited

def Covers (pass : Pass) (context : Context) : Prop :=
  context.project = pass.project ∧ context.main = some pass.main

def Mark.IsOf (pass : Pass) : Mark → Prop
  | .event fired context => fired = .scanningFile ∧ ∃ c, context = some c ∧ Covers pass c
  | .hook _ asked => asked.isLevel = false ∧ ∀ c, asked.context? = some c → Covers pass c
  | .plan _ _ => False

def files (pass : Pass) : Language Mark :=
  {w | (∀ detector, Bracketed detector w) ∧ ∀ mark ∈ w, mark.IsOf pass}

theorem closed_files (pass : Pass) : Closed (files pass) :=
  closed_bracketed.within _

theorem files_le_bracketed (pass : Pass) : files pass ≤ bracketed :=
  fun _ hw => hw.1

theorem scan_mem_files {pass : Pass} (hcontext : Covers pass context)
    {w : List Mark} (hw : w ∈ onFile context) :
    .event .scanningFile (some context) :: w ∈ files pass := by
  refine ⟨fun detector => ?_, List.forall_mem_cons.2 ⟨⟨rfl, context, rfl, hcontext⟩, ?_⟩⟩
  · rw [← List.append_nil w]
    exact .file (hw.1 detector) .nil
  · intro mark hmark
    cases mark with
    | hook called hook =>
      obtain ⟨hlevel, hc⟩ := hw.2 _ hmark
      exact ⟨hlevel, fun c hsome => hc c hsome ▸ hcontext⟩
    | event event context => exact (hw.2 _ hmark).elim
    | plan phase detectors => exact (hw.2 _ hmark).elim

theorem question_mem_files (pass : Pass) (detector : Detector) {hook : Hook}
    (hfile : hook.isOnFile = false) (hlevel : hook.isLevel = false)
    (hcontext : hook.context? = none) : [.hook detector hook] ∈ files pass := by
  refine ⟨fun _ => .aside (fun _ => hfile) .nil, List.forall_mem_singleton.2 ⟨hlevel, ?_⟩⟩
  intro c hc
  rw [hcontext] at hc
  cases hc

/-! ## States -/

structure Sound (visitor : MarkupVisitor) : Prop where
  nodup : visitor.detectors.Nodup
  calls : visitor.Calls (· ∈ visitor.detectors)

structure Fitting (schedule : Schedule) (memo? : Option VisitorMemo) : Prop where
  selected : schedule.selection.detectors.Nodup
  requested : schedule.requested.Nodup
  remembered : ∀ memo visitor, memo? = some memo → memo.visitor = some visitor → Sound visitor

/-- No detector is chosen twice, asked for twice, or kept twice in the visitor. -/
abbrev Fit (s : State σ) : Prop :=
  Fitting (ownSlot.schedule s) s.memo

structure Still (b s : State σ) : Prop where
  wrote : ∃ new, s.written = b.written ++ new ∧ marks new = []
  canceled : b.canceled = true → s.canceled = true
  fit : Fit b → Fit s

theorem Still.refl (s : State σ) : Still s s :=
  ⟨⟨[], (List.append_nil _).symm, rfl⟩, id, id⟩

theorem Still.write {b s : State σ} (h : Still b s) {entry : Entry} (hentry : mark? entry = none) :
    Still b (s.write entry) := by
  obtain ⟨new, hnew, hmarks⟩ := h.wrote
  refine ⟨⟨new ++ [entry], ?_, ?_⟩, h.canceled, h.fit⟩
  · rw [State.written_write, hnew, List.append_assoc]
  · rw [marks_append, hmarks]
    simp [marks, hentry]

theorem mark?_of_isClient {call : Call} (moment : Moment) (h : call.isClient = true) :
    mark? (.called call moment) = none := by
  cases call with
  | detector detector hook => cases h
  | _ => rfl

theorem Fit.request {s : State σ} {schedule : Schedule} (hs : Fit s)
    (hschedule : s.schedule = some schedule) (detector : Detector) (scope : Option ScopeSet) :
    Fit { s with schedule := some (schedule.request detector scope) } := by
  have hsame : Fitting (s.schedule.getD {}) s.memo := hs
  rw [hschedule, Option.getD_some] at hsame
  refine ⟨hsame.selected, ?_, hs.remembered⟩
  have hknown := hsame.requested
  show (Requests.add schedule.requests detector scope).detectors.Nodup
  rw [Schedule.requested] at hknown
  cases hrequests : schedule.requests with
  | none => exact List.nodup_singleton _
  | some requests =>
    rw [hrequests] at hknown
    show (if requests.detectors.contains detector then requests.detectors
      else requests.detectors ++ [detector]).Nodup
    by_cases hmem : detector ∈ requests.detectors
    · rw [if_pos (List.contains_iff_mem.2 hmem)]
      exact hknown
    · rw [if_neg fun h => hmem (List.contains_iff_mem.1 h)]
      exact List.Nodup.append hknown (List.nodup_singleton _) (List.disjoint_singleton.2 hmem)

theorem finds_still (host : Host σ) (b : State σ) :
    Finds host (Still b) (fun _ => True) (fun _ => True) where
  called := fun hcall hs => hs.write (mark?_of_isClient _ hcall)
  logged := fun _ _ hs => hs.write rfl
  observed := fun _ _ hs => hs.write rfl
  submitted := fun _ _ _ hs => hs.write rfl
  requested := fun detector scope schedule s _ hschedule hs => by
    have hwritten : Still b (s.write (.requested detector scope)) := hs.write rfl
    exact ⟨hwritten.wrote, hwritten.canceled,
      fun hb => (hwritten.fit hb).request hschedule detector scope⟩
  canceled := fun _ hs => { hs with canceled := fun _ => rfl }

theorem hears_still (host : Host σ) (b : State σ) :
    Hears host (Still b) (fun _ => True) (fun _ => True) where
  toBears := (finds_still host b).toBears
  heard := fun hs => hs.write rfl

/-! ## Steps -/

structure Marked (L M : Language Mark) (s s' : State σ) : Prop where
  wrote : ∃ new, s'.written = s.written ++ new ∧ marks new ∈ L ∧
    (s'.canceled = false → marks new ∈ M)
  canceled : s.canceled = true → s'.canceled = true
  fit : Fit s'

def Tells (L M : Language Mark) (x : Run σ α) (s : State σ) (Q : α → Prop := fun _ => True) :
    Prop :=
  Fit s → ∀ a s', x s = .ok a s' → Marked L M s s' ∧ Q a

/-- The words are of one language, whether the run is canceled or not. -/
abbrev Adds (L : Language Mark) (x : Run σ α) (s : State σ)
    (Q : α → Prop := fun _ => True) : Prop :=
  Tells L L x s Q

variable {L L' M M' : Language Mark} {s s' s'' : State σ}

theorem Marked.mono (h : Marked L M s s') (hL : L ≤ L') (hM : M ≤ M') : Marked L' M' s s' := by
  obtain ⟨new, hnew, hword, hended⟩ := h.wrote
  exact ⟨⟨new, hnew, hL hword, fun hlive => hM (hended hlive)⟩, h.canceled, h.fit⟩

theorem Marked.trans (h : Marked L M s s') (h' : Marked L' M' s' s'') :
    Marked (L * L') (M * M') s s'' := by
  obtain ⟨first, hfirst, hword, hended⟩ := h.wrote
  obtain ⟨second, hsecond, hword', hended'⟩ := h'.wrote
  refine ⟨⟨first ++ second, by rw [hsecond, hfirst, List.append_assoc], ?_, fun hlive => ?_⟩,
    h'.canceled ∘ h.canceled, h'.fit⟩
  · rw [marks_append]
    exact Language.append_mem_mul hword hword'
  · rw [marks_append]
    refine Language.append_mem_mul (hended ?_) (hended' hlive)
    exact Bool.eq_false_iff.2 fun hcanceled => Bool.eq_false_iff.1 hlive (h'.canceled hcanceled)

theorem Marked.refl (hs : Fit s) (hL : [] ∈ L) (hM : s.canceled = false → [] ∈ M) :
    Marked L M s s :=
  ⟨⟨[], (List.append_nil _).symm, hL, hM⟩, id, hs⟩

theorem Marked.grown {L M : Language Mark} (h : Marked L M s s') : s.written <+: s'.written := by
  obtain ⟨new, hnew, -⟩ := h.wrote
  exact ⟨new, hnew.symm⟩

theorem Marked.live {L M : Language Mark} (h : Marked L M s s') (hlive : s'.canceled = false) :
    s.canceled = false := by
  cases hcanceled : s.canceled with
  | false => rfl
  | true =>
    rw [h.canceled hcanceled] at hlive
    cases hlive

theorem Marked.of_state {t : State σ} (h : Marked L M t s') (hwritten : t.written = s.written)
    (hcanceled : t.canceled = s.canceled) : Marked L M s s' := by
  obtain ⟨new, hnew, hword, hended⟩ := h.wrote
  exact ⟨⟨new, hwritten ▸ hnew, hword, hended⟩, fun hs => h.canceled (hcanceled.trans hs), h.fit⟩

theorem Still.marked (h : Still s s') (hs : Fit s) : Marked 1 1 s s' := by
  obtain ⟨new, hnew, hmarks⟩ := h.wrote
  exact ⟨⟨new, hnew, hmarks, fun _ => hmarks⟩, h.canceled, h.fit hs⟩

namespace Tells

variable {Q : α → Prop} {R : β → Prop}
variable {x : Run σ α} {f : α → Run σ β}

theorem mono (h : Tells L M x s Q) (hL : L ≤ L') (hM : M ≤ M') : Tells L' M' x s Q :=
  fun hs a s' hx => ⟨(h hs a s' hx).1.mono hL hM, (h hs a s' hx).2⟩

theorem bind (hx : Tells L M x s Q)
    (hf : ∀ a s', Q a → Tells L' M' (f a) s' R) : Tells (L * L') (M * M') (x >>= f) s R := by
  intro hs b s'' h
  obtain ⟨a, s', hfirst, hrest⟩ := bind_eq_ok h
  obtain ⟨hmarked, ha⟩ := hx hs a s' hfirst
  obtain ⟨hmarked', hb⟩ := hf a s' ha hmarked.fit b s'' hrest
  exact ⟨hmarked.trans hmarked', hb⟩

theorem pure {a : α} (h : Q a) : Tells 1 1 (pure a : Run σ α) s Q := by
  intro hs b s' heq
  cases heq
  exact ⟨.refl hs Language.nil_mem_one fun _ => Language.nil_mem_one, h⟩

theorem throw (fault : Fault) : Tells L M (throw fault : Run σ α) s Q := by
  intro _ b s' h
  cases h

theorem inspect {k : State σ → Run σ α} (h : Tells L M (k s) s Q) : Tells L M (get >>= k) s Q :=
  h

theorem ite {y : Run σ α} (c : Prop) [Decidable c] (hx : Tells L M x s Q)
    (hy : Tells L M y s Q) : Tells L M (if c then x else y) s Q :=
  iteInduction (motive := (Tells L M · s Q)) (fun _ => hx) fun _ => hy

theorem still (h : ∀ b, Keeps (Still b) x) : Tells 1 1 x s :=
  fun hs _ _ hx => ⟨((h s).ok (.refl s) hx).marked hs, trivial⟩

theorem still_bind (hx : ∀ b, Keeps (Still b) x)
    (hf : ∀ a s', Tells L M (f a) s' R) : Tells L M (x >>= f) s R := by
  rw [← one_mul L, ← one_mul M]
  exact (still hx).bind fun a s' _ => hf a s'

theorem bind_pure {f : α → β} (hx : Tells L M x s Q) (hf : ∀ a, Q a → R (f a)) :
    Tells L M (x >>= fun a => Pure.pure (f a)) s R := by
  rw [← mul_one L, ← mul_one M]
  exact hx.bind fun a _ ha => pure (hf a ha)

theorem modify_bind {change : State σ → State σ} {f : Unit → Run σ β}
    (hwritten : (change s).written = s.written) (hcanceled : (change s).canceled = s.canceled)
    (hfit : Fit s → Fit (change s)) (hf : Tells L M (f ()) (change s) R) :
    Tells L M (modify change >>= f) s R := by
  intro hs b s' h
  obtain ⟨hmarked, hb⟩ := hf (hfit hs) b s' h
  exact ⟨hmarked.of_state hwritten hcanceled, hb⟩

theorem unlessCanceled {x : Run σ Unit} (hL : [] ∈ L) (hx : Tells L M x s) :
    Tells L M (unlessCanceled x) s := by
  intro hs a s' h
  cases hcanceled : s.canceled with
  | true =>
    rw [unlessCanceled_of_canceled hcanceled] at h
    cases h
    refine ⟨.refl hs hL fun hlive => ?_, trivial⟩
    rw [hcanceled] at hlive
    cases hlive
  | false =>
    rw [unlessCanceled_of_not_canceled hcanceled] at h
    exact hx hs a s' h

section ClosedLanguage

variable (hclosed : Closed L)

include hclosed

theorem andThen (hx : Adds L x s Q)
    (hf : ∀ a s', Q a → Adds L (f a) s' R) : Adds L (x >>= f) s R := by
  have hmul : L * L ≤ L := by
    intro w hw
    obtain ⟨first, hfirst, second, hsecond, rfl⟩ := Language.mem_mul.1 hw
    exact hclosed.append hfirst hsecond
  exact (hx.bind hf).mono hmul hmul

theorem of_silent (h : Tells 1 1 x s Q) : Adds L x s Q := by
  have hone : 1 ≤ L := fun w hw => (Language.mem_one w).1 hw ▸ hclosed.nil
  exact h.mono hone hone

theorem give {a : α} (h : Q a) : Adds L (Pure.pure a : Run σ α) s Q :=
  of_silent hclosed (pure h)

theorem done : Adds L (Pure.pure () : Run σ Unit) s :=
  give hclosed trivial

theorem each {f : α → Run σ Unit} {elements : List α}
    (h : ∀ a ∈ elements, ∀ s, Adds L (f a) s) : Adds L (each elements f) s := by
  induction elements generalizing s with
  | nil => exact done hclosed
  | cons element rest ih =>
    obtain ⟨hfirst, hrest⟩ := List.forall_mem_cons.1 h
    exact andThen hclosed (hfirst s) fun _ _ _ => ih hrest

theorem eachUntilCanceled {f : α → Run σ Unit} {elements : List α}
    (h : ∀ a ∈ elements, ∀ s, Adds L (f a) s) :
    Adds L (eachUntilCanceled elements f) s := by
  induction elements generalizing s with
  | nil => exact done hclosed
  | cons element rest ih =>
    obtain ⟨hfirst, hrest⟩ := List.forall_mem_cons.1 h
    exact andThen hclosed (hfirst s) fun _ _ _ => unlessCanceled hclosed.nil (ih hrest)

end ClosedLanguage
end Tells
end Brackets
end ProjectLint
