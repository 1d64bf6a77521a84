/-
What a cancellation does to a run: it cuts the run short and does nothing else. Next to the same run
in which cancellations do nothing, a canceled run has written a beginning of what the other writes,
and after it only what the report of the cancellation and the last event lead to.

The two runs are compared root by root. Where they come apart, the first run has stopped in a state
whose trace the other still extends, and all that is left for it is to close down.
-/
import ProjectLint.Proofs.EventProtocol
import ProjectLint.Proofs.References
import ProjectLint.Proofs.Twin

namespace ProjectLint

open Engine Run State EventProtocol

/-! ## Closing down -/

def Run.rescoped (scope : ScopeSet) : Outcome σ α → Outcome σ α
  | .ok a s => .ok a { s with scope }
  | .error fault s => .error fault { s with scope }

def Run.thenScope (scope : ScopeSet) (x : Run σ α) : Run σ α := fun s =>
  rescoped scope (x s)

/-- Reports the cancellation, and leaves the run with a given scope. -/
def Engine.reportIn (e : Engine σ) (scope : ScopeSet) (project : ProjectRef) : Run σ Unit :=
  thenScope scope (e.reportCanceled (projectContext project))

/-- What a run does after its current root. -/
def Engine.checkRest (e : Engine σ) (current : ProjectRef) (rest : List ProjectRef)
    (elapsed : Int) : Run σ Unit := do
  e.finish (← e.checkRoots current rest) elapsed

def Engine.closeDown (e : Engine σ) (root : ProjectRef) (scope : ScopeSet) (elapsed : Int) :
    Run σ Unit := do
  thenScope scope do
    modify fun s => { s with cancelReported := true }
    e.submit .engine (canceledReport root)
  note .info ("[LintEngine] Canceled after " ++ Log.duration elapsed)
  e.fire .canceled

namespace Cancellation

variable {scope : ScopeSet} {s t stop : State σ} {root project : ProjectRef}
variable {r : Outcome σ α} {paths : List String} {roots : List ProjectRef}
  {s₁ : State σ} {reported : Bool}

structure Lags (stop t : State σ) : Prop where
  canceled : stop.canceled = true
  unreported : stop.cancelReported = false
  trace : stop.trace <+: t.trace

theorem Lags.grow {t' : State σ} (h : Lags stop t) (hgrown : t.written <+: t'.written) :
    Lags stop t' :=
  ⟨h.canceled, h.unreported, h.trace.trans (trace_mono hgrown)⟩

theorem lags_of_twin (h : Twin scope false s t) (hs : s.canceled = true) : Lags s t :=
  ⟨hs, h.unreported, h.trace ▸ List.prefix_refl _⟩

theorem lags_of_behind (h : Behind scope false s t) : Lags s t :=
  ⟨h.canceled, h.reported, h.trace⟩

inductive Follows (e : Engine σ) (scope : ScopeSet) (project : ProjectRef) :
    Outcome σ Unit → Outcome σ Unit → Prop
  | together {r r'} : Alike (Twin scope false) r r' → Follows e scope project r r'
  | apart {r'} (stop : State σ) : Lags stop (endState r') →
      Follows e scope project (e.reportIn scope project stop) r'

def Trails (e : Engine σ) (project : ProjectRef) (r r' : Outcome σ Unit) :
    Prop :=
  ∃ scope, Follows e scope project r r'

theorem alike_bind {ρ : State σ → State σ → Prop} {C : Outcome σ β → Outcome σ β → Prop}
    {x y : Run σ α} {f g : α → Run σ β} (h : Alike ρ (x s) (y t))
    (herror : ∀ fault {s' t' : State σ}, ρ s' t' → C (.error fault s') (.error fault t'))
    (hok : ∀ a {s' t' : State σ}, x s = .ok a s' → y t = .ok a t' → ρ s' t' → C (f a s') (g a t')) :
    C ((x >>= f) s) ((y >>= g) t) := by
  generalize hr : x s = r at h
  generalize hr' : y t = r' at h
  cases h with
  | ok a h =>
    rw [bind_of_ok hr, bind_of_ok hr']
    exact hok a hr hr' h
  | error fault h =>
    rw [bind_of_error hr, bind_of_error hr']
    exact herror fault h

theorem endState_rescoped (scope : ScopeSet) (r : Outcome σ α) :
    endState (rescoped scope r) = { endState r with scope } := by
  cases r <;> rfl

theorem rescoped_rescoped (scope other : ScopeSet) (r : Outcome σ α) :
    rescoped scope (rescoped other r) = rescoped scope r := by
  cases r <;> rfl

theorem rescoped_self (h : (endState r).scope = scope) : rescoped scope r = r := by
  cases r <;> rw [← h] <;> rfl

theorem keepingScope_eq (x : Run σ α) (s : State σ) :
    keepingScope x s = rescoped s.scope (x s) := by
  rw [keepingScope]
  cases x s <;> rfl

theorem Follows.rescoped {e : Engine σ} {other : ScopeSet}
    {r r' : Outcome σ Unit} (h : Follows e other project r r') :
    Follows e scope project (rescoped scope r) (Run.rescoped scope r') := by
  cases h with
  | together halike =>
    cases halike with
    | ok a hst => exact .together (.ok a (hst.rescope scope))
    | error fault hst => exact .together (.error fault (hst.rescope scope))
  | apart stop hlags =>
    rw [reportIn, thenScope, rescoped_rescoped]
    refine .apart stop ?_
    rw [endState_rescoped]
    exact ⟨hlags.canceled, hlags.unreported, hlags.trace⟩

section Apart

variable (host : Host σ) (opts : Options)

theorem thenScope_reportCanceled_eq_ok {context : Context} {s' : State σ} {a : Unit}
    (h : thenScope scope ((host.engine opts).reportCanceled context) stop = .ok a s')
    (hstop : stop.canceled = true) : s'.canceled = true ∧ s'.cancelReported = true := by
  have hlater := reportCanceled_later host opts context stop
  have hend := endState_rescoped scope ((host.engine opts).reportCanceled context stop)
  rw [show rescoped scope _ = _ from h, endState_ok] at hend
  rw [hend]
  exact ⟨hlater.canceled hstop, hlater.cancelReported⟩

theorem thenScope_reportCanceled {context : Context} (hstop : stop.scope = scope) :
    thenScope scope ((host.engine opts).reportCanceled context) stop =
      (host.engine opts).reportCanceled context stop := by
  exact rescoped_self ((reportCanceled_later host opts context stop).scope.trans hstop)

theorem Follows.bind {C : Outcome σ Unit → Outcome σ Unit → Prop}
    {x y : Run σ Unit} {f g : Unit → Run σ Unit}
    (h : Follows (host.engine opts) scope project (x s) (y t))
    (hfollows : ∀ {r r'}, Follows (host.engine opts) scope project r r' → C r r')
    (hidle : ∀ s' : State σ, s'.canceled = true → f () s' = .ok () s')
    (hgrown : ∀ t' : State σ, t'.written <+: (endState (g () t')).written)
    (hok : ∀ {s' t' : State σ}, x s = .ok () s' → Twin scope false s' t' → C (f () s') (g () t')) :
    C ((x >>= f) s) ((y >>= g) t) := by
  generalize hr : x s = r at h
  generalize hr' : y t = r' at h
  cases h with
  | together halike =>
    rw [← hr, ← hr'] at halike
    exact alike_bind halike (fun fault {_ _} hst => hfollows (.together (.error fault hst)))
      fun _ {_ _} hs' _ hst => hok hs' hst
  | apart stop hlags =>
    -- What the second run does from here on only adds to its trace.
    have hmore : Lags stop (endState ((y >>= g) t)) := by
      cases r' with
      | ok a t' =>
        rw [bind_of_ok hr']
        exact hlags.grow (hgrown t')
      | error fault t' =>
        rw [bind_of_error hr']
        exact hlags
    have hsame : (x >>= f) s = (host.engine opts).reportIn scope project stop := by
      cases hreport : (host.engine opts).reportIn scope project stop with
      | ok a s' =>
        rw [bind_of_ok (hr.trans hreport)]
        exact hidle s' (thenScope_reportCanceled_eq_ok host opts hreport hlags.canceled).1
      | error fault s' => rw [bind_of_error (hr.trans hreport)]
    rw [hsame]
    exact hfollows (.apart stop hmore)

theorem checkProject_of_calm {e : Engine σ} (project : ProjectRef)
    (ht : (endState (e.checkPhase project t)).canceled = false) :
    e.checkProject project t = e.checkPhase project t := by
  cases hphase : e.checkPhase project t with
  | ok _ t₁ =>
    rw [hphase, endState_ok] at ht
    rw [checkProject_of_ok hphase, ht, if_neg Bool.false_ne_true]
  | error fault t₁ => rw [checkProject_of_error hphase]

theorem checkProject_not_canceled {s' t' : State σ}
    (h : (host.engine opts).checkProject project s = .ok () s')
    (hst : Twin scope false s' t') : s'.canceled = false := by
  obtain ⟨s₁, -, ⟨hs₁, rfl⟩ | ⟨-, hreport⟩⟩ := checkProject_cases h
  · exact hs₁
  · have hlater := reportCanceled_later host opts (projectContext project) s₁
    rw [hreport, endState_ok] at hlater
    cases hst.unreported.symm.trans hlater.cancelReported

theorem goOn_grown (project : ProjectRef) (fuel : Nat) (detectors : List Detector) (s : State σ) :
    s.written <+: (endState ((host.engine opts).goOn project fuel detectors s)).written := by
  rw [goOn, get_bind]
  split
  · exact List.prefix_refl _
  · exact (course_extraPhases host opts (List.mem_singleton_self project) fuel s).grown

theorem repeatPhases_grown (project : ProjectRef) (s : State σ) :
    s.written <+: (endState ((host.engine opts).repeatPhases project s)).written := by
  rw [repeatPhases, get_bind]
  split
  · exact (course_extraPhases host opts (List.mem_singleton_self project) _ s).keepingScope.grown
  · exact List.prefix_refl _

theorem checkRest_grown (current : ProjectRef) (rest : List ProjectRef) (elapsed : Int)
    (s : State σ) :
    s.written <+: (endState ((host.engine opts).checkRest current rest elapsed s)).written := by
  have hroots := (course_checkRoots host opts rest (fun _ => id) current s).grown
  cases hrun : (host.engine opts).checkRoots current rest s with
  | ok last s' =>
    rw [hrun, endState_ok] at hroots
    rw [checkRest, bind_of_ok hrun]
    exact hroots.trans (finish_spec host opts (List.mem_singleton_self last) elapsed s').grown
  | error fault s' =>
    rw [checkRest, bind_of_error hrun]
    rwa [hrun] at hroots

theorem analyze_grown {scope : Option ScopeSet} (elapsed : Int)
    (h : (host.engine opts).seek paths scope s = .ok roots s₁) :
    s₁.written <+: (endState ((host.engine opts).analyze paths scope elapsed s)).written := by
  cases hs₁ : s₁.canceled with
  | true =>
    rw [analyze_of_canceled h hs₁]
    exact List.prefix_refl _
  | false =>
    cases roots with
    | nil =>
      rw [analyze_of_nil h hs₁]
      exact (frames_log host opts _ _ _ s₁).grown
    | cons first rest =>
      rw [analyze_of_cons h hs₁]
      exact (checkAll_spec first rest elapsed (s₁.ready scope (first :: rest))).grown

theorem unlessCanceled_grown {x : Run σ Unit} (h : s.written <+: (endState (x s)).written) :
    s.written <+: (endState (unlessCanceled x s)).written := by
  cases hs : s.canceled with
  | true =>
    rw [unlessCanceled_of_canceled hs]
    exact List.prefix_refl _
  | false => rwa [unlessCanceled_of_not_canceled hs]

theorem closeDown_eq (root : ProjectRef) (elapsed : Int) (hstop : stop.canceled = true)
    (hunreported : stop.cancelReported = false) :
    (host.engine opts).closeDown root scope elapsed stop =
      ((host.engine opts).reportIn scope root >>=
        fun _ => (host.engine opts).conclude elapsed) stop := by
  have hreport : thenScope scope (do
      modify fun s => { s with cancelReported := true }
      (host.engine opts).submit .engine (canceledReport root)) stop =
        (host.engine opts).reportIn scope root stop := by
    rw [reportIn, thenScope, thenScope, reportCanceled_of_not_reported _ _ hunreported]
    rfl
  rw [closeDown]
  cases hrun : (host.engine opts).reportIn scope root stop with
  | error fault s₁ => rw [bind_of_error hrun, bind_of_error (hreport.trans hrun)]
  | ok a s₁ =>
    have hs₁ := (thenScope_reportCanceled_eq_ok host opts hrun hstop).1
    rw [bind_of_ok hrun, bind_of_ok (hreport.trans hrun), conclude, closing, hs₁]
    rfl

theorem closeDown_later (scope : ScopeSet) (root : ProjectRef) (elapsed : Int)
    (hstop : stop.canceled = true) (hunreported : stop.cancelReported = false) :
    State.Later (fun _ => True) { stop with cancelReported := true, scope }
      (endState ((host.engine opts).closeDown root scope elapsed stop)) := by
  have hreport : State.Later (fun _ => True) { stop with cancelReported := true, scope }
      (endState ((host.engine opts).reportIn scope root stop)) := by
    rw [reportIn, thenScope, endState_rescoped]
    exact ((reportCanceled_later host opts (projectContext root) stop).mono
      fun _ _ => trivial).rescope scope
  rw [closeDown_eq host opts root elapsed hstop hunreported]
  cases hrun : (host.engine opts).reportIn scope root stop with
  | ok a s₁ =>
    rw [hrun] at hreport
    rw [bind_of_ok hrun]
    exact (hreport.write (.inr trivial)).trans (frames_fire host opts _ _ _)
  | error fault s₁ =>
    rw [hrun] at hreport
    rw [bind_of_error hrun]
    exact hreport

end Apart

/-! ## One root project -/

variable {host : Host σ} (hblind : host.Blind) (opts : Options)

section OneRoot

include hblind

theorem checkPhase_cut (project : ProjectRef) :
    Cuts (@Abreast σ scope false) (fun past s t => Behind scope false s t ∧ past <+: t.written)
      (fun _ => True) ((host.engine opts).checkPhase project)
      ((host.withoutCancel.engine opts).checkPhase project) :=
  ((twinned hblind opts).marches project).checkPhase halting_twin

theorem follows_checkProject (h : Twin scope false s t) (project : ProjectRef) :
    Follows (host.engine opts) scope project ((host.engine opts).checkProject project s)
      ((host.withoutCancel.engine opts).checkProject project t) := by
  -- A first run that is canceled after the phase, in step or not, goes on to report it.
  have hreport : ∀ {s₁ : State σ} {r' : Outcome σ Unit},
      (host.engine opts).checkPhase project s = .ok () s₁ → s₁.scope = scope →
      Lags s₁ (endState r') → Follows (host.engine opts) scope project
        ((host.engine opts).checkProject project s) r' := by
    intro s₁ r' hphase hscope hlags
    rw [checkProject_of_ok hphase, if_pos hlags.canceled,
      ← thenScope_reportCanceled host opts hscope]
    exact .apart s₁ hlags
  rcases checkPhase_cut hblind opts project [] s t ⟨h, List.nil_prefix⟩ with
    hmatch | ⟨_, s₁, hphase, -, hbehind, -⟩
  · have halike := (hmatch.mono And.left).alike
    have hcalm := halike.endState.calm
    rw [checkProject_of_calm project hcalm]
    generalize hr : (host.engine opts).checkPhase project s = r at halike
    generalize (host.withoutCancel.engine opts).checkPhase project t = r' at halike
    cases halike with
    | @ok _ s₁ t₁ hst =>
      cases hs₁ : s₁.canceled with
      | true => exact hreport hr (hst.same.scope.trans hst.scope) (lags_of_twin hst hs₁)
      | false =>
        rw [checkProject_of_ok hr, hs₁, if_neg Bool.false_ne_true]
        exact .together (.ok () hst)
    | error fault hst =>
      rw [checkProject_of_error hr]
      exact .together (.error fault hst)
  · rw [checkProject_of_calm project hbehind.alone.calm]
    exact hreport hphase hbehind.scope (lags_of_behind hbehind)

theorem follows_laterPhases (project : ProjectRef) (fuel : Nat)
    (ih : ∀ {scope : ScopeSet} {s t : State σ}, Twin scope false s t →
      Trails (host.engine opts) project ((host.engine opts).extraPhases project fuel s)
        ((host.withoutCancel.engine opts).extraPhases project fuel t))
    (h : Twin scope false s t) :
    Trails (host.engine opts) project ((host.engine opts).laterPhases project fuel s)
      ((host.withoutCancel.engine opts).laterPhases project fuel t) := by
  -- Another phase follows in both runs or in neither.
  have hgoOn : ∀ (detectors : List Detector) {s t : State σ},
      (s.canceled && !detectors.isEmpty) = false → Twin scope false s t →
      Trails (host.engine opts) project
        ((host.engine opts).goOn project fuel detectors s)
        ((host.withoutCancel.engine opts).goOn project fuel detectors t) := by
    intro detectors s t hs hst
    rw [goOn, goOn, get_bind, get_bind, hs, hst.calm, Bool.false_and,
      hst.same.view ownSlot.schedule fun _ _ _ => rfl]
    split
    · exact ⟨scope, .together (.ok () hst)⟩
    · exact ih hst
  have htwins : Twinned scope false _ _ := twinned hblind opts
  rw [laterPhases, laterPhases, get_bind, get_bind, h.same.scope]
  cases t.scope.isEmpty with
  | true => exact ⟨scope, .together (.ok () h)⟩
  | false =>
    refine alike_bind (C := Trails (host.engine opts) project)
      (Mirrors.twin (fun _ => htwins.plans.replan (htwins.configuration project)) h)
      (fun fault {_ _} hst => ⟨scope, .together (.error fault hst)⟩)
      fun detectors {s₁ t₁} _ _ hst => ?_
    have hforgot : Twin scope false { s₁ with memo := none } { t₁ with memo := none } :=
      hst.map (fun s => { s with memo := none }) fun _ _ _ _ _ => rfl
    cases detectors with
    | nil => exact hgoOn [] (Bool.and_false _) hforgot
    | cons first rest =>
      refine (follows_checkProject hblind opts hforgot project).bind host opts
        (C := Trails (host.engine opts) project) (fun hfollows => ⟨scope, hfollows⟩)
        (fun s₂ hs₂ => ?_)
        (goOn_grown host.withoutCancel opts project fuel (first :: rest))
        fun {s₂ t₂} hcheck hst₂ => hgoOn (first :: rest) ?_ hst₂
      · rw [goOn, get_bind, hs₂]
        rfl
      · rw [checkProject_not_canceled host opts hcheck hst₂]
        rfl

theorem follows_extraPhases (project : ProjectRef) (fuel : Nat) {scope : ScopeSet} {s t : State σ}
    (h : Twin scope false s t) :
    Trails (host.engine opts) project ((host.engine opts).extraPhases project fuel s)
      ((host.withoutCancel.engine opts).extraPhases project fuel t) := by
  induction fuel generalizing scope s t with
  | zero => exact ⟨scope, .together (.ok () h)⟩
  | succ fuel ih =>
    have hschedule := h.same.view ownSlot.schedule fun _ _ _ => rfl
    cases hadvance : (ownSlot.schedule t).advance? with
    | none =>
      rw [extraPhases_of_none _ _ _ hadvance, extraPhases_of_none _ _ _ (hschedule ▸ hadvance)]
      exact ⟨scope, .together (.ok () h)⟩
    | some advanced =>
      rw [extraPhases_of_some _ _ _ hadvance, extraPhases_of_some _ _ _ (hschedule ▸ hadvance)]
      have hadvanced : Twin scope false { s with schedule := some advanced }
          { t with schedule := some advanced } :=
        h.map (fun s => { s with schedule := some advanced }) fun _ _ _ _ _ => rfl
      refine alike_bind (C := Trails (host.engine opts) project)
        (Mirrors.twin (fun _ => (twinned hblind opts).fire .newPhase _) hadvanced)
        (fun fault {_ _} hst => ⟨scope, .together (.error fault hst)⟩)
        fun _ {s₁ t₁} _ _ hst => ?_
      have hnarrow : s₁.narrow = { s₁ with scope := t₁.narrow.scope } := by
        show s₁.narrow = { s₁ with scope := (ownSlot.schedule t₁).narrowed t₁.scope }
        rw [← hst.same.view ownSlot.schedule fun _ _ _ => rfl, ← hst.same.scope]
        rfl
      have hnarrowed : Twin t₁.narrow.scope false s₁.narrow t₁.narrow :=
        hnarrow ▸ hst.rescope t₁.narrow.scope
      exact follows_laterPhases hblind opts project fuel ih hnarrowed

theorem follows_repeatPhases (h : Twin scope false s t) (project : ProjectRef) :
    Follows (host.engine opts) scope project ((host.engine opts).repeatPhases project s)
      ((host.withoutCancel.engine opts).repeatPhases project t) := by
  rw [repeatPhases, repeatPhases, get_bind, get_bind, h.same.view ownSlot.schedule fun _ _ _ => rfl]
  cases (ownSlot.schedule t).isPending with
  | false => exact .together (.ok () h)
  | true =>
    obtain ⟨narrowed, hextra⟩ := follows_extraPhases hblind opts project Options.maxPhases h
    have hs : s.scope = scope := h.same.scope.trans h.scope
    rw [if_pos rfl, if_pos rfl, keepingScope_eq, keepingScope_eq, hs, h.scope]
    exact hextra.rescoped

theorem follows_checkRoot (h : Twin scope false s t) (project : ProjectRef) :
    Follows (host.engine opts) scope project ((host.engine opts).checkRoot project s)
      ((host.withoutCancel.engine opts).checkRoot project t) := by
  have htwins : Twinned scope false _ _ := twinned hblind opts
  have hrestarted : Twin scope false
      { s with schedule := some (restarted (ownSlot.schedule s)) }
      { t with schedule := some (restarted (ownSlot.schedule t)) } :=
    h.map (fun s => { s with schedule := some (restarted (ownSlot.schedule s)) })
      fun _ _ _ _ _ => rfl
  have hplan := htwins.plans.plan (htwins.configuration project) t.scope
    ⟨hrestarted, List.nil_prefix⟩
  rw [checkRoot, checkRoot, get_bind, get_bind, h.same.scope]
  refine alike_bind (C := Follows (host.engine opts) scope project)
    (hplan.mono And.left).alike
    (fun fault {_ _} hst => .together (.error fault hst)) fun detectors {s₁ t₁} _ _ hst => ?_
  have hforgot : Twin scope false { s₁ with memo := none } { t₁ with memo := none } :=
    hst.map (fun s => { s with memo := none }) fun _ _ _ _ _ => rfl
  cases detectors with
  | nil => exact .together (Mirrors.twin (fun _ => bonds_twin.note _ _ _) hforgot)
  | cons first rest =>
    refine (follows_checkProject hblind opts hforgot project).bind host opts
      (C := Follows (host.engine opts) scope project) id
      (fun s₂ hs₂ => unlessCanceled_of_canceled hs₂) (fun t₂ => ?_) fun {s₂ t₂} hcheck hst₂ => ?_
    · exact unlessCanceled_grown (repeatPhases_grown host.withoutCancel opts project t₂)
    · have hs₂ := checkProject_not_canceled host opts hcheck hst₂
      rw [unlessCanceled_of_not_canceled hs₂, unlessCanceled_of_not_canceled hst₂.calm]
      exact follows_repeatPhases hblind opts hst₂ project

end OneRoot

/-! ## The whole run -/

def Completes (e : Engine σ) (r : Outcome σ Unit) : Prop :=
  ∀ s', r = .ok () s' → ∃ last : State σ, last.canceled = false ∧ r = e.fire .completed none last

theorem completes_conclude (elapsed : Int) (hs : s.canceled = false) :
    Completes (host.engine opts) ((host.engine opts).conclude elapsed s) := by
  intro s' _
  refine ⟨s.closing elapsed, hs, ?_⟩
  rw [conclude, hs]
  rfl

def Closes (e : Engine σ) (roots : List ProjectRef) (scope : ScopeSet) (elapsed : Int)
    (r r' : Outcome σ Unit) : Prop :=
  Alike (Twin scope false) r r' ∧ Completes e r ∨
    ∃ root ∈ roots, ∃ stop : State σ, Lags stop (endState r') ∧
      r = (e.reportIn scope root >>= fun _ => e.conclude elapsed) stop

section Rest

variable {e : Engine σ} (elapsed : Int) (rest : List ProjectRef) (current project : ProjectRef)

theorem checkRest_of_canceled (hs : s.canceled = true) : e.checkRest current rest elapsed s =
    (e.reportCanceled (projectContext current) >>= fun _ => e.conclude elapsed) s := by
  rw [checkRest, bind_of_ok (checkRoots_of_canceled _ current rest hs), finish_of_canceled _ _ _ hs]

theorem checkRest_nil (hs : s.canceled = false) :
    e.checkRest current [] elapsed s = e.conclude elapsed s :=
  finish_of_not_canceled _ _ _ hs

theorem checkRest_cons (hs : s.canceled = false) :
    e.checkRest current (project :: rest) elapsed s =
      (e.checkRoot project >>= fun _ => e.checkRest project rest elapsed) s := by
  simp only [checkRest]
  rw [← bind_assoc]
  refine bind_congr_left ?_
  rw [checkRoots, get_bind, hs]
  rfl

end Rest

theorem closes_of_error {elapsed : Int} (fault : Fault) (h : Twin scope false s t) :
    Closes (host.engine opts) roots scope elapsed (.error fault s) (.error fault t) :=
  .inl ⟨.error fault h, fun _ hok => nomatch hok⟩

theorem closes_of_canceled (elapsed : Int) (rest : List ProjectRef)
    {current : ProjectRef} (hcurrent : current ∈ roots) (h : Twin scope false s t)
    (hs : s.canceled = true) : Closes (host.engine opts) roots scope elapsed
      ((host.engine opts).checkRest current rest elapsed s)
      ((host.withoutCancel.engine opts).checkRest current rest elapsed t) := by
  have hgrown := checkRest_grown host.withoutCancel opts current rest elapsed t
  refine .inr ⟨current, hcurrent, s, (lags_of_twin h hs).grow hgrown, ?_⟩
  rw [checkRest_of_canceled elapsed rest current hs]
  exact bind_congr_left (thenScope_reportCanceled host opts (h.same.scope.trans h.scope)).symm

theorem closes_of_apart (elapsed : Int) (rest : List ProjectRef) (hproject : project ∈ roots)
    (hreal : (host.engine opts).checkRoot project s =
      (host.engine opts).reportIn scope project stop)
    (hlags : Lags stop (endState ((host.withoutCancel.engine opts).checkRoot project t))) :
    Closes (host.engine opts) roots scope elapsed
      (((host.engine opts).checkRoot project >>= fun _ =>
        (host.engine opts).checkRest project rest elapsed) s)
      (((host.withoutCancel.engine opts).checkRoot project >>= fun _ =>
        (host.withoutCancel.engine opts).checkRest project rest elapsed) t) := by
  refine .inr ⟨project, hproject, stop, ?_, ?_⟩
  · cases hideal : (host.withoutCancel.engine opts).checkRoot project t with
    | ok a t' =>
      rw [hideal] at hlags
      rw [bind_of_ok hideal]
      exact hlags.grow (checkRest_grown host.withoutCancel opts project rest elapsed t')
    | error fault t' =>
      rw [hideal] at hlags
      rw [bind_of_error hideal]
      exact hlags
  · -- The first run passes the other roots by. It has reported by now, so it does not report again
    -- at its end.
    cases hreport : (host.engine opts).reportIn scope project stop with
    | ok a s₁ =>
      obtain ⟨hs₁, hreported⟩ :=
        thenScope_reportCanceled_eq_ok host opts hreport hlags.canceled
      rw [bind_of_ok (hreal.trans hreport), bind_of_ok hreport,
        checkRest_of_canceled elapsed rest project hs₁,
        bind_of_ok (reportCanceled_of_reported _ _ hreported)]
    | error fault s₁ => rw [bind_of_error (hreal.trans hreport), bind_of_error hreport]

/-- States that agree in all but cancellation, with the same trace. -/
def SameCourse (s t : State σ) : Prop :=
  Same s t ∧ s.trace = t.trace

theorem alike_sameCourse {r' : Outcome σ α}
    (h : Alike (Twin scope reported) r r') : Alike SameCourse r r' := by
  cases h with
  | ok a h => exact .ok a ⟨h.same, h.trace⟩
  | error fault h => exact .error fault ⟨h.same, h.trace⟩

theorem twin_begun (scope : Option ScopeSet) (s : State σ) :
    Twin (scope.getD .all) s.cancelReported (s.begun scope) (s.begun scope) :=
  ⟨⟨false, s.journal, rfl⟩, rfl, rfl, rfl, rfl⟩

theorem twin_ready {own : ScopeSet} (scope : Option ScopeSet)
    (roots : List ProjectRef) (h : Twin own reported s t) :
    Twin (s.ready scope roots).scope reported (s.ready scope roots) (t.ready scope roots) := by
  have hready : t.ready scope roots = { t with scope := (s.ready scope roots).scope } := by
    rw [ready, ready, h.same.project]
  rw [hready]
  exact h.rescope (s.ready scope roots).scope

theorem analyze_of_halted {scope : Option ScopeSet} (elapsed : Int)
    (hreal : (host.engine opts).seek paths scope s = .ok roots s₁) (hs₁ : s₁.canceled = true)
    (htrace : s₁.trace <+: (endState (Discovery.resolve (host.withoutCancel.engine opts)
      State.canceled paths (s.begun scope))).trace) :
    (host.engine opts).analyze paths scope elapsed s = .ok () s₁ ∧ s₁.trace <+: (endState
      ((host.withoutCancel.engine opts).analyze paths scope elapsed s)).trace := by
  refine ⟨analyze_of_canceled hreal hs₁, ?_⟩
  cases hideal : Discovery.resolve (host.withoutCancel.engine opts) State.canceled paths
    (s.begun scope) with
  | ok roots' t₁ =>
    rw [hideal] at htrace
    exact htrace.trans (trace_mono (analyze_grown host.withoutCancel opts elapsed hideal))
  | error fault t₁ =>
    rw [hideal] at htrace
    rwa [analyze_of_error hideal]

/-- The real run stopped at some state on the way of the ideal one and closed down there, or it ran
the same course to its end. -/
def Truncates (e : Engine σ) (roots : List ProjectRef) (scope : ScopeSet) (elapsed : Int)
    (real ideal : Outcome σ Unit) : Prop :=
  (∃ root ∈ roots, ∃ stop : State σ, Lags stop (endState ideal) ∧
    stop.trace <+: (endState real).trace ∧ real = e.closeDown root scope elapsed stop) ∨
  Alike SameCourse real ideal ∧ (roots = [] ∨ Completes e real)

section WholeRun

theorem alike_of_truncates {elapsed : Int} {real ideal : Outcome σ Unit}
    (h : Truncates (host.engine opts) roots scope elapsed real ideal)
    (hcanceled : (endState real).canceled = false) : Alike SameCourse real ideal := by
  rcases h with ⟨root, -, stop, hlags, -, rfl⟩ | ⟨hsame, -⟩
  · have hlater := closeDown_later host opts scope root elapsed hlags.canceled hlags.unreported
    rw [hlater.canceled hlags.canceled] at hcanceled
    cases hcanceled
  · exact hsame

include hblind

theorem alike_conclude (elapsed : Int) (h : Twin scope false s t) (hs : s.canceled = false) :
    Alike (Twin scope false) ((host.engine opts).conclude elapsed s)
      ((host.withoutCancel.engine opts).conclude elapsed t) := by
  have hclosing : Twin scope false (s.closing elapsed) (t.closing elapsed) := by
    refine h.write ?_
    rw [hs, h.calm]
  rw [conclude, conclude, hs, h.calm]
  exact Mirrors.twin (fun _ => (twinned hblind opts).fire .completed none) hclosing

theorem closes_checkRoots (roots : List ProjectRef) (elapsed : Int) (rest : List ProjectRef)
    (hrest : ∀ root ∈ rest, root ∈ roots) {current : ProjectRef} (hcurrent : current ∈ roots)
    {s t : State σ} (h : Twin scope false s t) :
    Closes (host.engine opts) roots scope elapsed
      ((host.engine opts).checkRest current rest elapsed s)
      ((host.withoutCancel.engine opts).checkRest current rest elapsed t) := by
  induction rest generalizing current s t with
  | nil =>
    cases hs : s.canceled with
    | true => exact closes_of_canceled opts elapsed [] hcurrent h hs
    | false =>
      refine .inl ?_
      rw [checkRest_nil elapsed current hs, checkRest_nil elapsed current h.calm]
      exact ⟨alike_conclude hblind opts elapsed h hs, completes_conclude opts elapsed hs⟩
  | cons project rest ih =>
    have hproject := hrest project List.mem_cons_self
    have hmore := fun root hroot => hrest root (List.mem_cons_of_mem project hroot)
    cases hs : s.canceled with
    | true => exact closes_of_canceled opts elapsed (project :: rest) hcurrent h hs
    | false =>
      rw [checkRest_cons elapsed rest current project hs,
        checkRest_cons elapsed rest current project h.calm]
      have hroot := follows_checkRoot hblind opts h project
      generalize hr : (host.engine opts).checkRoot project s = r at hroot
      generalize hr' : (host.withoutCancel.engine opts).checkRoot project t = r' at hroot
      cases hroot with
      | together halike =>
        rw [← hr, ← hr'] at halike
        exact alike_bind halike (fun fault {_ _} => closes_of_error opts fault)
          fun _ {_ _} _ _ hst => ih hmore hproject hst
      | apart stop hlags =>
        rw [← hr'] at hlags
        exact closes_of_apart opts elapsed rest hproject hr hlags

theorem closes_checkAll (first : ProjectRef) (rest : List ProjectRef) (elapsed : Int)
    (h : Twin scope reported s t) :
    Closes (host.engine opts) (first :: rest) scope elapsed
      ((host.engine opts).checkAll first rest elapsed s)
      ((host.withoutCancel.engine opts).checkAll first rest elapsed t) := by
  have hentered : Twin scope false (s.entered (rest.length + 1)) (t.entered (rest.length + 1)) := by
    obtain ⟨canceled, journal, rfl⟩ := h.same
    have hbegun : Twin scope false
        { t with canceled, journal, schedule := some {}, memo := none, cancelReported := false }
        { t with schedule := some {}, memo := none, cancelReported := false } :=
      ⟨⟨canceled, journal, rfl⟩, h.trace, h.calm, h.scope, rfl⟩
    exact hbegun.write rfl
  rw [checkAll_eq, checkAll_eq]
  refine alike_bind
    (C := Closes (host.engine opts) (first :: rest) scope elapsed)
    (Mirrors.twin (fun _ => (twinned hblind opts).fire .starting none) hentered)
    (fun fault {_ _} => closes_of_error opts fault) fun _ {_ _} _ _ hst => ?_
  exact closes_checkRoots hblind opts (first :: rest) elapsed (first :: rest) (fun _ => id)
    List.mem_cons_self hst

theorem resolve_cases (paths : List String) (scope : Option ScopeSet) (s : State σ) :
    let real := Discovery.resolve (host.engine opts) State.canceled paths (s.begun scope)
    let ideal :=
      Discovery.resolve (host.withoutCancel.engine opts) State.canceled paths (s.begun scope)
    (∃ fault s₁ t₁, real = .error fault s₁ ∧ ideal = .error fault t₁ ∧
      Twin (scope.getD .all) s.cancelReported s₁ t₁) ∨
    (∃ roots s₁, real = .ok roots s₁ ∧ s₁.canceled = true ∧ s₁.trace <+: (endState ideal).trace) ∨
    ∃ roots s₁ t₁, real = .ok roots s₁ ∧ ideal = .ok roots t₁ ∧ s₁.canceled = false ∧
      Twin (scope.getD .all) s.cancelReported s₁ t₁ := by
  intro real ideal
  rcases Resolves.resolve (fun _ => (twinned hblind opts).resolves) halting_twin paths [] _ _
    ⟨twin_begun scope s, List.nil_prefix⟩ with hmatch | ⟨roots, s₁, hreal, -, hbehind, -⟩
  · have halike := (hmatch.mono And.left).alike
    generalize hreal : Discovery.resolve (host.engine opts) _ _ _ = r at halike
    generalize hideal : Discovery.resolve (host.withoutCancel.engine opts) _ _ _ = r' at halike
    cases halike with
    | error fault hst => exact .inl ⟨fault, _, _, hreal, hideal, hst⟩
    | @ok roots s₁ t₁ hst =>
      cases hs₁ : s₁.canceled with
      | false => exact .inr (.inr ⟨roots, s₁, t₁, hreal, hideal, hs₁, hst⟩)
      | true =>
        refine .inr (.inl ⟨roots, s₁, hreal, hs₁, ?_⟩)
        rw [show ideal = .ok roots t₁ from hideal, endState_ok, hst.trace]
  · exact .inr (.inl ⟨roots, s₁, hreal, hbehind.canceled, hbehind.trace⟩)

theorem truncates_analyze {scope : Option ScopeSet} {t₁ : State σ} {own : ScopeSet} (elapsed : Int)
    (hreal : (host.engine opts).seek paths scope s = .ok roots s₁)
    (hideal : (host.withoutCancel.engine opts).seek paths scope s = .ok roots t₁)
    (h : Twin own reported s₁ t₁) (hs₁ : s₁.canceled = false) :
    Truncates (host.engine opts) roots (s₁.ready scope roots).scope elapsed
      ((host.engine opts).analyze paths scope elapsed s)
      ((host.withoutCancel.engine opts).analyze paths scope elapsed s) := by
  cases roots with
  | nil =>
    have hlog := Mirrors.twin (fun _ => (twinned hblind opts).log none
      ("No projects found for " ++ Text.joined ", " paths) none) h
    rw [analyze_of_nil hreal hs₁, analyze_of_nil hideal h.calm]
    exact .inr ⟨alike_sameCourse hlog, .inl rfl⟩
  | cons first rest =>
    rw [analyze_of_cons hreal hs₁, analyze_of_cons hideal h.calm]
    rcases closes_checkAll hblind opts first rest elapsed
      (twin_ready scope (first :: rest) h) with
      ⟨halike, hcompletes⟩ | ⟨root, hroot, stop, hlags, hstopped⟩
    · exact .inr ⟨alike_sameCourse halike, .inr hcompletes⟩
    · rw [← closeDown_eq host opts root elapsed hlags.canceled hlags.unreported] at hstopped
      have hlater := closeDown_later host opts (s₁.ready scope (first :: rest)).scope root
        elapsed hlags.canceled hlags.unreported
      rw [← hstopped] at hlater
      exact .inl ⟨root, hroot, stop, hlags, trace_mono hlater.grown, hstopped⟩

/-- Cancellation only truncates. Let a run be compared with the run of the same embedding in which
cancellations do nothing. If it is not canceled, both write the same and end alike. If it is
canceled while it looks for projects, it ends there, and it has written a beginning of what the
other writes. If it is canceled later, it stops in a state of which the same is true, and from there
it closes down, unless the cancellation came too late to cut anything. -/
theorem analyze_truncates (paths : List String) (scope : Option ScopeSet) (elapsed : Int)
    (s : State σ) :
    let e := host.engine opts
    let real := e.analyze paths scope elapsed s
    let ideal := (host.withoutCancel.engine opts).analyze paths scope elapsed s
    ((endState real).canceled = false → Alike SameCourse real ideal) ∧
    ((endState real).canceled = true →
      match Discovery.resolve e State.canceled paths (s.begun scope) with
      | .error _ _ => Alike SameCourse real ideal
      | .ok roots s₁ =>
        if s₁.canceled then real = .ok () s₁ ∧ s₁.trace <+: (endState ideal).trace
        else Truncates e roots (s₁.ready scope roots).scope elapsed real ideal) := by
  dsimp only
  rcases resolve_cases hblind opts paths scope s with
    ⟨fault, s₁, t₁, hreal, hideal, hst⟩ | ⟨roots, s₁, hreal, hs₁, htrace⟩ |
    ⟨roots, s₁, t₁, hreal, hideal, hs₁, hst⟩
  · rw [analyze_of_error hreal, analyze_of_error hideal, hreal]
    exact ⟨fun _ => alike_sameCourse (.error fault hst),
      fun _ => alike_sameCourse (.error fault hst)⟩
  · obtain ⟨hend, hideal⟩ := analyze_of_halted opts elapsed hreal hs₁ htrace
    rw [hend, endState_ok, hreal]
    dsimp only
    rw [hs₁, if_pos rfl]
    exact ⟨fun h => absurd h.symm Bool.false_ne_true, fun _ => ⟨rfl, hideal⟩⟩
  · have htruncates := truncates_analyze hblind opts elapsed hreal hideal hst hs₁
    rw [hreal]
    dsimp only
    rw [hs₁, if_neg Bool.false_ne_true]
    exact ⟨alike_of_truncates opts htruncates, fun _ => htruncates⟩

end WholeRun

/-! ## Canceled at the first of two projects -/

def manifestScope : Option ScopeSet :=
  some (.ofList [.manifest, .javaFile])

def cancelingHost : Host Scripted.Memory :=
  Scripted.Embedding.host
    { detectors :=
        [("D", { rules := [{ trigger := "beforeCheckProject", commands := [.cancel] }] })] }

def twoProjects : State Scripted.Memory :=
  fresh {} (sideBySide [("a", ""), ("b", "")]) ⟨[manifestIssue]⟩

def canceledRun : Outcome Scripted.Memory Unit :=
  (cancelingHost.engine ⟨false⟩).analyze ["a", "b"] manifestScope 0 twoProjects

def fullRun : Outcome Scripted.Memory Unit :=
  (cancelingHost.withoutCancel.engine ⟨false⟩).analyze ["a", "b"] manifestScope 0 twoProjects

def twoRoots : List ProjectRef :=
  [⟨0, "/w/a"⟩, ⟨1, "/w/b"⟩]

theorem resolve_twoProjects :
    let r := Discovery.resolve (cancelingHost.engine ⟨false⟩) State.canceled ["a", "b"]
      (twoProjects.begun manifestScope)
    result? r = some twoRoots ∧ (endState r).canceled = false := by
  decide +kernel

theorem canceledRun_shorter :
    (endState canceledRun).canceled = true ∧
      (endState canceledRun).trace.length < (endState fullRun).trace.length := by
  decide +kernel

/-- The run that its detector cancels closes down for a project, with more left to write. -/
theorem analyze_truncates_two :
    ∃ s₁ : State Scripted.Memory, ∃ root ∈ twoRoots, ∃ stop : State Scripted.Memory,
      cancelingHost.Blind ∧
      Discovery.resolve (cancelingHost.engine ⟨false⟩) State.canceled ["a", "b"]
        (twoProjects.begun manifestScope) = .ok twoRoots s₁ ∧
      Lags stop (endState fullRun) ∧ stop.trace <+: (endState canceledRun).trace ∧
      (endState canceledRun).trace.length < (endState fullRun).trace.length ∧
      canceledRun = (cancelingHost.engine ⟨false⟩).closeDown root
        (s₁.ready manifestScope twoRoots).scope 0 stop := by
  have hblind : cancelingHost.Blind := Scripted.Embedding.blind _
  have hresolve := eq_ok_of_result? resolve_twoProjects.1
  obtain ⟨hcanceled, hshorter⟩ := canceledRun_shorter
  have htruncates := analyze_truncates hblind ⟨false⟩ ["a", "b"] manifestScope 0 twoProjects
  dsimp only at htruncates
  rw [hresolve] at htruncates
  dsimp only at htruncates
  rw [resolve_twoProjects.2, if_neg Bool.false_ne_true] at htruncates
  rcases htruncates.2 hcanceled with ⟨root, hroot, stop, hlags, htrace, hstopped⟩ | ⟨hsame, -⟩
  · exact ⟨_, root, hroot, stop, hblind, hresolve, hlags, htrace, hshorter, hstopped⟩
  · exact absurd (congrArg List.length hsame.endState.2) (Nat.ne_of_lt hshorter)

end Cancellation
end ProjectLint
