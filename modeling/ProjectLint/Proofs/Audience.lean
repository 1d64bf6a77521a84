/-
Who hears of an event. An event goes to the listeners that are registered when it is fired, one call
for each registration, in their order. What they do to the registrations meanwhile changes the list
for later events only. A call that fails leaves one warning and ends nothing.

The changes that a call makes to the registrations are gathered along its script; the calls of the
client that it leads to make changes of their own.
-/
import ProjectLint.Proofs.Frame

namespace ProjectLint

/-! ## Changes of the registrations -/

namespace Roster

/-- A listener comes or goes. -/
inductive Change
  | add (listener : Listener)
  | remove (listener : Listener)

def Change.apply : List Listener → Change → List Listener
  | listeners, .add listener => listeners ++ [listener]
  | listeners, .remove listener => listeners.erase listener

/-- Who listens after some changes. -/
def after (listeners : List Listener) (changes : List Change) : List Listener :=
  changes.foldl Change.apply listeners

theorem after_append (listeners : List Listener) (first second : List Change) :
    after listeners (first ++ second) = after (after listeners first) second :=
  List.foldl_append

abbrev Changes (σ : Type) := State σ → List Change

def Changes.follow (x : Run σ α) (next : α → Changes σ) : Changes σ := fun s =>
  match x s with
  | .ok a s' => next a s'
  | .error _ _ => []

end Roster

open Roster

namespace Run

/-- A change as the program makes it. -/
def carryOut : Change → Run σ Unit
  | .add listener => addListener listener
  | .remove listener => removeListener listener

def Makes (changes : Changes σ) (x : Run σ α) : Prop :=
  ∀ s, (endState (x s)).listeners = after s.listeners (changes s)

namespace Makes

variable {changes : Changes σ} {x : Run σ α}

theorem none (h : ∀ listeners, Keeps (·.listeners = listeners) x) : Makes (fun _ => []) x :=
  fun s => h s.listeners s rfl

theorem pure (a : α) : Makes (fun _ => []) (pure a : Run σ α) :=
  fun _ => rfl

theorem bind {f : α → Run σ β} {next : α → Changes σ} (hx : Makes changes x)
    (hf : ∀ a, Makes (next a) (f a)) :
    Makes (fun s => changes s ++ Changes.follow x next s) (x >>= f) := by
  intro s
  have hfirst := hx s
  rw [after_append, Changes.follow, ← hfirst]
  cases h : x s with
  | ok a s' =>
    rw [bind_of_ok h]
    exact hf a s'
  | error fault s' =>
    rw [bind_of_error h]
    rfl

theorem bind_none {f : α → Run σ β} (hx : Makes changes x)
    (hf : ∀ a, Makes (fun _ => []) (f a)) : Makes changes (x >>= f) := by
  intro s
  have hnone : Changes.follow x (fun _ _ => []) s = [] := by
    rw [Changes.follow]
    cases x s <;> rfl
  have hboth : _ = after _ (_ ++ Changes.follow x (fun _ _ => []) s) := hx.bind hf s
  rwa [hnone, List.append_nil] at hboth

theorem inspect {k : State σ → Run σ α} (h : ∀ s, (endState (k s s)).listeners =
    after s.listeners (changes s)) : Makes changes (get >>= k) :=
  h

end Makes

theorem each_carryOut (history : List Change) (s : State σ) : each history carryOut s =
    .ok () { s with listeners := after s.listeners history } := by
  induction history generalizing s with
  | nil => rfl
  | cons change rest ih =>
    cases change <;> exact ih _

end Run

open Run

/-! ## The changes that a call makes -/

namespace Engine

section

variable (e : Engine σ) (called : Call → Changes σ)

def configurationChanges (ref : ProjectRef) : Changes σ := fun s =>
  match (s.project ref).configuration with
  | some _ => []
  | none => called (.getConfiguration ref) s

def logChanges (error : Option String) (message : String) (context : Option Context) : Changes σ :=
  if e.host.logsPlainly then fun _ => [] else called (.log error message context)

def verdictChanges (report : Report) (config : Configuration) : Changes σ := fun s =>
  match verdict config s.files.cwd report with
  | .disabled =>
      if report.issue.role = .unparsable then []
      else e.logChanges called none
        ("Incorrect detector reported disabled issue " ++ report.issue.id) none s
  | .ignored => []
  | .silenced => []
  | .delivered => called (.report report) s

def actionChanges : Action → Changes σ
  | .addListener listener => fun _ => [.add listener]
  | .removeListener listener => fun _ => [.remove listener]
  | .report report => fun s =>
      let s := s.write (.submitted .embedding report)
      configurationChanges called report.context.project s ++
        Changes.follow (e.configuration report.context.project) (e.verdictChanges called report) s
  | .log error message context => e.logChanges called error message context
  | .observe (some context) (some _) _ _ => configurationChanges called context.project
  | _ => fun _ => []

end

end Engine

def Script.changes (perform : Action → Run σ Reply) (made : Action → Changes σ) :
    Script σ → Changes σ
  | .done => fun _ => []
  | .fail _ => fun _ => []
  | .update change next => fun s =>
      (next (change s.host)).changes perform made { s with host := change s.host }
  | .act action next => fun s =>
      made action s ++
        Changes.follow (perform action) (fun reply => (next reply).changes perform made) s

def Host.changes (host : Host σ) (opts : Options) : Nat → Call → Changes σ
  | 0, _ => fun _ => []
  | depth + 1, call => fun s =>
      let e : Engine σ := ⟨host, opts, host.invoke opts depth⟩
      (host.react call s.moment s.host).changes e.perform
        (e.actionChanges (host.changes opts depth)) (s.write (.called call s.moment))

namespace Engine

variable {e : Engine σ} {called : Call → Changes σ}
  (he : ∀ call, Makes (called call) (e.invoke call))

include he

theorem makes_log (error : Option String) (message : String) (context : Option Context) :
    Makes (e.logChanges called error message context) (e.log error message context) := by
  rw [log, logChanges]
  by_cases hplain : e.host.logsPlainly = true
  · rw [if_pos hplain, if_pos hplain]
    exact .none fun _ => .record id
  · rw [if_neg hplain, if_neg hplain]
    exact he _

theorem makes_configuration (ref : ProjectRef) :
    Makes (configurationChanges called ref) (e.configuration ref) := by
  refine .inspect fun s => ?_
  rw [configurationChanges]
  cases hknown : (s.project ref).configuration with
  | some config => rfl
  | none =>
    have hnoted : ∀ made : Configuration × List Log.Entry,
        Makes (fun _ => []) (noted made : Run σ Configuration) := fun made =>
      .none fun _ => (Keeps.each made.2 fun _ _ => .record id).bind fun _ => .pure _
    have hask : Makes (called (.getConfiguration ref)) (e.askConfiguration ref) := by
      exact (he _).bind_none fun _ => .inspect fun s => hnoted _ s
    exact hask.bind_none (fun _ _ => rfl) s

theorem makes_perform (action : Action) :
    Makes (e.actionChanges called action) (e.perform action) := by
  cases action with
  | addListener listener => exact fun _ => rfl
  | removeListener listener => exact fun _ => rfl
  | report report =>
    refine Makes.bind_none (fun s => ((makes_configuration he _).bind fun config => ?_) (s.write _))
      fun _ => .pure _
    refine .inspect fun t => ?_
    rw [verdictChanges]
    cases verdict config t.files.cwd report with
    | disabled =>
      dsimp only
      by_cases hrole : report.issue.role = .unparsable
      · rw [if_pos hrole, if_pos hrole]
        rfl
      · rw [if_neg hrole, if_neg hrole]
        exact makes_log he none _ none t
    | ignored => rfl
    | silenced => rfl
    | delivered => exact he _ t
  | log error message context =>
    exact (makes_log he error message context).bind_none fun _ => .pure _
  | observe context issue scope project =>
    cases context with
    | none => exact fun _ => rfl
    | some context =>
      cases issue with
      | none => exact fun _ => rfl
      | some issue =>
        exact (Makes.bind_none (fun s => (makes_configuration he _).bind_none (fun _ _ => rfl) s)
          fun _ _ => rfl)
  | requestRepeat detector scope =>
    refine Makes.bind_none (fun s => ?_) fun _ => .pure _
    cases hschedule : s.schedule with
    | none => rw [requestRepeat_of_none hschedule]; rfl
    | some schedule => rw [requestRepeat_of_some hschedule]; rfl
  | cancel => exact fun _ => rfl
  | cancelSearch => exact fun _ => rfl
  | changeFiles change => exact fun _ => rfl
  | askSuppressed issue target => exact fun _ => rfl

theorem makes_script (script : Script σ) :
    Makes (script.changes e.perform (e.actionChanges called)) (script.run e.perform) := by
  induction script with
  | done => exact .pure ()
  | fail fault => exact fun _ => rfl
  | update change next ih => exact fun s => ih (change s.host) _
  | act action next ih => exact (makes_perform he action).bind ih

end Engine

theorem Host.makes_invoke (host : Host σ) (opts : Options) (depth : Nat) (call : Call) :
    Makes (host.changes opts depth call) (host.invoke opts depth call) := by
  induction depth generalizing call with
  | zero => exact fun _ => rfl
  | succ depth ih => exact fun s => Engine.makes_script (e := ⟨host, opts, _⟩) ih _ (s.write _)

/-! ## Turns -/

namespace Journal

/-- The listener that an event was passed on to. -/
def Entry.hearer? : Entry → Option Listener
  | .called (.listener listener _ _) _ => some listener
  | _ => none

def listenerFailed (event : Event) (fault : Fault) : Entry :=
  .logged ⟨.warn, "[EventNotifier] Listener failed on " ++ event.name ++ ": " ++ fault.text, []⟩

end Journal

open Journal

/-- The turn of a listener when an event is fired, with what its call writes down, the changes that
it makes and the fault that ends it, if one does. No other listener is called meanwhile. -/
structure Turn where
  listener : Listener
  moment : Moment
  said : List Entry
  alone : ∀ entry ∈ said, entry.hearer? = none
  changes : List Change
  fault : Option Fault

namespace Turn

variable (host : Host σ) (opts : Options) (event : Event) (context : Option Context)

/-- What a turn writes: the call, what the listener does, and that it failed if it did. -/
def entries (turn : Turn) : List Entry :=
  .called (.listener turn.listener event context) turn.moment ::
    (turn.said ++ (turn.fault.map (listenerFailed event)).toList)

structure Taken (turn : Turn) (s s' : State σ) : Prop where
  ended : turn.fault = none ∧
      (host.engine opts).invoke (.listener turn.listener event context) s = .ok () s' ∨
    ∃ fault t, turn.fault = some fault ∧ s' = t.write (listenerFailed event fault) ∧
      (host.engine opts).invoke (.listener turn.listener event context) s = .error fault t
  changes : turn.changes =
    host.changes opts Host.nestingLimit (.listener turn.listener event context) s
  listeners : s'.listeners = after s.listeners turn.changes
  written : s'.written = s.written ++ turn.entries event context

/-- Listeners take their turns one after the other. -/
inductive Sequence : State σ → List Turn → State σ → Prop
  | none (s : State σ) : Sequence s [] s
  | next {turn : Turn} {s t s' : State σ} {rest : List Turn}
      (first : turn.Taken host opts event context s t) (others : Sequence t rest s') :
      Sequence s (turn :: rest) s'

theorem filterMap_entries (turn : Turn) :
    (turn.entries event context).filterMap Entry.hearer? = [turn.listener] := by
  have hsaid : turn.said.filterMap Entry.hearer? = [] := List.filterMap_eq_nil_iff.2 turn.alone
  have hfault : (turn.fault.map (listenerFailed event)).toList.filterMap Entry.hearer? = [] := by
    cases turn.fault <;> rfl
  rw [entries, List.filterMap_cons, List.filterMap_append, hsaid, hfault]
  rfl

theorem filterMap_flatMap_entries (turns : List Turn) :
    (turns.flatMap (entries event context)).filterMap Entry.hearer? = turns.map listener := by
  induction turns with
  | nil => rfl
  | cons turn rest ih =>
    rw [List.flatMap_cons, List.filterMap_append, filterMap_entries, ih]
    rfl

variable {host opts event context} {s s' : State σ} {turns : List Turn}

theorem Sequence.listeners (h : Sequence host opts event context s turns s') :
    s'.listeners = after s.listeners (turns.flatMap Turn.changes) := by
  induction h with
  | none s => rfl
  | next first _ ih => rw [ih, first.listeners, List.flatMap_cons, after_append]

theorem Sequence.written (h : Sequence host opts event context s turns s') :
    s'.written = s.written ++ turns.flatMap (entries event context) := by
  induction h with
  | none s => exact (List.append_nil _).symm
  | next first _ ih => rw [ih, first.written, List.flatMap_cons, List.append_assoc]

end Turn

namespace Engine

variable (host : Host σ) (opts : Options) (event : Event) (context : Option Context)

def Unheard (before : List Entry) (s : State σ) : Prop :=
  ∃ said, s.written = before ++ said ∧ ∀ entry ∈ said, entry.hearer? = none

theorem Unheard.write {before : List Entry} {s : State σ} (h : Unheard before s) {entry : Entry}
    (hentry : entry.hearer? = none) : Unheard before (s.write entry) := by
  obtain ⟨said, hsaid, halone⟩ := h
  refine ⟨said ++ [entry], by rw [State.written_write, hsaid, List.append_assoc], ?_⟩
  exact fun other hother => (List.mem_append.1 hother).elim (halone other)
    fun hlast => List.mem_singleton.1 hlast ▸ hentry

theorem bears_unheard (before : List Entry) :
    Bears host (Unheard before) (fun _ => True) fun _ => True where
  reacts _ _ _ := Script.within_true _
  called {call _} hcall h := h.write (by cases call with | listener => cases hcall | _ => rfl)
  logged _ _ h := h.write rfl
  observed _ _ h := h.write rfl
  submitted _ _ _ h := h.write rfl
  requested _ _ _ _ _ _ h := h.write rfl

theorem notify_taken (listener : Listener) (s : State σ) : ∃ (turn : Turn) (s' : State σ),
    (host.engine opts).notify event context listener s = .ok () s' ∧
      turn.listener = listener ∧ turn.Taken host opts event context s s' := by
  have hmakes : Makes (host.changes opts Host.nestingLimit (.listener listener event context))
      ((host.engine opts).invoke (.listener listener event context)) := host.makes_invoke _ _ _
  have hlisteners := hmakes s
  have hunheard : Unheard _ _ := (bears_unheard host _).invoke opts (Script.within_true _)
    ⟨[], (List.append_nil (s.write (.called (.listener listener event context)
      s.moment)).written).symm,
      List.forall_mem_nil _⟩
  rw [State.written_write] at hunheard
  obtain ⟨said, hsaid, halone⟩ := hunheard
  cases hcall : (host.engine opts).invoke (.listener listener event context) s with
  | ok result t =>
    rw [hcall, endState_ok] at hsaid hlisteners
    refine ⟨⟨listener, s.moment, said, halone, _, none⟩, t, notify_of_ok hcall, rfl,
      .inl ⟨rfl, hcall⟩, rfl, hlisteners, ?_⟩
    rw [hsaid, Turn.entries]
    simp
  | error fault t =>
    rw [hcall, endState_error] at hsaid hlisteners
    refine ⟨⟨listener, s.moment, said, halone, _, some fault⟩, _, notify_of_error hcall, rfl,
      .inr ⟨fault, t, rfl, rfl, hcall⟩, rfl, hlisteners, ?_⟩
    rw [State.written_write, hsaid, Turn.entries]
    simp [listenerFailed]

theorem notifyAll_sequence (listeners : List Listener) (s : State σ) : ∃ turns s',
    (host.engine opts).notifyAll listeners event context s = .ok () s' ∧
      turns.map Turn.listener = listeners ∧
      Turn.Sequence host opts event context s turns s' := by
  induction listeners generalizing s with
  | nil => exact ⟨[], s, rfl, rfl, .none s⟩
  | cons listener rest ih =>
    obtain ⟨turn, t, hfirst, rfl, htaken⟩ := notify_taken host opts event context listener s
    obtain ⟨turns, s', hrest, hlisteners, hturns⟩ := ih t
    refine ⟨turn :: turns, s', ?_, by rw [List.map_cons, hlisteners], .next htaken hturns⟩
    rw [notifyAll, each, bind_of_ok hfirst]
    exact hrest

end Engine
end ProjectLint
