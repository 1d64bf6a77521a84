/-
Properties of the state that outlast what an embedding does. A call is written down and answered by
a script, which may lead to calls of the client but to no others. So a property that survives the
calls of the client and the deeds of scripts survives every operation that calls nobody else, and a
call of a listener or a detector adds its own entry and nothing more.

`Script.Within` restricts the deeds: a script keeps to given actions and given changes of memory,
whatever it is replied.
-/
import ProjectLint.Proofs.Renaming.Discovery

namespace ProjectLint

variable {s : State σ}

/-- A script takes only such actions and changes its memory only in such ways. -/
def Script.Within (may : Action → Prop) (allowed : (σ → σ) → Prop) : Script σ → Prop
  | .done => True
  | .fail _ => True
  | .update change next => allowed change ∧ ∀ memory, (next memory).Within may allowed
  | .act action next => may action ∧ ∀ reply, (next reply).Within may allowed

/-- All code of the embedding keeps to these actions. -/
abbrev Host.KeepsTo (host : Host σ) (may : Action → Prop) : Prop :=
  ∀ call moment memory, (host.react call moment memory).Within may fun _ => True

theorem Script.Within.mono {may may' : Action → Prop} {allowed allowed' : (σ → σ) → Prop}
    (hmay : ∀ action, may action → may' action)
    (hallowed : ∀ change, allowed change → allowed' change) {script : Script σ}
    (h : script.Within may allowed) : script.Within may' allowed' := by
  induction script with
  | done => trivial
  | fail fault => trivial
  | update change next ih => exact ⟨hallowed change h.1, fun memory => ih memory (h.2 memory)⟩
  | act action next ih => exact ⟨hmay action h.1, fun reply => ih reply (h.2 reply)⟩

theorem Script.within_true (script : Script σ) : script.Within (fun _ => True) (fun _ => True) := by
  induction script with
  | done => trivial
  | fail fault => trivial
  | update change next ih => exact ⟨trivial, ih⟩
  | act action next ih => exact ⟨trivial, ih⟩

def Call.isClient : Call → Bool
  | .detector .. | .listener .. => false
  | _ => true

def Call.isBookkeeping : Call → Bool
  | .getProject .. | .getConfiguration _ | .report _ | .log .. => true
  | _ => false

theorem Call.isClient_of_isBookkeeping {call : Call} (h : call.isBookkeeping = true) :
    call.isClient = true := by
  cases call with
  | detector => cases h
  | listener => cases h
  | _ => rfl

theorem State.project_congr (f : Project → α) {t : State σ} {ref : ProjectRef}
    (h : s.projects[ref.index]?.map f = t.projects[ref.index]?.map f) :
    f (s.project ref) = f (t.project ref) := by
  rw [State.project, State.project, Array.getD_eq_getD_getElem?, Array.getD_eq_getD_getElem?,
    ← Option.getD_map f, ← Option.getD_map f, h]

namespace Run

variable {x : Run σ α} {I : State σ → Prop}

def Keeps (I : State σ → Prop) (x : Run σ α) : Prop :=
  ∀ s, I s → I (endState (x s))

namespace Keeps

variable {I : State σ → Prop}

theorem ok (h : Keeps I x) {s' : State σ} {a : α} (hs : I s) (hx : x s = .ok a s') : I s' := by
  have hend := h s hs
  rwa [hx] at hend

theorem pure (a : α) : Keeps I (pure a) :=
  fun _ hs => hs

theorem throw (fault : Fault) : Keeps I (throw fault : Run σ α) :=
  fun _ hs => hs

theorem step {f : α → Run σ β} (hx : I (endState (x s)))
    (hf : ∀ a s', x s = .ok a s' → I s' → I (endState (f a s'))) :
    I (endState ((x >>= f) s)) := by
  cases h : x s with
  | ok a s' =>
    rw [bind_of_ok h]
    rw [h] at hx
    exact hf a s' h hx
  | error fault s' =>
    rw [bind_of_error h]
    rw [h] at hx
    exact hx

theorem bindAt {f : α → Run σ β} (hx : I (endState (x s)))
    (hf : ∀ a, Keeps I (f a)) : I (endState ((x >>= f) s)) :=
  step hx fun a s' _ => hf a s'

theorem bind {f : α → Run σ β} (hx : Keeps I x) (hf : ∀ a, Keeps I (f a)) : Keeps I (x >>= f) :=
  fun s hs => bindAt (hx s hs) hf

theorem modify {f : State σ → State σ} (h : ∀ {s}, I s → I (f s)) : Keeps I (modify f) :=
  fun _ hs => h hs

theorem record {entry : Journal.Entry} (h : ∀ {s}, I s → I (s.write entry)) :
    Keeps I (record entry) :=
  fun _ hs => h hs

theorem inspect {k : State σ → Run σ α} (h : ∀ s, I s → Keeps I (k s)) : Keeps I (get >>= k) :=
  fun s hs => h s hs s hs

theorem attempt (h : Keeps I x) : Keeps I (attempt x) := by
  intro s hs
  have hend := h s hs
  rw [Run.attempt]
  cases hx : x s <;> rwa [hx] at hend

theorem each {f : α → Run σ Unit} (elements : List α) (h : ∀ a ∈ elements, Keeps I (f a)) :
    Keeps I (each elements f) := by
  induction elements with
  | nil => exact pure ()
  | cons element rest ih =>
    rw [Run.each]
    refine (h element List.mem_cons_self).bind fun _ => ih fun a ha => ?_
    exact h a (List.mem_cons_of_mem _ ha)

theorem ite {y : Run σ α} (c : Prop) [Decidable c] (hx : Keeps I x) (hy : Keeps I y) :
    Keeps I (if c then x else y) :=
  iteInduction (fun _ => hx) fun _ => hy

theorem unlessCanceled {x : Run σ Unit} (h : Keeps I x) : Keeps I (unlessCanceled x) :=
  inspect fun _ _ => ite _ (pure ()) h

theorem eachUntilCanceled {f : α → Run σ Unit} (elements : List α)
    (h : ∀ a ∈ elements, Keeps I (f a)) : Keeps I (eachUntilCanceled elements f) := by
  induction elements with
  | nil => exact pure ()
  | cons element rest ih =>
    obtain ⟨hfirst, hrest⟩ := List.forall_mem_cons.1 h
    rw [Run.eachUntilCanceled]
    exact hfirst.bind fun _ => (ih hrest).unlessCanceled

end Keeps

/-! ## A run next to itself -/

theorem Diagonal.map {t : State σ} (h : Diagonal I s t)
    {f : State σ → State σ} (hf : ∀ {s}, I s → I (f s)) : Diagonal I (f s) (f t) :=
  ⟨congrArg f h.1, hf h.2⟩

namespace Mirrors

theorem of_keeps (h : Keeps I x) : Respects (Diagonal I) x := by
  rintro s t ⟨rfl, hs⟩
  have hend := h s hs
  cases hx : x s with
  | ok a s' =>
    rw [hx] at hend
    exact .ok rfl ⟨rfl, hend⟩
  | error fault s' =>
    rw [hx] at hend
    exact .error fault ⟨rfl, hend⟩

theorem keeps {R : α → α → Prop} (h : Mirrors (Diagonal I) R x x) : Keeps I x :=
  fun s hs => (h s s ⟨rfl, hs⟩).endState.2

end Mirrors

theorem requestRepeat_of_none (h : s.schedule = none) (detector : Detector)
    (scope : Option ScopeSet) : requestRepeat detector scope s =
      note .warn "[LintEngine] requestRepeat called outside of a run" [] s := by
  rw [Run.requestRepeat, get_bind, h]

theorem requestRepeat_of_some {schedule : Schedule} (h : s.schedule = some schedule)
    (detector : Detector) (scope : Option ScopeSet) : requestRepeat detector scope s =
      .ok () { s.write (.requested detector scope) with
        schedule := some (schedule.request detector scope) } := by
  rw [Run.requestRepeat, get_bind, h]
  rfl

end Run

namespace Engine

open Run

variable {e : Engine σ} {I : State σ → Prop} {may : Action → Prop} {allowed : (σ → σ) → Prop}

/-- A property that survives the deeds of the scripts that answer the client. A configuration is
written down once: an earlier moment knew none. -/
structure Bears (host : Host σ) (I : State σ → Prop) (may : Action → Prop)
    (allowed : (σ → σ) → Prop) : Prop where
  reacts : ∀ {call : Call} moment memory, call.isClient = true →
    (host.react call moment memory).Within may allowed := by
      intros; first | exact Script.within_true _ | apply_assumption
  called : ∀ {call : Call} {s}, call.isClient = true → I s →
    I (s.write (.called call s.moment)) := by intros; rename_i h; first | exact h | exact { h with }
  logged : ∀ entry {s}, I s → I (s.write (.logged entry)) := by
    intros; rename_i h; first | exact h | exact { h with }
  observed : ∀ observation {s}, I s → I (s.write (.observed observation)) := by
    intros; rename_i h; first | exact h | exact { h with }
  submitted : ∀ report {s}, may (.report report) → I s →
    I (s.write (.submitted .embedding report)) := by
      intros; rename_i h; first | exact h | exact { h with }
  requested : ∀ detector scope schedule {s}, may (.requestRepeat detector scope) →
    s.schedule = some schedule → I s →
    I { s.write (.requested detector scope) with
        schedule := some (schedule.request detector scope) } := by
      intros; rename_i h; first | exact h | exact { h with }
  configured : ∀ (ref : ProjectRef) config {s₀ s}, I s₀ →
    (s₀.project ref).configuration = none → I s →
    I (s.changed ref.index ({ · with configuration := some config })) := by
      intros; rename_i h; first | exact h | exact { h with }
  updated : ∀ change {s}, allowed change → I s → I { s with host := change s.host } := by
    intros; rename_i h; first | exact h | exact { h with }
  files : ∀ change {s}, may (.changeFiles change) → I s → I { s with files := change s.files } := by
    intros; rename_i h; first | exact h | exact { h with }
  listeners : ∀ listeners {s}, I s → I { s with listeners } := by
    intros; rename_i h; first | exact h | exact { h with }
  canceled : ∀ {s}, may .cancel → I s → I { s with canceled := true } := by
    intros; rename_i h; first | exact h | exact { h with }
  search : ∀ {s}, I s → I { s with searchCanceled := true } := by
    intros; rename_i h; first | exact h | exact { h with }

def Serves (e : Engine σ) (I : State σ → Prop) : Prop :=
  ∀ {call : Call}, call.isClient = true → Keeps I (e.invoke call)

namespace Bears

variable {host : Host σ}

theorem log (hI : Bears e.host I may allowed) (he : e.Serves I) (error : Option String)
    (message : String) (context : Option Context) : Keeps I (e.log error message context) := by
  rw [Engine.log]
  exact .ite _ (.record (hI.logged _)) (he rfl)

theorem note (hI : Bears host I may allowed) (level : Log.Level)
    (message : String) (details : List (String × Data.Value)) :
    Keeps I (Run.note level message details) :=
  .record (hI.logged _)

theorem noted (hI : Bears host I may allowed)
    (made : Configuration × List Log.Entry) : Keeps I (Engine.noted made) :=
  (Keeps.each made.2 fun entry _ => .record (hI.logged entry)).bind fun _ => .pure made.1

theorem askConfiguration (hI : Bears e.host I may allowed) (he : e.Serves I) (ref : ProjectRef) :
    Keeps I (e.askConfiguration ref) :=
  (he rfl).bind fun _ => .inspect fun _ _ => hI.noted _

theorem configuration (hI : Bears e.host I may allowed) (he : e.Serves I) (ref : ProjectRef) :
    Keeps I (e.configuration ref) := by
  refine .inspect fun s hs => ?_
  cases hnone : (s.project ref).configuration with
  | some config => exact .pure config
  | none =>
    refine (hI.askConfiguration he ref).bind fun config => ?_
    exact Keeps.bind (.modify (hI.configured ref config hs hnone)) fun _ => .pure config

theorem submit (hI : Bears e.host I may allowed) (he : e.Serves I) {author : Journal.Author}
    {report : Report} (hs : I (s.write (.submitted author report))) :
    I (endState (e.submit author report s)) := by
  refine Keeps.bindAt (x := record _) hs fun _ => ?_
  refine (hI.configuration he _).bind fun config => .inspect fun t _ => ?_
  cases verdict config t.files.cwd report with
  | disabled => exact .ite _ (.pure ()) (hI.log he none _ none)
  | ignored => exact .pure ()
  | silenced => exact .pure ()
  | delivered => exact he rfl

theorem observe (hI : Bears e.host I may allowed) (he : e.Serves I) (context : Option Context)
    (issue : Option Issue) (scope : Option Scope) (project : Bool) :
    Keeps I (e.observe context issue scope project) := by
  refine .inspect fun s _ => ?_
  cases context with
  | none => exact .pure _
  | some context =>
    cases issue with
    | none => exact (Keeps.pure _).bind fun _ => .inspect fun _ _ => .inspect fun _ _ => .pure _
    | some issue =>
      exact (hI.configuration he _).bind fun _ => (Keeps.pure _).bind fun _ =>
        .inspect fun _ _ => .inspect fun _ _ => .pure _

theorem requestRepeat (hI : Bears host I may allowed) {detector : Detector}
    {scope : Option ScopeSet} (hmay : may (.requestRepeat detector scope)) :
    Keeps I (requestRepeat detector scope) := by
  intro s hs
  cases hschedule : s.schedule with
  | none =>
    rw [requestRepeat_of_none hschedule]
    exact hI.note _ _ _ s hs
  | some schedule =>
    rw [requestRepeat_of_some hschedule]
    exact hI.requested detector scope schedule hmay hschedule hs

theorem perform (hI : Bears e.host I may allowed) (he : e.Serves I) {action : Action}
    (hmay : may action) : Keeps I (e.perform action) := by
  cases action with
  | report report =>
    intro s hs
    exact Keeps.bindAt (hI.submit he (hI.submitted report hmay hs)) fun _ => .pure _
  | requestRepeat detector scope => exact (hI.requestRepeat hmay).bind fun _ => .pure _
  | cancel => exact Keeps.bind (.modify (hI.canceled hmay)) fun _ => .pure _
  | cancelSearch => exact Keeps.bind (.modify hI.search) fun _ => .pure _
  | log error message context => exact (hI.log he error message context).bind fun _ => .pure _
  | addListener listener => exact Keeps.bind (.modify (hI.listeners _)) fun _ => .pure _
  | removeListener listener => exact Keeps.bind (.modify (hI.listeners _)) fun _ => .pure _
  | changeFiles change => exact Keeps.bind (.modify (hI.files change hmay)) fun _ => .pure _
  | observe context issue scope project =>
    refine (hI.observe he context issue scope project).bind fun observation => ?_
    exact Keeps.bind (.record (hI.observed observation)) fun _ => .pure _
  | askSuppressed issue target =>
    exact Keeps.bind (.record (hI.observed _)) fun _ => .pure _

theorem script (hI : Bears e.host I may allowed) (he : e.Serves I) {script : Script σ}
    (hscript : script.Within may allowed) : Keeps I (script.run e.perform) := by
  induction script with
  | done => exact .pure ()
  | fail fault => exact .throw fault
  | update change next ih =>
    rw [Script.run]
    refine Keeps.bind (.modify (hI.updated change hscript.1)) fun _ => .inspect fun s _ => ?_
    exact ih s.host (hscript.2 s.host)
  | act action next ih =>
    rw [Script.run]
    exact (hI.perform he hscript.1).bind fun reply => ih reply (hscript.2 reply)

theorem invokeAt (hI : Bears host I may allowed) (opts : Options) {depth : Nat}
    (he : (⟨host, opts, host.invoke opts depth⟩ : Engine σ).Serves I) {call : Call}
    (hreact : (host.react call s.moment s.host).Within may allowed)
    (hs : I (s.write (.called call s.moment))) :
    I (endState (host.invoke opts (depth + 1) call s)) := by
  rw [Host.invoke, get_bind]
  refine Keeps.bindAt (x := Run.record _) hs fun _ => ?_
  exact script (e := ⟨host, opts, host.invoke opts depth⟩) hI he hreact

theorem serves_invoke (hI : Bears host I may allowed) (opts : Options)
    (depth : Nat) : (⟨host, opts, host.invoke opts depth⟩ : Engine σ).Serves I := by
  induction depth with
  | zero => exact fun _ => .throw _
  | succ depth ih =>
    intro call hcall s hs
    exact hI.invokeAt opts ih (hI.reacts _ _ hcall) (hI.called hcall hs)

variable {host : Host σ} (hI : Bears host I may allowed) (opts : Options)

include hI

theorem serves : (host.engine opts).Serves I :=
  hI.serves_invoke opts Host.nestingLimit

theorem invoke {call : Call} (hreact : (host.react call s.moment s.host).Within may allowed)
    (hs : I (s.write (.called call s.moment))) :
    I (endState ((host.engine opts).invoke call s)) :=
  hI.invokeAt opts (hI.serves_invoke opts _) hreact hs

theorem ask {detector : Detector} {hook : Hook}
    (hreact : (host.react (.detector detector hook) s.moment s.host).Within may allowed)
    (hs : I (s.write (.called (.detector detector hook) s.moment))) :
    I (endState ((host.engine opts).ask detector hook s)) :=
  hI.invoke opts hreact hs

theorem readProperties (dir : String) : Keeps I ((host.engine opts).readProperties dir) := by
  refine .inspect fun s _ => .ite _ ?_ (.pure [])
  cases s.files.readText (Path.join dir Layout.properties) with
  | ok text => exact .pure _
  | error fault => exact (log hI (hI.serves opts) _ _ none).bind fun _ => .pure []

theorem consult {call : Call} (hcall : call.isClient = true)
    (answer : Workspace → σ → Except Fault α) :
    Keeps I ((host.engine opts).consult call answer) := by
  refine (hI.serves opts hcall).bind fun _ => .inspect fun s _ => ?_
  cases answer s.files s.host with
  | ok a => exact .pure a
  | error fault => exact .throw fault

theorem readClass (bytes : Bytes) : Keeps I ((host.engine opts).readClass bytes) :=
  hI.consult opts rfl _

theorem parseMarkup (context : Context) : Keeps I ((host.engine opts).parseMarkup context) :=
  hI.consult opts rfl _

theorem parseSource (context : Context) : Keeps I ((host.engine opts).parseSource context) :=
  hI.consult opts rfl _

end Bears

/-! ## Telling listeners -/

structure Hears (host : Host σ) (I : State σ → Prop) (may : Action → Prop)
    (allowed : (σ → σ) → Prop) : Prop extends Bears host I may allowed where
  heeds : ∀ listener event context moment memory,
    (host.react (.listener listener event context) moment memory).Within may allowed := by
      intros; first | exact Script.within_true _ | apply_assumption
  heard : ∀ {listener event context s}, I s →
    I (s.write (.called (.listener listener event context) s.moment)) := by
      intros; rename_i h; first | exact h | exact { h with }

namespace Hears

variable {host : Host σ} (hI : Hears host I may allowed) (opts : Options)

include hI

theorem notifyAll (listeners : List Listener) (event : Event) (context : Option Context) :
    Keeps I ((host.engine opts).notifyAll listeners event context) := by
  refine .each listeners fun listener _ => ?_
  refine Keeps.bind (Keeps.attempt fun s hs => ?_) fun outcome => ?_
  · exact hI.invokeAt opts (hI.serves_invoke opts _) (hI.heeds _ _ _ _ _) (hI.heard hs)
  · cases outcome with
    | ok _ => exact .pure ()
    | error fault => exact hI.note _ _ _

theorem fire {event : Event} {context : Option Context}
    (hs : I (s.write (.fired event context s.moment))) :
    I (endState ((host.engine opts).fire event context s)) :=
  hI.notifyAll opts s.listeners event context _ hs

theorem finish (hreported : ∀ {s}, I s → I { s with cancelReported := true })
    (hsubmitted : ∀ report {s}, I s → I (s.write (.submitted .engine report)))
    (hfired : ∀ event {s}, I s → I (s.write (.fired event none s.moment)))
    (current : ProjectRef) (elapsed : Int) :
    Keeps I ((host.engine opts).finish current elapsed) := by
  have hreport : Keeps I ((host.engine opts).reportCanceled (projectContext current)) := by
    refine .inspect fun s _ => .ite _ (.pure ()) (Keeps.bind (.modify hreported) fun _ t ht => ?_)
    exact Bears.submit hI.toBears (hI.serves opts) (hsubmitted _ ht)
  have hconclude : Keeps I ((host.engine opts).conclude elapsed) :=
    fun s hs => hI.fire opts (hfired _ (hI.logged _ hs))
  intro s hs
  cases hcanceled : s.canceled with
  | false =>
    rw [finish_of_not_canceled _ _ _ hcanceled]
    exact hconclude s hs
  | true =>
    rw [finish_of_canceled _ _ _ hcanceled]
    exact hreport.bind (fun _ => hconclude) s hs

end Hears

/-! ## Looking projects up -/

/-- A property that survives making projects, looking their libraries up, and pointing at files of
theirs. -/
structure Seeks (e : Engine σ) (I : State σ → Prop) : Prop where
  noted : ∀ {entry s}, entry.level = .debug → I s → I (s.write (.logged entry)) := by
    intros; rename_i h; first | exact h | exact { h with }
  projectAt : ∀ dir reference, Keeps I (e.projectAt dir reference)
  libraries : ∀ ref, Keeps I (e.libraries ref)
  pointed : ∀ index (change : Project → Project) {s},
    (∀ p, (change p).resetSubset = p.resetSubset) → I s →
    I (s.changed index change)

namespace Seeks

variable (hI : Seeks e I)

include hI

theorem resolves : Resolves e e (Diagonal I) where
  options := rfl
  files := fun hst => congrArg State.files hst.1
  depth := fun hst => congrArg e.referenceDepth hst.1
  noted := fun hlevel hst => hst.map (hI.noted hlevel)
  projectAt := fun dir reference => .of_keeps (hI.projectAt dir reference)
  libraries := fun ref => .of_keeps (hI.libraries ref)
  reset := fun index _ _ hst => hst.map (hI.pointed index Project.resetSubset fun _ => rfl)
  pointed := fun index path _ _ hst => hst.map (hI.pointed index (·.addFile path) fun _ => rfl)

theorem resolve (stopped : State σ → Bool) (paths : List String) :
    Keeps I (Discovery.resolve e stopped paths) :=
  (Resolves.resolve (fun _ => hI.resolves) (halting_never fun hst => congrArg stopped hst.1)
    paths).mirrors.keeps

end Seeks

/-- A property that also survives looking projects up. The libraries of a project are written down
once, like its configuration. -/
structure Finds (host : Host σ) (I : State σ → Prop) (may : Action → Prop)
    (allowed : (σ → σ) → Prop) : Prop extends Bears host I may allowed where
  changed : ∀ index (change : Project → Project) {s},
    (∀ p, (change p).dir = p.dir ∧ (change p).libraries = p.libraries ∧
      (change p).configuration = p.configuration) → I s →
    I (s.changed index change) := by
      intros; rename_i h; first | exact h | exact { h with }
  added : ∀ project {s}, project.libraries = none → I s →
    I (s.extended project) := by
      intros; rename_i h; first | exact h | exact { h with }
  cached : ∀ cache {s}, I s → I { s with cache } := by
    intros; rename_i h; first | exact h | exact { h with }
  linked : ∀ (ref : ProjectRef) refs {s₀ s}, I s₀ → (s₀.project ref).libraries = none → I s →
    I (s.changed ref.index ({ · with libraries := some refs })) := by
      intros; rename_i h; first | exact h | exact { h with }

namespace Finds

variable {host : Host σ} (hI : Finds host I may allowed) (opts : Options)

include hI

theorem log (error : Option String) (message : String) (context : Option Context) :
    Keeps I ((host.engine opts).log error message context) :=
  Bears.log hI.toBears (hI.serves opts) error message context

theorem searches : Searches (host.engine opts) (host.engine opts) (Diagonal I) where
  toKin := .refl _
  files := fun hst => congrArg State.files hst.1
  cache := fun hst => congrArg State.cache hst.1
  size := fun hst => congrArg (fun s => s.projects.size) hst.1
  project := fun ref _ _ hst => congrArg (fun s => (s.project ref).resetSubset) hst.1
  noted := fun entry _ _ hst => hst.map (hI.logged entry)
  getProject := fun _ _ => .of_keeps (hI.serves opts rfl)
  unreadable := fun _ _ => .of_keeps (hI.log opts _ _ none)
  missing := fun _ _ => .of_keeps (hI.log opts none _ none)
  added := fun project _ _ _ hnone hst => hst.map (hI.added project hnone)
  cached := fun cache _ _ hst => hst.map (hI.cached cache)
  overridden := fun index overrides _ _ hst =>
    hst.map (hI.changed index overrides.apply fun _ => ⟨rfl, rfl, rfl⟩)
  linked := fun ref refs _ _ _ _ hst₀ hnone hst =>
    hst.map (hI.linked ref refs (hst₀.1 ▸ hst₀.2) hnone)
  reset := fun index _ _ hst =>
    hst.map (hI.changed index Project.resetSubset fun _ => ⟨rfl, rfl, rfl⟩)

theorem projectAt (dir reference : String) : Keeps I ((host.engine opts).projectAt dir reference) :=
  ((hI.searches opts).projectAt dir reference).keeps

theorem libraries (ref : ProjectRef) : Keeps I ((host.engine opts).libraries ref) :=
  ((hI.searches opts).libraries ref).keeps

theorem seeks : Seeks (host.engine opts) I where
  noted := fun _ => hI.logged _
  projectAt := hI.projectAt opts
  libraries := hI.libraries opts
  pointed := fun index change _ hchange hs => by
    refine hI.changed index change (fun p => ⟨?_, ?_, ?_⟩) hs
    · exact Project.eq_of_resetSubset Project.dir (fun _ => rfl) (hchange p)
    · exact Project.eq_of_resetSubset Project.libraries (fun _ => rfl) (hchange p)
    · exact Project.eq_of_resetSubset Project.configuration (fun _ => rfl) (hchange p)

theorem resolve (stopped : State σ → Bool) (paths : List String) :
    Keeps I (Discovery.resolve (host.engine opts) stopped paths) :=
  (hI.seeks opts).resolve stopped paths

end Finds
end Engine
end ProjectLint
