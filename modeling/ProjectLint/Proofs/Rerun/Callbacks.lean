/-
Two runs of an embedding from states that its code cannot tell apart. A relation between the states
survives the calls of the code if it survives each deed of the scripts, and scripts may be held to
given deeds: `Script.Heeds` says which, as long as the memory of the embedding has a property, and
between which replies they do not distinguish. The engines of the two runs may differ in how the
embedding reacts.
-/
import ProjectLint.Proofs.Conduct

namespace ProjectLint

def Script.Heeds (may : Action → Prop) (replies : Reply → Reply → Prop) (I : σ → Prop) :
    Script σ → Prop
  | .done => True
  | .fail _ => True
  | .update change next =>
    (∀ memory, I memory → I (change memory)) ∧
      ∀ memory, I memory → (next memory).Heeds may replies I
  | .act action next =>
    may action ∧ ∀ reply reply', replies reply reply' →
      next reply = next reply' ∧ (next reply).Heeds may replies I

def Action.isPlain : Action → Bool
  | .observe .. | .requestRepeat .. | .cancel => false
  | _ => true

def Action.Leads (calls : Call → Prop) : Action → Prop
  | .report made =>
    calls (.getConfiguration made.context.project) ∧ calls (.report made) ∧
      calls (.log none ("Incorrect detector reported disabled issue " ++ made.issue.id) none)
  | .log error message context => calls (.log error message context)
  | .observe (some context) (some _) _ _ => calls (.getConfiguration context.project)
  | _ => True

theorem Action.Leads.imp {calls calls' : Call → Prop} {action : Action} (h : action.Leads calls)
    (hcalls : ∀ {call}, calls call → calls' call) : action.Leads calls' := by
  cases action with
  | report made => exact ⟨hcalls h.1, hcalls h.2.1, hcalls h.2.2⟩
  | log error message context => exact hcalls h
  | observe context issue scope project =>
    cases context with
    | none => trivial
    | some context =>
      cases issue with
      | none => trivial
      | some issue => exact hcalls h
  | _ => trivial

def Call.isReading : Call → Bool
  | .readClass _ => true
  | _ => false

theorem Action.leads_client (action : Action) :
    action.Leads fun call => call.isClient = true ∧ call.isReading = false := by
  cases action with
  | report made => exact ⟨⟨rfl, rfl⟩, ⟨rfl, rfl⟩, rfl, rfl⟩
  | log error message context => exact ⟨rfl, rfl⟩
  | observe context issue scope project =>
    cases context with
    | none => trivial
    | some context =>
      cases issue with
      | none => trivial
      | some issue => exact ⟨rfl, rfl⟩
  | _ => trivial

def Reply.projects : Reply → List ProjectRef
  | .observed (.state _ _ _ _ (some (ref, project))) => ref :: project.libraries.getD []
  | _ => []

/-- Two states that differ at most in what runs leave behind: the cancellation, the scope, the
schedule and the visitor of the last run, and the files that projects are pointed at. -/
structure State.Akin (s t : State σ) : Prop where
  host : s.host = t.host
  files : s.files = t.files
  registry : s.registry = t.registry
  cache : s.cache = t.cache
  serials : s.serials = t.serials
  listeners : s.listeners = t.listeners
  projects : s.projects.map Project.resetSubset = t.projects.map Project.resetSubset

namespace State.Akin

variable {s t : State σ} (h : s.Akin t)

include h

theorem size : s.projects.size = t.projects.size := by
  rw [← Array.size_map, h.projects, Array.size_map]

theorem getElem? (i : Nat) :
    s.projects[i]?.map Project.resetSubset = t.projects[i]?.map Project.resetSubset := by
  rw [← Array.getElem?_map, h.projects, Array.getElem?_map]

theorem project (ref : ProjectRef) : (s.project ref).resetSubset = (t.project ref).resetSubset :=
  State.project_congr _ (h.getElem? ref.index)

theorem changed (index : Nat) {change : Project → Project}
    (hchange : ∀ p, (change p.resetSubset).resetSubset = (change p).resetSubset) :
    Akin (s.changed index change) (t.changed index change) := by
  refine { h with projects := Array.ext_getElem? fun i => ?_ }
  have hproject := h.getElem? i
  show ((s.projects.modify index change).map Project.resetSubset)[i]? =
    ((t.projects.modify index change).map Project.resetSubset)[i]?
  rw [Array.getElem?_map, Array.getElem?_map, Array.getElem?_modify, Array.getElem?_modify]
  by_cases hi : index = i
  · have hcomm : Project.resetSubset ∘ change =
        (fun p => (change p).resetSubset) ∘ Project.resetSubset :=
      funext fun p => (hchange p).symm
    rw [if_pos hi, if_pos hi, Option.map_map, Option.map_map, hcomm, ← Option.map_map,
      ← Option.map_map, hproject]
  · rw [if_neg hi, if_neg hi, hproject]

theorem added (project : Project) : Akin (s.extended project) (t.extended project) := by
  refine { h with projects := ?_ }
  show (s.projects.push project).map Project.resetSubset =
    (t.projects.push project).map Project.resetSubset
  rw [Array.map_push, Array.map_push, h.projects]

end State.Akin

namespace Rerun

open Run Engine

variable {replies : Reply → Reply → Prop}

/-- What the deeds of a script read of related states is the same, and they leave them related. -/
structure Ties (ρ : State σ → State σ → Prop) : Prop where
  known : ∀ ref {s t}, ρ s t → (s.project ref).configuration = (t.project ref).configuration
  cwd : ∀ {s t}, ρ s t → s.files.cwd = t.files.cwd
  listeners : ∀ {s t}, ρ s t → s.listeners = t.listeners
  logged : ∀ entry {s t}, ρ s t → ρ (s.write (.logged entry)) (t.write (.logged entry))
  submitted : ∀ author report {s t}, ρ s t →
    ρ (s.write (.submitted author report)) (t.write (.submitted author report))
  suppressed : ∀ issue answer {s t}, ρ s t →
    ρ (s.write (.observed (.suppressed issue answer)))
      (t.write (.observed (.suppressed issue answer)))
  configured : ∀ index config {s t}, ρ s t →
    ρ (s.changed index ({ · with configuration := some config }))
      (t.changed index ({ · with configuration := some config }))
  listening : ∀ (change : List Listener → List Listener) {s t}, ρ s t →
    ρ { s with listeners := change s.listeners } { t with listeners := change t.listeners }
  search : ∀ {s t}, ρ s t → ρ { s with searchCanceled := true } { t with searchCanceled := true }

structure Bonds (I : σ → Prop) (ρ : State σ → State σ → Prop) : Prop extends Ties ρ where
  akin : ∀ {s t}, ρ s t → s.Akin t
  memory : ∀ {s t}, ρ s t → I s.host
  updated : ∀ (change : σ → σ) {s t}, (∀ memory, I memory → I (change memory)) → ρ s t →
    ρ { s with host := change s.host } { t with host := change t.host }
  refiled : ∀ (change : Workspace → Workspace) {s t}, ρ s t →
    ρ { s with files := change s.files } { t with files := change t.files }
  known := fun ref _ _ hst =>
    Project.eq_of_resetSubset Project.configuration (fun _ => rfl) ((akin hst).project ref)
  cwd := fun hst => congrArg Workspace.cwd (akin hst).files
  listeners := fun hst => (akin hst).listeners

structure Attuned (e e' : Engine σ) (ρ : State σ → State σ → Prop) : Prop where
  plainly : e'.host.logsPlainly = e.host.logsPlainly
  made : ∀ dir {s t}, ρ s t →
    e.host.made s.files dir s.host = e'.host.made t.files dir t.host

def Answers (e e' : Engine σ) (ρ : State σ → State σ → Prop) (call : Call) : Prop :=
  Mirrors ρ Eq (e.invoke call) (e'.invoke call)

namespace Ties

variable {e e' : Engine σ} {ρ : State σ → State σ → Prop} (h : Ties ρ) (hkin : Attuned e e' ρ)
variable {context : Option Context}

include h

theorem note (level : Log.Level) (message : String) (details : List (String × Data.Value)) :
    Respects ρ (Run.note level message details) :=
  .modify (h.logged _)

theorem noted (made : Configuration × List Log.Entry) : Respects ρ (Engine.noted made) :=
  Mirrors.andThen (.each_same made.2 fun entry => .modify (h.logged entry)) fun _ => .pure rfl

theorem requestRepeat {detector : Detector} {scope : Option ScopeSet}
    (hschedule : ∀ {s t}, ρ s t → s.schedule = t.schedule)
    (hrequested : ∀ schedule {s t}, ρ s t →
      ρ { s.write (.requested detector scope) with schedule }
        { t.write (.requested detector scope) with schedule }) :
    Respects ρ (Run.requestRepeat detector scope) := by
  intro s t hst
  have hs := hschedule hst
  cases ht : t.schedule with
  | none =>
    rw [requestRepeat_of_none ht, requestRepeat_of_none (hs.trans ht)]
    exact h.note _ _ _ s t hst
  | some schedule =>
    rw [requestRepeat_of_some ht, requestRepeat_of_some (hs.trans ht)]
    exact .ok rfl (hrequested _ hst)

include hkin

theorem log {error : Option String} {message : String}
    (hcall : Answers e e' ρ (.log error message context)) :
    Mirrors ρ Eq (e.log error message context) (e'.log error message context) := by
  rw [Engine.log, Engine.log, hkin.plainly]
  exact .ite Iff.rfl (.modify (h.logged _)) hcall

theorem configuration {ref : ProjectRef} (hcall : Answers e e' ρ (.getConfiguration ref)) :
    Mirrors ρ Eq (e.configuration ref) (e'.configuration ref) := by
  have hask : Mirrors ρ Eq (e.askConfiguration ref) (e'.askConfiguration ref) := by
    refine Mirrors.andThen hcall fun _ => .read fun s t hst => ?_
    rw [hkin.made ref.dir hst]
    exact h.noted _
  refine .read fun s t hst => ?_
  rw [h.known ref hst]
  cases (t.project ref).configuration with
  | some config => exact .pure rfl
  | none =>
    refine hask.andThen fun config => ?_
    exact Mirrors.andThen (.modify (h.configured _ config)) fun _ => .pure rfl

theorem submit {report : Report} (author : Journal.Author)
    (hconfiguration : Answers e e' ρ (.getConfiguration report.context.project))
    (hdisabled : Answers e e' ρ
      (.log none ("Incorrect detector reported disabled issue " ++ report.issue.id) none))
    (hreport : Answers e e' ρ (.report report)) :
    Mirrors ρ Eq (e.submit author report) (e'.submit author report) := by
  refine Mirrors.andThen (.modify (h.submitted author report)) fun _ => ?_
  refine (h.configuration hkin hconfiguration).andThen fun config => .read fun s t hst => ?_
  rw [h.cwd hst]
  cases verdict config t.files.cwd report with
  | disabled => exact .ite Iff.rfl (.pure rfl) (h.log hkin hdisabled)
  | ignored => exact .pure rfl
  | silenced => exact .pure rfl
  | delivered => exact hreport

theorem perform {action : Action} (hplain : action.isPlain = true)
    (hrefiled : ∀ change, action = .changeFiles change → ∀ {s t}, ρ s t →
      ρ { s with files := change s.files } { t with files := change t.files })
    (hleads : action.Leads (Answers e e' ρ)) :
    Mirrors ρ (fun reply reply' => reply = reply' ∧ reply.projects = []) (e.perform action)
      (e'.perform action) := by
  have hdone : ∀ {x y : Run σ Unit}, Mirrors ρ Eq x y →
      Mirrors ρ (fun reply reply' => reply = reply' ∧ reply.projects = [])
        (x >>= fun _ => pure Reply.done) (y >>= fun _ => pure Reply.done) :=
    fun hx => hx.andThen fun _ => .pure ⟨rfl, rfl⟩
  cases action with
  | requestRepeat => cases hplain
  | observe => cases hplain
  | cancel => cases hplain
  | report report => exact hdone (h.submit hkin .embedding hleads.1 hleads.2.2 hleads.2.1)
  | cancelSearch => exact hdone (.modify h.search)
  | log error message context => exact hdone (h.log hkin hleads)
  | addListener listener => exact hdone (.modify (h.listening (· ++ [listener])))
  | removeListener listener => exact hdone (.modify (h.listening (·.erase listener)))
  | changeFiles change => exact hdone (.modify (hrefiled change rfl))
  | askSuppressed issue target =>
    exact Mirrors.andThen (.modify (h.suppressed issue _)) fun _ => .pure ⟨rfl, rfl⟩

theorem observe {issue : Option Issue} {scope : Option Scope}
    {project : Bool} {sees : Observation → Observation → Prop}
    (hleads : (Action.observe context issue scope project).Leads (Answers e e' ρ))
    (hnone : ∀ {s t}, ρ s t →
      sees (.state s.moment none none none none) (.state t.moment none none none none))
    (hsome : ∀ {s t u v}, ρ s t → ρ u v → ∀ shown ∈ context, ∀ enabled, sees
        (.state s.moment (some shown.rootProject.dir) enabled (scope.map u.scope.contains)
          (if project then some (shown.project, u.project shown.project) else none))
        (.state t.moment (some shown.rootProject.dir) enabled (scope.map v.scope.contains)
          (if project then some (shown.project, v.project shown.project) else none))) :
    Mirrors ρ sees (e.observe context issue scope project)
      (e'.observe context issue scope project) := by
  refine .read fun s t hst => ?_
  cases context with
  | none => exact .pure (hnone hst)
  | some context =>
    cases issue with
    | none => exact fun u v huv => .ok (hsome hst huv context rfl none) huv
    | some issue =>
      refine (h.configuration hkin hleads).andThen fun config u v huv => ?_
      exact .ok (hsome hst huv context rfl _) huv

/-! ## Calls of the engine -/

omit hkin in
theorem fire {event : Event} (hcall : ∀ listener, Answers e e' ρ (.listener listener event context))
    (hfired : ∀ {s t}, ρ s t → ρ (s.write (.fired event context s.moment))
      (t.write (.fired event context t.moment))) :
    Mirrors ρ Eq (e.fire event context) (e'.fire event context) := by
  have hnotify : ∀ listener, Mirrors ρ Eq (e.notify event context listener)
      (e'.notify event context listener) := by
    refine fun listener => Mirrors.andThen (Mirrors.attempt (hcall listener)) fun outcome => ?_
    cases outcome with
    | ok _ => exact .pure rfl
    | error fault => exact h.note _ _ _
  intro s t hst
  rw [Engine.fire, Engine.fire, get_bind, get_bind, h.listeners hst]
  exact Mirrors.each_same t.listeners hnotify _ _ (hfired hst)

end Ties

namespace Bonds

variable {e e' : Engine σ} {I : σ → Prop} {ρ : State σ → State σ → Prop} (h : Bonds I ρ)
  (hkin : Kin e e')

include h

theorem script {may : Action → Prop}
    (hperform : ∀ action, may action → Mirrors ρ replies (e.perform action) (e.perform action))
    {script : Script σ} (hscript : script.Heeds may replies I) :
    Respects ρ (script.run e.perform) := by
  induction script with
  | done => exact .pure rfl
  | fail fault => exact .throw fault
  | update change next ih =>
    rw [Script.run]
    refine Mirrors.andThen (.modify (h.updated change hscript.1)) fun _ => ?_
    refine .read fun s t hst => ?_
    rw [(h.akin hst).host]
    exact ih _ (hscript.2 _ ((h.akin hst).host ▸ h.memory hst))
  | act action next ih =>
    rw [Script.run]
    refine (hperform action hscript.1).bind ?_
    intro reply reply' hreply
    obtain ⟨hsame, hnext⟩ := hscript.2 reply reply' hreply
    rw [← hsame]
    exact ih reply hnext

include hkin

theorem attuned : Attuned e e' ρ where
  plainly := hkin.answer Host.logsPlainly fun _ _ => rfl
  made := fun dir s t hst => by
    rw [(h.akin hst).host, (h.akin hst).files]
    exact (hkin.answer (·.made t.files dir t.host) fun _ _ => rfl).symm

theorem parseMarkup {context : Context} (hcall : Answers e e' ρ (.parseMarkup context)) :
    Mirrors ρ Eq (e.parseMarkup context) (e'.parseMarkup context) :=
  .consult hcall fun hst => by
    rw [(h.akin hst).files, (h.akin hst).host, hkin.answer Host.parseMarkup fun _ _ => rfl]

theorem parseSource {context : Context} (hcall : Answers e e' ρ (.parseSource context)) :
    Mirrors ρ Eq (e.parseSource context) (e'.parseSource context) :=
  .consult hcall fun hst => by
    rw [(h.akin hst).files, (h.akin hst).host, hkin.answer Host.parseSource fun _ _ => rfl]

theorem readClass {bytes : Bytes} (hcall : Answers e e' ρ (.readClass bytes)) :
    Mirrors ρ Eq (e.readClass bytes) (e'.readClass bytes) :=
  .consult hcall fun hst => by
    rw [(h.akin hst).host, hkin.answer Host.readClass fun _ _ => rfl]

end Bonds

/-- Calls that are answered by the same script in both runs, and written down in a way that the
relation survives. -/
structure Echoes (host : Host σ) (I : σ → Prop) (ρ : State σ → State σ → Prop)
    (calls : Call → Prop) (may : Action → Prop) (replies : Reply → Reply → Prop) : Prop
    extends Bonds I ρ where
  reacts : ∀ {call s t}, calls call → ρ s t →
    host.react call s.moment s.host = host.react call t.moment t.host
  heeds : ∀ {call s t}, calls call → ρ s t → (host.react call s.moment s.host).Heeds may replies I
  called : ∀ {call s t}, calls call → ρ s t →
    ρ (s.write (.called call s.moment)) (t.write (.called call t.moment))
  performs : ∀ {e : Engine σ}, e.host = host → (∀ {call}, calls call → Answers e e ρ call) →
    ∀ action, may action → Mirrors ρ replies (e.perform action) (e.perform action)

theorem Echoes.invoke {host : Host σ} {I : σ → Prop} {ρ : State σ → State σ → Prop}
    {calls : Call → Prop} {may : Action → Prop}
    (h : Echoes host I ρ calls may replies) (opts : Options) (depth : Nat) :
    ∀ {call}, calls call → Respects ρ (host.invoke opts depth call) := by
  induction depth with
  | zero => exact fun _ => .throw _
  | succ depth ih =>
    intro call hcall s t hst
    have hscript := h.heeds hcall hst
    rw [Host.invoke, get_bind, get_bind, ← h.reacts hcall hst]
    exact h.script (h.performs rfl ih) hscript _ _ (h.called hcall hst)

end Rerun
end ProjectLint
