/-
What happens aside: an embedding keeps its books, listeners look, a configuration is loaded when it
is first asked for. Of all this nothing is seen, no instance of a detector learns of it, and whether
it happened before makes no difference, since a configuration is the same whenever it is loaded.
-/
import ProjectLint.Proofs.Isolation.Privacy
import ProjectLint.Proofs.Provisions

namespace ProjectLint

open Journal

theorem Project.core_readManifest (project : Project) (document : Markup.Document) :
    (project.readManifest document).core = project.core := by
  rw [Project.readManifest]
  repeat' split
  all_goals rfl

theorem Project.configuration_readManifest (project : Project) (document : Markup.Document) :
    (project.readManifest document).configuration = project.configuration := by
  rw [Project.readManifest]
  repeat' split
  all_goals rfl

namespace State

def Trusted (host : Host σ) (s : State σ) : Prop :=
  ∀ (i : Nat) project config, s.projects[i]? = some project →
    project.configuration = some config → host.Gives s.files project.dir config

end State

/-! ## Aside -/

structure Unseen (p : Privacy σ τ) (s s' : State σ) : Prop where
  own : ∀ d, p.own d s'.host = p.own d s.host
  sights : s'.sights = s.sights
  files : s'.files = s.files
  registry : s'.registry = s.registry
  canceled : s'.canceled = s.canceled
  scope : s'.scope = s.scope
  serials : s'.serials = s.serials

namespace Unseen

variable {p : Privacy σ τ} {s s' s'' : State σ}

theorem refl (s : State σ) : Unseen p s s :=
  ⟨fun _ => rfl, rfl, rfl, rfl, rfl, rfl, rfl⟩

theorem trans (h : Unseen p s s') (h' : Unseen p s' s'') : Unseen p s s'' where
  own := fun d => (h'.own d).trans (h.own d)
  sights := h'.sights.trans h.sights
  files := h'.files.trans h.files
  registry := h'.registry.trans h.registry
  canceled := h'.canceled.trans h.canceled
  scope := h'.scope.trans h.scope
  serials := h'.serials.trans h.serials

theorem unborn (h : Unseen p s s') (hs : p.Unborn s) : p.Unborn s' := by
  intro d hd
  rw [h.serials] at hd
  exact (h.own d).trans (hs d hd)

theorem write (s : State σ) {entry : Entry} (h : entry.isSight = false) :
    Unseen p s (s.write entry) :=
  ⟨fun _ => rfl, s.sights_write_of_unseen h, rfl, rfl, rfl, rfl, rfl⟩

end Unseen

/-- Beside nothing being seen, the schedule and the projects are as they were, but for
configurations that were asked for. -/
structure Aside (host : Host σ) (p : Privacy σ τ) (s s' : State σ) : Prop extends
    Unseen p s s' where
  schedule : s'.schedule = s.schedule
  memo : s'.memo = s.memo
  cache : s'.cache = s.cache
  projects : s.SameCore s'
  trusted : s.Trusted host → s'.Trusted host

namespace Aside

variable {host : Host σ} {p : Privacy σ τ} {s s' s'' : State σ}

theorem refl (s : State σ) : Aside host p s s :=
  ⟨.refl s, rfl, rfl, rfl, fun _ => rfl, id⟩

theorem trans (h : Aside host p s s') (h' : Aside host p s' s'') : Aside host p s s'' where
  toUnseen := h.toUnseen.trans h'.toUnseen
  schedule := h'.schedule.trans h.schedule
  memo := h'.memo.trans h.memo
  cache := h'.cache.trans h.cache
  projects := fun i => (h'.projects i).trans (h.projects i)
  trusted := fun hs => h'.trusted (h.trusted hs)

theorem write (s : State σ) {entry : Entry} (h : entry.isSight = false) :
    Aside host p s (s.write entry) :=
  ⟨.write s h, rfl, rfl, rfl, fun _ => rfl, id⟩

theorem update (s : State σ) {memory : σ} (h : ∀ d, p.own d memory = p.own d s.host) :
    Aside host p s { s with host := memory } :=
  ⟨⟨h, rfl, rfl, rfl, rfl, rfl, rfl⟩, rfl, rfl, rfl, fun _ => rfl, id⟩

theorem configure {ref : ProjectRef} (href : s.Made ref) {config : Configuration}
    (hconfig : host.Gives s.files ref.dir config) :
    Aside host p s (s.changed ref.index ({ · with configuration := some config })) := by
  refine ⟨⟨fun _ => rfl, rfl, rfl, rfl, rfl, rfl, rfl⟩, rfl, rfl, rfl,
    State.sameCore_changed s _ fun _ => rfl, ?_⟩
  intro htrusted i project known hproject hknown
  obtain ⟨old, hold, ⟨rfl, rfl⟩ | rfl⟩ := getElem?_of_modify hproject
  · obtain ⟨made, hmade, hdir⟩ := href
    rw [hold] at hmade
    cases hmade
    cases hknown
    show host.Gives s.files old.dir config
    rwa [hdir]
  · exact htrusted i project known hold hknown

end Aside

/-! ## Keeping books -/

namespace Script

variable {host : Host σ} {p : Privacy σ τ}

theorem Stores.run_eq_ok (perform : Action → Run σ Reply) {script : Script σ}
    (h : script.Stores p) (s : State σ) :
    ∃ s', script.run perform s = .ok () s' ∧ Aside host p s s' := by
  induction script generalizing s with
  | done => exact ⟨s, rfl, .refl s⟩
  | fail fault => exact h.elim
  | act action next ih => exact h.elim
  | update change next ih =>
    obtain ⟨s', hrun, haside⟩ := ih (change s.host) (h.2 _) { s with host := change s.host }
    exact ⟨s', hrun, (Aside.update s fun d => h.1 d s.host).trans haside⟩

end Script

namespace Engine

open Run

variable {host : Host σ} {p : Privacy σ τ} {e : Engine σ}
variable {s : State σ}

structure Tidy (e : Engine σ) (p : Privacy σ τ) : Prop where
  call : ∀ call : Call, call.isBookkeeping = true → ∀ s : State σ,
    ∃ s', e.invoke call s = .ok () s' ∧ Aside e.host p (s.write (.called call s.moment)) s'

theorem tidy_invoke (hhost : host.Isolated p) (opts : Options) (depth : Nat) :
    (⟨host, opts, host.invoke opts (depth + 1)⟩ : Engine σ).Tidy p := by
  refine ⟨fun call hcall s => ?_⟩
  exact (hhost.client s.moment s.host hcall).run_eq_ok _ (s.write (.called call s.moment))

theorem tidy_engine (hhost : host.Isolated p) (opts : Options) : (host.engine opts).Tidy p :=
  tidy_invoke hhost opts _

namespace Tidy

theorem log (he : e.Tidy p) (error : Option String) (message : String) (context : Option Context)
    (s : State σ) :
    ∃ s', e.log error message context s = .ok () s' ∧ Aside e.host p s s' := by
  rw [Engine.log]
  cases e.host.logsPlainly with
  | true => exact ⟨_, rfl, .write s rfl⟩
  | false =>
    obtain ⟨s', hcall, haside⟩ := he.call (.log error message context) rfl s
    exact ⟨s', hcall, (Aside.write s rfl).trans haside⟩

theorem noted_eq_ok (made : Configuration × List Log.Entry) (s : State σ) :
    ∃ s', noted made s = .ok made.1 s' ∧ Aside host p s s' := by
  obtain ⟨config, entries⟩ := made
  have heach : ∃ s', each entries (fun entry => record (.logged entry)) s = .ok () s' ∧
      Aside host p s s' := by
    induction entries generalizing s with
    | nil => exact ⟨s, rfl, .refl s⟩
    | cons entry rest ih =>
      obtain ⟨s', hrest, haside⟩ := ih (s.write (.logged entry))
      exact ⟨s', hrest, (Aside.write s rfl).trans haside⟩
  obtain ⟨s', hrun, haside⟩ := heach
  refine ⟨s', ?_, haside⟩
  rw [noted, bind_of_ok hrun]
  rfl

theorem configuration (he : e.Tidy p) {ref : ProjectRef} (hs : s.Trusted e.host)
    (href : s.Made ref) : ∃ config s', e.configuration ref s = .ok config s' ∧ Aside e.host p s s' ∧
      e.host.Gives s.files ref.dir config := by
  obtain ⟨hproject, hdir⟩ := href.project_eq
  rw [Engine.configuration, get_bind]
  cases hknown : (s.project ref).configuration with
  | some config =>
    refine ⟨config, s, rfl, .refl s, ?_⟩
    rw [← hdir]
    exact hs _ _ config hproject hknown
  | none =>
    obtain ⟨s₁, hcall, haside₁⟩ := he.call (.getConfiguration ref) rfl s
    replace haside₁ := (Aside.write s rfl).trans haside₁
    obtain ⟨s₂, hnoted, haside₂⟩ : ∃ s₂, noted (e.host.made s₁.files ref.dir s₁.host) s₁ =
        .ok (e.host.made s₁.files ref.dir s₁.host).1 s₂ ∧ Aside e.host p s₁ s₂ := noted_eq_ok _ s₁
    have haside := haside₁.trans haside₂
    have hgives : e.host.Gives s.files ref.dir (e.host.made s₁.files ref.dir s₁.host).1 :=
      ⟨s₁.host, by rw [haside₁.files]⟩
    have hmore : Aside e.host p s₂ (s₂.changed ref.index
      ({ · with configuration := some (e.host.made s₁.files ref.dir s₁.host).1 })) :=
      .configure (haside.projects.made href) (haside.files ▸ hgives)
    exact ⟨_, _, bind_of_ok ((bind_of_ok hcall).trans hnoted), haside.trans hmore, hgives⟩

end Tidy

/-! ## Looking -/

section Listeners

variable {context : Option Context}

theorem Tidy.observe (he : e.Tidy p) (context : Option Context) (issue : Option Issue)
    (scope : Option Scope) (project : Bool) (hs : s.Trusted e.host)
    (hcontext : ∀ c, issue ≠ none → context = some c → s.Made c.project) :
    ∃ observation s', e.observe context issue scope project s = .ok observation s' ∧
      Aside e.host p s s' := by
  rw [Engine.observe, get_bind]
  cases context with
  | none => exact ⟨_, s, rfl, .refl s⟩
  | some context =>
    cases issue with
    | none => exact ⟨_, s, rfl, .refl s⟩
    | some issue =>
      obtain ⟨config, s', hconfig, haside, -⟩ :=
        he.configuration hs (hcontext context (Option.some_ne_none issue) rfl)
      exact ⟨_, s', bind_of_ok hconfig, haside⟩

theorem Tidy.look (he : e.Tidy p)
    (hs : s.Trusted e.host) (hcontext : ∀ c, context = some c → s.Made c.project)
    {script : Script σ} (hscript : script.Within (Action.Looks context) p.Leaves) :
    Keeps (Aside e.host p s) (script.run e.perform) := by
  induction script with
  | done => exact .pure ()
  | fail fault => exact .throw fault
  | update change next ih =>
    rw [Script.run]
    refine Keeps.bind (.modify fun {t} ht => ?_) fun _ => .inspect fun t _ => ?_
    · exact ht.trans (.update t fun d => hscript.1 d t.host)
    · exact ih t.host (hscript.2 t.host)
  | act action next ih =>
    rw [Script.run]
    refine Keeps.bind (fun t ht => ?_) fun reply => ih reply (hscript.2 reply)
    have hmay := hscript.1
    cases action with
    | observe seen issue scope project =>
      obtain ⟨observation, t', hrun, haside⟩ := he.observe seen issue scope project
        (ht.trusted hs) fun c hissue hseen => by
          rcases hmay with hnone | hnone | rfl
          · exact absurd hnone hissue
          · rw [hnone] at hseen
            cases hseen
          · exact ht.projects.made (hcontext c hseen)
      rw [Engine.perform, bind_of_ok hrun]
      exact (ht.trans haside).trans (.write t' rfl)
    | log error message seen =>
      obtain ⟨t', hrun, haside⟩ := he.log error message seen t
      rw [Engine.perform, bind_of_ok hrun]
      exact ht.trans haside
    | askSuppressed issue target => exact ht.trans (.write t rfl)
    | _ => exact hmay.elim

variable (hhost : host.Isolated p) (opts : Options)

include hhost

theorem notifyAll_aside (listeners : List Listener) (event : Event) (hs : s.Trusted host)
    (hcontext : ∀ c, context = some c → s.Made c.project) :
    Keeps (Aside host p s) ((host.engine opts).notifyAll listeners event context) := by
  refine .each listeners fun listener _ => Keeps.bind (Keeps.attempt fun t ht => ?_) ?_
  · have hlook := (tidy_invoke hhost opts (Host.nestingLimit - 2)).look
      (s := t.write (.called (.listener listener event context) t.moment))
      (ht.trusted hs) (fun c hc => ht.projects.made (hcontext c hc))
      (hhost.listener listener event context t.moment t.host)
      (t.write (.called (.listener listener event context) t.moment)) (.refl _)
    exact (ht.trans (.write t rfl)).trans hlook
  · intro outcome
    cases outcome with
    | ok _ => exact .pure ()
    | error fault => exact .record fun {t} ht => ht.trans (.write t rfl)

theorem fire_aside (event : Event) (hs : s.Trusted host)
    (hcontext : ∀ c, context = some c → s.Made c.project) :
    ∃ s', (host.engine opts).fire event context s = .ok () s' ∧
      Aside host p (s.write (.fired event context s.moment)) s' := by
  obtain ⟨s', hfire, -⟩ := fire_eq_ok host opts event context s
  have haside := notifyAll_aside hhost opts s.listeners event
    (s := s.write (.fired event context s.moment)) hs hcontext _ (.refl _)
  have hrun : (host.engine opts).notifyAll s.listeners event context
      (s.write (.fired event context s.moment)) = .ok () s' := hfire
  rw [hrun] at haside
  exact ⟨s', hfire, haside⟩

end Listeners
end Engine
end ProjectLint
