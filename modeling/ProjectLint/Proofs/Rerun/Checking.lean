/-
The check of the projects after earlier runs. Once a run has found its projects it has a schedule of
its own, and its projects with all that they lead to are pointed at what this run was given. Code
that knows no other projects sees nothing of what was left behind.
-/
import ProjectLint.Proofs.References
import ProjectLint.Proofs.Rerun.Callbacks

namespace ProjectLint

open List (Forall₂)

/-! ## What the code of an embedding knows -/

def Context.projects (context : Context) : List ProjectRef :=
  context.project :: context.main.toList

def Call.projects : Call → List ProjectRef
  | .getConfiguration ref => [ref]
  | call => (call.context?.map Context.projects).getD []

def Action.projects : Action → List ProjectRef
  | .report made => made.context.projects
  | .log _ _ context => (context.map Context.projects).getD []
  | .observe context _ _ _ => (context.map Context.projects).getD []
  | _ => []

/-- Code that speaks of no other projects than those it was shown, in this call or an earlier one;
`holds` says which projects it remembers. -/
structure Host.Discreet (host : Host σ) (holds : σ → ProjectRef → Prop) : Prop where
  heeds : ∀ (known : ProjectRef → Prop) {call memory}, (∀ ref ∈ call.projects, known ref) →
    (∀ ref, holds memory ref → known ref) → ∀ moment,
    (host.react call moment memory).Heeds (fun action => ∀ ref ∈ action.projects, known ref)
      (fun reply reply' => reply = reply' ∧ ∀ ref ∈ reply.projects, known ref)
      (fun memory => ∀ ref, holds memory ref → known ref)

namespace Rerun

open Run Engine Journal

theorem known_projectContext {known : ProjectRef → Prop} {root : ProjectRef} (h : known root) :
    ∀ ref ∈ (projectContext root).projects, known ref :=
  List.forall_mem_singleton.2 h

def naming (known : ProjectRef → Prop) : Naming where
  detector := Eq
  context := fun c c' => c = c' ∧ ∀ ref ∈ c.projects, known ref

/-- Two runs at the same point of the check of known projects, with what they have written since
`before` and `before'`. -/
structure Checking (known : ProjectRef → Prop) (holds : σ → ProjectRef → Prop)
    (before before' : List Entry) (s t : State σ) : Prop extends State.Akin s t where
  scope : s.scope = t.scope
  canceled : s.canceled = t.canceled
  schedule : s.schedule = t.schedule
  memo : Option.Rel (naming known).Memos s.memo t.memo
  cancelReported : s.cancelReported = t.cancelReported
  memory : ∀ ref, holds s.host ref → known ref
  pointed : ∀ ref, known ref → s.project ref = t.project ref
  closed : ∀ ref, known ref → ∃ refs, (s.project ref).libraries = some refs ∧
    ∀ other ∈ refs, known other
  told : ∃ new, s.written = before ++ new ∧ t.written = before' ++ new

variable {known : ProjectRef → Prop} {holds : σ → ProjectRef → Prop} {before before' : List Entry}
  {s t : State σ}

namespace Checking

theorem write (h : Checking known holds before before' s t) {entry entry' : Entry}
    (hentry : entry = entry') :
    Checking known holds before before' (s.write entry) (t.write entry') := by
  subst hentry
  obtain ⟨new, hnew, hnew'⟩ := h.told
  refine { h with told := ⟨new ++ [entry], ?_, ?_⟩ }
  · rw [State.written_write, hnew, List.append_assoc]
  · rw [State.written_write, hnew', List.append_assoc]

theorem changed (h : Checking known holds before before' s t) (index : Nat)
    {change : Project → Project}
    (hchange : ∀ p, (change p.resetSubset).resetSubset = (change p).resetSubset)
    (hlibraries : ∀ p, (change p).libraries = p.libraries) :
    Checking known holds before before' (s.changed index change) (t.changed index change) := by
  refine { h with
    toAkin := h.toAkin.changed index hchange
    pointed := fun ref href => ?_
    closed := fun ref href => ?_ }
  · rw [State.project_modify, State.project_modify, h.pointed ref href, h.size]
  · obtain ⟨refs, hrefs, hknown⟩ := h.closed ref href
    refine ⟨refs, ?_, hknown⟩
    rw [State.project_modify]
    by_cases hchanged : index = ref.index ∧ ref.index < s.projects.size
    · rw [if_pos hchanged, hlibraries, hrefs]
    · rw [if_neg hchanged, hrefs]

theorem phase_eq (h : Checking known holds before before' s t) : s.phase = t.phase := by
  rw [State.phase, State.phase, h.schedule]

theorem moment (h : Checking known holds before before' s t) : s.moment = t.moment := by
  rw [State.moment, State.moment, h.scope, h.phase_eq, h.canceled]

theorem selection (h : Checking known holds before before' s t) : s.selection = t.selection := by
  rw [State.selection, State.selection, h.schedule]

theorem ownSchedule (h : Checking known holds before before' s t) :
    ownSlot.schedule s = ownSlot.schedule t := by
  show s.schedule.getD {} = t.schedule.getD {}
  rw [h.schedule]

theorem bonds : Bonds (fun memory => ∀ ref, holds memory ref → known ref)
    (Checking known holds before before') where
  akin := fun hst => hst.toAkin
  memory := fun hst => hst.memory
  logged := fun _ _ _ hst => hst.write rfl
  submitted := fun _ _ _ _ hst => hst.write rfl
  suppressed := fun _ _ _ _ hst => hst.write rfl
  configured := fun _ _ _ _ hst => hst.changed _ (fun _ => rfl) fun _ => rfl
  updated := fun change _ _ hchange hst =>
    { hst with
      host := congrArg change hst.host
      memory := hchange _ hst.memory }
  refiled := fun change _ _ hst => { hst with files := congrArg change hst.files }
  listening := fun change _ _ hst => { hst with listeners := congrArg change hst.listeners }
  search := fun hst => { hst with }

/-! ## Actions and calls -/

theorem requestRepeat (detector : Detector) (scope : Option ScopeSet) :
    Respects (Checking known holds before before') (Run.requestRepeat detector scope) :=
  bonds.requestRepeat schedule fun _ _ _ hst => { hst.write rfl with schedule := rfl }

theorem projects_shown (h : Checking known holds before before' s t) {ref : ProjectRef}
    (href : known ref) : ∀ other ∈ ref :: (s.project ref).libraries.getD [], known other := by
  obtain ⟨refs, hrefs, hknown⟩ := h.closed ref href
  rw [hrefs]
  exact List.forall_mem_cons.2 ⟨href, hknown⟩

theorem leads_of_projects {action : Action} (h : ∀ ref ∈ action.projects, known ref) :
    action.Leads fun call => ∀ ref ∈ call.projects, known ref := by
  cases action with
  | report made =>
    exact ⟨List.forall_mem_singleton.2 (h _ List.mem_cons_self), h, List.forall_mem_nil _⟩
  | log error message context => exact h
  | observe context issue scope project =>
    cases context with
    | none => trivial
    | some context =>
      cases issue with
      | none => trivial
      | some issue => exact List.forall_mem_singleton.2 (h _ List.mem_cons_self)
  | _ => trivial

theorem performs {e : Engine σ} {action : Action} (hprojects : ∀ ref ∈ action.projects, known ref)
    (hleads : action.Leads (Answers e e (Checking known holds before before'))) :
    Mirrors (Checking known holds before before')
      (fun reply reply' => reply = reply' ∧ ∀ ref ∈ reply.projects, known ref)
      (e.perform action) (e.perform action) := by
  have hplain : action.isPlain = true → Mirrors (Checking known holds before before')
      (fun reply reply' => reply = reply' ∧ ∀ ref ∈ reply.projects, known ref)
      (e.perform action) (e.perform action) := by
    intro hplain
    refine (bonds.perform (bonds.attuned (.refl e)) hplain (fun change _ => bonds.refiled change)
      hleads).imp ?_
    rintro reply _ ⟨rfl, hnone⟩
    rw [hnone]
    exact ⟨rfl, List.forall_mem_nil _⟩
  cases action with
  | requestRepeat detector scope =>
    exact (requestRepeat detector scope).bind fun _ _ _ => .pure ⟨rfl, List.forall_mem_nil _⟩
  | cancel =>
    exact Mirrors.andThen (.modify fun hst => { hst with canceled := rfl }) fun _ =>
      .pure ⟨rfl, List.forall_mem_nil _⟩
  | observe context issue scope project =>
    have hobserve : Mirrors (Checking known holds before before')
        (fun seen seen' => seen = seen' ∧ ∀ ref ∈ (Reply.observed seen).projects, known ref)
        (e.observe context issue scope project) (e.observe context issue scope project) := by
      refine bonds.observe (bonds.attuned (.refl e)) hleads (fun hst => ?_)
        fun hst huv shown hshown enabled => ?_
      · rw [hst.moment]
        exact ⟨rfl, List.forall_mem_nil _⟩
      · subst hshown
        have hproject : known shown.project := hprojects _ List.mem_cons_self
        refine ⟨by rw [hst.moment, huv.scope, huv.pointed _ hproject], ?_⟩
        cases project with
        | true => exact huv.projects_shown hproject
        | false => exact List.forall_mem_nil _
    refine hobserve.bind ?_
    rintro seen _ ⟨rfl, hseen⟩
    exact Mirrors.bind (R := Eq) (.modify fun hst => hst.write rfl) fun _ _ _ =>
      .pure ⟨rfl, hseen⟩
  | _ => exact hplain rfl

variable {host : Host σ}

theorem echoes (h : host.Discreet holds) :
    Echoes host (fun memory => ∀ ref, holds memory ref → known ref)
      (Checking known holds before before') (fun call => ∀ ref ∈ call.projects, known ref)
      (fun action => ∀ ref ∈ action.projects, known ref)
      (fun reply reply' => reply = reply' ∧ ∀ ref ∈ reply.projects, known ref) where
  toBonds := bonds
  reacts := fun _ hst => by rw [hst.moment, hst.host]
  heeds := fun hcall hst => h.heeds known hcall hst.memory _
  called := fun _ hst => hst.write (by rw [hst.moment])
  performs := fun _ he _ hmay => performs hmay ((leads_of_projects hmay).imp he)

variable (h : host.Discreet holds) (opts : Options)

include h

theorem answers (call : Call) (hcall : ∀ ref ∈ call.projects, known ref) :
    Answers (host.engine opts) (host.engine opts) (Checking known holds before before')
      call :=
  (echoes h).invoke opts Host.nestingLimit hcall

theorem fire (event : Event) (context : Option Context)
    (hcontext : ∀ ref ∈ (context.map Context.projects).getD [], known ref) :
    Respects (Checking known holds before before') ((host.engine opts).fire event context) :=
  bonds.fire (fun listener => answers h opts (.listener listener event context) hcontext)
    fun hst => hst.write (by rw [hst.moment])

theorem ask {detector : Detector} {hook : Hook}
    (hhook : ∀ ref ∈ (hook.context?.map Context.projects).getD [], known ref) :
    Respects (Checking known holds before before') ((host.engine opts).ask detector hook) :=
  answers h opts (.detector detector hook) hhook

/-! ## A phase of a project -/

theorem visits :
    Visits (host.engine opts) (host.engine opts) (naming known)
      (Checking known holds before before') where
  file := fun hc => by rw [hc.1]
  elementNames := fun hd hst => by rw [hd, hst.host]
  attributeNames := fun hd hst => by rw [hd, hst.host]
  nodeTypes := fun hd hst => by rw [hd, hst.host]
  appliesToFile := fun _ hd hc hst => by rw [hd, hc.1, hst.host]
  ask := by
    rintro d _ hook hook' rfl hhook
    cases hhook with
    | appliesToFolder | elementNames | attributeNames | nodeTypes =>
      exact ask h opts (List.forall_mem_nil _)
    | beforeFile hc | afterFile hc | run hc | document _ hc | element _ hc | compilationUnit _ hc
    | classFile _ hc | appliesToFile _ _ hc | elementAttribute _ _ hc | node _ _ hc =>
      obtain ⟨rfl, hknown⟩ := hc
      exact ask h opts hknown
  parseMarkup := by
    rintro c _ ⟨rfl, hknown⟩
    exact bonds.parseMarkup (.refl _) (answers h opts _ hknown)
  parseSource := by
    rintro c _ ⟨rfl, hknown⟩
    exact bonds.parseSource (.refl _) (answers h opts _ hknown)

theorem strides : Strides (host.engine opts) (host.engine opts) (naming known)
    (Checking known holds before before') where
  toVisits := visits h opts
  unique := ⟨fun _ _ _ hab hcb => hab.trans hcb.symm, fun _ _ _ hab hac => hab.symm.trans hac⟩
  scans := fun _ hd => by rw [hd]
  files := fun hst => hst.files
  scope := fun hst => hst.scope
  selection := fun hst => by
    rw [hst.selection]
    exact List.forall₂_same.2 fun _ _ => ⟨rfl, rfl⟩
  memo := fun hst => hst.memo
  remembered := fun hmemo hst => { hst with memo := hmemo }
  supplies := fun _ _ _ hst => by rw [hst.host]
  appliesToFolder := fun _ _ _ _ _ hd hst => by rw [hd, hst.host]
  readClass := fun bytes =>
    bonds.readClass (.refl _) (answers h opts (.readClass bytes) (List.forall_mem_nil _))
  log := fun _ _ => bonds.log (bonds.attuned (.refl _)) (answers h opts _ (List.forall_mem_nil _))
  fire := by
    rintro c _ ⟨rfl, hknown⟩
    exact fire h opts .scanningFile (some c) hknown

omit h in
theorem samePass {ref main : ProjectRef} (href : known ref) (hmain : known main) :
    SamePass (naming known) (Checking known holds before before') ⟨ref, main⟩ ⟨ref, main⟩ where
  context := fun _ _ =>
    ⟨rfl, List.forall_mem_cons.2 ⟨href, List.forall_mem_singleton.2 hmain⟩⟩
  dir := rfl
  own := Iff.rfl
  outline := fun hst => by rw [hst.pointed ref href]
  read := fun document _ _ hst => by
    refine hst.changed _ (fun p => ?_) fun p => ?_
    · rw [Project.readManifest, Project.readManifest]
      repeat' split
      all_goals rfl
    · rw [Project.readManifest]
      repeat' split
      all_goals rfl

theorem phase {root : ProjectRef} (hroot : known root) :
    Phase (host.engine opts) (naming known) (Checking known holds before before') root root where
  strides := fun _ => strides h opts
  canceled := fun hst => hst.canceled
  level := by
    rintro - d _ hook hook' rfl hhook
    cases hhook with
    | _ hc =>
      obtain ⟨rfl, hknown⟩ := hc
      exact ask h opts hknown
  announce := by
    rintro - event c _ - ⟨rfl, hknown⟩
    exact fire h opts event (some c) hknown
  project := ⟨rfl, known_projectContext hroot⟩
  pass := fun _ => samePass hroot hroot
  libraries := by
    intro _ s t hst
    obtain ⟨refs, hrefs, hknown⟩ := hst.closed root hroot
    rw [libraries_of_known _ hrefs,
      libraries_of_known _ ((congrArg Project.libraries (hst.pointed root hroot)).symm.trans hrefs)]
    refine .ok (List.forall₂_same.2 fun library hlibrary => ?_) hst
    have hlibrary := hknown library hlibrary
    exact ⟨⟨rfl, List.forall_mem_cons.2 ⟨hlibrary, List.forall_mem_singleton.2 hroot⟩⟩,
      fun _ => samePass hlibrary hroot⟩

end Checking
end Rerun
end ProjectLint
