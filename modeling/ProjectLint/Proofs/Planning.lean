/-
The choice of detectors. The first phase of a project asks for its configuration and makes new
instances, numbered after all that were made before. By then the configuration is known and stays
so: the later phases choose among the instances that asked to run again without any call.
-/
import ProjectLint.Proofs.Upkeep.Phases

namespace ProjectLint

namespace State

/-- The configuration that was loaded for a project. -/
def Configured (s : State σ) (ref : ProjectRef) (config : Configuration) : Prop :=
  ∃ p, s.projects[ref.index]? = some p ∧ p.configuration = some config

namespace Configured

variable {s : State σ} {ref other : ProjectRef} {config : Configuration}

variable (h : s.Configured ref config)

include h

theorem project_eq (hindex : other.index = ref.index) :
    (s.project other).configuration = some config := by
  obtain ⟨p, hp, hconfig⟩ := h
  rw [State.project, Array.getD_eq_getD_getElem?, hindex, hp]
  exact hconfig

theorem unknown (hnone : (s.project other).configuration = none) : other.index ≠ ref.index := by
  intro hindex
  rw [h.project_eq hindex] at hnone
  cases hnone

theorem changed (index : Nat) {change : Project → Project}
    (hchange : index = ref.index → ∀ p, (change p).configuration = p.configuration) :
    Configured (s.changed index change) ref config := by
  obtain ⟨p, hp, hconfig⟩ := h
  obtain ⟨q, hq, ⟨hindex, rfl⟩ | rfl⟩ := getElem?_modify_of hp index change
  · exact ⟨_, hq, (hchange hindex p).trans hconfig⟩
  · exact ⟨q, hq, hconfig⟩

theorem added (project : Project) : Configured (s.extended project) ref config := by
  obtain ⟨p, hp, hconfig⟩ := h
  exact ⟨p, getElem?_push_of hp project, hconfig⟩

end Configured

theorem has_of_libraries {s : State σ} {ref : ProjectRef} {refs : List ProjectRef}
    (h : (s.project ref).libraries = some refs) : s.Has ref := by
  rw [State.project, Array.getD_eq_getD_getElem?] at h
  cases hp : s.projects[ref.index]? with
  | none => rw [hp] at h; cases h
  | some p => exact (Array.getElem?_eq_some_iff.1 hp).1

def restarted (s : State σ) : State σ :=
  { s with schedule := some (Engine.restarted (Engine.ownSlot.schedule s)) }

def planned (s : State σ) (scope : ScopeSet) (selection : Selection) : State σ :=
  { s.write (.logged ⟨.debug, "[IssueRegistry] Created " ++ toString selection.members.length ++
      " detectors for scope " ++ scope.text, []⟩) with
    schedule := some { Engine.ownSlot.schedule s with selection } }.write
    (.planned (Engine.ownSlot.schedule s).phase selection.detectors)

def repeating (s : State σ) (config : Configuration) : Selection :=
  Schedule.repeating s.registry config (Engine.ownSlot.schedule s).requested

def replanned (s : State σ) (config : Configuration) : State σ :=
  let schedule := Engine.ownSlot.schedule s
  ({ s with
      schedule := some { schedule with requests := none, selection := s.repeating config } }.write
    (.planned schedule.phase (s.repeating config).detectors)).write
    (.logged ⟨.debug, "[DetectorScheduler] Phase " ++ toString schedule.phase ++ ": repeating " ++
      toString (s.repeating config).members.length ++ " of " ++
      toString schedule.requested.length ++ " requested detectors", []⟩)

def repeated (s : State σ) (config : Configuration) : State σ :=
  { s.replanned config with memo := none }

end State

namespace Engine

open Run

variable {s s' : State σ}

/-! ## New instances -/

theorem serialOf_cons (serials : List (DetectorClass × Nat)) (name other : DetectorClass)
    (serial : Nat) :
    serialOf ((name, serial) :: serials.filter (·.1 != name)) other =
      if other = name then serial else serialOf serials other := by
  by_cases hname : other = name
  · rw [if_pos hname, serialOf, hname, List.lookup_cons_self]
    rfl
  · have hbeq : (other == name) = false := beq_eq_false_iff_ne.2 hname
    have hrest : (serials.filter (·.1 != name)).lookup other = serials.lookup other := by
      induction serials with
      | nil => rfl
      | cons entry rest ih =>
        obtain ⟨known, number⟩ := entry
        by_cases hknown : known = name
        · have hother : (other == known) = false := by rw [hknown]; exact hbeq
          rw [List.filter_cons_of_neg (by simp [hknown]), ih, List.lookup_cons, hother]
        · rw [List.filter_cons_of_pos (by simp [hknown]), List.lookup_cons, List.lookup_cons, ih]
    rw [if_neg hname, serialOf, List.lookup_cons, hbeq, hrest]
    rfl

structure Counted (s s' : State σ) : Prop where
  state : ∃ serials, s' = { s with serials }
  grown : ∀ name, serialOf s.serials name ≤ serialOf s'.serials name

theorem Counted.refl (s : State σ) : Counted s s :=
  ⟨⟨s.serials, rfl⟩, fun _ => Nat.le_refl _⟩

theorem Counted.trans {t : State σ} (h : Counted s t) (h' : Counted t s') : Counted s s' := by
  obtain ⟨⟨serials, rfl⟩, hgrown⟩ := h
  obtain ⟨⟨serials', rfl⟩, hgrown'⟩ := h'
  exact ⟨⟨serials', rfl⟩, fun name => Nat.le_trans (hgrown name) (hgrown' name)⟩

def Newborn (s s' : State σ) (detector : Detector) : Prop :=
  serialOf s.serials detector.className < detector.serial ∧
    detector.serial ≤ serialOf s'.serials detector.className

theorem instantiate_spec (e : Engine σ) (name : DetectorClass) (s : State σ) :
    Counted s (endState (e.instantiate name s)) ∧
      ∀ detector s', e.instantiate name s = .ok detector s' →
        detector.className = name ∧ Newborn s s' detector := by
  rw [instantiate, get_bind]
  cases e.host.construct name s.host with
  | error fault => exact ⟨.refl s, fun _ _ h => by cases h⟩
  | ok made =>
    have hserial := serialOf_cons s.serials name name (serialOf s.serials name + 1)
    rw [if_pos rfl] at hserial
    refine ⟨⟨⟨_, rfl⟩, fun other => ?_⟩, fun detector s' h => ?_⟩
    · show serialOf s.serials other ≤
        serialOf ((name, serialOf s.serials name + 1) :: s.serials.filter (·.1 != name)) other
      rw [serialOf_cons]
      by_cases hother : other = name
      · rw [if_pos hother, hother]
        exact Nat.le_succ _
      · rw [if_neg hother]
    · cases h
      exact ⟨rfl, Nat.lt_succ_self _, Nat.le_of_eq hserial.symm⟩

theorem instantiateAll_spec (e : Engine σ) (classes : List (DetectorClass × ScopeSet))
    (s : State σ) :
    Counted s (endState (e.instantiateAll classes s)) ∧
      ∀ members s', e.instantiateAll classes s = .ok members s' →
        members.map (fun member => (member.1.className, member.2)) = classes ∧
          ∀ member ∈ members, Newborn s s' member.1 := by
  induction classes generalizing s with
  | nil =>
    refine ⟨.refl s, fun members s' h => ?_⟩
    cases h
    exact ⟨rfl, fun _ hmember => absurd hmember List.not_mem_nil⟩
  | cons entry rest ih =>
    obtain ⟨name, scope⟩ := entry
    obtain ⟨hcounted, hmade⟩ := instantiate_spec e name s
    rw [instantiateAll]
    cases hfirst : e.instantiate name s with
    | error fault s₁ =>
      rw [bind_of_error hfirst]
      rw [hfirst] at hcounted
      exact ⟨hcounted, fun _ _ h => by cases h⟩
    | ok detector s₁ =>
      rw [hfirst] at hcounted
      obtain ⟨hname, hborn⟩ := hmade detector s₁ hfirst
      obtain ⟨hcounted', hrest⟩ := ih s₁
      rw [bind_of_ok hfirst]
      cases hothers : e.instantiateAll rest s₁ with
      | error fault s₂ =>
        rw [bind_of_error hothers]
        rw [hothers] at hcounted'
        exact ⟨hcounted.trans hcounted', fun _ _ h => by cases h⟩
      | ok others s₂ =>
        rw [bind_of_ok hothers]
        rw [hothers] at hcounted'
        obtain ⟨hclasses, hborn'⟩ := hrest others s₂ hothers
        refine ⟨hcounted.trans hcounted', fun members s' h => ?_⟩
        cases h
        refine ⟨by rw [List.map_cons, hclasses, hname], fun member hmember => ?_⟩
        rcases List.mem_cons.1 hmember with rfl | hmember
        · exact ⟨hborn.1, Nat.le_trans hborn.2 (hcounted'.grown _)⟩
        · exact ⟨Nat.lt_of_le_of_lt (hcounted.grown _) (hborn' member hmember).1,
            (hborn' member hmember).2⟩

/-! ## Projects -/

theorem checkSelection_cases (e : Engine σ) (selection : Selection) (s : State σ) :
    e.checkSelection selection s = .ok () s ∨
      ∃ fault, e.checkSelection selection s = .error fault s := by
  rw [checkSelection]
  cases e.options.assertions with
  | false => exact .inl rfl
  | true =>
    rw [if_pos rfl]
    cases e.misplaced? selection with
    | none => exact .inl rfl
    | some fault => exact .inr ⟨fault, rfl⟩

theorem checkSelection_eq_ok {e : Engine σ} {selection : Selection} {s s' : State σ}
    (h : e.checkSelection selection s = .ok () s') : s' = s := by
  rcases checkSelection_cases e selection s with heq | ⟨fault, heq⟩ <;> cases heq.symm.trans h
  rfl

theorem keeps_checkSelection {I : State σ → Prop} (e : Engine σ) (selection : Selection) :
    Keeps I (e.checkSelection selection) := by
  intro s hs
  rcases checkSelection_cases e selection s with heq | ⟨fault, heq⟩
  · rwa [heq]
  · rwa [heq]

theorem Bears.plan {host : Host σ} {I : State σ → Prop} {may : Action → Prop}
    {allowed : (σ → σ) → Prop} (hI : Bears host I may allowed) (opts : Options)
    (hschedule : ∀ schedule {s}, I s → I { s with schedule })
    (hserials : ∀ serials {s}, I s → I { s with serials })
    (hplanned : ∀ phase detectors {s}, I s → I (s.write (.planned phase detectors)))
    (ref : ProjectRef) (scope : ScopeSet) :
    Keeps I ((host.engine opts).plan ownSlot ((host.engine opts).configuration ref) scope) := by
  have hconfig : Keeps I ((host.engine opts).configuration ref) :=
    Bears.configuration hI (hI.serves opts) ref
  refine Keeps.bind (.modify (hschedule _)) fun _ => hconfig.bind fun config => ?_
  refine Keeps.bind (.inspect fun s _ => Keeps.bind (fun t ht => ?_) fun members =>
    (hI.note _ _ _).bind fun _ => .pure _) fun selection => ?_
  · obtain ⟨⟨serials, heq⟩, -⟩ := (instantiateAll_spec (host.engine opts)
      (s.registry.selectedClasses config scope) t).1
    rw [heq]
    exact hserials serials ht
  · refine Keeps.bind (fun t ht => ?_) fun _ =>
      (keeps_checkSelection _ selection).bind fun _ => .pure _
    exact hplanned _ _ (hschedule _ ht)

/-- A property of the projects alone that survives what is done to them: no call and no phase of any
project can end it. -/
structure Lasts (I : State σ → Prop) : Prop where
  projects : ∀ {s t}, I s → t.projects = s.projects → I t
  configured : ∀ (ref : ProjectRef) config {s₀ s}, I s₀ →
    (s₀.project ref).configuration = none → I s →
    I (s.changed ref.index ({ · with configuration := some config }))
  changed : ∀ index (change : Project → Project) {s},
    (∀ p, (change p).dir = p.dir ∧ (change p).libraries = p.libraries ∧
      (change p).configuration = p.configuration) → I s →
    I (s.changed index change)
  added : ∀ project {s}, project.libraries = none → I s → I (s.extended project)
  linked : ∀ (ref : ProjectRef) refs {s₀ s}, I s₀ → (s₀.project ref).libraries = none → I s →
    I (s.changed ref.index ({ · with libraries := some refs }))

theorem lasts_configured (ref : ProjectRef) (config : Configuration) :
    Lasts fun s : State σ => s.Configured ref config where
  projects := fun h heq => by rwa [State.Configured, heq]
  configured := fun _ _ _ _ h₀ hnone h =>
    h.changed _ fun hindex => absurd hindex (h₀.unknown hnone)
  changed := fun _ _ _ hchange h => h.changed _ fun _ p => (hchange p).2.2
  added := fun project _ _ h => h.added project
  linked := fun _ _ _ _ _ _ h => h.changed _ fun _ _ => rfl

theorem lasts_has (ref : ProjectRef) : Lasts fun s : State σ => s.Has ref where
  projects := fun h heq => by rwa [State.Has, heq]
  configured := fun _ _ _ _ _ _ h => (State.has_changed _ _).2 h
  changed := fun _ _ _ _ h => (State.has_changed _ _).2 h
  added := fun project _ _ h => State.has_push project h
  linked := fun _ _ _ _ _ _ h => (State.has_changed _ _).2 h

theorem lasts_forall {I : α → State σ → Prop} (elements : List α) (h : ∀ a, Lasts (I a)) :
    Lasts fun s => ∀ a ∈ elements, I a s where
  projects := fun hs heq a ha => (h a).projects (hs a ha) heq
  configured := fun ref config _ _ hs₀ hnone hs a ha =>
    (h a).configured ref config (hs₀ a ha) hnone (hs a ha)
  changed := fun index change _ hchange hs a ha => (h a).changed index change hchange (hs a ha)
  added := fun project _ hlibraries hs a ha => (h a).added project hlibraries (hs a ha)
  linked := fun ref refs _ _ hs₀ hnone hs a ha => (h a).linked ref refs (hs₀ a ha) hnone (hs a ha)

theorem lasts_libraries (ref : ProjectRef) (refs : List ProjectRef) :
    Lasts fun s : State σ => (s.project ref).libraries = some refs := by
  have hchanged : ∀ {s : State σ} {index : Nat} {change : Project → Project},
      (s.project ref).libraries = some refs →
      (index = ref.index → (change (s.project ref)).libraries = some refs) →
      (State.project (s.changed index change) ref).libraries = some refs := by
    intro s index change h hchange
    rw [State.project_modify]
    split
    · exact hchange (by tauto)
    · exact h
  exact {
    projects := fun h heq => by rwa [project_congr heq]
    configured := fun _ _ _ _ _ _ h => hchanged h fun _ => h
    changed := fun _ _ _ hchange h => hchanged h fun _ => (hchange _).2.1.trans h
    added := fun project _ _ h => by rwa [State.project_push project (State.has_of_libraries h)]
    linked := fun other _ s₀ _ h₀ hnone h => hchanged h fun hindex => by
      have hsame : (s₀.project other).libraries = (s₀.project ref).libraries := by
        have hhas := State.has_of_libraries h₀
        have hboth : s₀.Has other := by rwa [State.Has, hindex]
        have hproject := State.getElem?_of_has hboth
        rw [hindex, State.getElem?_of_has hhas] at hproject
        rw [Option.some.inj hproject]
      cases (hnone.symm.trans hsame).trans h₀ }

namespace Lasts

variable {I : State σ → Prop} (h : Lasts I) (host : Host σ) (opts : Options)

include h

/-- What lasts may be taken to look at nothing but the projects. -/
theorem wlog {P : (State σ → Prop) → Prop}
    (hP : ∀ J : Array Project → Prop, Lasts (fun s : State σ => J s.projects) →
      P fun s => J s.projects) : P I := by
  have hsame : I = fun s => ∃ t : State σ, I t ∧ s.projects = t.projects :=
    funext fun s => propext ⟨fun hs => ⟨s, hs, rfl⟩, fun ⟨_, ht, heq⟩ => h.projects ht heq⟩
  rw [hsame] at h ⊢
  exact hP (fun projects => ∃ t : State σ, I t ∧ projects = t.projects) h

theorem finds : Finds host I (fun _ => True) fun _ => True :=
  h.wlog (P := (Finds host · _ _)) fun _ h =>
    { configured := h.configured, changed := h.changed, added := h.added, linked := h.linked }

theorem custody : Custody (host.engine opts) I (fun _ => True) (fun _ => True) fun _ => True := by
  refine h.wlog (P := (Custody _ · _ _ _)) fun _ h => ?_
  have hfinds := h.finds host
  have hinvoke : ∀ call, Upholds _ (fun _ => True) ((host.engine opts).invoke call) := fun _ =>
    .of_keeps fun s hs => hfinds.invoke (s := s) opts (Script.within_true _) hs
  exact {
    call := fun _ _ => hinvoke _
    risky := fun _ => hinvoke _
    write := fun _ _ hs => hs
    due := fun _ => trivial
    read := fun _ document _ hs =>
      h.changed _ (·.readManifest document) (fun p => p.readManifest_settled document) hs
    configuration := fun ref =>
      .of_keeps (Bears.configuration hfinds.toBears (hfinds.serves opts) ref)
    submit := fun _ => .of_keeps fun _ hs => Bears.submit hfinds.toBears (hfinds.serves opts) hs
    libraries := fun _ => .of_keeps (hfinds.libraries opts _) }

theorem fire (event : Event) (context : Option Context) :
    Keeps I ((host.engine opts).fire event context) :=
  ((h.custody host opts).visiting.fire fun hs => h.projects hs rfl).keeps

theorem checkPhase (project : ProjectRef) : Keeps I ((host.engine opts).checkPhase project) :=
  ((h.custody host opts).checkPhase trivial).keeps

theorem checkProject (project : ProjectRef) : Keeps I ((host.engine opts).checkProject project) :=
  ((h.custody host opts).checkProject trivial).keeps

theorem extraPhases (project : ProjectRef) (fuel : Nat) :
    Keeps I ((host.engine opts).extraPhases project fuel) :=
  ((h.custody host opts).extraPhases trivial fuel).keeps

theorem repeatPhases (project : ProjectRef) : Keeps I ((host.engine opts).repeatPhases project) :=
  ((h.custody host opts).repeatPhases trivial).keeps

theorem checkRoot (project : ProjectRef) : Keeps I ((host.engine opts).checkRoot project) :=
  ((h.custody host opts).checkRoot trivial).keeps

theorem checkRoots (current : ProjectRef) (roots : List ProjectRef) :
    Keeps I ((host.engine opts).checkRoots current roots) :=
  ((h.custody host opts).checkRoots current fun _ _ => trivial).keeps

theorem finish (current : ProjectRef) (elapsed : Int) :
    Keeps I ((host.engine opts).finish current elapsed) :=
  ((h.custody host opts).finish current elapsed).keeps

end Lasts

section Known

variable {host : Host σ} {ref : ProjectRef} {config : Configuration} (opts : Options)

theorem configured_of_ok (hs : s.Has ref)
    (h : (host.engine opts).configuration ref s = .ok config s') : s'.Configured ref config := by
  rw [configuration, get_bind] at h
  cases hknown : (s.project ref).configuration with
  | some known =>
    rw [hknown] at h
    cases h
    exact ⟨s.project ref, State.getElem?_of_has hs, hknown⟩
  | none =>
    rw [hknown] at h
    obtain ⟨made, s₁, hask, h⟩ := bind_eq_ok h
    cases h
    have hlater := (frames_of_finds host fun h =>
      Bears.askConfiguration h.toBears (h.serves opts) ref).ok hask
    refine ⟨{ s₁.project ref with configuration := some config }, ?_, rfl⟩
    show (s₁.projects.modify ref.index _)[ref.index]? = _
    rw [Array.getElem?_modify, if_pos rfl, State.getElem?_of_has (hlater.has hs)]
    rfl

theorem plan_eq_ok {e : Engine σ} {scope : ScopeSet} {detectors : List Detector}
    (h : e.plan ownSlot (e.configuration ref) scope s = .ok detectors s') :
    ∃ config s₁ members s₂, e.configuration ref s.restarted = .ok config s₁ ∧
      e.instantiateAll (s₁.registry.selectedClasses config scope) s₁ = .ok members s₂ ∧
      detectors = members.map Prod.fst ∧ s' = s₂.planned scope ⟨members⟩ := by
  rw [plan, bind_of_ok (x := ownSlot.change restarted) rfl] at h
  obtain ⟨config, s₁, hconfig, h⟩ := bind_eq_ok h
  obtain ⟨selection, s₃, hselect, h⟩ := bind_eq_ok h
  rw [select, get_bind] at hselect
  obtain ⟨members, s₂, hmembers, hselect⟩ := bind_eq_ok hselect
  cases hselect
  obtain ⟨_, s₄, hchoose, h⟩ := bind_eq_ok h
  cases hchoose
  obtain ⟨_, s₅, hcheck, h⟩ := bind_eq_ok h
  cases h
  obtain rfl := checkSelection_eq_ok hcheck
  exact ⟨config, s₁, members, s₂, hconfig, hmembers, rfl, rfl⟩

theorem plan_configured {scope : ScopeSet} {detectors : List Detector} (hs : s.Has ref)
    (h : (host.engine opts).plan ownSlot ((host.engine opts).configuration ref) scope s =
      .ok detectors s') : ∃ config, s'.Configured ref config := by
  obtain ⟨config, s₁, members, s₂, hconfig, hmembers, -, rfl⟩ := plan_eq_ok h
  have hknown := configured_of_ok opts (s := s.restarted) hs hconfig
  obtain ⟨⟨serials, heq⟩, -⟩ := (instantiateAll_spec (host.engine opts)
    (s₁.registry.selectedClasses config scope) s₁).1
  rw [hmembers, endState_ok] at heq
  rw [heq]
  exact ⟨config, hknown⟩

theorem configuration_of_known (e : Engine σ) (h : s.Configured ref config) :
    e.configuration ref s = .ok config s := by
  rw [configuration, get_bind, h.project_eq rfl]
  rfl

end Known

theorem replan_of_known (e : Engine σ) {ref : ProjectRef} {config : Configuration}
    (h : s.Configured ref config) :
    e.replan ownSlot (e.configuration ref) s =
      (e.checkSelection (s.repeating config) >>= fun _ =>
        pure (s.repeating config).detectors : Run σ (List Detector)) (s.replanned config) := by
  have hknown : State.Configured
      { s with schedule := some { ownSlot.schedule s with requests := none } } ref config := h
  rw [replan, get_bind, bind_of_ok (x := ownSlot.change _) rfl]
  exact bind_of_ok (configuration_of_known e hknown)

theorem laterPhases_cases (e : Engine σ) {ref : ProjectRef} {config : Configuration} (fuel : Nat)
    (h : s.Configured ref config) :
    s.scope.isEmpty = true ∧ e.laterPhases ref fuel s = .ok () s ∨
    s.scope.isEmpty = false ∧
      ((∃ fault, e.laterPhases ref fuel s = .error fault (s.replanned config)) ∨
        (s.repeating config).detectors = [] ∧
          e.laterPhases ref fuel s = .ok () (s.repeated config) ∨
        ∃ first rest, (s.repeating config).detectors = first :: rest ∧
          e.laterPhases ref fuel s =
            (e.checkProject ref >>= fun _ => e.goOn ref fuel (first :: rest))
              (s.repeated config)) := by
  rw [laterPhases, get_bind]
  cases hempty : s.scope.isEmpty with
  | true => exact .inl ⟨rfl, rfl⟩
  | false =>
    refine .inr ⟨rfl, ?_⟩
    rw [if_neg Bool.false_ne_true]
    have hreplan := replan_of_known e h
    rcases checkSelection_cases e (s.repeating config) (s.replanned config) with
      hok | ⟨fault, hno⟩
    · rw [bind_of_ok hok] at hreplan
      rw [bind_of_ok hreplan, bind_of_ok (x := forgetVisitor) rfl]
      cases hdetectors : (s.repeating config).detectors with
      | nil =>
        refine .inr (.inl ⟨rfl, ?_⟩)
        show e.goOn ref fuel [] (s.repeated config) = _
        have hpending : (ownSlot.schedule (s.repeated config)).isPending = false := rfl
        rw [goOn, get_bind, hpending, Bool.not_false, Bool.or_true, if_pos rfl]
        rfl
      | cons first rest => exact .inr (.inr ⟨first, rest, rfl, rfl⟩)
    · rw [bind_of_error hno] at hreplan
      exact .inl ⟨fault, bind_of_error hreplan⟩

theorem extraPhases_announced (host : Host σ) (opts : Options) (ref : ProjectRef) (fuel : Nat)
    {advanced : Schedule} (h : (ownSlot.schedule s).advance? = some advanced) :
    ∃ s₁, (host.engine opts).fire .newPhase (some (projectContext ref))
        { s with schedule := some advanced } = .ok () s₁ ∧
      (host.engine opts).extraPhases ref (fuel + 1) s =
        (host.engine opts).laterPhases ref fuel s₁.narrow := by
  obtain ⟨s₁, hfire, -⟩ := fire_eq_ok host opts .newPhase (some (projectContext ref))
    { s with schedule := some advanced }
  refine ⟨s₁, hfire, ?_⟩
  rw [extraPhases_of_some _ _ _ h, bind_of_ok hfire]
  rfl

theorem checkRoot_cases (e : Engine σ) (ref : ProjectRef) (s : State σ) :
    (∃ fault t, e.plan ownSlot (e.configuration ref) s.scope s = .error fault t ∧
      e.checkRoot ref s = .error fault t) ∨
    ∃ detectors t, e.plan ownSlot (e.configuration ref) s.scope s = .ok detectors t ∧
      (detectors = [] ∧ e.checkRoot ref s = .ok () ({ t with memo := none }.write (.logged
          ⟨.debug, "[LintEngine] No detectors enabled for " ++ ref.dir ++ "; skipping", []⟩)) ∨
        detectors ≠ [] ∧ e.checkRoot ref s =
          (e.checkProject ref >>= fun _ => unlessCanceled (e.repeatPhases ref))
            { t with memo := none }) := by
  rw [checkRoot, get_bind]
  cases hplan : e.plan ownSlot (e.configuration ref) s.scope s with
  | error fault t => exact .inl ⟨fault, t, rfl, bind_of_error hplan⟩
  | ok detectors t =>
    refine .inr ⟨detectors, t, rfl, ?_⟩
    rw [bind_of_ok hplan, bind_of_ok (x := forgetVisitor) rfl]
    cases detectors with
    | nil => exact .inl ⟨rfl, rfl⟩
    | cons first rest => exact .inr ⟨List.cons_ne_nil first rest, rfl⟩

end Engine
end ProjectLint
