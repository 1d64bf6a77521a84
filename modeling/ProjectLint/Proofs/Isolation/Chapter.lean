/-
The check of a project, from the choice of its detectors to its last phase, in two runs. The
instances are new in both; as many are made, of the same classes in the same order, and they begin
with the same memory. So the two checks are the same up to names: what is seen of one is seen of the
other.
-/
import ProjectLint.Proofs.Isolation.Beside
import ProjectLint.Proofs.Selections

namespace ProjectLint

open Journal
open List (Forall₂)

variable {selection selection' : Selection}

/-! ## Schedules -/

namespace Pairing.Schedules

variable {n : Pairing} {schedule schedule' : Schedule} (h : n.Schedules schedule schedule')

include h

theorem isPending_eq : schedule.isPending = schedule'.isPending := by
  have hrequests := h.requests
  rw [Schedule.isPending, Schedule.isPending]
  generalize schedule.requests = known at hrequests
  generalize schedule'.requests = known' at hrequests
  cases hrequests <;> rfl

theorem narrowed_eq (scope : ScopeSet) : schedule.narrowed scope = schedule'.narrowed scope := by
  have hrequests := h.requests
  rw [Schedule.narrowed, Schedule.narrowed]
  generalize schedule.requests = known at hrequests
  generalize schedule'.requests = known' at hrequests
  cases hrequests with
  | none => rfl
  | some hknown => exact congrArg scope.inter hknown.scope

theorem requested : Forall₂ n.detector schedule.requested schedule'.requested := by
  have hrequests := h.requests
  rw [Schedule.requested, Schedule.requested]
  generalize schedule.requests = known at hrequests
  generalize schedule'.requests = known' at hrequests
  cases hrequests with
  | none => exact .nil
  | some hknown => exact hknown.detectors

theorem advance : Option.Rel n.Schedules schedule.advance? schedule'.advance? := by
  rw [Schedule.advance?, Schedule.advance?, h.phase]
  by_cases hlast : Options.maxPhases ≤ schedule'.phase
  · rw [if_pos hlast, if_pos hlast]
    exact .none
  · rw [if_neg hlast, if_neg hlast]
    exact .some { h with phase := rfl }

end Pairing.Schedules

namespace Pairing

variable {n : Pairing} {detectors detectors' : List Detector}

theorem repeating (registry : Registry) (config : Configuration)
    (h : Forall₂ n.detector detectors detectors') :
    Forall₂ n.naming.Members (Schedule.repeating registry config detectors).members
      (Schedule.repeating registry config detectors').members := by
  refine List.rel_filterMap ?_ h
  intro d d' hd
  beta_reduce
  rw [n.className hd]
  cases registry.enabledIssues config d'.className with
  | nil => exact .none
  | cons issue rest => exact .some ⟨hd, rfl⟩

theorem find_className (f : DetectorClass → Bool) (h : Forall₂ n.detector detectors detectors') :
    (detectors.find? fun d => f d.className).map Detector.className =
      (detectors'.find? fun d => f d.className).map Detector.className := by
  induction h with
  | nil => rfl
  | @cons d d' rest rest' hd _ ih =>
    rw [List.find?_cons, List.find?_cons, n.className hd]
    cases f d'.className with
    | true => exact congrArg some (n.className hd)
    | false => exact ih

theorem misplaced_eq (e : Engine σ)
    (h : Forall₂ n.naming.Members selection.members selection'.members) :
    e.misplaced? selection = e.misplaced? selection' := by
  refine congrArg (Scope.all.findSome? ·) (funext fun scope => ?_)
  refine congrArg ((Scanner.required? scope).bind ·) (funext fun scanner => ?_)
  have hfind := find_className (fun name => !e.host.scans name scanner) (Naming.bucket h scope)
  have hfault := congrArg (Option.map fun name => Fault.wrongScanner name scope scanner) hfind
  rwa [Option.map_map, Option.map_map] at hfault

end Pairing

namespace Comparison

open Run Engine

variable {k : Comparison σ τ} {s t : State σ} {root root' : ProjectRef} (opts : Options)

namespace Beside

theorem rescheduled (h : k.Beside s t) {x x' : Schedule} (hx : k.n.Schedules x x') :
    k.Beside { s with schedule := some x } { t with schedule := some x' } :=
  { h with left := { h.left with }, right := { h.right with }, schedule := ⟨x, x', rfl, rfl, hx⟩ }

theorem rescoped (h : k.Beside s t) (scope : ScopeSet) :
    k.Beside { s with scope } { t with scope } :=
  { h with left := { h.left with }, right := { h.right with }, scope := rfl }

theorem ownSchedule (h : k.Beside s t) :
    k.n.Schedules (ownSlot.schedule s) (ownSlot.schedule t) := by
  obtain ⟨x, x', hx, hx', hschedules⟩ := h.schedule
  show k.n.Schedules (s.schedule.getD {}) (t.schedule.getD {})
  rw [hx, hx']
  exact hschedules

theorem narrow (h : k.Beside s t) : k.Beside s.narrow t.narrow := by
  have hrescoped := h.rescoped ((ownSlot.schedule t).narrowed t.scope)
  rw [State.narrow, State.narrow, h.ownSchedule.narrowed_eq, h.scope]
  exact hrescoped

end Beside

/-! ## Phases -/

theorem mirrors_forgetVisitor : Respects k.Beside forgetVisitor :=
  .modify fun hst =>
    { hst with left := { hst.left with }, right := { hst.right with }, memo := .none }

theorem mirrors_changeSlot {change change' : Schedule → Schedule}
    (h : ∀ {x x'}, k.n.Schedules x x' → k.n.Schedules (change x) (change' x')) :
    Mirrors k.Beside Eq (ownSlot.change change) (ownSlot.change change') :=
  .modify fun hst => hst.rescheduled (h hst.ownSchedule)

theorem mirrors_choose (h : Forall₂ k.n.naming.Members selection.members selection'.members) :
    Mirrors k.Beside Eq (ownSlot.choose selection) (ownSlot.choose selection') := by
  refine Mirrors.bind (R := Eq) (mirrors_changeSlot ?_) fun _ _ _ =>
    .read fun _ _ _ => mirrors_record rfl rfl
  exact fun hx => { hx with selection := h }

theorem mirrors_checkSelection (e : Engine σ)
    (h : Forall₂ k.n.naming.Members selection.members selection'.members) :
    Mirrors k.Beside Eq (e.checkSelection selection) (e.checkSelection selection') := by
  rw [checkSelection, checkSelection, Pairing.misplaced_eq e h]
  refine .ite Iff.rfl ?_ (.pure rfl)
  cases e.misplaced? selection' with
  | none => exact .pure rfl
  | some fault => exact .throw fault

theorem mirrors_replan (hroot : k.n.project root root') :
    Mirrors k.Beside (Forall₂ k.n.detector)
      ((k.host.engine opts).replan ownSlot ((k.host.engine opts).configuration root))
      ((k.host.engine opts).replan ownSlot ((k.host.engine opts).configuration root')) := by
  refine .read fun s t hst => ?_
  have hrequested := hst.ownSchedule.requested
  refine Mirrors.bind (mirrors_changeSlot fun hx => { hx with requests := .none }) fun _ _ _ => ?_
  refine Mirrors.bind (mirrors_configuration opts (Host.nestingLimit - 1) hroot) ?_
  rintro config _ ⟨rfl, -⟩
  refine .read fun u v huv => ?_
  rw [huv.registry]
  have hmembers := Pairing.repeating v.registry config hrequested
  refine (mirrors_choose hmembers).bind fun _ _ _ => .read fun _ _ _ => ?_
  refine (mirrors_record rfl rfl).bind fun _ _ _ => ?_
  exact (mirrors_checkSelection _ hmembers).bind fun _ _ _ => .pure (Naming.detectors hmembers)

variable (hphase : Phase (k.host.engine opts) k.n.naming k.Beside root root')
  (hroot : k.n.project root root')

section Phases

include hphase

theorem mirrors_checkProject :
    Mirrors k.Beside Eq ((k.host.engine opts).checkProject root)
      ((k.host.engine opts).checkProject root') := by
  refine hphase.checkPhase.bind fun _ _ _ => .read fun s t hst => ?_
  rw [hst.left.canceled, hst.right.canceled, if_neg Bool.false_ne_true, if_neg Bool.false_ne_true]
  exact .pure rfl

include hroot

theorem mirrors_extraPhases (fuel : Nat) :
    Mirrors k.Beside Eq ((k.host.engine opts).extraPhases root fuel)
      ((k.host.engine opts).extraPhases root' fuel) := by
  induction fuel with
  | zero => exact .pure rfl
  | succ fuel ih =>
    have hgoOn : ∀ {detectors detectors' : List Detector},
        Forall₂ k.n.detector detectors detectors' →
        Mirrors k.Beside Eq ((k.host.engine opts).goOn root fuel detectors)
          ((k.host.engine opts).goOn root' fuel detectors') := by
      intro detectors detectors' hdetectors
      refine .read fun s t hst => ?_
      rw [hst.canceled, Naming.isEmpty_eq hdetectors, hst.ownSchedule.phase,
        hst.ownSchedule.isPending_eq]
      exact .ite Iff.rfl (.pure rfl) ih
    have hlater : Mirrors k.Beside Eq ((k.host.engine opts).laterPhases root fuel)
        ((k.host.engine opts).laterPhases root' fuel) := by
      refine .read fun s t hst => ?_
      rw [hst.scope]
      refine .ite Iff.rfl (.pure rfl) ((mirrors_replan opts hroot).bind
        fun detectors detectors' hdetectors => ?_)
      refine mirrors_forgetVisitor.bind fun _ _ _ => ?_
      cases hdetectors with
      | nil => exact hgoOn .nil
      | cons hd hrest =>
        exact (mirrors_checkProject opts hphase).bind fun _ _ _ =>
          hgoOn (.cons hd hrest)
    intro s t hst
    have hadvance := hst.ownSchedule.advance
    generalize hx : (ownSlot.schedule s).advance? = x at hadvance
    generalize hx' : (ownSlot.schedule t).advance? = x' at hadvance
    cases hadvance with
    | none =>
      rw [extraPhases_of_none _ _ _ hx, extraPhases_of_none _ _ _ hx']
      exact .ok rfl hst
    | some hadvanced =>
      rw [extraPhases_of_some _ _ _ hx, extraPhases_of_some _ _ _ hx']
      refine Mirrors.bind (k.mirrors_fire opts .newPhase (.some hphase.project))
        (fun _ _ _ => Mirrors.bind (.modify Beside.narrow) fun _ _ _ => hlater) _ _ ?_
      exact hst.rescheduled hadvanced

theorem mirrors_repeatPhases :
    Mirrors k.Beside Eq ((k.host.engine opts).repeatPhases root)
      ((k.host.engine opts).repeatPhases root') := by
  refine .read fun s t hst => ?_
  rw [hst.ownSchedule.isPending_eq]
  refine .ite Iff.rfl (fun u v huv => ?_) (.pure rfl)
  have hextra := mirrors_extraPhases opts hphase hroot Options.maxPhases u v huv
  rw [keepingScope, keepingScope, huv.scope]
  generalize (k.host.engine opts).extraPhases root Options.maxPhases u = r at hextra
  generalize (k.host.engine opts).extraPhases root' Options.maxPhases v = r' at hextra
  cases hextra with
  | ok hunit h => exact .ok hunit (h.rescoped _)
  | error fault h => exact .error fault (h.rescoped _)

end Phases

end Comparison

/-! ## New instances -/

theorem State.sights_planned (s : State σ) (scope : ScopeSet) (selection : Selection) :
    (s.planned scope selection).sights = s.sights := by
  rw [State.planned, State.sights_write_of_unseen _ rfl]
  exact s.sights_write_of_unseen rfl

open Run Engine

variable {host : Host σ} {p : Privacy σ τ} {base s s' : State σ} {root : ProjectRef}
  {members : List (Detector × ScopeSet)}

structure Chosen (host : Host σ) (p : Privacy σ τ) (base : State σ) (root : ProjectRef)
    (s s' : State σ) (members : List (Detector × ScopeSet)) : Prop where
  since : Since host p base s'
  classes : ∃ config, host.Gives s.files root.dir config ∧
    members.map (fun member => (member.1.className, member.2)) =
      s.registry.selectedClasses config s.scope
  schedule : s'.schedule = some ⟨⟨members⟩, 1, none⟩
  scope : s'.scope = s.scope
  memo : s'.memo = none
  sights : s'.sights = s.sights
  born : ∀ member ∈ members, member.1.serial ≤ serialOf s'.serials member.1.className
  own : ∀ member ∈ members, p.own member.1 s'.host = p.init member.1.className

theorem chosen_plan (hhost : host.Isolated p) (opts : Options) (hs : Since host p base s)
    (hroot : base.Made root) {detectors : List Detector}
    (h : (host.engine opts).plan ownSlot ((host.engine opts).configuration root) s.scope s =
      .ok detectors s') :
    ∃ members, detectors = members.map Prod.fst ∧
      Chosen host p base root s { s' with memo := none } members := by
  obtain ⟨config, s₁, members, s₂, hconfig, hmembers, rfl, rfl⟩ := plan_eq_ok h
  have hrestarted : Since host p base s.restarted := { hs with }
  obtain ⟨config', t, hknown, haside, hgives⟩ := (tidy_engine hhost opts).configuration
    hrestarted.trusted (hrestarted.projects.made hroot)
  rw [hconfig] at hknown
  cases hknown
  have hs₁ := hrestarted.aside haside
  obtain ⟨hcounted, hmade⟩ := instantiateAll_spec (host.engine opts)
    (s₁.registry.selectedClasses config s.scope) s₁
  obtain ⟨hclasses, hborn⟩ := hmade members s₂ hmembers
  rw [hmembers, endState_ok] at hcounted
  obtain ⟨⟨serials, rfl⟩, hgrown⟩ := hcounted
  have hnew : Since host p base { s₁ with serials } :=
    { hs₁ with unborn := fun d hd => hs₁.unborn d (Nat.lt_of_le_of_lt (hgrown _) hd) }
  refine ⟨members, rfl, ⟨{ hnew with }, ⟨config, hgives, ?_⟩, ?_, haside.scope, rfl, ?_,
    fun member hmember => (hborn member hmember).2, fun member hmember => ?_⟩⟩
  · rw [hclasses, haside.registry]
    rfl
  · show some { s₁.schedule.getD {} with selection := ⟨members⟩ } = _
    rw [haside.schedule]
    rfl
  · exact ({ s₁ with serials }.sights_planned s.scope ⟨members⟩).trans haside.sights
  · exact hs₁.unborn member.1 (hborn member hmember).1

def Bases.pairing (g : Bases σ τ) (detectors detectors' : List Detector)
    (h : (detectors.map Detector.className).Nodup)
    (h' : (detectors'.map Detector.className).Nodup) :
    Pairing where
  detector := fun d d' => d ∈ detectors ∧ d' ∈ detectors' ∧ d.className = d'.className
  project := Neighbors g.base g.base'
  className := fun hd => hd.2.2
  dir := fun href => href.1
  detectors := by
    refine ⟨fun d other d' hd hother => ?_, fun d d' other' hd hother => ?_⟩
    · exact List.inj_on_of_nodup_map h hd.1 hother.1 (hd.2.2.trans hother.2.2.symm)
    · exact List.inj_on_of_nodup_map h' hd.2.1 hother.2.1 (hd.2.2.symm.trans hother.2.2)
  projects := by
    refine ⟨fun ref other ref' href hother => ?_, fun ref ref' other' href hother => ?_⟩
    · exact Drawn.unique href.2.1 hother.2.1 (href.1.trans hother.1.symm)
    · exact Drawn.unique href.2.2 hother.2.2 (href.1.symm.trans hother.1)

/-! ## A project -/

namespace Bases

variable (g : Bases σ τ)

structure Between (s t : State σ) : Prop where
  left : Since g.host g.p g.base s
  right : Since g.host g.p g.base' t
  scope : s.scope = t.scope

def compare (n : Pairing)
    (hn : ∀ {ref ref'}, n.project ref ref' ↔ Neighbors g.base g.base' ref ref')
    (s t : State σ) : Comparison σ τ :=
  { g with n, before := s.sights, before' := t.sights, project := hn }

variable {g} {s t s' t' : State σ} {root root' : ProjectRef}
  {members members' : List (Detector × ScopeSet)}

theorem beside_of_chosen (h : g.Between s t) (hdir : root.dir = root'.dir)
    (hs : Chosen g.host g.p g.base root s s' members)
    (ht : Chosen g.host g.p g.base' root' t t' members') :
    ∃ (n : Pairing) (hn : ∀ {ref ref'}, n.project ref ref' ↔ Neighbors g.base g.base' ref ref'),
      Forall₂ n.naming.Members members members' ∧ (g.compare n hn s t).Beside s' t' := by
  obtain ⟨config, hgives, hclasses⟩ := hs.classes
  obtain ⟨config', hgives', hclasses'⟩ := ht.classes
  rw [h.right.files, ← g.files, ← h.left.files, ← hdir] at hgives'
  obtain rfl := g.isolated.unique hgives hgives'
  rw [h.right.registry, ← g.registry, ← h.left.registry, ← h.scope] at hclasses'
  have hnodup : ((members.map Prod.fst).map Detector.className).Nodup := by
    have hnames := congrArg (List.map Prod.fst) hclasses
    rw [List.map_map] at hnames ⊢
    exact hnames ▸ s.registry.nodup_selectedClasses config s.scope
  have hnodup' : ((members'.map Prod.fst).map Detector.className).Nodup := by
    have hnames := congrArg (List.map Prod.fst) hclasses'
    rw [List.map_map] at hnames ⊢
    exact hnames ▸ s.registry.nodup_selectedClasses config s.scope
  let n := g.pairing (members.map Prod.fst) (members'.map Prod.fst) hnodup hnodup'
  have hmembers : Forall₂ n.naming.Members members members' := by
    refine (forall₂_of_map_eq (P := (· ∈ members)) (Q := (· ∈ members'))
      (hclasses.trans hclasses'.symm) (fun _ => id) fun _ => id).imp ?_
    rintro member member' ⟨hsame, hmem, hmem'⟩
    obtain ⟨hname, hscope⟩ := Prod.mk.inj hsame
    exact ⟨⟨List.mem_map_of_mem hmem, List.mem_map_of_mem hmem', hname⟩, hscope⟩
  have hmember : ∀ {d d'}, n.detector d d' → (∃ scope, (d, scope) ∈ members) ∧
      ∃ scope, (d', scope) ∈ members' := by
    rintro d d' ⟨hd, hd', -⟩
    obtain ⟨member, hmember, rfl⟩ := List.mem_map.1 hd
    obtain ⟨member', hmember', rfl⟩ := List.mem_map.1 hd'
    exact ⟨⟨_, hmember⟩, _, hmember'⟩
  refine ⟨n, Iff.rfl, hmembers, hs.since, ht.since, by rw [hs.scope, ht.scope, h.scope],
    ⟨_, _, hs.schedule, ht.schedule, hmembers, rfl, .none⟩, ?_, fun hd => ?_, fun {d d'} hd => ?_,
    [], [], by rw [hs.sights, List.append_nil]; rfl, by rw [ht.sights, List.append_nil]; rfl, .nil⟩
  · rw [hs.memo, ht.memo]
    exact .none
  · obtain ⟨⟨_, hd⟩, _, hd'⟩ := hmember hd
    exact ⟨hs.born _ hd, ht.born _ hd'⟩
  · have hname := n.className hd
    obtain ⟨⟨_, hd⟩, _, hd'⟩ := hmember hd
    have hown : g.p.own d s'.host = g.p.init d.className := hs.own _ hd
    have hown' : g.p.own d' t'.host = g.p.init d'.className := ht.own _ hd'
    show g.p.same n (g.p.own d s'.host) (g.p.own d' t'.host)
    rw [hown, hown', hname]
    exact g.isolated.begins n d'.className

def Opened (root : ProjectRef) (entries : List Entry) : Prop :=
  entries = [] ∨ ∃ moment more,
    entries = .fired .scanningProject (some (projectContext root)) moment :: more

theorem anew {k : Comparison σ τ} (h : k.Beside s t) :
    (k.toBases.compare k.n k.project s t).Beside s t :=
  { h with sights := ⟨[], [], (List.append_nil _).symm, (List.append_nil _).symm, .nil⟩ }

theorem beside_checkProject {k : Comparison σ τ} (opts : Options) (hroot : k.n.project root root')
    (hknown : ∃ refs, (k.base.project root).libraries = some refs)
    (hknown' : ∃ refs, (k.base'.project root').libraries = some refs) (h : k.Beside s t)
    (hs : ((k.host.engine opts).checkProject root >>= fun _ =>
      unlessCanceled ((k.host.engine opts).repeatPhases root)) s = .ok () s')
    (ht : ((k.host.engine opts).checkProject root' >>= fun _ =>
      unlessCanceled ((k.host.engine opts).repeatPhases root')) t = .ok () t') :
    k.Between s' t' ∧ ∃ more more', Forall₂ k.n.Entries more more' ∧
      s'.sights =
        s.sights ++ .fired .scanningProject (some (projectContext root)) s.moment :: more ∧
      t'.sights =
        t.sights ++ .fired .scanningProject (some (projectContext root')) s.moment :: more' := by
  have hmade : ∀ c, some (projectContext root) = some c → s.Made c.project := by
    rintro _ ⟨⟩
    exact (h.made hroot).1
  have hmade' : ∀ c, some (projectContext root') = some c → t.Made c.project := by
    rintro _ ⟨⟩
    exact (h.made hroot).2
  obtain ⟨s₁, hfire, haside⟩ :=
    fire_aside k.isolated opts .scanningProject h.left.trusted hmade
  obtain ⟨t₁, hfire', haside'⟩ :=
    fire_aside k.isolated opts .scanningProject h.right.trusted hmade'
  have hfired := anew ((k.mirrors_fire opts .scanningProject
    (.some (Comparison.projectContexts hroot))).of_ok h hfire hfire')
  obtain ⟨_, s₂, hproject, hrest⟩ := bind_eq_ok hs
  obtain ⟨_, t₂, hproject', hrest'⟩ := bind_eq_ok ht
  obtain ⟨s₃, hchecked, hend⟩ := checkProject_cases hproject
  obtain ⟨t₃, hchecked', hend'⟩ := checkProject_cases hproject'
  rw [checkPhase_eq, bind_of_ok hfire] at hchecked
  rw [checkPhase_eq, bind_of_ok hfire'] at hchecked'
  have hphase := Comparison.phase (k := k.toBases.compare k.n k.project s₁ t₁) opts hroot
    hknown hknown'
  have h₃ := (hphase.checkAnnounced (Naming.detectors h.selection)).of_ok hfired hchecked hchecked'
  obtain ⟨-, rfl⟩ := hend.resolve_right fun hcanceled =>
    Bool.false_ne_true (h₃.left.canceled.symm.trans hcanceled.1)
  obtain ⟨-, rfl⟩ := hend'.resolve_right fun hcanceled =>
    Bool.false_ne_true (h₃.right.canceled.symm.trans hcanceled.1)
  have h' := (Mirrors.unlessCanceled Comparison.Beside.canceled
    (Comparison.mirrors_repeatPhases opts hphase hroot)).of_ok h₃ hrest hrest'
  obtain ⟨more, more', hmore, hmore', hentries⟩ := h'.sights
  refine ⟨⟨h'.left, h'.right, h'.scope⟩, more, more', hentries, ?_, ?_⟩
  · have hsights := haside.sights
    rw [s.sights_write_of_seen rfl] at hsights
    rw [hmore]
    show s₁.sights ++ more = _
    rw [hsights, List.append_assoc]
    rfl
  · have hsights := haside'.sights
    rw [t.sights_write_of_seen rfl, ← h.moment] at hsights
    rw [hmore']
    show t₁.sights ++ more' = _
    rw [hsights, List.append_assoc]
    rfl

theorem between_checkRoot (g : Bases σ τ) (opts : Options)
    (hroot : Neighbors g.base g.base' root root')
    (hknown : ∃ refs, (g.base.project root).libraries = some refs)
    (hknown' : ∃ refs, (g.base'.project root').libraries = some refs) (h : g.Between s t)
    (hs : (g.host.engine opts).checkRoot root s = .ok () s')
    (ht : (g.host.engine opts).checkRoot root' t = .ok () t') :
    g.Between s' t' ∧ ∃ (n : Pairing) (new new' : List Entry), n.project root root' ∧
      s'.sights = s.sights ++ new ∧ t'.sights = t.sights ++ new' ∧ Forall₂ n.Entries new new' ∧
      Opened root new ∧ Opened root' new' := by
  rcases checkRoot_cases (g.host.engine opts) root s with
    ⟨fault, _, -, hrun⟩ | ⟨detectors, s₁, hplan, hcase⟩
  · rw [hs] at hrun
    cases hrun
  rcases checkRoot_cases (g.host.engine opts) root' t with
    ⟨fault, _, -, hrun⟩ | ⟨detectors', t₁, hplan', hcase'⟩
  · rw [ht] at hrun
    cases hrun
  obtain ⟨members, rfl, hchosen⟩ := chosen_plan g.isolated opts h.left
    (g.drawn.lookup hroot.2.1).2 hplan
  obtain ⟨members', rfl, hchosen'⟩ := chosen_plan g.isolated opts h.right
    (g.drawn'.lookup hroot.2.2).2 hplan'
  obtain ⟨n, hn, hmembers, hbeside⟩ := beside_of_chosen h hroot.1 hchosen hchosen'
  rw [hs] at hcase
  rw [ht] at hcase'
  cases hmembers with
  | nil =>
    obtain ⟨-, hend⟩ := hcase.resolve_right fun hno => hno.1 rfl
    obtain ⟨-, hend'⟩ := hcase'.resolve_right fun hno => hno.1 rfl
    cases hend
    cases hend'
    refine ⟨⟨hchosen.since.aside (.write _ rfl), hchosen'.since.aside (.write _ rfl),
      hbeside.scope⟩, n, [], [], hn.2 hroot, ?_, ?_, .nil, .inl rfl, .inl rfl⟩
    · exact (State.sights_write_of_unseen _ rfl).trans
        (hchosen.sights.trans (List.append_nil _).symm)
    · exact (State.sights_write_of_unseen _ rfl).trans
        (hchosen'.sights.trans (List.append_nil _).symm)
  | cons hd hrest =>
    obtain ⟨-, hrun⟩ := hcase.resolve_left fun hno => List.cons_ne_nil _ _ hno.1
    obtain ⟨-, hrun'⟩ := hcase'.resolve_left fun hno => List.cons_ne_nil _ _ hno.1
    obtain ⟨hbetween, more, more', hentries, hmore, hmore'⟩ := beside_checkProject opts
      (k := g.compare n hn s t) (hn.2 hroot) hknown hknown' hbeside hrun.symm hrun'.symm
    rw [hchosen.sights] at hmore
    rw [hchosen'.sights] at hmore'
    refine ⟨hbetween, n, _, _, hn.2 hroot, hmore, hmore', .cons ?_ hentries,
      .inr ⟨_, _, rfl⟩, .inr ⟨_, _, rfl⟩⟩
    exact .fired _ _ (.some (Comparison.projectContexts (k := g.compare n hn s t) (hn.2 hroot)))

end Bases
end ProjectLint
