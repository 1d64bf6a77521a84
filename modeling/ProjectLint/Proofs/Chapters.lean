/-
A run as a sequence of chapters, one for each project that it checks. A chapter begins with new
instances of the classes that the configuration of its project selects, in the scope of the run, and
takes its later phases from requests of its own: what is asked for in one chapter is of no
consequence in another.
-/
import ProjectLint.Proofs.Phases

namespace ProjectLint
namespace Phases

open Journal Run Engine

variable {s : State σ} {r : Outcome σ Unit}

/-- All the phases for one root. -/
structure Chapter where
  root : ProjectRef
  config : Configuration
  first : Leg
  rest : List Leg
  /-- The announcement of a phase for which nothing is left in scope. -/
  closing : List Entry

namespace Chapter

/-- The phases of a chapter, in order. -/
def legs (chapter : Chapter) : List Leg :=
  chapter.first :: chapter.rest

/-- What a chapter writes. -/
def entries (chapter : Chapter) : List Entry :=
  chapter.legs.flatMap Leg.entries ++ chapter.closing

/-- No phase is left to come: none was asked for, the limit is reached, or nothing is left in
scope. -/
def Ended (chapter : Chapter) : Prop :=
  Phases.Ended chapter.root (chapter.rest.getLastD chapter.first) chapter.closing

/-- The first phase takes fresh detectors for what is enabled and in scope; each later one follows
from the one before. -/
structure Proper (host : Host σ) (registry : Registry) (chapter : Chapter) : Prop where
  phase : chapter.first.phase = 1
  prepared : ∀ entry ∈ chapter.first.opening, Preparing host entry
  classes : chapter.first.detectors.map Detector.className =
    (registry.selectedClasses chapter.config chapter.first.scope).map Prod.fst
  chain : List.IsChain (Follows registry chapter.config chapter.root) chapter.legs
  legs : ∀ leg ∈ chapter.legs, leg.Proper host chapter.root ∧ leg.Scoped
  silent : hooks chapter.closing = []

end Chapter

/-! ## One project -/

def Unattended (b s : State σ) : Prop :=
  (∃ new, s.written = b.written ++ new ∧ hooks new = []) ∧ s.scope = b.scope ∧
    s.registry = b.registry ∧ (b.canceled = true → s.canceled = true)

namespace Unattended

variable {b s : State σ}

theorem refl (s : State σ) : Unattended s s :=
  ⟨⟨[], (List.append_nil _).symm, rfl⟩, rfl, rfl, id⟩

theorem write (h : Unattended b s) {entry : Entry} (hentry : entry.hook? = none) :
    Unattended b (s.write entry) := by
  obtain ⟨⟨new, hnew, hhooks⟩, hstands⟩ := h
  refine ⟨⟨new ++ [entry], ?_, ?_⟩, hstands⟩
  · rw [State.written_write, hnew, List.append_assoc]
  · rw [hooks_append, hhooks]
    simp [hooks, hentry]

end Unattended

theorem hook?_of_isClient {call : Call} (moment : Moment) (h : call.isClient = true) :
    Entry.hook? (.called call moment) = none := by
  cases call with
  | detector detector hook => cases h
  | _ => rfl

theorem finds_unattended (host : Host σ) (b : State σ) :
    Finds host (Unattended b) (fun _ => True) (fun _ => True) where
  called := fun hcall hs => hs.write (hook?_of_isClient _ hcall)
  logged := fun _ _ hs => hs.write rfl
  observed := fun _ _ hs => hs.write rfl
  submitted := fun _ _ _ hs => hs.write rfl
  requested := fun _ _ _ _ _ _ hs => hs.write rfl
  canceled := fun _ hs => ⟨hs.1, hs.2.1, hs.2.2.1, fun _ => rfl⟩

theorem hears_unattended (host : Host σ) (b : State σ) :
    Hears host (Unattended b) (fun _ => True) (fun _ => True) where
  toBears := (finds_unattended host b).toBears
  heard := fun hs => hs.write rfl

section Root

variable (host : Host σ) (opts : Options) {root : ProjectRef}

structure Planned (host : Host σ) (root : ProjectRef) (s t : State σ) (detectors : List Detector)
    (config : Configuration) (opening : List Entry) : Prop where
  configured : t.Configured root config
  prepared : ∀ entry ∈ opening, Preparing host entry
  written : t.written = s.written ++ (opening ++ [.planned 1 detectors])
  schedule : ∃ planned : Schedule, planned.requests = none ∧ planned.phase = 1 ∧
    planned.selection.detectors = detectors ∧
    t.schedule = some (planned.asked (requests opening))
  classes : detectors.map Detector.className =
    (s.registry.selectedClasses config s.scope).map Prod.fst
  born : ∀ detector ∈ detectors, Newborn s t detector
  grown : ∀ name, serialOf s.serials name ≤ serialOf t.serials name
  scope : t.scope = s.scope
  registry : t.registry = s.registry

theorem planned_plan {t : State σ} {detectors : List Detector} (hroot : s.Has root)
    (h : (host.engine opts).plan ownSlot ((host.engine opts).configuration root) s.scope s =
      .ok detectors t) : ∃ config opening, Planned host root s t detectors config opening := by
  obtain ⟨config, s₁, members, s₂, hconfig, hmembers, rfl, rfl⟩ := plan_eq_ok h
  have hknown := configured_of_ok opts (s := s.restarted) hroot hconfig
  have htended := tended_configuration (permits_preparing host) opts root s.restarted
  rw [hconfig, endState_ok] at htended
  obtain ⟨asked, hwritten, hall, hasked⟩ := htended.wrote
  obtain ⟨hcounted, hmade⟩ := instantiateAll_spec (host.engine opts)
    (s₁.registry.selectedClasses config s.scope) s₁
  obtain ⟨hclasses, hborn⟩ := hmade members s₂ hmembers
  rw [hmembers, endState_ok] at hcounted
  obtain ⟨⟨serials, rfl⟩, hgrown⟩ := hcounted
  have hserials : s₁.serials = s.serials := htended.serials
  have hregistry : s₁.registry = s.registry := htended.registry
  have hschedule : s₁.schedule =
      some ((restarted (ownSlot.schedule s)).asked (requests asked)) := hasked
  have hown : ownSlot.schedule { s₁ with serials } =
      (restarted (ownSlot.schedule s)).asked (requests asked) := by
    show s₁.schedule.getD {} = _
    rw [hschedule, Option.getD_some]
  let selection : Selection := ⟨members⟩
  let planned : Schedule := { restarted (ownSlot.schedule s) with selection }
  let created : Entry := .logged ⟨.debug, "[IssueRegistry] Created " ++
    toString selection.members.length ++ " detectors for scope " ++ s.scope.text, []⟩
  have hrequests : requests (asked ++ [created]) = requests asked := by
    simp [created, requests, Entry.request?]
  refine ⟨config, asked ++ [created], hknown, ?_, ?_, ⟨planned, rfl, rfl, rfl, ?_⟩, ?_, ?_, ?_,
    htended.scope, hregistry⟩
  · intro entry hentry
    rcases List.mem_append.1 hentry with hold | hlast
    · exact hall entry hold
    · rw [List.mem_singleton.1 hlast]
      trivial
  · show (State.write _ _).written = _
    rw [State.written_write]
    show (s₁.write created).written ++ _ = _
    rw [State.written_write, hwritten, hown, Schedule.phase_asked]
    simp [State.restarted, State.written, Selection.detectors, restarted]
  · show some { ownSlot.schedule { s₁ with serials } with selection } = _
    rw [hown, hrequests]
    exact congrArg some (Schedule.asked_withSelection _ selection _).symm
  · rw [← hregistry, ← hclasses]
    simp
  · intro detector hdetector
    obtain ⟨member, hmember, rfl⟩ := List.mem_map.1 hdetector
    have hnew := hborn member hmember
    rw [Newborn, hserials] at hnew
    exact hnew
  · intro name
    have hname := hgrown name
    rw [hserials] at hname
    exact hname

structure Told (host : Host σ) (root : ProjectRef) (s : State σ)
    (r : Outcome σ Unit) (chapter : Chapter) : Prop where
  root : chapter.root = root
  written : (endState r).written = s.written ++ chapter.entries
  proper : chapter.Proper host s.registry
  ended : Completes r → chapter.Ended
  configured : (endState r).Configured chapter.root chapter.config
  born : ∀ detector ∈ chapter.first.detectors, Newborn s (endState r) detector
  grown : ∀ name, serialOf s.serials name ≤ serialOf (endState r).serials name
  inScope : chapter.first.scope = s.scope
  scope : (endState r).scope = s.scope
  registry : (endState r).registry = s.registry

namespace Planned

variable {host} {s t v : State σ} {detectors : List Detector} {config : Configuration}
  {opening during : List Entry}

def leg (s : State σ) (detectors : List Detector) (opening during : List Entry) : Leg :=
  ⟨1, s.scope, detectors, opening, during⟩

theorem proper (h : Planned host root s t detectors config opening)
    (hduring : ∀ entry ∈ during, Attending host root detectors 1 s.scope entry) :
    (leg s detectors opening during).Proper host root ∧
      (leg s detectors opening during).Scoped := by
  have hhooks : hooks opening = [] := by
    refine List.filterMap_eq_nil_iff.2 fun entry hentry => ?_
    have hprepared := h.prepared entry hentry
    cases entry with
    | called call moment => exact hook?_of_isClient moment hprepared
    | _ => rfl
  have hlast : 1 ≤ Options.maxPhases := by decide
  refine ⟨⟨⟨Nat.le_refl 1, hlast⟩, hhooks, ?_, ?_⟩, ?_⟩
  · intro detector hook moment hcalled
    obtain ⟨hdetector, hmoment, -, hcontext⟩ := hduring _ hcalled
    exact ⟨hdetector, hmoment, hcontext⟩
  · intro hown
    refine ⟨List.filterMap_eq_nil_iff.2 fun entry hentry => ?_, fun request hrequest => ?_⟩
    · have hprepared := h.prepared entry hentry
      cases entry with
      | requested detector scope => exact absurd hown.client hprepared
      | _ => rfl
    · exact hduring _ (mem_requests.1 hrequest) hown
  · intro detector hook moment hcalled
    exact (hduring _ hcalled).2.2.1

theorem told (h : Planned host root s t detectors config opening)
    (hduring : ∀ entry ∈ during, Attending host root detectors 1 s.scope entry)
    (hwritten : v.written = t.written ++ during) (hregistry : v.registry = t.registry)
    (hserials : v.serials = t.serials) {legs : List Leg} {closing : List Entry}
    (honward : Onward host config root (leg s detectors opening during) v r legs closing)
    (hconfig : (endState r).Configured root config) (hscope : (endState r).scope = s.scope) :
    Told host root s r ⟨root, config, leg s detectors opening during, legs, closing⟩ where
  root := rfl
  written := by
    rw [honward.written, hwritten, h.written]
    simp [Chapter.entries, Chapter.legs, Leg.entries, leg]
  proper := by
    have hchain := honward.chain
    rw [hregistry, h.registry] at hchain
    refine ⟨rfl, h.prepared, h.classes, hchain, fun other hother => ?_, honward.silent⟩
    rcases List.mem_cons.1 hother with rfl | hother
    · exact h.proper hduring
    · exact honward.proper other hother
  ended := honward.ended
  configured := hconfig
  born := fun detector hdetector => by
    rw [Newborn, honward.serials, hserials]
    exact h.born detector hdetector
  grown := fun name => by
    rw [honward.serials, hserials]
    exact h.grown name
  inScope := rfl
  scope := hscope
  registry := honward.registry.trans (hregistry.trans h.registry)

theorem onLeg (opts : Options) (h : Planned host root s t detectors config opening)
    (hwritten : (endState ((host.engine opts).checkProject root
      { t with memo := none })).written = t.written ++ during) :
    OnLeg (leg s detectors opening during)
      (endState ((host.engine opts).checkProject root { t with memo := none })) := by
  obtain ⟨planned, hnone, hphase, -, hschedule⟩ := h.schedule
  have htended := tended_checkProject host opts root (s := { t with memo := none }) rfl
  obtain ⟨new, hnew, -, hasked⟩ := htended.wrote
  obtain rfl : new = during := List.append_cancel_left (hnew.symm.trans hwritten)
  refine ⟨⟨planned, hnone, hphase, ?_⟩, htended.scope.trans h.scope⟩
  rw [hasked]
  show t.schedule.map _ = _
  rw [hschedule, Option.map_some, ← Schedule.asked_append]
  rfl

end Planned

theorem told_checked {t : State σ} {detectors : List Detector} {config : Configuration}
    {opening : List Entry} (h : Planned host root s t detectors config opening)
    (hdetectors : detectors ≠ []) :
    ∃ chapter, Told host root s (((host.engine opts).checkProject root >>= fun _ =>
      unlessCanceled ((host.engine opts).repeatPhases root)) { t with memo := none })
      chapter := by
  obtain ⟨planned, -, hphase, hselection, hschedule⟩ := h.schedule
  have hselected : State.selection { t with memo := none } = planned.selection := by
    show (t.schedule.map Schedule.selection).getD {} = _
    rw [hschedule, Option.map_some, Option.getD_some, Schedule.selection_asked]
  have hfirst : State.phase { t with memo := none } = 1 := by
    show (t.schedule.map Schedule.phase).getD 1 = _
    rw [hschedule, Option.map_some, Option.getD_some, Schedule.phase_asked, hphase]
  have htended := tended_checkProject host opts root (s := { t with memo := none }) rfl
  obtain ⟨during, hwritten, hall, -⟩ := htended.wrote
  have hcalled := hooks_checkProject host opts root (s := { t with memo := none })
    (by rwa [hselected, hselection]) hwritten
  rw [hselected, hselection, hfirst] at hall
  have hduring : ∀ entry ∈ during, Attending host root detectors 1 s.scope entry := by
    rw [← h.scope]
    exact hall
  have hscope : (endState ((host.engine opts).checkProject root { t with memo := none })).scope =
      s.scope := htended.scope.trans h.scope
  have honLeg := h.onLeg opts hwritten
  have hknown := (lasts_configured root config).checkProject host opts root
    { t with memo := none } h.configured
  cases hcheck : (host.engine opts).checkProject root { t with memo := none } with
  | error fault v =>
    rw [hcheck, endState_error] at htended hwritten hknown hscope
    rw [bind_of_error hcheck]
    refine ⟨_, h.told hduring hwritten htended.registry htended.serials (.nil rfl rfl rfl ?_)
      hknown hscope⟩
    exact fun hends => absurd hends (not_completes_error fault v)
  | ok _ v =>
    rw [hcheck, endState_ok] at htended hwritten hknown hscope honLeg
    rw [bind_of_ok hcheck]
    obtain ⟨legs, closing, honward, hkept⟩ :=
      onward_repeatPhases host opts honLeg rfl hcalled hknown
    refine ⟨_, h.told hduring hwritten htended.registry htended.serials honward ?_
      (hkept.trans hscope)⟩
    exact ((lasts_configured root config).repeatPhases host opts root).unlessCanceled v hknown

theorem told_checkRoot (hroot : s.Has root) :
    (∃ fault t, (host.engine opts).checkRoot root s = .error fault t ∧ Unattended s t) ∨
      ∃ chapter, Told host root s ((host.engine opts).checkRoot root s) chapter := by
  rcases checkRoot_cases (host.engine opts) root s with
    ⟨fault, t, hplan, hrun⟩ | ⟨detectors, t, hplan, ⟨hnil, hrun⟩ | ⟨hcons, hrun⟩⟩
  · refine .inl ⟨fault, t, hrun, ?_⟩
    have hkeeps : Keeps (Unattended s) ((host.engine opts).plan ownSlot
        ((host.engine opts).configuration root) s.scope) :=
      (finds_unattended host s).plan opts (fun _ _ hs => hs) (fun _ _ hs => hs)
        (fun _ _ _ hs => hs.write rfl) root s.scope
    have hend := hkeeps s (.refl s)
    rwa [hplan] at hend
  · obtain ⟨config, opening, hplanned⟩ := planned_plan host opts hroot hplan
    let passed : Entry := .logged
      ⟨.debug, "[LintEngine] No detectors enabled for " ++ root.dir ++ "; skipping", []⟩
    have hduring : ∀ entry ∈ [passed], Attending host root detectors 1 s.scope entry := by
      intro entry hentry
      rw [List.mem_singleton.1 hentry]
      trivial
    rw [hrun]
    refine .inr ⟨_, hplanned.told (v := { t with memo := none }.write passed) hduring
      (State.written_write _ _) rfl rfl (.nil rfl rfl rfl ?_) hplanned.configured hplanned.scope⟩
    exact fun _ => .inl ⟨rfl, .inl hnil⟩
  · obtain ⟨config, opening, hplanned⟩ := planned_plan host opts hroot hplan
    refine .inr ?_
    rw [hrun]
    exact told_checked host opts hplanned hcons

end Root

/-! ## All projects -/

/-- A chapter that came to an end has no detector in common with a later one. -/
def Apart (chapter later : Chapter) : Prop :=
  chapter.Ended ∧ ∀ detector ∈ chapter.first.detectors, detector ∉ later.first.detectors

structure Chronicle (host : Host σ) (roots : List ProjectRef) (s : State σ)
    (r : Outcome σ α) (chapters : List Chapter) (broken : List Entry) :
    Prop where
  written : (endState r).written = s.written ++ (chapters.flatMap Chapter.entries ++ broken)
  inOrder : chapters.map Chapter.root <+: roots
  proper : ∀ chapter ∈ chapters, chapter.Proper host s.registry ∧ chapter.first.scope = s.scope
  apart : chapters.Pairwise Apart
  silent : hooks broken = []
  completed : Completes r →
    chapters.map Chapter.root = roots ∧ broken = [] ∧ ∀ chapter ∈ chapters, chapter.Ended
  configured : ∀ chapter ∈ chapters, (endState r).Configured chapter.root chapter.config
  born : ∀ chapter ∈ chapters, ∀ detector ∈ chapter.first.detectors,
    serialOf s.serials detector.className < detector.serial
  scope : (endState r).scope = s.scope

namespace Chronicle

variable {host : Host σ} {root : ProjectRef} {roots rest : List ProjectRef} {s t : State σ}
  {chapter : Chapter} {chapters : List Chapter} {broken : List Entry}

theorem empty (a : α) (h : s.canceled = false → roots = []) :
    Chronicle host roots s (.ok a s : Outcome σ α) [] [] := by
  refine ⟨by simp, List.nil_prefix, List.forall_mem_nil _, .nil, rfl, ?_, List.forall_mem_nil _,
    List.forall_mem_nil _, rfl⟩
  rintro ⟨_, _, hend, hcanceled⟩
  cases hend
  exact ⟨(h hcanceled).symm, rfl, List.forall_mem_nil _⟩

theorem single {fault : Fault} (h : Told host root s (.error fault t) chapter) :
    Chronicle host (root :: rest) s (.error fault t : Outcome σ α) [chapter] [] where
  written := by
    rw [List.flatMap_singleton, List.append_nil]
    exact h.written
  inOrder := by simp [h.root]
  proper := fun other hother => by
    rw [List.mem_singleton.1 hother]
    exact ⟨h.proper, h.inScope⟩
  apart := List.pairwise_singleton _ _
  silent := rfl
  completed := fun hends => absurd hends (not_completes_error fault t)
  configured := fun other hother => by
    rw [List.mem_singleton.1 hother]
    exact h.configured
  born := fun other hother detector hdetector => by
    rw [List.mem_singleton.1 hother] at hdetector
    exact (h.born detector hdetector).1
  scope := h.scope

theorem cons {r : Outcome σ α}
    (h : Told host root s (.ok () t) chapter) (hrest : Chronicle host rest t r chapters broken)
    (hconfigured : (endState r).Configured chapter.root chapter.config)
    (hcanceled : t.canceled = true → chapters = [] ∧ ¬ Completes r) :
    Chronicle host (root :: rest) s r (chapter :: chapters) broken where
  written := by
    have hwritten : t.written = s.written ++ chapter.entries := h.written
    rw [hrest.written, hwritten]
    simp
  inOrder := by
    rw [List.map_cons, h.root]
    exact List.cons_prefix_cons.2 ⟨rfl, hrest.inOrder⟩
  proper := fun other hother => by
    rcases List.mem_cons.1 hother with rfl | hother
    · exact ⟨h.proper, h.inScope⟩
    · obtain ⟨hproper, hscope⟩ := hrest.proper other hother
      have hregistry : t.registry = s.registry := h.registry
      rw [hregistry] at hproper
      exact ⟨hproper, hscope.trans h.scope⟩
  apart := by
    refine List.pairwise_cons.2 ⟨fun later hlater => ⟨?_, fun detector hdetector hagain => ?_⟩,
      hrest.apart⟩
    · cases hstate : t.canceled with
      | true =>
        rw [(hcanceled hstate).1] at hlater
        exact absurd hlater List.not_mem_nil
      | false => exact h.ended ⟨(), t, rfl, hstate⟩
    · have hborn : detector.serial ≤ serialOf t.serials detector.className :=
        (h.born detector hdetector).2
      have hlater := hrest.born later hlater detector hagain
      omega
  silent := hrest.silent
  completed := fun hends => by
    obtain ⟨hroots, hbroken, hended⟩ := hrest.completed hends
    refine ⟨by rw [List.map_cons, h.root, hroots], hbroken, fun other hother => ?_⟩
    rcases List.mem_cons.1 hother with rfl | hother
    · cases hstate : t.canceled with
      | true => exact absurd hends (hcanceled hstate).2
      | false => exact h.ended ⟨(), t, rfl, hstate⟩
    · exact hended other hother
  configured := fun other hother => by
    rcases List.mem_cons.1 hother with rfl | hother
    · exact hconfigured
    · exact hrest.configured other hother
  born := fun other hother detector hdetector => by
    rcases List.mem_cons.1 hother with rfl | hother
    · exact (h.born detector hdetector).1
    · have hgrown : serialOf s.serials detector.className ≤ serialOf t.serials detector.className :=
        h.grown detector.className
      have hlater := hrest.born other hother detector hdetector
      omega
  scope := hrest.scope.trans h.scope

end Chronicle

section Roots

variable (host : Host σ) (opts : Options)

theorem chronicle_checkRoots (current : ProjectRef) (roots : List ProjectRef)
    (hroots : ∀ root ∈ roots, s.Has root) : ∃ chapters broken, Chronicle host roots s
      ((host.engine opts).checkRoots current roots s) chapters broken := by
  induction roots generalizing current s with
  | nil => exact ⟨[], [], .empty current fun _ => rfl⟩
  | cons root rest ih =>
    cases hcanceled : s.canceled with
    | true =>
      rw [checkRoots_of_canceled _ _ _ hcanceled]
      refine ⟨[], [], .empty current fun h => ?_⟩
      rw [hcanceled] at h
      cases h
    | false =>
      rw [checkRoots, get_bind, hcanceled, if_neg Bool.false_ne_true]
      rcases told_checkRoot host opts (hroots root List.mem_cons_self) with
        ⟨fault, t, hrun, ⟨broken, hbroken, hsilent⟩, hscope, -⟩ | ⟨chapter, htold⟩
      · rw [bind_of_error hrun]
        exact ⟨[], broken, ⟨hbroken, List.nil_prefix, List.forall_mem_nil _, .nil, hsilent,
          fun hends => absurd hends (not_completes_error fault t), List.forall_mem_nil _,
          List.forall_mem_nil _, hscope⟩⟩
      · cases hrun : (host.engine opts).checkRoot root s with
        | error fault t =>
          rw [hrun] at htold
          rw [bind_of_error hrun]
          exact ⟨[chapter], [], .single htold⟩
        | ok _ t =>
          rw [hrun] at htold
          rw [bind_of_ok hrun]
          cases hstate : t.canceled with
          | true =>
            rw [checkRoots_of_canceled _ _ _ hstate]
            refine ⟨[chapter], [], .cons htold (.empty root fun h => ?_) htold.configured
              fun _ => ⟨rfl, not_completes_canceled root hstate⟩⟩
            rw [hstate] at h
            cases h
          | false =>
            have hhas : ∀ other ∈ rest, t.Has other := fun other hother =>
              ((lasts_has other).checkRoot host opts root).ok
                (hroots other (List.mem_cons_of_mem _ hother)) hrun
            obtain ⟨chapters, broken, hrest⟩ := ih root hhas
            refine ⟨chapter :: chapters, broken, .cons htold hrest ?_ ?_⟩
            · exact (lasts_configured chapter.root chapter.config).checkRoots host opts
                root rest t htold.configured
            · intro hstopped
              rw [hstate] at hstopped
              cases hstopped

end Roots

/-! ## A run -/

/-- The roots that a search comes to, none if it fails. -/
def foundRoots (host : Host σ) (opts : Options) (paths : List String) (scope : Option ScopeSet)
    (s : State σ) : List ProjectRef :=
  (result? (Discovery.resolve (host.engine opts) State.canceled paths (s.begun scope))).getD []

/-- The scope of a run: what was asked for, or what the given files suggest. -/
def runScope (host : Host σ) (opts : Options) (paths : List String) (scope : Option ScopeSet)
    (s : State σ) : ScopeSet :=
  ((endState (Discovery.resolve (host.engine opts) State.canceled paths (s.begun scope))).ready
    scope (foundRoots host opts paths scope s)).scope

/-- The run announced that it starts. -/
def Started (entries : List Entry) : Prop :=
  ∃ moment, .fired .starting none moment ∈ entries

/-- A run as it is written down: chapters, and around them entries in which no detector is
called. -/
structure Narrated (host : Host σ) (roots : List ProjectRef) (scope : ScopeSet) (s : State σ)
    (r : Outcome σ Unit) (prelude : List Entry) (chapters : List Chapter)
    (coda : List Entry) : Prop where
  written : (endState r).written =
    s.written ++ (prelude ++ chapters.flatMap Chapter.entries ++ coda)
  silent : hooks prelude = [] ∧ hooks coda = []
  inOrder : chapters.map Chapter.root <+: roots
  proper : ∀ chapter ∈ chapters, chapter.Proper host s.registry ∧ chapter.first.scope = scope
  apart : chapters.Pairwise Apart
  completed : Completes r → chapters.map Chapter.root = roots ∧ ∀ chapter ∈ chapters, chapter.Ended
  configured : ∀ chapter ∈ chapters, (endState r).Configured chapter.root chapter.config
  started : ∀ new, (endState r).written = s.written ++ new → Started new →
    (endState r).scope = scope

section Run

variable (host : Host σ) (opts : Options)

theorem keeps_finish_unattended (b : State σ) (current : ProjectRef) (elapsed : Int) :
    Keeps (Unattended b) ((host.engine opts).finish current elapsed) :=
  (hears_unattended host b).finish opts (fun hs => hs) (fun _ _ hs => hs.write rfl)
    (fun _ _ hs => hs.write rfl) current elapsed

theorem Narrated.of_quiet {host : Host σ} {roots : List ProjectRef} {scope : ScopeSet}
    {b : State σ} (hb : b.written = s.written)
    (h : Unattended b (endState r)) (hquiet : State.Later Quiet b (endState r))
    (hroots : Completes r → roots = []) :
    ∃ prelude, Narrated host roots scope s r prelude [] [] := by
  obtain ⟨⟨new, hnew, hhooks⟩, -⟩ := h
  rw [hb] at hnew
  refine ⟨new, ⟨by simpa using hnew, ⟨hhooks, rfl⟩, List.nil_prefix, List.forall_mem_nil _, .nil,
    fun hends => ⟨(hroots hends).symm, List.forall_mem_nil _⟩, List.forall_mem_nil _, ?_⟩⟩
  rintro other hother ⟨moment, hstarted⟩
  obtain ⟨quiet, hwritten, hall⟩ := hquiet.wrote
  rw [hother, hb] at hwritten
  rw [List.append_cancel_left hwritten] at hstarted
  exact absurd (hall _ hstarted) (by simp [Quiet, Entry.isIncidental])

theorem Narrated.of_chronicle {host : Host σ} {roots : List ProjectRef} {u : State σ}
    {r' : Outcome σ ProjectRef}
    {prelude broken : List Entry} {chapters : List Chapter}
    (hprelude : u.written = s.written ++ prelude) (hsilent : hooks prelude = [])
    (hregistry : u.registry = s.registry) (h : Chronicle host roots u r' chapters broken)
    (hend : Unattended (endState r') (endState r)) (hcompletes : Completes r → Completes r')
    (hconfigured : ∀ ref config, (endState r').Configured ref config →
      (endState r).Configured ref config) :
    ∃ coda, Narrated host roots u.scope s r prelude chapters coda := by
  obtain ⟨⟨new, hnew, hhooks⟩, hscope, -⟩ := hend
  refine ⟨broken ++ new, ⟨?_, ⟨hsilent, ?_⟩, h.inOrder, ?_, h.apart, fun hends => ?_,
    fun chapter hchapter => ?_, fun _ _ _ => hscope.trans h.scope⟩⟩
  · rw [hnew, h.written, hprelude]
    simp
  · rw [hooks_append, h.silent, hhooks]
    rfl
  · rw [← hregistry]
    exact h.proper
  · obtain ⟨hroots, -, hended⟩ := h.completed (hcompletes hends)
    exact ⟨hroots, hended⟩
  · exact hconfigured _ _ (h.configured chapter hchapter)

theorem narrated_checkAll {b t : State σ} {first : ProjectRef} {rest : List ProjectRef}
    (elapsed : Int) (hb : b.written = s.written) (hregistry : b.registry = s.registry)
    (hfound : Unattended b t) (hroots : ∀ root ∈ first :: rest, t.Has root)
    (scope : Option ScopeSet) :
    ∃ prelude chapters coda, Narrated host (first :: rest) (t.ready scope (first :: rest)).scope s
      ((host.engine opts).checkAll first rest elapsed (t.ready scope (first :: rest)))
      prelude chapters coda := by
  let ready := t.ready scope (first :: rest)
  have hentered : Unattended ready (ready.entered (rest.length + 1)) :=
    Unattended.write
      (s := { ready with schedule := some {}, memo := none, cancelReported := false })
      (.refl ready) rfl
  obtain ⟨u, hfire, -⟩ := fire_eq_ok host opts .starting none (ready.entered (rest.length + 1))
  have hstarted : Unattended ready (endState ((host.engine opts).fire .starting none
      (ready.entered (rest.length + 1)))) :=
    (hears_unattended host ready).fire opts (hentered.write rfl)
  rw [hfire, endState_ok] at hstarted
  obtain ⟨⟨found, hwritten, hsilent⟩, -, hfoundRegistry, -⟩ := hfound
  obtain ⟨⟨heard, hheard, hsilent'⟩, hscope, hstartedRegistry, -⟩ := hstarted
  have hprelude : u.written = s.written ++ (found ++ heard) := by
    rw [hheard, ← List.append_assoc, ← hb, ← hwritten]
    rfl
  have hquiet : hooks (found ++ heard) = [] := by
    rw [hooks_append, hsilent, hsilent']
    rfl
  have hkept : u.registry = s.registry :=
    hstartedRegistry.trans (hfoundRegistry.trans hregistry)
  have hhas : ∀ root ∈ first :: rest, u.Has root := fun root hroot =>
    ((lasts_has root).fire host opts _ _).ok (s := ready.entered (rest.length + 1))
      (hroots root hroot) hfire
  obtain ⟨chapters, broken, hchronicle⟩ :=
    chronicle_checkRoots host opts first (first :: rest) hhas
  rw [checkAll_eq, bind_of_ok hfire, ← hscope]
  refine ⟨found ++ heard, chapters, ?_⟩
  cases hrun : (host.engine opts).checkRoots first (first :: rest) u with
  | error fault v =>
    rw [hrun] at hchronicle
    rw [bind_of_error hrun]
    exact Narrated.of_chronicle hprelude hquiet hkept hchronicle (.refl v)
      (fun hends => absurd hends (not_completes_error fault v)) fun _ _ h => h
  | ok current v =>
    rw [hrun] at hchronicle
    rw [bind_of_ok hrun]
    have hend := keeps_finish_unattended host opts v current elapsed v (.refl v)
    refine Narrated.of_chronicle hprelude hquiet hkept hchronicle hend ?_ fun ref config h =>
      (lasts_configured ref config).finish host opts current elapsed v h
    rintro ⟨_, w, hw, hcanceled⟩
    rw [hw, endState_ok] at hend
    refine ⟨current, v, rfl, ?_⟩
    cases hstate : v.canceled with
    | false => rfl
    | true =>
      rw [hend.2.2.2 hstate] at hcanceled
      cases hcanceled

theorem narrated_analyze (paths : List String) (scope : Option ScopeSet) (elapsed : Int)
    (hs : s.Sound) :
    ∃ prelude chapters coda, Narrated host (foundRoots host opts paths scope s)
      (runScope host opts paths scope s) s
      ((host.engine opts).analyze paths scope elapsed s) prelude chapters coda := by
  have hquiet := frames_resolve host opts State.canceled paths (s.begun scope)
  have hfound := (finds_unattended host (s.begun scope)).resolve opts State.canceled paths
    (s.begun scope) (.refl _)
  have hbegun : (s.begun scope).written = s.written := rfl
  rw [runScope, foundRoots]
  cases hresolve : Discovery.resolve (host.engine opts) State.canceled paths (s.begun scope) with
  | error fault s₁ =>
    rw [hresolve] at hquiet hfound
    rw [analyze_of_error hresolve]
    obtain ⟨prelude, h⟩ := Narrated.of_quiet (r := .error fault s₁) hbegun hfound hquiet
      fun hends => absurd hends (not_completes_error fault s₁)
    exact ⟨prelude, [], [], h⟩
  | ok roots s₁ =>
    rw [hresolve] at hquiet hfound
    cases hcanceled : s₁.canceled with
    | true =>
      rw [analyze_of_canceled hresolve hcanceled]
      obtain ⟨prelude, h⟩ := Narrated.of_quiet (r := .ok () s₁) hbegun hfound hquiet
        fun hends => absurd hends (not_completes_canceled () hcanceled)
      exact ⟨prelude, [], [], h⟩
    | false =>
      cases roots with
      | nil =>
        rw [analyze_of_nil hresolve hcanceled]
        have hlogged := (finds_unattended host (s.begun scope)).log opts none
          ("No projects found for " ++ Text.joined ", " paths) none s₁ hfound
        have hlater := hquiet.trans (frames_log host opts none
          ("No projects found for " ++ Text.joined ", " paths) none s₁)
        obtain ⟨prelude, h⟩ := Narrated.of_quiet hbegun hlogged hlater fun _ => rfl
        exact ⟨prelude, [], [], h⟩
      | cons first rest =>
        rw [analyze_of_cons hresolve hcanceled]
        have hsound : (s.begun scope).Sound := ⟨hs.cache, hs.libraries⟩
        have hknown := Discovery.resolve_knows hsound hresolve
        have hhas : ∀ root ∈ first :: rest, s₁.Has root := fun root hroot => by
          obtain ⟨refs, hrefs⟩ := hknown root hroot
          exact State.has_of_libraries hrefs
        have hregistry : (s.begun scope).registry = s.registry := rfl
        exact narrated_checkAll host opts elapsed hbegun hregistry hfound hhas scope

end Run
end Phases
end ProjectLint
