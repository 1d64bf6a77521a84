/-
No run depends on what earlier runs left behind. From two states of an engine that differ in the
cancellation, the scope, the schedule, the visitor and the files that projects are pointed at, a run
tells the same story, whether the runs before it were completed, canceled or broken off.

While projects are searched, the client can still see the phase of the last run, and the entries
of the search are the same but for it.
-/
import ProjectLint.Proofs.Rerun.Rules
import ProjectLint.Proofs.Subsets

namespace ProjectLint
namespace Rerun

open Run Engine Journal
open List (Forall₂)
open Relation (ReflTransGen)

variable {known : ProjectRef → Prop} {holds : σ → ProjectRef → Prop} {before before' : List Entry}
  {s t : State σ} {host : Host σ}
variable {I : σ → Prop}

namespace Checking

variable {root : ProjectRef}

/-! ## Planning -/

theorem rescheduled (h : Checking known holds before before' s t) (schedule : Schedule) :
    Checking known holds before before' { s with schedule := some schedule }
      { t with schedule := some schedule } :=
  { h with schedule := rfl }

theorem plans (e : Engine σ) : Plans e e (Checking known holds before before') where
  toKin := .refl e
  memory := fun hst => hst.host
  registry := fun hst => hst.registry
  serials := fun hst => hst.serials
  noted := fun _ _ _ hst => hst.write rfl
  counted := fun _ _ _ hst => { hst with serials := rfl }
  schedule := fun hst => hst.ownSchedule
  scheduled := fun schedule _ _ _ hst => hst.rescheduled schedule
  planned := fun _ _ _ hst => hst.write (by rw [hst.ownSchedule])

variable (h : host.Discreet holds) (opts : Options)

include h

theorem configuration (hroot : known root) :
    Respects (Checking known holds before before') ((host.engine opts).configuration root) :=
  bonds.configuration (bonds.attuned (.refl _)) (answers h opts _
    (List.forall_mem_singleton.2 hroot))

theorem plan (hroot : known root) (scope : ScopeSet) :
    Respects (Checking known holds before before')
      ((host.engine opts).plan ownSlot ((host.engine opts).configuration root) scope) := by
  intro s t hst
  refine (plans _).plan (configuration h opts hroot) scope ?_
  rw [hst.ownSchedule]
  exact hst.rescheduled _

theorem replan (hroot : known root) : Respects (Checking known holds before before')
    ((host.engine opts).replan ownSlot ((host.engine opts).configuration root)) :=
  (plans _).replan (configuration h opts hroot)

/-! ## Phases -/

theorem reportCanceled {context : Context} (hcontext : ∀ ref ∈ context.projects, known ref) :
    Respects (Checking known holds before before') ((host.engine opts).reportCanceled context) := by
  refine .read fun s t hst => ?_
  rw [hst.cancelReported]
  refine .ite Iff.rfl (.pure rfl) ?_
  refine Mirrors.bind (R := Eq) (.modify fun hst => { hst with cancelReported := rfl })
    fun _ _ _ => bonds.submit (bonds.attuned (.refl _)) .engine ?_ ?_ ?_
  · exact answers h opts _ (List.forall_mem_singleton.2 (hcontext _ List.mem_cons_self))
  · exact answers h opts _ (List.forall_mem_nil _)
  · exact answers h opts _ hcontext

theorem checkProject (hroot : known root) :
    Respects (Checking known holds before before') ((host.engine opts).checkProject root) := by
  refine (phase h opts hroot).checkPhase.bind fun _ _ _ => .read fun s t hst => ?_
  rw [hst.canceled]
  exact .ite Iff.rfl (reportCanceled h opts (known_projectContext hroot)) (.pure rfl)

theorem extraPhases (hroot : known root) (fuel : Nat) :
    Respects (Checking known holds before before') ((host.engine opts).extraPhases root fuel) := by
  induction fuel with
  | zero => exact .pure rfl
  | succ fuel ih =>
    have hgoOn : ∀ detectors, Respects (Checking known holds before before')
      ((host.engine opts).goOn root fuel detectors) := by
      refine fun detectors => .read fun s t hst => ?_
      rw [hst.canceled, hst.ownSchedule]
      exact .ite Iff.rfl (.pure rfl) ih
    have hlater : Respects (Checking known holds before before')
      ((host.engine opts).laterPhases root fuel) := by
      refine .read fun s t hst => ?_
      rw [hst.scope]
      refine .ite Iff.rfl (.pure rfl) ((replan h opts hroot).bind ?_)
      rintro detectors _ rfl
      refine Mirrors.bind (R := Eq) (.modify fun hst => { hst with memo := .none }) fun _ _ _ => ?_
      cases detectors with
      | nil => exact hgoOn []
      | cons detector rest =>
        exact (checkProject h opts hroot).bind fun _ _ _ => hgoOn (detector :: rest)
    intro s t hst
    cases hadvance : (ownSlot.schedule t).advance? with
    | none =>
      rw [extraPhases_of_none _ _ _ hadvance,
        extraPhases_of_none _ _ _ (hst.ownSchedule ▸ hadvance)]
      exact .ok rfl hst
    | some advanced =>
      rw [extraPhases_of_some _ _ _ hadvance,
        extraPhases_of_some _ _ _ (hst.ownSchedule ▸ hadvance)]
      have hnarrow : Mirrors (Checking known holds before before') Eq
          (modify State.narrow : Run σ Unit) (modify State.narrow) := by
        refine .modify fun {u v} huv => ?_
        have hscope : (ownSlot.schedule u).narrowed u.scope =
            (ownSlot.schedule v).narrowed v.scope := by rw [huv.ownSchedule, huv.scope]
        exact { huv with scope := hscope }
      refine Mirrors.bind (fire h opts .newPhase (some _) (known_projectContext hroot))
        (fun _ _ _ => hnarrow.bind fun _ _ _ => hlater) _ _ ?_
      exact { hst with schedule := rfl }

theorem repeatPhases (hroot : known root) :
    Respects (Checking known holds before before') ((host.engine opts).repeatPhases root) := by
  refine .read fun s t hst => ?_
  rw [hst.ownSchedule]
  refine .ite Iff.rfl (fun u v huv => ?_) (.pure rfl)
  have hextra := extraPhases h opts hroot Options.maxPhases u v huv
  rw [keepingScope, keepingScope, huv.scope]
  generalize (host.engine opts).extraPhases root Options.maxPhases u = r at hextra
  generalize (host.engine opts).extraPhases root Options.maxPhases v = r' at hextra
  cases hextra with
  | ok hunit h => exact .ok hunit { h with scope := rfl }
  | error fault h => exact .error fault { h with scope := rfl }

/-! ## Projects -/

theorem checkRoot (hroot : known root) :
    Respects (Checking known holds before before') ((host.engine opts).checkRoot root) := by
  refine .read fun s t hst => ?_
  rw [hst.scope]
  refine (plan h opts hroot _).bind ?_
  rintro detectors _ rfl
  refine Mirrors.bind (R := Eq) (.modify fun hst => { hst with memo := .none }) fun _ _ _ => ?_
  cases detectors with
  | nil => exact bonds.note _ _ _
  | cons detector rest =>
    exact (checkProject h opts hroot).bind fun _ _ _ =>
      .unlessCanceled (fun hst => hst.canceled) (repeatPhases h opts hroot)

theorem checkRoots {roots : List ProjectRef} (hroots : ∀ root ∈ roots, known root)
    {current : ProjectRef} (hcurrent : known current) :
    Mirrors (Checking known holds before before') (fun root root' => root = root' ∧ known root)
      ((host.engine opts).checkRoots current roots)
      ((host.engine opts).checkRoots current roots) := by
  induction roots generalizing current with
  | nil => exact .pure ⟨rfl, hcurrent⟩
  | cons root rest ih =>
    obtain ⟨hroot, hrest⟩ := List.forall_mem_cons.1 hroots
    refine .read fun s t hst => ?_
    rw [hst.canceled]
    exact .ite Iff.rfl (.pure ⟨rfl, hcurrent⟩)
      ((checkRoot h opts hroot).bind fun _ _ _ => ih hrest hroot)

theorem finish {current : ProjectRef} (hcurrent : known current) (elapsed : Int) :
    Respects (Checking known holds before before') ((host.engine opts).finish current elapsed) := by
  have hconclude : Respects (Checking known holds before before')
    ((host.engine opts).conclude elapsed) := by
    intro s t hst
    have hclosing : Checking known holds before before' (s.closing elapsed)
      (t.closing elapsed) := by
      rw [State.closing, State.closing, hst.canceled]
      exact hst.write rfl
    rw [conclude, conclude, hst.canceled]
    exact fire h opts _ none (List.forall_mem_nil _) _ _ hclosing
  intro s t hst
  cases hcanceled : t.canceled with
  | true =>
    rw [finish_of_canceled _ _ _ (hst.canceled.trans hcanceled), finish_of_canceled _ _ _ hcanceled]
    exact ((reportCanceled h opts (known_projectContext hcurrent)).bind
      fun _ _ _ => hconclude) s t hst
  | false =>
    rw [finish_of_not_canceled _ _ _ (hst.canceled.trans hcanceled),
      finish_of_not_canceled _ _ _ hcanceled]
    exact hconclude s t hst

end Checking

/-! ## From the search to the check -/

theorem links_eq (h : s.Akin t) : s.Links = t.Links := by
  funext ref other
  rw [State.Links, State.Links,
    Project.eq_of_resetSubset Project.libraries (fun _ => rfl) (h.project ref)]

theorem sound_of_akin (h : s.Akin t) (hs : s.Sound) : t.Sound := by
  have hhas : ∀ ref, s.Has ref ↔ t.Has ref := fun ref => by rw [State.Has, State.Has, h.size]
  refine ⟨fun entry hentry => (hhas _).1 (hs.cache entry (h.cache ▸ hentry)), ?_⟩
  intro i p refs hp hrefs ref href
  have hproject := h.getElem? i
  rw [hp, Option.map_some, Option.map_eq_some_iff] at hproject
  obtain ⟨q, hq, hqp⟩ := hproject
  have hlibraries : q.libraries = some refs :=
    (Project.eq_of_resetSubset Project.libraries (fun _ => rfl) hqp).trans hrefs
  exact (hhas ref).1 (hs.libraries i q refs hq hlibraries ref href)

def Reached (s : State σ) (roots : List ProjectRef) (ref : ProjectRef) : Prop :=
  ∃ root ∈ roots, ReflTransGen s.Links root ref

section Found

variable {stopped : State σ → Bool} {paths : List String} {roots : List ProjectRef}
  {ref : ProjectRef} {s₁ t₁ : State σ} {opts : Options}

theorem reached_closed (hs : s.Sound)
    (h : Discovery.resolve (host.engine opts) stopped paths s = .ok roots s₁)
    (href : Reached s₁ roots ref) :
    ∃ refs, (s₁.project ref).libraries = some refs ∧ ∀ other ∈ refs, Reached s₁ roots other := by
  obtain ⟨root, hroot, hreach⟩ := href
  obtain ⟨found, s₀, hfound⟩ := Discovery.found_of_mem h hroot
  obtain ⟨u, hprojects, -, -, hsettled, hroots⟩ :=
    Discovery.resolve_settles hs hfound h
  obtain ⟨-, hsettled, -⟩ := hsettled root ((hroots root).1 hroot).1
  obtain ⟨refs, hrefs⟩ := hsettled ref (Discovery.links_congr hprojects ▸ hreach)
  rw [← project_congr hprojects] at hrefs
  exact ⟨refs, hrefs, fun other hother => ⟨root, hroot, hreach.tail ⟨refs, hrefs, hother⟩⟩⟩

theorem reached_pointed {calls : Call → Prop} (h : host.Unaware paths calls I)
    (hs : s.Sound) (hst : Searching I before before' s t)
    (hroots : Discovery.resolve (host.engine opts) State.canceled paths s = .ok roots s₁)
    (hroots' : Discovery.resolve (host.engine opts) State.canceled paths t = .ok roots t₁)
    (href : Reached s₁ roots ref) : s₁.project ref = t₁.project ref := by
  have hst₁ := (Searching.resolve h opts paths).of_ok hst hroots hroots'
  obtain ⟨root, hroot, hreach⟩ := href
  obtain ⟨found, s₀, hfound⟩ := Discovery.found_of_mem hroots hroot
  have hmem : root ∈ found.map Prod.snd :=
    ((Discovery.resolve_spec hs hfound hroots).2 root).1 hroot |>.1
  obtain ⟨_, t₀, hfound', rfl, -⟩ :=
    (Probes.addPaths (fun _ => (Searching.searches h opts).probes)
      (halting_never fun hst => hst.canceled) _ _ []).mirrors.follow hst hfound
  rw [hst.files] at hfound'
  have hpointed := Discovery.resolve_points hs hfound hroots root hmem ref hreach
  have hpointed' := Discovery.resolve_points (sound_of_akin hst.toAkin hs) hfound'
    hroots' root hmem ref (links_eq hst₁.toAkin ▸ hreach)
  rw [hpointed.2, hpointed'.2, hst₁.files, hst₁.project ref]

end Found

/-- Two runs have told the same since `before` and `before'`, but for the phase that the client
could see in the search for projects, and leave states that are akin again. -/
structure SameStory (before before' : List Entry) (s t : State σ) : Prop extends s.Akin t where
  told : ∃ search search' check, s.written = before ++ search ++ check ∧
    t.written = before' ++ search' ++ check ∧
    search.map Entry.timeless = search'.map Entry.timeless

theorem Searching.sameStory (h : Searching I before before' s t) :
    SameStory before before' s t := by
  obtain ⟨search, search', hs, ht, hsame⟩ := h.told
  refine { h with told := ⟨search, search', [], ?_, ?_, hsame⟩ }
  · rw [List.append_nil, hs]
  · rw [List.append_nil, ht]

theorem checking_of_found {calls : Call → Prop} {paths : List String}
    {opts : Options} {roots : List ProjectRef} {s₁ t₁ : State σ}
    (h : host.Unaware paths calls I) (hholds : ∀ memory, I memory → ∀ ref, ¬ holds memory ref)
    (hs : s.Sound) (hst : Searching I before before' s t)
    (hroots : Discovery.resolve (host.engine opts) State.canceled paths s = .ok roots s₁)
    (hroots' : Discovery.resolve (host.engine opts) State.canceled paths t = .ok roots t₁)
    (scope : Option ScopeSet) (count : Nat) :
    Checking (Reached s₁ roots) holds s₁.written t₁.written
      ((s₁.ready scope roots).entered count) ((t₁.ready scope roots).entered count) := by
  have hst₁ := (Searching.resolve h opts paths).of_ok hst hroots hroots'
  have hpointed : ∀ ref, Reached s₁ roots ref → s₁.project ref = t₁.project ref :=
    fun _ href => reached_pointed h hs hst hroots hroots' href
  have hclosed : ∀ ref, Reached s₁ roots ref → ∃ refs, (s₁.project ref).libraries = some refs ∧
      ∀ other ∈ refs, Reached s₁ roots other := fun _ href => reached_closed hs hroots href
  have hsubsets : (roots.map fun ref => (s₁.project ref).subset) =
      roots.map fun ref => (t₁.project ref).subset :=
    List.map_congr_left fun root hroot =>
      congrArg Project.subset (hpointed root ⟨root, hroot, .refl⟩)
  have hready : Checking (Reached s₁ roots) holds s₁.written t₁.written
      { s₁.ready scope roots with schedule := some {}, memo := none, cancelReported := false }
      { t₁.ready scope roots with schedule := some {}, memo := none, cancelReported := false } :=
    { hst₁ with
      scope := congrArg (fun subsets => scope.getD (Layout.inferScope subsets)) hsubsets
      schedule := rfl
      memo := .none
      cancelReported := rfl
      memory := fun ref href => absurd href (hholds _ hst₁.memory ref)
      pointed := hpointed
      closed := hclosed
      told := ⟨[], (List.append_nil _).symm, (List.append_nil _).symm⟩ }
  have hscope : (s₁.ready scope roots).scope = (t₁.ready scope roots).scope := hready.scope
  exact hready.write (by rw [hscope])

theorem Checking.sameStory {s₁ t₁ : State σ} (h : Checking known holds s.written t.written s₁ t₁)
    (hst : Searching I before before' s t) : SameStory before before' s₁ t₁ := by
  obtain ⟨search, search', hs, ht, hsame⟩ := hst.told
  obtain ⟨check, hs₁, ht₁⟩ := h.told
  exact { h with told := ⟨search, search', check, hs ▸ hs₁, ht ▸ ht₁, hsame⟩ }

theorem mirrors_checkAll {first : ProjectRef} {rest : List ProjectRef} (h : host.Discreet holds)
    (opts : Options) (hroots : ∀ root ∈ first :: rest, known root) (elapsed : Int) :
    ∀ {s t : State σ}, Checking known holds before before' (s.entered (rest.length + 1))
        (t.entered (rest.length + 1)) →
      Matches (Checking known holds before before') Eq
        ((host.engine opts).checkAll first rest elapsed s)
        ((host.engine opts).checkAll first rest elapsed t) := by
  intro s t hst
  rw [checkAll_eq, checkAll_eq]
  refine Mirrors.bind (Checking.fire h opts .starting none (List.forall_mem_nil _))
    (fun _ _ _ => ?_) _ _ hst
  refine (Checking.checkRoots h opts hroots (hroots first List.mem_cons_self)).bind ?_
  rintro current _ ⟨rfl, hcurrent⟩
  exact Checking.finish h opts hcurrent elapsed

/-- A run tells the same from states that differ only in what earlier runs left behind, if the
client does not look at these things while projects are looked for, and nobody holds on to a
project. -/
theorem analyze_forgets (host : Host σ) (opts : Options) {paths : List String}
    {calls : Call → Prop} {I : σ → Prop} {holds : σ → ProjectRef → Prop}
    (scope : Option ScopeSet) (elapsed : Int) {s t : State σ}
    (hunaware : host.Unaware paths calls I) (hdiscreet : host.Discreet holds)
    (hholds : ∀ memory, I memory → ∀ ref, ¬ holds memory ref)
    (hmemory : I s.host) (hs : s.Sound) (hst : s.Akin t) :
    Matches (SameStory s.written t.written) Eq
      ((host.engine opts).analyze paths scope elapsed s)
      ((host.engine opts).analyze paths scope elapsed t) := by
  have hbegun : Searching I s.written t.written (s.begun scope) (t.begun scope) :=
    { hst with
      scope := rfl
      canceled := rfl
      memory := hmemory
      told := ⟨[], [], (List.append_nil _).symm, (List.append_nil _).symm, rfl⟩ }
  have hsound : (s.begun scope).Sound := ⟨hs.cache, hs.libraries⟩
  have hsearch := Searching.resolve hunaware opts paths _ _ hbegun
  generalize hr : Discovery.resolve (host.engine opts) State.canceled paths (s.begun scope) = r
    at hsearch
  generalize hr' : Discovery.resolve (host.engine opts) State.canceled paths (t.begun scope) = r'
    at hsearch
  cases hsearch with
  | error fault hend =>
    rw [analyze_of_error hr, analyze_of_error hr']
    exact .error fault hend.sameStory
  | @ok roots roots' s₁ t₁ hsame hend =>
    obtain rfl := hsame
    cases hcanceled : t₁.canceled with
    | true =>
      rw [analyze_of_canceled hr (hend.canceled.trans hcanceled), analyze_of_canceled hr' hcanceled]
      exact .ok rfl hend.sameStory
    | false =>
      cases roots with
      | nil =>
        rw [analyze_of_nil hr (hend.canceled.trans hcanceled), analyze_of_nil hr' hcanceled]
        have hlog := Searching.log hunaware opts hunaware.nothing _ _ hend
        generalize (host.engine opts).log none _ none s₁ = q at hlog ⊢
        generalize (host.engine opts).log none _ none t₁ = q' at hlog ⊢
        cases hlog with
        | ok hunit hend => exact .ok hunit hend.sameStory
        | error fault hend => exact .error fault hend.sameStory
      | cons first rest =>
        rw [analyze_of_cons hr (hend.canceled.trans hcanceled), analyze_of_cons hr' hcanceled]
        have hcheck := mirrors_checkAll hdiscreet opts
          (fun root hroot => ⟨root, hroot, .refl⟩) elapsed
          (checking_of_found hunaware hholds hsound hbegun hr hr' scope (rest.length + 1))
        generalize (host.engine opts).checkAll first rest elapsed
          (s₁.ready scope (first :: rest)) = q at hcheck ⊢
        generalize (host.engine opts).checkAll first rest elapsed
          (t₁.ready scope (first :: rest)) = q' at hcheck ⊢
        cases hcheck with
        | ok hunit hend₁ => exact .ok hunit (hend₁.sameStory hend)
        | error fault hend₁ => exact .error fault (hend₁.sameStory hend)

def cleared (s : State σ) : State σ :=
  { s with
    canceled := false
    searchCanceled := false
    scope := .all
    schedule := none
    memo := none
    cancelReported := false
    projects := s.projects.map Project.resetSubset
    journal := #[] }

theorem akin_cleared (s : State σ) : s.Akin (cleared s) where
  host := rfl
  files := rfl
  registry := rfl
  cache := rfl
  serials := rfl
  listeners := rfl
  projects := by
    show _ = (s.projects.map Project.resetSubset).map Project.resetSubset
    rw [Array.map_map]
    rfl

instance (s : State σ) : Decidable s.Sound :=
  decidable_of_iff ((∀ entry ∈ s.cache, entry.2.index < s.projects.size) ∧
      ∀ p ∈ s.projects.toList, ∀ refs ∈ p.libraries, ∀ ref ∈ refs, ref.index < s.projects.size)
    ⟨fun h => ⟨h.1, fun i p refs hp hrefs =>
        h.2 p (Array.mem_toList_iff.2 (Array.mem_of_getElem? hp)) refs hrefs⟩,
      fun h => ⟨h.cache, fun p hp refs hrefs => by
        obtain ⟨i, hi⟩ := Array.mem_iff_getElem?.1 (Array.mem_toList_iff.1 hp)
        exact h.libraries i p refs hi hrefs⟩⟩

def hastyEmbedding : Scripted.Embedding where
  detectors :=
    [("D", { scanners := [.markup], declared := [.markup],
             rules := [{ trigger := "beforeCheckFile", commands :=
                         [.requestRepeat none none, .cancel],
                         nth := some 1 }] })]
  client :=
    { rules := [{ trigger := "getProject",
                  commands := [.log none "searching", .observe none (some .manifest) false] }] }

def interrupted : Outcome Scripted.Memory Unit :=
  (hastyEmbedding.host.engine ⟨true⟩).analyze ["a/AndroidManifest.xml"] none 0
    (fresh {} (sideBySide [("a", "")]) ⟨[manifestIssue]⟩)

theorem analyze_forgets_interrupted :
    let s := endState interrupted
    (s.canceled = true ∧ (ownSlot.schedule s).isPending = true ∧
        (s.project ⟨0, "/w/a"⟩).subset = some ["/w/a/AndroidManifest.xml"]) ∧
      Matches (SameStory s.written (cleared s).written) Eq
        ((hastyEmbedding.host.engine ⟨true⟩).analyze ["a"] none 0 s)
        ((hastyEmbedding.host.engine ⟨true⟩).analyze ["a"] none 0 (cleared s)) := by
  have hunaware := hastyEmbedding.unaware ["a"] (by decide)
  exact ⟨by decide +kernel, analyze_forgets _ _ none 0 hunaware hastyEmbedding.discreet
    (fun _ _ _ => id) trivial (by decide +kernel) (akin_cleared _)⟩

/-! ## Leftovers that show -/

/-- Code that looks at the project in `/w/a` whenever it is called by a certain name. -/
def curiousHost (name : String) : Host Scripted.Memory :=
  { idleHost with
    scans := fun _ _ => true
    react := fun call _ _ =>
      if call.name = name then
        .perform (.observe (some ⟨⟨0, "/w/a"⟩, none, "/w/a", .plain⟩) none none true) .done
      else .done }

/-- A detector that asks for a second phase, and a client that looks at the phase when it gets a
message. -/
def countingEmbedding : Scripted.Embedding where
  detectors :=
    [("D", { scanners := [.markup], declared := [.markup],
             rules := [{ trigger := "beforeCheckProject", commands := [.requestRepeat none none],
                         phase := some 1 }] })]
  client := { rules := [{ trigger := "log", commands := [.observe none none false] }] }

def afterOneFile (host : Host Scripted.Memory) : State Scripted.Memory :=
  endState ((host.engine ⟨true⟩).analyze ["a/AndroidManifest.xml"] none 0
    (fresh {} (sideBySide [("a", ""), ("b", "")]) ⟨[manifestIssue]⟩))

def phaseSeen? : Entry → Option Nat
  | .observed (.state moment _ _ _ _) => some moment.phase
  | _ => none

def subsetSeen? : Entry → Option (Option (List String))
  | .observed (.state _ _ _ _ (some (_, project))) => some project.subset
  | _ => none

/-- What the code of an embedding gets to see in one run. -/
def seenIn (host : Host Scripted.Memory) (paths : List String) (s : State Scripted.Memory)
    (see : Entry → Option α) : List α :=
  ((endState ((host.engine ⟨true⟩).analyze paths none 0 s)).written.drop
    s.written.length).filterMap see

/-- The files that a project was pointed at show to a client that looks at the project while it is
asked for it, and to a detector that still has the project when another one is checked; and the
phase of the last run shows to a client that is told that nothing was found. -/
theorem leftovers_show :
    let asked := curiousHost "getProject"
    let checking := curiousHost "beforeCheckProject"
    let counting := countingEmbedding.host
    (∀ host, (afterOneFile host).Akin (cleared (afterOneFile host))) ∧
    ((afterOneFile asked).Sound ∧ (afterOneFile checking).Sound ∧ (afterOneFile counting).Sound) ∧
    (seenIn asked ["a"] (afterOneFile asked) subsetSeen? = [some ["/w/a/AndroidManifest.xml"]] ∧
      seenIn asked ["a"] (cleared (afterOneFile asked)) subsetSeen? = [none]) ∧
    (seenIn checking ["b"] (afterOneFile checking) subsetSeen? =
        [some ["/w/a/AndroidManifest.xml"]] ∧
      seenIn checking ["b"] (cleared (afterOneFile checking)) subsetSeen? = [none]) ∧
    seenIn counting ["nowhere"] (afterOneFile counting) phaseSeen? = [2] ∧
      seenIn counting ["nowhere"] (cleared (afterOneFile counting)) phaseSeen? = [1] := by
  intro asked checking counting
  refine ⟨fun host => akin_cleared _, ?_, ?_, ?_, ?_⟩
  · decide +kernel
  · decide +kernel
  · decide +kernel
  · decide +kernel

end Rerun
end ProjectLint
