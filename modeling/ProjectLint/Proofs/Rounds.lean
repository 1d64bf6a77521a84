/-
From phases to runs. What is written between the phases of a run announces neither a scan nor a call
of a detector, so a property of the state that survives such entries and every phase survives the
run.

A journal falls into sections, each from one announcement to the next; what a phase writes is a
section of its own, and what is written after it adds nothing to the section that counts.
-/
import Mathlib.Data.List.TakeWhile
import ProjectLint.Proofs.Planning

namespace ProjectLint

variable {s : State σ} {root : ProjectRef} {config : Configuration}

namespace State

/-- The detectors of a phase, as its configuration calls for them: at first instances of the classes
that have an enabled issue in scope, later those that asked to run again and have an enabled
issue. -/
inductive Chosen (s : State σ) (root : ProjectRef) (config : Configuration) : Prop
  | first : s.Configured root config → s.phase = 1 →
      s.selection.members.map (fun member => (member.1.className, member.2)) =
        s.registry.selectedClasses config s.scope → Chosen s root config
  | later {requested : List Detector} : s.Configured root config → 1 < s.phase →
      s.selection = Schedule.repeating s.registry config requested → Chosen s root config

theorem Chosen.configured (h : s.Chosen root config) : s.Configured root config := by
  cases h with
  | first h => exact h
  | later h => exact h

def Serving (s : State σ) (category : Scope) (detector : Detector) : Prop :=
  detector ∈ s.selection.bucket category ∧ s.scope.covers category = true

def Lasting (s t : State σ) : Prop :=
  ∀ ref config, s.Configured ref config → t.Configured ref config

end State

namespace Journal

/-! ## Sections -/

def Entry.isAside : Entry → Bool
  | .fired .scanningProject (some _) _ | .fired .scanningLibrary (some _) _
  | .fired .scanningFile (some _) _ => false
  | .called (.detector _ _) _ => false
  | _ => true

/-- The project for which a phase is announced. -/
def Entry.phaseOf? : Entry → Option ProjectRef
  | .fired .scanningProject (some context) _ => some context.project
  | _ => none

theorem Entry.phaseOf?_of_aside (entry : Entry) (h : entry.isIncidental || entry.isAside) :
    entry.phaseOf? = none := by
  cases entry with
  | fired event context moment =>
    cases event with
    | scanningProject =>
      cases context with
      | none => rfl
      | some => cases h
    | _ => rfl
  | _ => rfl

/-- What was written from each opening to the next. -/
def sections (opens : Entry → Option β) : List Entry → List (β × List Entry)
  | [] => []
  | entry :: rest =>
    match opens entry with
    | some b => (b, rest.takeWhile fun other => (opens other).isNone) :: sections opens rest
    | none => sections opens rest

section Sections

variable {opens : Entry → Option β} {P : β → List Entry → Prop} {entries more : List Entry}

theorem sections_of_none (h : ∀ entry ∈ more, opens entry = none) : sections opens more = [] := by
  induction more with
  | nil => rfl
  | cons entry rest ih =>
    obtain ⟨hentry, hrest⟩ := List.forall_mem_cons.1 h
    rw [sections, hentry]
    exact ih hrest

theorem exists_section {f : List Entry → γ} {b : β} {c : γ}
    (h : (b, c) ∈ (sections opens entries).map fun part => (part.1, f part.2)) :
    ∃ during, (b, during) ∈ sections opens entries ∧ f during = c := by
  obtain ⟨⟨_, during⟩, hpart, hfacts⟩ := List.mem_map.1 h
  obtain ⟨rfl, hsame⟩ := Prod.mk.inj hfacts
  exact ⟨during, hpart, hsame⟩

theorem sections_append_of_none (h : ∀ entry ∈ entries, opens entry = none) :
    sections opens (entries ++ more) = sections opens more := by
  induction entries with
  | nil => rfl
  | cons entry rest ih =>
    obtain ⟨hentry, hrest⟩ := List.forall_mem_cons.1 h
    rw [List.cons_append, sections, hentry]
    exact ih hrest

theorem takeWhile_of_none (h : ∀ entry ∈ more, opens entry = none) :
    (more.takeWhile fun other => (opens other).isNone) = more :=
  List.takeWhile_eq_self_iff.2 fun entry hentry => by rw [h entry hentry]; rfl

theorem sections_append_open {entry : Entry} {b : β} (h : opens entry = some b) :
    sections opens (entries ++ entry :: more) =
      sections opens entries ++ sections opens (entry :: more) := by
  induction entries with
  | nil => rfl
  | cons first rest ih =>
    rw [List.cons_append, sections, sections, ih]
    cases opens first with
    | none => rfl
    | some c =>
      have hstop : (opens entry).isNone = false := by rw [h]; rfl
      have hsame : ((rest ++ entry :: more).takeWhile fun other => (opens other).isNone) =
          rest.takeWhile fun other => (opens other).isNone := by
        rw [List.takeWhile_append, List.takeWhile_cons_of_neg (by rw [hstop]; decide)]
        split
        · rename_i hall
          rw [List.append_nil]
          exact ((List.takeWhile_prefix _).eq_of_length hall).symm
        · rfl
      rw [hsame]
      rfl

theorem forall_sections_append (h : ∀ part ∈ sections opens entries, P part.1 part.2)
    (hmore : ∀ entry ∈ more, opens entry = none)
    (hP : ∀ b during, P b during → P b (during ++ more)) :
    ∀ part ∈ sections opens (entries ++ more), P part.1 part.2 := by
  induction entries with
  | nil =>
    rw [List.nil_append, sections_of_none hmore]
    exact List.forall_mem_nil _
  | cons first rest ih =>
    rw [List.cons_append, sections]
    rw [sections] at h
    cases hopens : opens first with
    | none =>
      rw [hopens] at h
      exact ih h
    | some b =>
      rw [hopens] at h
      obtain ⟨hfirst, hrest⟩ := List.forall_mem_cons.1 h
      refine List.forall_mem_cons.2 ⟨?_, ih hrest⟩
      show P b ((rest ++ more).takeWhile fun other => (opens other).isNone)
      rw [List.takeWhile_append]
      split
      · rename_i hall
        rw [takeWhile_of_none hmore]
        refine hP b rest ?_
        rw [← (List.takeWhile_prefix _).eq_of_length hall]
        exact hfirst
      · exact hfirst

end Sections

def Sectioned (opens : Entry → Option β) (P : β → List Entry → Prop) (before : List Entry)
    (s : State σ) : Prop :=
  ∃ new, s.written = before ++ new ∧ ∀ part ∈ sections opens new, P part.1 part.2

namespace Sectioned

variable {opens : Entry → Option β} {P : β → List Entry → Prop} {before more : List Entry}
  {s t : State σ}

theorem start (s : State σ) : Sectioned opens P s.written s :=
  ⟨[], (List.append_nil _).symm, List.forall_mem_nil _⟩

variable (h : Sectioned opens P before s)

include h

theorem append (hwritten : t.written = s.written ++ more)
    (hmore : ∀ entry ∈ more, opens entry = none)
    (hP : ∀ b during, P b during → P b (during ++ more)) : Sectioned opens P before t := by
  obtain ⟨new, hnew, hall⟩ := h
  exact ⟨new ++ more, by rw [hwritten, hnew, List.append_assoc],
    forall_sections_append hall hmore hP⟩

theorem opened {entry : Entry} {b : β}
    (hwritten : t.written = s.written ++ entry :: more) (hentry : opens entry = some b)
    (hmore : ∀ entry ∈ more, opens entry = none) (hP : P b more) :
    Sectioned opens P before t := by
  obtain ⟨new, hnew, hall⟩ := h
  refine ⟨new ++ entry :: more, by rw [hwritten, hnew, List.append_assoc], ?_⟩
  rw [sections_append_open hentry, List.forall_mem_append]
  refine ⟨hall, ?_⟩
  rw [sections, hentry, sections_of_none hmore, takeWhile_of_none hmore]
  exact List.forall_mem_singleton.2 hP

theorem write {entry : Entry} (hentry : opens entry = none)
    (hP : ∀ b during, P b during → P b (during ++ [entry])) :
    Sectioned opens P before (s.write entry) :=
  h.append (State.written_write s entry) (List.forall_mem_singleton.2 hentry) hP

end Sectioned
end Journal

namespace Engine

open Run Journal

variable {host : Host σ} {I J : State σ → Prop} {may : Action → Prop} {allowed : (σ → σ) → Prop}

/-! ## What happens between the phases -/

structure Settles (host : Host σ) (I : State σ → Prop) (may : Action → Prop)
    (allowed : (σ → σ) → Prop) : Prop extends Hears host I may allowed where
  schedule : ∀ schedule {s}, I s → I { s with schedule } := by
    intros; rename_i h; first | exact h | exact { h with }
  serials : ∀ serials {s}, I s → I { s with serials } := by
    intros; rename_i h; first | exact h | exact { h with }
  forgotten : ∀ {s}, I s → I { s with memo := none } := by
    intros; rename_i h; first | exact h | exact { h with }
  reported : ∀ {s}, I s → I { s with cancelReported := true } := by
    intros; rename_i h; first | exact h | exact { h with }
  announced : ∀ {entry s}, entry.isAside = true → entry.isIncidental = false → I s →
    I (s.write entry) := by
    intros; rename_i h; first | exact h | exact { h with }
  narrowed : ∀ {s}, I s → I s.narrow := by
    intros; rename_i h; first | exact h | exact { h with }
  restored : ∀ {s₀ s}, I s₀ → I s → I { s with scope := s₀.scope } := by
    intros; rename_i h; first | exact h | exact { h with }

theorem isAside_of_isClient {call : Call} (moment : Moment) (h : call.isClient = true) :
    Entry.isAside (.called call moment) = true := by
  cases call with
  | detector => cases h
  | _ => rfl

theorem Settles.sectioned {opens : Entry → Option β} {P : β → List Entry → Prop}
    (h : Settles host I may allowed)
    (hopens : ∀ entry : Entry, entry.isIncidental || entry.isAside → opens entry = none)
    (hP : ∀ b during entry, entry.isAside = true → P b during → P b (during ++ [entry]))
    (before : List Entry) :
    Settles host (fun s => I s ∧ Sectioned opens P before s) may allowed := by
  have hwrite : ∀ {entry : Entry} {s : State σ}, entry.isAside = true →
      Sectioned opens P before s → Sectioned opens P before (s.write entry) := by
    intro entry s haside hs
    refine hs.write (hopens _ ?_) fun b during => hP b during _ haside
    rw [haside, Bool.or_true]
  exact {
    reacts := h.reacts
    heeds := h.heeds
    called := fun hcall hs => ⟨h.called hcall hs.1, hwrite (isAside_of_isClient _ hcall) hs.2⟩
    logged := fun entry _ hs => ⟨h.logged entry hs.1, hwrite rfl hs.2⟩
    observed := fun seen _ hs => ⟨h.observed seen hs.1, hwrite rfl hs.2⟩
    submitted := fun report _ hmay hs => ⟨h.submitted report hmay hs.1, hwrite rfl hs.2⟩
    requested := fun detector scope schedule _ hmay heq hs =>
      ⟨h.requested detector scope schedule hmay heq hs.1, hwrite rfl hs.2⟩
    configured := fun ref config _ _ hs₀ hnone hs =>
      ⟨h.configured ref config hs₀.1 hnone hs.1, hs.2⟩
    updated := fun change _ hmay hs => ⟨h.updated change hmay hs.1, hs.2⟩
    files := fun change _ hmay hs => ⟨h.files change hmay hs.1, hs.2⟩
    listeners := fun listeners _ hs => ⟨h.listeners listeners hs.1, hs.2⟩
    canceled := fun hmay hs => ⟨h.canceled hmay hs.1, hs.2⟩
    search := fun hs => ⟨h.search hs.1, hs.2⟩
    heard := fun hs => ⟨h.heard hs.1, hwrite rfl hs.2⟩
    schedule := fun schedule _ hs => ⟨h.schedule schedule hs.1, hs.2⟩
    serials := fun serials _ hs => ⟨h.serials serials hs.1, hs.2⟩
    forgotten := fun hs => ⟨h.forgotten hs.1, hs.2⟩
    reported := fun hs => ⟨h.reported hs.1, hs.2⟩
    announced := fun haside hown hs => ⟨h.announced haside hown hs.1, hwrite haside hs.2⟩
    narrowed := fun hs => ⟨h.narrowed hs.1, hs.2⟩
    restored := fun hs₀ hs => ⟨h.restored hs₀.1 hs.1, hs.2⟩ }

theorem Lasts.settles (h : Lasts I) (host : Host σ) :
    Settles host I (fun _ => True) fun _ => True :=
  h.wlog (P := (Settles host · _ _)) fun _ h => { toBears := (h.finds host).toBears }

/-! ## From phases to runs -/

theorem chosen_of_plan {opts : Options} {t : State σ} {detectors : List Detector} (hs : s.Has root)
    (h : (host.engine opts).plan ownSlot ((host.engine opts).configuration root) s.scope s =
      .ok detectors t) : ∃ config, t.Chosen root config := by
  obtain ⟨config, s₁, members, s₂, hconfig, hmembers, rfl, rfl⟩ := plan_eq_ok h
  have hknown := configured_of_ok opts (s := s.restarted) hs hconfig
  have hlater := (frames_configuration host opts root).ok hconfig
  obtain ⟨hcounted, hmade⟩ := instantiateAll_spec (host.engine opts)
    (s₁.registry.selectedClasses config s.scope) s₁
  obtain ⟨hclasses, -⟩ := hmade members s₂ hmembers
  rw [hmembers, endState_ok] at hcounted
  obtain ⟨⟨serials, rfl⟩, -⟩ := hcounted
  have hscope : s₁.scope = s.scope := hlater.scope
  have hphase : s₁.phase = 1 := hlater.phase
  refine ⟨config, .first hknown ?_ ?_⟩
  · show (ownSlot.schedule s₁).phase = 1
    rw [← State.phase_eq, hphase]
  · show members.map _ = s₁.registry.selectedClasses config s₁.scope
    rw [hclasses, hscope]

/-- A property that survives all that a run does apart from its phases. -/
structure Bridges (e : Engine σ) (K : State σ → Prop) : Prop where
  schedule : ∀ schedule {s}, K s → K { s with schedule }
  logged : ∀ entry {s}, K s → K (s.write (.logged entry))
  planned : ∀ phase detectors {s}, K s → K (s.write (.planned phase detectors))
  forgotten : ∀ {s}, K s → K { s with memo := none }
  narrowed : ∀ {s}, K s → K s.narrow
  restored : ∀ {s₀ s}, s₀.Lasting s → K s₀ → K s → K { s with scope := s₀.scope }
  plan : ∀ root scope, Keeps K (e.plan ownSlot (e.configuration root) scope)
  fire : ∀ {event context}, (∀ moment, Entry.isAside (.fired event context moment) = true) →
    Keeps K (e.fire event context)
  reportCanceled : ∀ context, Keeps K (e.reportCanceled context)
  finish : ∀ current elapsed, Keeps K (e.finish current elapsed)

theorem Settles.plan (h : Settles host I may allowed) (opts : Options) (root : ProjectRef)
    (scope : ScopeSet) :
    Keeps I ((host.engine opts).plan ownSlot ((host.engine opts).configuration root) scope) :=
  Bears.plan h.toBears opts h.schedule h.serials (fun _ _ _ hs => h.announced rfl rfl hs) root scope

theorem Settles.between (h : Settles host I may allowed) (opts : Options) {event : Event}
    {context : Option Context}
    (hevent : ∀ moment, Entry.isAside (.fired event context moment) = true) :
    Keeps I ((host.engine opts).fire event context) :=
  fun s hs => h.fire opts (h.announced (hevent s.moment) rfl hs)

/-- The property may rest on the configurations of a later state, as they stay what they are. -/
theorem Settles.bridges (h : Settles host I may allowed) (opts : Options) (final : State σ) :
    Bridges (host.engine opts) fun s => s.Lasting final → I s := by
  have hforeseen : ∀ {α : Type} {x : Run σ α}, Keeps I x → (∀ ref config,
      Keeps (fun s => s.Configured ref config) x) → Keeps (fun s => s.Lasting final → I s) x :=
    fun hx hlasts s hs hfinal => hx s (hs fun ref config hknown =>
      hfinal ref config (hlasts ref config s hknown))
  have hcustody := fun ref config => (lasts_configured (σ := σ) ref config).custody host opts
  exact {
    schedule := fun schedule _ hs hfinal => h.schedule schedule (hs hfinal)
    logged := fun entry _ hs hfinal => h.logged entry (hs hfinal)
    planned := fun _ _ _ hs hfinal => h.announced rfl rfl (hs hfinal)
    forgotten := fun hs hfinal => h.forgotten (hs hfinal)
    narrowed := fun hs hfinal => h.narrowed (hs hfinal)
    restored := fun hlasts hs₀ hs hfinal => h.restored
      (hs₀ fun ref config hknown => hfinal ref config (hlasts ref config hknown)) (hs hfinal)
    plan := fun root scope => hforeseen (h.plan opts root scope)
      fun ref config => ((hcustody ref config).plan root scope).keeps
    fire := fun hevent => hforeseen (h.between opts hevent)
      fun ref config => (lasts_configured ref config).fire host opts _ _
    reportCanceled := fun context => hforeseen
      (.inspect fun s _ => .ite _ (.pure ()) (Keeps.bind (.modify h.reported) fun _ t ht =>
        Bears.submit h.toBears (h.serves opts) (h.announced rfl rfl ht)))
      fun ref config => ((hcustody ref config).reportCanceled context).keeps
    finish := fun current elapsed => hforeseen
      (h.toHears.finish opts h.reported (fun _ _ hs => h.announced rfl rfl hs)
        (fun event _ hs => h.announced (by cases event <;> rfl) rfl hs) current elapsed)
      fun ref config => (lasts_configured ref config).finish host opts current elapsed }

namespace Bridges

variable {opts : Options} {K : State σ → Prop} (h : Bridges (host.engine opts) K)
  {all : List ProjectRef} (hphase : ∀ {root config s}, root ∈ all → s.Chosen root config →
    s.memo = none → K s → K (endState ((host.engine opts).checkPhase root s)))

include h hphase

theorem checkProject (hmember : root ∈ all) (hchosen : s.Chosen root config) (hmemo : s.memo = none)
    (hs : K s) : K (endState ((host.engine opts).checkProject root s)) :=
  Keeps.bindAt (hphase hmember hchosen hmemo hs) fun _ =>
    .inspect fun _ _ => .ite _ (h.reportCanceled _) (.pure ())

theorem extraPhases (hmember : root ∈ all) (fuel : Nat) (hconfig : s.Configured root config)
    (hfirst : 1 ≤ s.phase) (hs : K s) :
    K (endState ((host.engine opts).extraPhases root fuel s)) := by
  induction fuel generalizing s with
  | zero => exact hs
  | succ fuel ih =>
    cases hadvance : (ownSlot.schedule s).advance? with
    | none => rwa [extraPhases_of_none _ _ _ hadvance]
    | some advanced =>
      obtain ⟨s₁, hfire, hrun⟩ := extraPhases_announced host opts root fuel hadvance
      have hs₁ : K s₁.narrow := h.narrowed
        ((h.fire fun _ => rfl).ok (h.schedule (some advanced) hs) hfire)
      have hconfig₁ : s₁.Configured root config :=
        ((lasts_configured root config).fire host opts _ _).ok
          (s := { s with schedule := some advanced }) hconfig hfire
      have hlater : 1 < s₁.narrow.phase := by
        rw [show s₁.narrow.phase = advanced.phase from
          ((frames_fire host opts _ _).ok hfire).phase, (Schedule.advance?_eq_some hadvance).2,
          ← State.phase_eq]
        omega
      have hreplanned : K (s₁.narrow.replanned config) :=
        h.logged _ (h.planned _ _ (h.schedule _ hs₁))
      rw [hrun]
      rcases laterPhases_cases (host.engine opts) (s := s₁.narrow) fuel hconfig₁ with
        ⟨-, hend⟩ | ⟨-, ⟨fault, hend⟩ | ⟨-, hend⟩ | ⟨first, rest, -, hend⟩⟩ <;> rw [hend]
      · exact hs₁
      · exact hreplanned
      · exact h.forgotten hreplanned
      · have hchosen : (s₁.narrow.repeated config).Chosen root config := by
          refine .later hconfig₁ ?_ rfl
          rwa [State.phase_eq s₁.narrow] at hlater
        refine Keeps.step (h.checkProject hphase hmember hchosen rfl (h.forgotten hreplanned))
          fun _ u hcheck hu => ?_
        have hknown := ((lasts_configured root config).checkProject host opts root).ok
          hchosen.configured hcheck
        have hnumber := phase_checkProject host opts hcheck
        have hnext : 1 < (s₁.narrow.repeated config).phase := by
          rwa [State.phase_eq s₁.narrow] at hlater
        rw [goOn, get_bind]
        split
        · exact hu
        · exact ih hknown (by omega) hu

theorem checkRoot (hmember : root ∈ all) (hroot : s.Has root) (hs : K s) :
    K (endState ((host.engine opts).checkRoot root s)) := by
  have hplanned := h.plan root s.scope s hs
  rcases checkRoot_cases (host.engine opts) root s with
    ⟨fault, t, hplan, hrun⟩ | ⟨detectors, t, hplan, ⟨-, hrun⟩ | ⟨-, hrun⟩⟩ <;>
    rw [hplan] at hplanned <;> rw [hrun]
  · exact hplanned
  · exact h.logged _ (h.forgotten hplanned)
  · obtain ⟨config, hchosen⟩ := chosen_of_plan hroot hplan
    have hfirst : t.phase = 1 := by
      have hlater := (plan_later host opts root s.scope s).phase
      rwa [hplan, endState_ok] at hlater
    have hready : State.Chosen { t with memo := none } root config := by
      cases hchosen with
      | first hconfig hphase hmembers => exact .first hconfig hphase hmembers
      | later hconfig hphase hrepeats => exact .later hconfig hphase hrepeats
    refine Keeps.step (h.checkProject hphase hmember hready rfl (h.forgotten hplanned))
      fun _ u hcheck hu => ?_
    have hknown := ((lasts_configured root config).checkProject host opts root).ok
      hready.configured hcheck
    have hnumber : u.phase = 1 := (phase_checkProject host opts hcheck).trans hfirst
    cases hcanceled : u.canceled with
    | true => rwa [unlessCanceled_of_canceled hcanceled]
    | false =>
      rw [unlessCanceled_of_not_canceled hcanceled, repeatPhases, get_bind]
      split
      · rw [endState_keepingScope]
        exact h.restored
          (fun ref known => (lasts_configured ref known).extraPhases host opts root _ u) hu
          (h.extraPhases hphase hmember Options.maxPhases hknown (Nat.le_of_eq hnumber.symm) hu)
      · exact hu

theorem checkRoots (current : ProjectRef) (roots : List ProjectRef)
    (hroots : ∀ root ∈ roots, root ∈ all ∧ s.Has root) (hs : K s) :
    K (endState ((host.engine opts).checkRoots current roots s)) := by
  induction roots generalizing current s with
  | nil => exact hs
  | cons root rest ih =>
    obtain ⟨hroot, hrest⟩ := List.forall_mem_cons.1 hroots
    rw [Engine.checkRoots, get_bind]
    split
    · exact hs
    · refine Keeps.step (h.checkRoot hphase hroot.1 hroot.2 hs) fun _ t hrun ht => ?_
      refine ih root (fun other hother => ?_) ht
      obtain ⟨hmember, hhas⟩ := hrest other hother
      exact ⟨hmember, ((lasts_has other).checkRoot host opts root).ok hhas hrun⟩

theorem checkAll (first : ProjectRef) (rest : List ProjectRef) (elapsed : Int)
    (hall : ∀ root ∈ first :: rest, root ∈ all ∧ s.Has root)
    (hs : K (s.entered (rest.length + 1))) :
    K (endState ((host.engine opts).checkAll first rest elapsed s)) := by
  obtain ⟨t, hfire, -⟩ := fire_eq_ok host opts .starting none (s.entered (rest.length + 1))
  rw [checkAll_eq, bind_of_ok hfire]
  refine Keeps.bindAt (h.checkRoots hphase first (first :: rest) (fun root hroot => ?_)
    ((h.fire fun _ => rfl).ok hs hfire)) fun current => h.finish current elapsed
  obtain ⟨hmember, hhas⟩ := hall root hroot
  exact ⟨hmember, ((lasts_has root).fire host opts _ _).ok (s := s.entered _) hhas hfire⟩

end Bridges

/-! ## Runs -/

theorem analyze_cases (host : Host σ) (opts : Options) (paths : List String)
    (scope : Option ScopeSet) (elapsed : Int) (s : State σ) :
    State.Later Quiet (s.begun scope)
        (endState ((host.engine opts).analyze paths scope elapsed s)) ∨
      ∃ first rest found,
        (host.engine opts).seek paths scope s = .ok (first :: rest) found ∧
        State.Later Quiet (s.begun scope) found ∧
        (host.engine opts).analyze paths scope elapsed s =
          (host.engine opts).checkAll first rest elapsed (found.ready scope (first :: rest)) := by
  have hquiet := frames_resolve host opts State.canceled paths (s.begun scope)
  cases hresolve : Discovery.resolve (host.engine opts) State.canceled paths (s.begun scope) with
  | error fault found =>
    rw [hresolve] at hquiet
    rw [analyze_of_error hresolve]
    exact .inl hquiet
  | ok roots found =>
    rw [hresolve, endState_ok] at hquiet
    cases hcanceled : found.canceled with
    | true =>
      rw [analyze_of_canceled hresolve hcanceled]
      exact .inl hquiet
    | false =>
      cases roots with
      | nil =>
        rw [analyze_of_nil hresolve hcanceled]
        exact .inl (hquiet.trans (frames_log host opts none _ none found))
      | cons first rest =>
        exact .inr ⟨first, rest, found, hresolve, hquiet, analyze_of_cons hresolve hcanceled⟩

theorem sections_analyze (opens : Entry → Option β) (P : β → List Entry → Prop)
    {opts : Options} {paths : List String} {scope : Option ScopeSet} {elapsed : Int}
    {new : List Entry} (hs : s.Sound)
    (hopens : ∀ entry : Entry, entry.isIncidental || entry.isAside → opens entry = none)
    (hP : ∀ b during entry, entry.isAside = true → P b during → P b (during ++ [entry]))
    (hrun : ∀ {roots found}, (host.engine opts).seek paths scope s = .ok roots found →
      ∃ may allowed I, Settles host I may allowed ∧
        I { found.ready scope roots with
            schedule := some {}, memo := none, cancelReported := false } ∧
        ∀ {before root config t}, root ∈ roots → I t ∧ Sectioned opens P before t →
          t.Chosen root config → t.memo = none →
          t.Lasting (endState ((host.engine opts).analyze paths scope elapsed s)) →
          I (endState ((host.engine opts).checkPhase root t)) ∧
            Sectioned opens P before (endState ((host.engine opts).checkPhase root t)))
    (hnew : (endState ((host.engine opts).analyze paths scope elapsed s)).written =
      s.written ++ new) : ∀ part ∈ sections opens new, P part.1 part.2 := by
  have hsilent : ∀ {t : State σ} {quiet : List Entry}, State.Later Quiet (s.begun scope) t →
      t.written = s.written ++ quiet → ∀ entry ∈ quiet, opens entry = none := by
    intro t quiet hlater hquiet entry hentry
    obtain ⟨other, hother, hall⟩ := hlater.wrote
    have hsame : quiet = other := List.append_cancel_left (hquiet.symm.trans hother)
    refine hopens entry ?_
    rw [(hall entry (hsame ▸ hentry)).resolve_right id, Bool.true_or]
  rcases analyze_cases host opts paths scope elapsed s with
    hquiet | ⟨first, rest, found, hresolve, hquiet, hcheck⟩
  · rw [sections_of_none (hsilent hquiet hnew)]
    exact List.forall_mem_nil _
  · obtain ⟨_, _, I, hI, hstart, hphase⟩ := hrun hresolve
    obtain ⟨search, hsearch, -⟩ := hquiet.wrote
    have hbegun : (s.begun scope).Sound := ⟨hs.cache, hs.libraries⟩
    have hhas : ∀ root ∈ first :: rest, found.Has root := fun root hroot => by
      obtain ⟨refs, hrefs⟩ := Discovery.resolve_knows hbegun hresolve root hroot
      exact State.has_of_libraries hrefs
    have hboth := hI.sectioned hopens hP found.written
    have hentered : I ((found.ready scope (first :: rest)).entered (rest.length + 1)) ∧
        Sectioned opens P found.written
          ((found.ready scope (first :: rest)).entered (rest.length + 1)) :=
      hboth.logged _ ⟨hstart, .start _⟩
    obtain ⟨-, check, hwritten, hall⟩ :=
      (hboth.bridges opts (endState ((host.engine opts).analyze paths scope elapsed s))).checkAll
        (fun {root config t} hroot hchosen hmemo ht hfinal => by
          have hlasting : t.Lasting _ := fun ref known hknown => hfinal ref known
            ((lasts_configured ref known).checkPhase host opts root t hknown)
          exact hphase hroot (ht hlasting) hchosen hmemo hlasting)
        (s := found.ready scope (first :: rest)) first rest elapsed
        (fun root hroot => ⟨hroot, hhas root hroot⟩) (fun _ => hentered)
        (hcheck ▸ fun _ _ hknown => hknown)
    have hsplit : new = search ++ check := by
      rw [hcheck, hwritten, hsearch, List.append_assoc] at hnew
      exact (List.append_cancel_left hnew).symm
    rw [hsplit, sections_append_of_none (hsilent hquiet hsearch)]
    exact hall

end Engine
end ProjectLint
