/-
Phases and scopes of a run. The detectors of a project are called in phases that are numbered from
one and follow each other, for the scope of the run at first and for what was asked for later on.
What a run goes through is read off its chapters; here it is said of the calls themselves.
-/
import ProjectLint.Proofs.Chapters

namespace ProjectLint
namespace Phases

open Journal Run Engine

variable {detector : Detector} {moment : Moment} {leg : Leg} {registry : Registry}
  {chapter : Chapter} {config : Configuration} {root : ProjectRef}

/-! ## Calls -/

/-- A detector was called with a hook at some moment. -/
def Called (entries : List Entry) (detector : Detector) (hook : Hook) (moment : Moment) : Prop :=
  .called (.detector detector hook) moment ∈ entries

theorem not_called_of_silent {entries : List Entry} (h : hooks entries = [])
    {hook : Hook} : ¬ Called entries detector hook moment := by
  intro hcalled
  have hnone := List.filterMap_eq_nil_iff.1 h _ hcalled
  cases hnone

section Chapter

variable {host : Host σ} {registry : Registry} {chapter : Chapter} {detector : Detector}
  {hook : Hook} {moment : Moment}

theorem Chapter.Proper.called (h : chapter.Proper host registry)
    (hcalled : Called chapter.entries detector hook moment) :
    ∃ leg ∈ chapter.legs, Called leg.during detector hook moment := by
  rcases List.mem_append.1 hcalled with hlegs | hclosing
  · obtain ⟨leg, hleg, hentry⟩ := List.mem_flatMap.1 hlegs
    refine ⟨leg, hleg, ?_⟩
    rcases List.mem_append.1 hentry with hopening | hrest
    · exact absurd hopening (not_called_of_silent (h.legs leg hleg).1.opening)
    · rcases List.mem_cons.1 hrest with heq | hduring
      · cases heq
      · exact hduring
  · exact absurd hclosing (not_called_of_silent h.silent)

theorem Narrated.called {roots : List ProjectRef} {scope : ScopeSet} {s : State σ}
    {r : Outcome σ Unit} {prelude coda new : List Entry}
    {chapters : List Chapter} (h : Narrated host roots scope s r prelude chapters coda)
    (hnew : (endState r).written = s.written ++ new) (hcalled : Called new detector hook moment) :
    ∃ chapter ∈ chapters, ∃ leg ∈ chapter.legs, Called leg.during detector hook moment := by
  have heq : new = prelude ++ chapters.flatMap Chapter.entries ++ coda :=
    List.append_cancel_left (hnew.symm.trans h.written)
  rw [heq] at hcalled
  rcases List.mem_append.1 hcalled with hbefore | hcoda
  · rcases List.mem_append.1 hbefore with hprelude | hchapters
    · exact absurd hprelude (not_called_of_silent h.silent.1)
    · obtain ⟨chapter, hchapter, hentry⟩ := List.mem_flatMap.1 hchapters
      exact ⟨chapter, hchapter, (h.proper chapter hchapter).1.called hentry⟩
  · exact absurd hcoda (not_called_of_silent h.silent.2)

end Chapter

/-! ## Detectors of later phases -/

theorem exists_predecessor {R : α → α → Prop} {first a : α} {rest : List α}
    (h : List.IsChain R (first :: rest)) (ha : a ∈ rest) : ∃ b ∈ first :: rest, R b a := by
  induction rest generalizing first with
  | nil => cases ha
  | cons next rest ih =>
    obtain ⟨hnext, hchain⟩ := List.isChain_cons_cons.1 h
    rcases List.mem_cons.1 ha with rfl | ha
    · exact ⟨first, by simp, hnext⟩
    · obtain ⟨b, hb, hba⟩ := ih hchain ha
      exact ⟨b, List.mem_cons_of_mem _ hb, hba⟩

theorem mem_requests_of_pending {request : Request} (h : request ∈ leg.pending) :
    request ∈ requests leg.entries := by
  have hentries : requests leg.entries = requests leg.opening ++ requests leg.during := by
    rw [Leg.entries, requests_append]
    rfl
  rw [hentries, List.mem_append]
  rcases List.mem_append.1 h with hopening | hduring
  · by_cases hphase : leg.phase = 1
    · rw [if_pos hphase] at hopening
      exact .inl hopening
    · rw [if_neg hphase] at hopening
      cases hopening
  · exact .inr hduring

theorem Chapter.Proper.asked {host : Host σ} (h : chapter.Proper host registry) {hook : Hook}
    (hcalled : Called chapter.entries detector hook moment) : detector ∈ chapter.first.detectors ∨
      ∃ request ∈ requests chapter.entries, request.1 = detector := by
  obtain ⟨leg, hleg, hduring⟩ := h.called hcalled
  have hmem := ((h.legs leg hleg).1.called detector hook moment hduring).1
  rcases List.mem_cons.1 hleg with rfl | hrest
  · exact .inl hmem
  · obtain ⟨before, hbefore, hleads, -⟩ := exists_predecessor h.chain hrest
    rw [hleads.detectors] at hmem
    have hasked := mem_distinct.1 (List.mem_filter.1 hmem).1
    obtain ⟨request, hrequest, heq⟩ := List.mem_map.1 hasked
    refine .inr ⟨request, ?_, heq⟩
    have hof : ∀ other ∈ chapter.legs, request ∈ requests other.entries →
        request ∈ requests chapter.entries := fun other hother hin =>
      mem_requests.2 (List.mem_append_left _
        (List.mem_flatMap.2 ⟨other, hother, mem_requests.1 hin⟩))
    rcases List.mem_append.1 hrequest with hpending | hopening
    · exact hof before hbefore (mem_requests_of_pending hpending)
    · exact hof leg hleg (mem_requests.2 (List.mem_append_left _ (mem_requests.1 hopening)))

/-! ## Numbers of phases -/

theorem phases_of_chain {first : Leg} {rest : List Leg}
    (h : List.IsChain (Follows registry config root) (first :: rest)) :
    (first :: rest).map Leg.phase = List.range' first.phase (rest.length + 1) := by
  induction rest generalizing first with
  | nil => rfl
  | cons next rest ih =>
    obtain ⟨hfollows, hchain⟩ := List.isChain_cons_cons.1 h
    rw [List.map_cons, ih hchain, hfollows.1.phase]
    rfl

theorem Chapter.Proper.phases {host : Host σ} (h : chapter.Proper host registry) :
    chapter.legs.map Leg.phase = List.range' 1 chapter.legs.length ∧
      chapter.legs.length ≤ Options.maxPhases := by
  have hphases : chapter.legs.map Leg.phase = List.range' 1 chapter.legs.length := by
    have hchain := phases_of_chain h.chain
    rw [h.phase] at hchain
    exact hchain
  refine ⟨hphases, ?_⟩
  -- The last number is that of a leg.
  have hlast : chapter.legs.length ∈ chapter.legs.map Leg.phase := by
    rw [hphases, List.mem_range'_1]
    simp [Chapter.legs]
  obtain ⟨leg, hleg, hphase⟩ := List.mem_map.1 hlast
  rw [← hphase]
  exact (h.legs leg hleg).1.bounds.2

/-! ## Detectors that repeat themselves -/

section Own

variable {host : Host σ} {registry : Registry} {chapter : Chapter}

theorem subset_of_leads {next : Leg}
    (hown : host.RepeatsOwn) (hleg : leg.Proper host root) (hnext : next.Proper host root)
    (h : Leads registry config root leg next) : next.detectors ⊆ leg.detectors := by
  intro detector hdetector
  rw [h.detectors, (hnext.own hown).1, List.append_nil, Leg.pending, (hleg.own hown).1] at hdetector
  have hmem := mem_distinct.1 (List.mem_filter.1 hdetector).1
  obtain ⟨request, hrequest, rfl⟩ := List.mem_map.1 hmem
  have hduring : request ∈ requests leg.during := by simpa using hrequest
  exact (hleg.own hown).2 request hduring

theorem subset_of_chain {legs : List Leg}
    (hown : host.RepeatsOwn) (hproper : ∀ leg ∈ legs, leg.Proper host root)
    (h : List.IsChain (Follows registry config root) legs) :
    List.IsChain (fun leg next => next.detectors ⊆ leg.detectors) legs := by
  induction h with
  | nil => exact .nil
  | singleton leg => exact .singleton leg
  | cons_cons hfollows _ ih =>
    have hrest := ih fun leg hleg => hproper leg (List.mem_cons_of_mem _ hleg)
    refine .cons_cons ?_ hrest
    exact subset_of_leads hown (hproper _ (by simp)) (hproper _ (by simp)) hfollows.1

theorem mem_first_of_called (hown : host.RepeatsOwn) (h : chapter.Proper host registry)
    {hook : Hook}
    (hcalled : Called chapter.entries detector hook moment) :
    detector ∈ chapter.first.detectors := by
  obtain ⟨leg, hleg, hduring⟩ := h.called hcalled
  have hmem := ((h.legs leg hleg).1.called detector hook moment hduring).1
  have hchain := subset_of_chain hown (fun leg hleg => (h.legs leg hleg).1) h.chain
  have htrans : IsTrans Leg fun leg next => next.detectors ⊆ leg.detectors :=
    ⟨fun _ _ _ hab hbc => List.Subset.trans hbc hab⟩
  have hpairs := List.isChain_iff_pairwise.1 hchain
  rcases List.mem_cons.1 hleg with rfl | hrest
  · exact hmem
  · exact (List.pairwise_cons.1 hpairs).1 leg hrest hmem

end Own

section Run

variable (host : Host σ) (opts : Options)

/-- The phases of every project that a run checks are numbered from one and follow each other. A
later phase has the detectors for which a repeat was asked since the detectors of the phase before
were chosen, in the order of first asking, and no request counts for another project. Detectors that
repeat only themselves serve one project each. -/
theorem analyze_phases (paths : List String) (scope : Option ScopeSet) (elapsed : Int)
    {s : State σ} (hs : s.Sound) :
    let r := (host.engine opts).analyze paths scope elapsed s
    (∃ (prelude : List Entry) (chapters : List Chapter) (coda : List Entry),
      (endState r).written = s.written ++ (prelude ++ chapters.flatMap Chapter.entries ++ coda) ∧
      hooks prelude = [] ∧ hooks coda = [] ∧
      chapters.map Chapter.root <+: foundRoots host opts paths scope s ∧
      (∀ chapter ∈ chapters, chapter.Proper host s.registry ∧
        (endState r).Configured chapter.root chapter.config ∧
        chapter.legs.map Leg.phase = List.range' 1 chapter.legs.length ∧
        chapter.legs.length ≤ Options.maxPhases ∧
        ∀ detector hook moment, Called chapter.entries detector hook moment →
          detector ∈ chapter.first.detectors ∨
            ∃ request ∈ requests chapter.entries, request.1 = detector) ∧
      chapters.Pairwise Apart ∧
      (Completes r → chapters.map Chapter.root = foundRoots host opts paths scope s ∧
        ∀ chapter ∈ chapters, chapter.Ended) ∧
      (host.RepeatsOwn →
        (∀ chapter ∈ chapters,
          chapter.legs.IsChain fun leg next => next.detectors ⊆ leg.detectors) ∧
        chapters.Pairwise fun chapter later => ∀ detector hook moment hook' moment',
          Called chapter.entries detector hook moment →
            ¬ Called later.entries detector hook' moment')) ∧
    (∀ new, (endState r).written = s.written ++ new →
      ∀ detector hook moment, Called new detector hook moment →
        1 ≤ moment.phase ∧ moment.phase ≤ 3) ∧
    ∀ fallback root t, checkRootOr fallback (host.engine opts) root t =
      (host.engine opts).checkRoot root t := by
  intro r
  obtain ⟨prelude, chapters, coda, h⟩ := narrated_analyze host opts paths scope elapsed hs
  refine ⟨⟨prelude, chapters, coda, h.written, h.silent.1, h.silent.2, h.inOrder, ?_, h.apart,
    h.completed, ?_⟩, ?_, fun fallback root t => checkRootOr_eq fallback host opts root t⟩
  · intro chapter hchapter
    have hproper := (h.proper chapter hchapter).1
    exact ⟨hproper, h.configured chapter hchapter, hproper.phases.1, hproper.phases.2,
      fun _ _ _ hcalled => hproper.asked hcalled⟩
  · intro hown
    refine ⟨fun chapter hchapter => ?_, ?_⟩
    · have hproper := (h.proper chapter hchapter).1
      exact subset_of_chain hown (fun leg hleg => (hproper.legs leg hleg).1) hproper.chain
    · refine h.apart.imp_of_mem fun {chapter later} hchapter hlater hapart => ?_
      intro detector hook moment hook' moment' hcalled hagain
      have hmem := mem_first_of_called hown (h.proper chapter hchapter).1 hcalled
      exact hapart.2 detector hmem (mem_first_of_called hown (h.proper later hlater).1 hagain)
  · intro new hnew detector hook moment hcalled
    obtain ⟨chapter, hchapter, leg, hleg, hduring⟩ := h.called hnew hcalled
    have hleg := ((h.proper chapter hchapter).1.legs leg hleg).1
    rw [(hleg.called detector hook moment hduring).2.1]
    exact hleg.bounds

end Run

/-! ## Scopes -/

/-- The scope of the next phase is what the requests leave of the scope before. -/
def LeavesScope (leg next : Leg) : Prop :=
  ∀ asked : List Request,
    (∀ request, request ∈ asked ↔ request ∈ leg.pending ++ requests next.opening) →
    ∀ category, next.scope.contains category = true ↔
      leg.scope.contains category = true ∧ Wanted asked category

theorem Narrows.leavesScope {next : Leg} (h : Narrows leg next) : LeavesScope leg next := by
  intro asked hasked category
  rw [h.scope, Wanted, Wanted]
  simp only [hasked]

theorem Narrows.shrinks {next : Leg} (h : Narrows leg next) :
    leg.scope.containsAll next.scope = true := by
  rw [ScopeSet.containsAll, List.all_eq_true]
  intro category hcategory
  exact ((h.scope category).1 (ScopeSet.mem_toList.1 hcategory)).1

theorem Chapter.Proper.narrows {host : Host σ}
    (h : chapter.Proper host registry) : chapter.legs.IsChain Narrows :=
  h.chain.imp fun _ _ hfollows => hfollows.2

section Run

variable (host : Host σ) (opts : Options)

/-- The first phase of every project sees the scope of the run, and a later one what of the scope
before was asked for, which is something and never more. However a run ends that was announced, its
scope is in force again. -/
theorem analyze_scopes (paths : List String) (scope : Option ScopeSet) (elapsed : Int)
    {s : State σ} (hs : s.Sound) :
    let r := (host.engine opts).analyze paths scope elapsed s
    (∃ (prelude : List Entry) (chapters : List Chapter) (coda : List Entry),
      (endState r).written = s.written ++ (prelude ++ chapters.flatMap Chapter.entries ++ coda) ∧
      hooks prelude = [] ∧ hooks coda = [] ∧
      ∀ chapter ∈ chapters,
        chapter.first.scope = runScope host opts paths scope s ∧
        chapter.legs.map Leg.phase = List.range' 1 chapter.legs.length ∧
        hooks chapter.closing = [] ∧
        (∀ leg ∈ chapter.legs, hooks leg.opening = [] ∧
          ∀ detector hook moment, Called leg.during detector hook moment →
            moment.phase = leg.phase ∧ moment.scope = leg.scope) ∧
        chapter.legs.IsChain LeavesScope ∧
        chapter.legs.IsChain (fun leg next => leg.scope.containsAll next.scope = true) ∧
        ∀ leg ∈ chapter.rest, leg.scope.isEmpty = false) ∧
    ∀ new, (endState r).written = s.written ++ new → Started new →
      (endState r).scope = runScope host opts paths scope s := by
  intro r
  obtain ⟨prelude, chapters, coda, h⟩ := narrated_analyze host opts paths scope elapsed hs
  refine ⟨⟨prelude, chapters, coda, h.written, h.silent.1, h.silent.2, ?_⟩, h.started⟩
  intro chapter hchapter
  obtain ⟨hproper, hscope⟩ := h.proper chapter hchapter
  refine ⟨hscope, hproper.phases.1, hproper.silent, ?_, ?_, ?_, ?_⟩
  · intro leg hleg
    obtain ⟨hplaced, hscoped⟩ := hproper.legs leg hleg
    refine ⟨hplaced.opening, fun detector hook moment hcalled => ?_⟩
    exact ⟨(hplaced.called detector hook moment hcalled).2.1, hscoped detector hook moment hcalled⟩
  · exact hproper.narrows.imp fun _ _ hnarrows => hnarrows.leavesScope
  · exact hproper.narrows.imp fun _ _ hnarrows => hnarrows.shrinks
  · intro leg hleg
    obtain ⟨_, _, hnarrows⟩ := exists_predecessor hproper.narrows hleg
    exact hnarrows.inScope

end Run

/-! ## Scripts that name no detector -/

section Scripted

open Scripted

def isAnonymous : Command → Bool
  | .requestRepeat (some _) _ => false
  | _ => true

theorem requests_script {call : Call} (memory : Memory) {next : Script Memory} {command : Command}
    {allowed : Detector → Prop} (h : isAnonymous command = true)
    (hallowed : ∀ detector, (Subject.ofCall call).detector? = some detector → allowed detector)
    (hnext : next.Requests allowed) : (command.script call memory next).Requests allowed := by
  cases command with
  | report name location message data =>
    rw [Command.script]
    cases call.context? with
    | none => trivial
    | some context =>
      cases memory.issue? name with
      | none => trivial
      | some issue => exact ⟨trivial, fun _ => hnext⟩
  | requestRepeat detector scope =>
    cases detector with
    | some detector => cases h
    | none =>
      rw [Command.script, Option.none_or]
      cases hsubject : (Subject.ofCall call).detector? with
      | none => trivial
      | some detector => exact ⟨hallowed detector hsubject, fun _ => hnext⟩
  | cancel => exact ⟨trivial, fun _ => ⟨trivial, fun _ => hnext⟩⟩
  | fail fault => trivial
  | _ => exact ⟨trivial, fun _ => hnext⟩

theorem requests_reaction {rules : List Rule} (call : Call) (moment : Moment)
    {allowed : Detector → Prop}
    (h : ∀ rule ∈ rules, ∀ command ∈ rule.commands, isAnonymous command = true)
    (hallowed : ∀ detector, (Subject.ofCall call).detector? = some detector → allowed detector) :
    (reaction rules call moment).Requests allowed := by
  refine ⟨trivial, fun memory => ?_⟩
  have hcommands : ∀ command ∈ commandsFor rules call moment
      (memory.countOf (Subject.ofCall call, call.name)), isAnonymous command = true := by
    intro command hcommand
    obtain ⟨rule, hrule, hmem⟩ := List.mem_flatMap.1 hcommand
    exact h rule (List.mem_filter.1 hrule).1 command hmem
  dsimp only
  generalize commandsFor rules call moment _ = commands at hcommands
  induction commands with
  | nil => trivial
  | cons command rest ih =>
    exact requests_script memory (hcommands command (by simp)) hallowed
      (ih fun other hother => hcommands other (List.mem_cons_of_mem _ hother))

theorem repeatsOwn_scripted (embedding : Embedding)
    (h : ∀ subject, ∀ rule ∈ embedding.rulesOf subject, ∀ command ∈ rule.commands,
      isAnonymous command = true) : embedding.host.RepeatsOwn where
  own := fun detector hook moment _ =>
    requests_reaction _ moment (h _) fun other hother => (Option.some.inj hother).symm
  listeners := fun listener event context moment _ =>
    requests_reaction _ moment (h _) fun _ hother => nomatch hother
  client := fun call moment _ hcall => by
    refine requests_reaction _ moment (h _) fun detector hdetector => ?_
    cases call with
    | detector called hook => cases hcall
    | _ => cases hdetector

end Scripted

/-! ## A detector that never stops asking -/

def insistentEmbedding : Scripted.Embedding where
  detectors :=
    [("D", { rules := [{ trigger := "beforeCheckProject",
                         commands := [.requestRepeat none (some (.ofList [.manifest]))] }] })]

def neighbours : State Scripted.Memory :=
  fresh {} (sideBySide [("a", ""), ("b", "")]) ⟨[manifestIssue]⟩

def sourceScope : Option ScopeSet :=
  some (.ofList [.manifest, .javaFile])

def insistentRun : Outcome Scripted.Memory Unit :=
  (insistentEmbedding.host.engine ⟨false⟩).analyze ["a", "b"] sourceScope 0 neighbours

def plan? : Entry → Option (Nat × List Detector)
  | .planned phase detectors => some (phase, detectors)
  | _ => none

theorem insistentRun_outcome :
    (result? insistentRun = some () ∧ (endState insistentRun).canceled = false) ∧
      foundRoots insistentEmbedding.host ⟨false⟩ ["a", "b"] sourceScope neighbours =
        [⟨0, "/w/a"⟩, ⟨1, "/w/b"⟩] ∧
      (endState insistentRun).written.filterMap plan? =
        [(1, [⟨"D", 1⟩]), (2, [⟨"D", 1⟩]), (3, [⟨"D", 1⟩]),
          (1, [⟨"D", 2⟩]), (2, [⟨"D", 2⟩]), (3, [⟨"D", 2⟩])] := by
  decide +kernel

theorem repeatsOwn_insistent : insistentEmbedding.host.RepeatsOwn := by
  refine repeatsOwn_scripted _ fun subject rule hrule command hcommand => ?_
  cases subject with
  | detector detector =>
    by_cases hname : detector.className = "D"
    · simp [Scripted.Embedding.rulesOf, Scripted.Embedding.script, insistentEmbedding, hname]
        at hrule
      subst hrule
      rw [List.mem_singleton.1 hcommand]
      rfl
    · simp [Scripted.Embedding.rulesOf, Scripted.Embedding.script, insistentEmbedding,
        List.lookup_cons, beq_eq_false_iff_ne.2 hname] at hrule
  | listener listener => cases hrule
  | client => cases hrule

theorem analyze_phases_insistent :
    neighbours.Sound ∧ insistentEmbedding.host.RepeatsOwn ∧
      ∃ (prelude : List Entry) (chapters : List Chapter) (coda : List Entry),
        (endState insistentRun).written =
          neighbours.written ++ (prelude ++ chapters.flatMap Chapter.entries ++ coda) ∧
        chapters.map Chapter.root = [⟨0, "/w/a"⟩, ⟨1, "/w/b"⟩] ∧
        chapters.Pairwise Apart ∧ (∀ chapter ∈ chapters, chapter.Ended) ∧
        (∀ chapter ∈ chapters,
          chapter.legs.IsChain fun leg next => next.detectors ⊆ leg.detectors) ∧
        (endState insistentRun).written.filterMap plan? =
          [(1, [⟨"D", 1⟩]), (2, [⟨"D", 1⟩]), (3, [⟨"D", 1⟩]),
            (1, [⟨"D", 2⟩]), (2, [⟨"D", 2⟩]), (3, [⟨"D", 2⟩])] := by
  obtain ⟨⟨hends, hcanceled⟩, hroots, hplans⟩ := insistentRun_outcome
  have hsound : neighbours.Sound := sound_fresh _ _ _
  have hcompletes : Completes insistentRun := ⟨_, _, eq_ok_of_result? hends, hcanceled⟩
  obtain ⟨⟨prelude, chapters, coda, hwritten, -, -, -, -, hapart, hall, hown⟩, -⟩ :=
    analyze_phases insistentEmbedding.host ⟨false⟩ ["a", "b"] sourceScope 0 hsound
  obtain ⟨hmap, hended⟩ := hall hcompletes
  exact ⟨hsound, repeatsOwn_insistent, prelude, chapters, coda, hwritten, hmap.trans hroots,
    hapart, hended, (hown repeatsOwn_insistent).1, hplans⟩

def failingHost : Host Scripted.Memory :=
  Scripted.Embedding.host
    { detectors :=
        [("D", { rules :=
          [{ trigger := "beforeCheckProject", phase := some 1,
             commands := [.requestRepeat none (some (.ofList [.manifest, .classFile]))] },
           { trigger := "afterCheckProject", phase := some 2,
             commands := [.fail (.failure "D")] }] })] }

def failingRun : Outcome Scripted.Memory Unit :=
  (failingHost.engine ⟨false⟩).analyze ["a", "b"] sourceScope 0 neighbours

def sight? : Entry → Option (Nat × List Scope)
  | .called (.detector _ _) moment => some (moment.phase, moment.scope.toList)
  | _ => none

theorem failingRun_outcome :
    result? failingRun = none ∧
      (endState failingRun).written.filterMap sight? =
        [(1, [.manifest, .javaFile]), (1, [.manifest, .javaFile]), (2, [.manifest]),
          (2, [.manifest])] ∧
      runScope failingHost ⟨false⟩ ["a", "b"] sourceScope neighbours =
        .ofList [.manifest, .javaFile] ∧
      (endState failingRun).written.any (fun entry =>
        match entry with
        | .fired .starting none _ => true
        | _ => false) = true := by
  decide +kernel

/-- The fault leaves the scope as it was before the first phase. -/
theorem analyze_scopes_failing :
    neighbours.Sound ∧ result? failingRun = none ∧ Started (endState failingRun).written ∧
      (endState failingRun).written.filterMap sight? =
        [(1, [.manifest, .javaFile]), (1, [.manifest, .javaFile]), (2, [.manifest]),
          (2, [.manifest])] ∧
      (endState failingRun).scope = .ofList [.manifest, .javaFile] := by
  obtain ⟨hfails, hsights, hscope, hany⟩ := failingRun_outcome
  have hsound : neighbours.Sound := sound_fresh _ _ _
  have hstarted : Started (endState failingRun).written := by
    obtain ⟨entry, hentry, hstart⟩ := List.any_eq_true.1 hany
    split at hstart
    · exact ⟨_, hentry⟩
    · cases hstart
  have hend := (analyze_scopes failingHost ⟨false⟩ ["a", "b"] sourceScope 0 hsound).2 _
    (List.nil_append _).symm hstarted
  exact ⟨hsound, hfails, hstarted, hsights, hend.trans hscope⟩

end Phases
end ProjectLint
