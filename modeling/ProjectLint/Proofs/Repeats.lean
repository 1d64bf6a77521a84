/-
Requests for another phase, and what comes of them. A detector that asks, while a phase runs, to
be called again is called in the next phase, as long as one of its issues is enabled and something
that it asks for is in scope. The scope is narrowed as a plain set, whereas issues are admitted by
categories that stand for each other, so an admitted issue may ask for a scope that is not granted.
-/
import ProjectLint.Proofs.Brackets.Phases
import ProjectLint.Proofs.PhaseProtocol

namespace ProjectLint
namespace Repeats

open Journal Run Engine Phases Brackets

variable {s s' t v : State σ} {root : ProjectRef} {detector : Detector} {phase : Nat}
variable {detectors : List Detector} {scope : Option ScopeSet}

/-- The detector was called for the root again, in that phase. -/
def Recalled (root : ProjectRef) (detector : Detector) (phase : Nat) (s s' : State σ) : Prop :=
  ∃ later moment, s'.written = s.written ++ later ∧
    .called (.detector detector (.beforeProject (projectContext root))) moment ∈ later ∧
    moment.phase = phase

namespace Recalled

theorem extend (h : Recalled root detector phase s v) (hgrown : v.written <+: s'.written) :
    Recalled root detector phase s s' := by
  obtain ⟨later, moment, hlater, hcalled, hphase⟩ := h
  obtain ⟨more, hmore⟩ := hgrown
  refine ⟨later ++ more, moment, ?_, List.mem_append_left _ hcalled, hphase⟩
  rw [← hmore, hlater, List.append_assoc]

theorem since (h : Recalled root detector phase v s') (hgrown : s.written <+: v.written) :
    Recalled root detector phase s s' := by
  obtain ⟨later, moment, hlater, hcalled, hphase⟩ := h
  obtain ⟨more, hmore⟩ := hgrown
  refine ⟨more ++ later, moment, ?_, List.mem_append_right _ hcalled, hphase⟩
  rw [hlater, ← hmore, List.append_assoc]

end Recalled

theorem called_of_mark {hook : Hook} {entries : List Entry}
    (h : .hook detector hook ∈ marks entries) :
    ∃ moment, .called (.detector detector hook) moment ∈ entries := by
  obtain ⟨entry, hentry, hmark⟩ := List.mem_filterMap.1 h
  cases entry with
  | called call moment =>
    cases call with
    | detector called asked =>
      cases hmark
      exact ⟨moment, hentry⟩
    | _ => cases hmark
  | _ => cases hmark

theorem hook_mem_block {word : List Mark}
    (hword : word ∈ block root detectors) (hdetector : detector ∈ detectors) :
    .hook detector (.beforeProject (projectContext root)) ∈ word := by
  obtain ⟨_, rfl, _, ⟨_, rfl, rest, -, rfl⟩, rfl⟩ := hword
  exact List.mem_append_right _ (List.mem_append_left _ (List.mem_map_of_mem hdetector))

section Phase

variable (host : Host σ) (opts : Options)

theorem recalled_checkProject (hs : Fit s) (hmemo : s.memo = none)
    (h : (host.engine opts).checkProject root s = .ok () v) (hlive : v.canceled = false)
    (hdetector : detector ∈ s.selection.detectors) : Recalled root detector s.phase s v := by
  obtain ⟨new, hnew, -, hword⟩ := (tells_checkProject root hs () v h).1.wrote
  obtain ⟨moment, hcalled⟩ := called_of_mark (hook_mem_block (hword hlive) hdetector)
  have htended := tended_checkProject host opts root hmemo
  rw [h, endState_ok] at htended
  obtain ⟨during, hduring, hall, -⟩ := htended.wrote
  obtain rfl : during = new := List.append_cancel_left (hduring.symm.trans hnew)
  exact ⟨during, moment, hnew, hcalled, (hall _ hcalled).2.1⟩

theorem fit_repeated (config : Configuration) {requested : List Detector}
    (hrequested : (ownSlot.schedule t).requested = distinct requested) :
    Fit (t.repeated config) := by
  refine ⟨?_, List.nodup_nil, fun _ _ hmemo => by cases hmemo⟩
  show (t.repeating config).detectors.Nodup
  rw [State.repeating, Schedule.detectors_repeating, hrequested]
  exact (nodup_distinct requested).filter _

theorem recalled_extraPhases {leg : Leg} {config : Configuration}
    {category : Scope} {fuel : Nat} (hleg : OnLeg leg s)
    (hphase : leg.phase < Options.maxPhases) (hconfig : s.Configured root config)
    (hasked : (detector, scope) ∈ leg.pending)
    (henabled : s.registry.enabledIssues config detector.className ≠ [])
    (hscope : leg.scope.contains category = true)
    (hcategory : (scope.getD .all).contains category = true)
    (h : (host.engine opts).extraPhases root (fuel + 1) s = .ok () s')
    (hlive : s'.canceled = false) : Recalled root detector (leg.phase + 1) s s' := by
  obtain ⟨t, opening, hannounced, hknown, heq⟩ :=
    extraPhases_announces host opts fuel hleg hphase (List.ne_nil_of_mem hasked) hconfig
  have hpending : (detector, scope) ∈ leg.pending ++ requests opening :=
    List.mem_append_left _ hasked
  have hleft : t.scope.contains category = true :=
    (hannounced.scope category).2 ⟨hscope, _, hpending, hcategory⟩
  obtain ⟨hrequested, hnext⟩ := hannounced.requested
  have hrepeated : detector ∈ (t.repeating config).detectors := by
    rw [State.repeating, Schedule.detectors_repeating, hrequested, hannounced.registry]
    refine List.mem_filter.2 ⟨mem_distinct.2 (List.mem_map_of_mem hpending), ?_⟩
    simpa using henabled
  rw [heq] at h
  rcases laterPhases_cases (host.engine opts) fuel hknown with
    ⟨hempty, -⟩ | ⟨-, ⟨fault, herror⟩ | ⟨hnone, -⟩ | ⟨first, rest, -, hrun⟩⟩
  · have hmem := ScopeSet.mem_toList.2 hleft
    rw [List.isEmpty_iff.1 hempty] at hmem
    exact absurd hmem List.not_mem_nil
  · rw [herror] at h
    cases h
  · rw [hnone] at hrepeated
    exact absurd hrepeated List.not_mem_nil
  · rw [hrun] at h
    obtain ⟨_, u, hcheck, hrest⟩ := bind_eq_ok h
    have hfit : Fit (t.repeated config) := fit_repeated config hrequested
    have hchecked := (tells_checkProject root hfit () u hcheck).1
    have hgoOn : Brackets.Tells bracketed course
        ((host.engine opts).goOn root fuel (first :: rest)) u :=
      .inspect (.ite _ (.rest (.pure trivial)) (tells_extraPhases root fuel))
    have hend := (hgoOn hchecked.fit () s' hrest).1
    have hrecalled := recalled_checkProject host opts hfit rfl hcheck (hend.live hlive) hrepeated
    have hopened : s.written <+: (t.repeated config).written :=
      ⟨_, hannounced.written_replanned.symm⟩
    have hnumber : (t.repeated config).phase = leg.phase + 1 := hnext
    rw [hnumber] at hrecalled
    exact (hrecalled.since hopened).extend hend.grown

theorem recalled_checkRoot {category : Scope} {during : List Entry} (hroot : s.Has root)
    (hplan : (host.engine opts).plan ownSlot ((host.engine opts).configuration root) s.scope
      s = .ok detectors t)
    (hcheck : (host.engine opts).checkProject root { t with memo := none } = .ok () v)
    (hwritten : v.written = t.written ++ during) (hdetectors : detectors ≠ [])
    (hasked : .requested detector scope ∈ during)
    (henabled : ∀ config, s'.Configured root config →
      s.registry.enabledIssues config detector.className ≠ [])
    (hscope : s.scope.contains category = true)
    (hcategory : (scope.getD .all).contains category = true)
    (h : (host.engine opts).checkRoot root s = .ok () s') (hlive : s'.canceled = false) :
    Recalled root detector 2 v s' := by
  obtain ⟨config, opening, hplanned⟩ := planned_plan host opts hroot hplan
  have hconfig : v.Configured root config :=
    ((lasts_configured root config).checkProject host opts root).ok
      (s := { t with memo := none }) hplanned.configured hcheck
  have honLeg : OnLeg (Planned.leg s detectors opening during) v := by
    have hend := hplanned.onLeg opts (by rw [hcheck, endState_ok, hwritten])
    rwa [hcheck] at hend
  have hregistry : v.registry = s.registry := by
    have htended := tended_checkProject host opts root (s := { t with memo := none }) rfl
    rw [hcheck, endState_ok] at htended
    exact htended.registry.trans hplanned.registry
  have hpending : (detector, scope) ∈ (Planned.leg s detectors opening during).pending :=
    List.mem_append_right _ (mem_requests.2 hasked)
  -- The plan decides how the check of the project goes on.
  rcases checkRoot_cases (host.engine opts) root s with
    ⟨fault, u, hother, -⟩ | ⟨chosen, u, hother, hcases⟩
  · rw [hplan] at hother
    cases hother
  rw [hplan] at hother
  cases hother
  rcases hcases with ⟨hnil, -⟩ | ⟨-, hrun⟩
  · exact absurd hnil hdetectors
  rw [hrun, bind_of_ok hcheck] at h
  obtain ⟨-, hrepeat⟩ := unlessCanceled_eq_ok h hlive
  have hlasts : s'.Configured root config :=
    ((lasts_configured root config).repeatPhases host opts root).ok hconfig hrepeat
  have hissues : v.registry.enabledIssues config detector.className ≠ [] := by
    rw [hregistry]
    exact henabled config hlasts
  rw [repeatPhases, get_bind, honLeg.schedule_eq.2, if_pos (by
    rw [List.isEmpty_eq_false_iff.2 (List.ne_nil_of_mem hpending)]; rfl)] at hrepeat
  obtain ⟨u, hextra, rfl⟩ := keepingScope_eq_ok hrepeat
  have hfirst : (Planned.leg s detectors opening during).phase < Options.maxPhases :=
    show 1 < Options.maxPhases by decide
  have hrecalled : Recalled root detector 2 v u :=
    recalled_extraPhases host opts honLeg hfirst hconfig hpending hissues hscope hcategory
      hextra hlive
  exact hrecalled

end Phase

/-! ## In a run -/

theorem checkRoots_of_not_canceled (e : Engine σ) (current root : ProjectRef)
    (rest : List ProjectRef) (h : s.canceled = false) :
    e.checkRoots current (root :: rest) s =
      (e.checkRoot root >>= fun _ => e.checkRoots root rest) s := by
  rw [checkRoots, get_bind, h, if_neg Bool.false_ne_true]

theorem checkRoots_append (e : Engine σ) (current : ProjectRef) (before rest : List ProjectRef)
    (s : State σ) :
    e.checkRoots current (before ++ rest) s =
      (e.checkRoots current before >>= fun reached => e.checkRoots reached rest) s := by
  induction before generalizing current s with
  | nil => rfl
  | cons root before ih =>
    cases hcanceled : s.canceled with
    | true =>
      rw [bind_of_ok (checkRoots_of_canceled e current _ hcanceled),
        checkRoots_of_canceled e current _ hcanceled,
        checkRoots_of_canceled e current _ hcanceled]
    | false =>
      calc e.checkRoots current (root :: (before ++ rest)) s
        _ = (e.checkRoot root >>= fun _ => e.checkRoots root (before ++ rest)) s :=
            checkRoots_of_not_canceled e current root _ hcanceled
        _ = (e.checkRoot root >>= fun _ => e.checkRoots root before >>= fun reached =>
              e.checkRoots reached rest) s := by rw [funext (ih root)]
        _ = ((e.checkRoot root >>= fun _ => e.checkRoots root before) >>= fun reached =>
              e.checkRoots reached rest) s := by rw [bind_assoc]
        _ = _ := (bind_congr_left (checkRoots_of_not_canceled e current root before hcanceled)).symm

section Run

variable (host : Host σ) (opts : Options)

theorem registry_checkRoots {current reached : ProjectRef} {roots : List ProjectRef}
    (hroots : ∀ root ∈ roots, s.Has root)
    (h : (host.engine opts).checkRoots current roots s = .ok reached t) :
    t.registry = s.registry := by
  induction roots generalizing current s with
  | nil =>
    cases h
    rfl
  | cons root rest ih =>
    cases hcanceled : s.canceled with
    | true =>
      rw [checkRoots_of_canceled _ _ _ hcanceled] at h
      cases h
      rfl
    | false =>
      rw [checkRoots_of_not_canceled _ _ _ _ hcanceled] at h
      obtain ⟨_, u, hrun, hrest⟩ := bind_eq_ok h
      have hkept : u.registry = s.registry := by
        rcases told_checkRoot host opts (hroots root List.mem_cons_self) with
          ⟨fault, w, herror, -⟩ | ⟨chapter, htold⟩
        · rw [hrun] at herror
          cases herror
        · rw [hrun] at htold
          exact htold.registry
      refine (ih (fun other hother => ?_) hrest).trans hkept
      exact ((lasts_has other).checkRoot host opts root).ok
        (hroots other (List.mem_cons_of_mem _ hother)) hrun

def approach (e : Engine σ) (paths : List String) (given : Option ScopeSet) (count : Nat) :
    Run σ (List ProjectRef) := do
  modify (State.begun given)
  let roots ← Discovery.resolve e State.canceled paths
  modify fun s => (s.ready given roots).entered roots.length
  e.fire .starting
  match roots with
  | [] => return []
  | first :: _ =>
    let _ ← e.checkRoots first (roots.take count)
    return roots.drop count

def Arrives (paths : List String) (given : Option ScopeSet) (s : State σ) (root : ProjectRef)
    (t : State σ) : Prop :=
  ∃ count rest, approach (host.engine opts) paths given count s = .ok (root :: rest) t

/-- The first phase for a root in a run: what is chosen, what happens, and how it ends. -/
def FirstPhase (paths : List String) (given : Option ScopeSet) (s : State σ) (root : ProjectRef)
    (detectors : List Detector) (during : List Entry) (v : State σ) : Prop :=
  ∃ t planned, Arrives host opts paths given s root t ∧
    (host.engine opts).plan ownSlot ((host.engine opts).configuration root) t.scope t =
      .ok detectors planned ∧
    (host.engine opts).checkProject root { planned with memo := none } = .ok () v ∧
    v.written = planned.written ++ during

variable {paths : List String} {given : Option ScopeSet} {elapsed : Int}

theorem Arrives.steps (h : Arrives host opts paths given s root t) :
    ∃ first rest found u before after reached,
      Discovery.resolve (host.engine opts) State.canceled paths (s.begun given) =
        .ok (first :: rest) found ∧
      first :: rest = before ++ root :: after ∧
      (host.engine opts).fire .starting none
        ((found.ready given (first :: rest)).entered (rest.length + 1)) = .ok () u ∧
      (host.engine opts).checkRoots first before u = .ok reached t := by
  obtain ⟨count, after, h⟩ := h
  rw [approach, bind_of_ok (x := modify (State.begun given)) rfl] at h
  obtain ⟨roots, found, hresolve, h⟩ := bind_eq_ok h
  rw [bind_of_ok (x := modify _) rfl] at h
  obtain ⟨_, u, hfire, h⟩ := bind_eq_ok h
  cases roots with
  | nil => cases h
  | cons first rest =>
    obtain ⟨reached, _, hchecked, h⟩ := bind_eq_ok h
    obtain ⟨hleft, rfl⟩ := EStateM.Result.ok.inj h
    refine ⟨first, rest, found, u, (first :: rest).take count, after, reached, hresolve, ?_,
      hfire, hchecked⟩
    rw [← hleft, List.take_append_drop]

theorem Arrives.known (h : Arrives host opts paths given s root t) (hs : s.Sound) :
    t.Has root ∧ t.registry = s.registry ∧ t.scope = runScope host opts paths given s := by
  obtain ⟨first, rest, found, w, before, after, reached, hresolve, hroots, hfire, hbefore⟩ :=
    h.steps
  have hknown : ∀ other ∈ before ++ root :: after, w.Has other := by
    intro other hother
    have hsound : (s.begun given).Sound := ⟨hs.cache, hs.libraries⟩
    obtain ⟨refs, hrefs⟩ := Discovery.resolve_knows hsound hresolve other (hroots ▸ hother)
    exact ((lasts_has other).fire host opts _ _).ok
      (s := (found.ready given (first :: rest)).entered (rest.length + 1))
      (State.has_of_libraries hrefs) hfire
  have hchecked : ∀ other ∈ before, w.Has other := fun other hother =>
    hknown other (List.mem_append_left _ hother)
  refine ⟨?_, ?_, ?_⟩
  · exact ((lasts_has root).checkRoots host opts first before).ok
      (hknown root (List.mem_append_right _ List.mem_cons_self)) hbefore
  · have hfound : found.registry = s.registry :=
      (((finds_unattended host _).resolve opts State.canceled paths).ok (.refl _) hresolve).2.2.1
    have hstarted := tended_fire host opts .starting none
      ((found.ready given (first :: rest)).entered (rest.length + 1))
    rw [hfire, endState_ok] at hstarted
    exact (registry_checkRoots host opts hchecked hbefore).trans (hstarted.registry.trans hfound)
  · obtain ⟨chapters, broken, hchronicle⟩ := chronicle_checkRoots host opts first before hchecked
    rw [hbefore] at hchronicle
    rw [runScope, foundRoots, hresolve]
    exact hchronicle.scope.trans ((frames_fire host opts _ _).ok hfire).scope

theorem Arrives.goes (harrives : Arrives host opts paths given s root t)
    (h : (host.engine opts).analyze paths given elapsed s = .ok () s')
    (hlive : s'.canceled = false) :
    ∃ u, (host.engine opts).checkRoot root t = .ok () u ∧ u.canceled = false ∧
      u.written <+: s'.written ∧
      ∀ config, u.Configured root config → s'.Configured root config := by
  obtain ⟨first, rest, found, w, before, after, reached, hresolve, hroots, hfire, hbefore⟩ :=
    harrives.steps
  have hfound : found.canceled = false := by
    cases hcanceled : found.canceled with
    | false => rfl
    | true =>
      rw [analyze_of_canceled hresolve hcanceled] at h
      cases h
      exact hcanceled.symm.trans hlive
  rw [analyze_of_cons hresolve hfound, checkAll_eq, bind_of_ok hfire] at h
  obtain ⟨current, x, hchecked, hfinish⟩ := bind_eq_ok h
  rw [hroots, checkRoots_append, bind_of_ok hbefore] at hchecked
  have hw : Fit w := (tells_pause .starting (by decide) none
    (marked_entered _ _).fit () w hfire).1.fit
  have ht : Fit t :=
    (Brackets.tells_checkRoots first before hw reached t hbefore).1.fit
  have hx :=
    (Brackets.tells_checkRoots reached (root :: after) ht current x hchecked).1
  have hend := (tells_finish current elapsed hx.fit () s' hfinish).1
  have hlast : x.canceled = false := hend.live hlive
  rw [checkRoots_of_not_canceled _ _ _ _ (hx.live hlast)] at hchecked
  obtain ⟨_, u, hroot, hafter⟩ := bind_eq_ok hchecked
  have hu : Fit u := (Brackets.tells_checkRoot root ht () u hroot).1.fit
  have hrest := (Brackets.tells_checkRoots root after hu current x hafter).1
  refine ⟨u, hroot, hrest.live hlast, hrest.grown.trans hend.grown, fun config hconfig => ?_⟩
  have hlater := ((lasts_configured root config).checkRoots host opts root after).ok hconfig hafter
  exact ((lasts_configured root config).finish host opts current elapsed).ok hlater hfinish

/-- What a detector asks for in the first phase of a project is granted, if one of its issues is
enabled there and the scope of the run has something of what it asks for. -/
theorem analyze_grants_repeat {config : Configuration} {issue : Issue} {category : Scope}
    {detectors : List Detector} {during : List Entry} (hs : s.Sound)
    (h : (host.engine opts).analyze paths given elapsed s = .ok () s')
    (hlive : s'.canceled = false)
    (hfirst : FirstPhase host opts paths given s root detectors during v)
    (hdetector : detector ∈ detectors) (hconfig : s'.Configured root config)
    (hissue : issue ∈ s.registry.enabledIssues config detector.className)
    (hasked : .requested detector (some issue.scope) ∈ during)
    (hscope : (runScope host opts paths given s).contains category = true)
    (hcategory : issue.scope.contains category = true) : Recalled root detector 2 v s' := by
  obtain ⟨t, planned, harrives, hplan, hcheck, hwritten⟩ := hfirst
  obtain ⟨hhas, hregistry, hrunScope⟩ := harrives.known host opts hs
  obtain ⟨u, hroot, hunstopped, hgrown, hkept⟩ := harrives.goes host opts h hlive
  have henabled : ∀ other, u.Configured root other →
      t.registry.enabledIssues other detector.className ≠ [] := by
    intro other hother
    have hsame : other = config :=
      Option.some.inj (((hkept other hother).project_eq rfl).symm.trans (hconfig.project_eq rfl))
    rw [hregistry, hsame]
    exact List.ne_nil_of_mem hissue
  have hrecalled := recalled_checkRoot host opts hhas hplan hcheck hwritten
    (List.ne_nil_of_mem hdetector) hasked henabled (by rwa [hrunScope]) hcategory hroot hunstopped
  exact hrecalled.extend hgrown

end Run

/-! ## Runs that ask for more -/

def choice (e : Engine σ) (paths : List String) (given : Option ScopeSet) (count : Nat)
    (root : ProjectRef) : Run σ (List Detector) := do
  let _ ← approach e paths given count
  e.plan ownSlot (e.configuration root) (← get).scope

def firstCheck (e : Engine σ) (paths : List String) (given : Option ScopeSet) (count : Nat)
    (root : ProjectRef) : Run σ Unit := do
  let _ ← choice e paths given count root
  forgetVisitor
  e.checkProject root

theorem firstPhase_of_results {host : Host σ} {opts : Options} {paths : List String}
    {given : Option ScopeSet} (count : Nat) (rest : List ProjectRef) {asked : List Request}
    (h : result? (approach (host.engine opts) paths given count s) = some (root :: rest) ∧
      result? (choice (host.engine opts) paths given count root s) = some detectors ∧
      result? (firstCheck (host.engine opts) paths given count root s) = some () ∧
      requests ((endState (firstCheck (host.engine opts) paths given count root s)).written.drop
        (endState (choice (host.engine opts) paths given count root s)).written.length) =
          asked) : ∃ during v, FirstPhase host opts paths given s root detectors during v ∧
      requests during = asked := by
  obtain ⟨happroach, hchoice, hcheck, hasked⟩ := h
  have hplan := eq_ok_of_result? hchoice
  have hrun := eq_ok_of_result? hcheck
  generalize endState (choice (host.engine opts) paths given count root s) = planned at *
  generalize endState (firstCheck (host.engine opts) paths given count root s) = v at *
  rw [firstCheck, bind_of_ok hplan, bind_of_ok (x := forgetVisitor) rfl] at hrun
  rw [choice, bind_of_ok (eq_ok_of_result? happroach), get_bind] at hplan
  refine ⟨_, v, ⟨_, planned, ⟨count, rest, eq_ok_of_result? happroach⟩, hplan, hrun, ?_⟩, hasked⟩
  have htended := tended_checkProject host opts root (s := { planned with memo := none }) rfl
  rw [hrun, endState_ok] at htended
  obtain ⟨during, hwritten, -⟩ := htended.wrote
  exact (List.prefix_iff_eq_append.1 ⟨during, hwritten.symm⟩).symm

theorem requested_of_requests {entries : List Entry}
    (h : requests entries = [(detector, scope)]) : .requested detector scope ∈ entries :=
  mem_requests.1 (h ▸ List.mem_singleton_self (detector, scope))

theorem configured_of_any {ref : ProjectRef} {p : Configuration → Bool}
    (h : ((s.projects[ref.index]?).bind Project.configuration).any p = true) :
    ∃ config, s.Configured ref config ∧ p config = true := by
  obtain ⟨config, hconfig, hp⟩ := (Option.any_eq_true p _).1 h
  obtain ⟨project, hproject, hknown⟩ := Option.bind_eq_some_iff.1 hconfig
  exact ⟨config, ⟨project, hproject, hknown⟩, hp⟩

/-- The detector of the second project, which asks again in each phase, is called again. -/
theorem analyze_grants_repeat_insistent :
    ∃ during v config,
      FirstPhase insistentEmbedding.host ⟨false⟩ ["a", "b"] sourceScope neighbours ⟨1, "/w/b"⟩
        [⟨"D", 2⟩] during v ∧
      (endState insistentRun).Configured ⟨1, "/w/b"⟩ config ∧
      manifestIssue ∈ neighbours.registry.enabledIssues config "D" ∧
      .requested ⟨"D", 2⟩ (some manifestIssue.scope) ∈ during ∧
      Recalled ⟨1, "/w/b"⟩ ⟨"D", 2⟩ 2 v (endState insistentRun) := by
  obtain ⟨⟨hends, hlive⟩, -, -⟩ := insistentRun_outcome
  obtain ⟨during, v, hfirst, hrequests⟩ : ∃ during v,
      FirstPhase insistentEmbedding.host ⟨false⟩ ["a", "b"] sourceScope neighbours ⟨1, "/w/b"⟩
        [⟨"D", 2⟩] during v ∧ requests during = [(⟨"D", 2⟩, some manifestIssue.scope)] :=
    firstPhase_of_results 1 [] (by decide +kernel)
  obtain ⟨config, hconfig, henabled⟩ : ∃ config,
      (endState insistentRun).Configured ⟨1, "/w/b"⟩ config ∧
        config.isEnabled manifestIssue = true :=
    configured_of_any (by decide +kernel)
  have hissue : manifestIssue ∈ neighbours.registry.enabledIssues config "D" :=
    List.mem_filter.2 ⟨List.mem_singleton_self _, henabled⟩
  have hasked := requested_of_requests hrequests
  have hscope : (runScope insistentEmbedding.host ⟨false⟩ ["a", "b"] sourceScope
      neighbours).contains .manifest = true := by
    show (ScopeSet.ofList [.manifest, .javaFile]).contains .manifest = true
    decide
  exact ⟨during, v, config, hfirst, hconfig, hissue, hasked,
    analyze_grants_repeat insistentEmbedding.host ⟨false⟩ (sound_fresh _ _ _)
      (eq_ok_of_result? hends) hlive hfirst (List.mem_singleton_self _) hconfig hissue hasked hscope
      (by decide)⟩

def eagerHost : Host Scripted.Memory :=
  Scripted.Embedding.host
    { detectors :=
        [("D", { scanners := [.markup], declared := [.markup],
                 rules := [{ trigger := "beforeCheckProject", phase := some 1,
                             commands := [.requestRepeat none
                               (some (.ofList [.allResourceFiles]))] }] })] }

def resourcesIssue : Issue :=
  { manifestIssue with scope := .ofList [.allResourceFiles] }

def oneLayout : State Scripted.Memory :=
  fresh {} ⟨.folder "" true [.folder "w" true [.folder "a" true [
    .file "AndroidManifest.xml" (.bytes []),
    .folder "res" true [.folder "layout" true [.file "main.xml" (.bytes [])]]]]], "/w"⟩
    ⟨[resourcesIssue]⟩

def singleFiles : ScopeSet :=
  .ofList [.resourceFile]

def eagerRun : Outcome Scripted.Memory Unit :=
  (eagerHost.engine ⟨false⟩).analyze ["a"] (some singleFiles) 0 oneLayout

def projectCall? : Entry → Option (Detector × Nat)
  | .called (.detector detector (.beforeProject _)) moment => some (detector, moment.phase)
  | _ => none

/-- The issue is admitted, since single files stand for all of them, but what its detector asks for
has nothing in common with the scope. There is no second phase. -/
theorem admitted_repeat_not_granted :
    (result? eagerRun = some () ∧ (endState eagerRun).canceled = false) ∧
      singleFiles.admits resourcesIssue.scope = true ∧
      (∃ config, (endState eagerRun).Configured ⟨0, "/w/a"⟩ config ∧
        resourcesIssue ∈ oneLayout.registry.enabledIssues config "D") ∧
      (∃ during v, FirstPhase eagerHost ⟨false⟩ ["a"] (some singleFiles) oneLayout ⟨0, "/w/a"⟩
          [⟨"D", 1⟩] during v ∧
        .requested ⟨"D", 1⟩ (some resourcesIssue.scope) ∈ during) ∧
      (endState eagerRun).written.filterMap projectCall? = [(⟨"D", 1⟩, 1)] := by
  have houtcome : (result? eagerRun = some () ∧ (endState eagerRun).canceled = false) ∧
      (endState eagerRun).written.filterMap projectCall? = [(⟨"D", 1⟩, 1)] ∧
      (((endState eagerRun).projects[0]?).bind Project.configuration).any
        (·.isEnabled resourcesIssue) = true := by
    decide +kernel
  obtain ⟨hends, hcalls, hany⟩ := houtcome
  obtain ⟨config, hconfig, henabled⟩ : ∃ config,
      (endState eagerRun).Configured ⟨0, "/w/a"⟩ config ∧ config.isEnabled resourcesIssue = true :=
    configured_of_any hany
  obtain ⟨during, v, hfirst, hrequests⟩ : ∃ during v,
      FirstPhase eagerHost ⟨false⟩ ["a"] (some singleFiles) oneLayout ⟨0, "/w/a"⟩ [⟨"D", 1⟩]
        during v ∧ requests during = [(⟨"D", 1⟩, some resourcesIssue.scope)] :=
    firstPhase_of_results 0 [] (by decide +kernel)
  exact ⟨hends, by decide, ⟨config, hconfig,
      List.mem_filter.2 ⟨List.mem_singleton_self _, henabled⟩⟩,
    ⟨during, v, hfirst, requested_of_requests hrequests⟩, hcalls⟩

end Repeats
end ProjectLint
