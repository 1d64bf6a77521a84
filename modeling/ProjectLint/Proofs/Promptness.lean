/-
How soon a canceled run stops. Between two looks at the cancellation a run fires at most one event,
makes at most one round of a call about a project or library, of which only the first detector hears
once the run is canceled, and visits at most one file. So whatever cancels a run, wherever it does:
what is written from then on holds at most that much before the final event, and never the
announcement of another phase.
-/
import ProjectLint.Proofs.Budget

namespace ProjectLint
namespace Engine

open Run Journal

variable {s t : State σ} {host : Host σ}
variable {hook : Hook}

/-! ## Stages -/

section Stages

variable {opts : Options} (pass : Pass)

theorem spends_log (error : Option String) (message : String) :
    Spends 0 ((host.engine opts).log error message) :=
  .of_keeps [] fun b => (finds_ledger host [] b).log opts error message none

theorem spent_heard (host : Host σ) (opts : Options) (event : Event) (context : Option Context)
    (s : State σ) :
    Spent 0 (s.write (.fired event context s.moment))
      (endState ((host.engine opts).fire event context s)) :=
  .of_ledger ((scans_ledger host _).notifyAll opts s.listeners event context
    (s.write (.fired event context s.moment)) (.refl _))

theorem spends_fire (event : Event) (context : Option Context) (h : event ≠ .newPhase) :
    Spends (1, 0, 0) ((host.engine opts).fire event context) :=
  fun s => (Spent.write s (.fired event context s.moment)
    (fun _ hmoment => (Option.some.inj hmoment).symm) (.event _ _ _ h)).trans
    (spent_heard host opts event context s)

theorem spent_fire (host : Host σ) (opts : Options) (event : Event) (context : Option Context)
    (hs : s.canceled = false) :
    Spent 0 s (endState ((host.engine opts).fire event context s)) :=
  (Spent.write_calm hs (.fired event context s.moment)
    fun _ hmoment => (Option.some.inj hmoment).symm).trans
    (spent_heard host opts event context s)

theorem spends_visit {context : Context} {x : Run σ α} {R : α → α → Prop}
    (h : ∀ b, Visits (host.engine opts) (host.engine opts)
        (Naming.alone (fun _ => True) (· ∈ [context])) (Diagonal (Ledger [context] b)) →
      Mirrors (Diagonal (Ledger [context] b)) R x x) : Spends (0, 0, 1) x :=
  .of_keeps [context] fun b => (h b ((asks_ledger host [context] b).visits opts)).keeps

theorem spends_scan {context : Context} {x : Run σ α} (h : Spends (0, 0, 1) x) :
    Spends (1, 0, 1) ((host.engine opts).fire .scanningFile (some context) >>= fun _ => x) :=
  (spends_fire .scanningFile (some context) nofun).bind fun _ => h

theorem spends_visitMarkup (visitor : MarkupVisitor) (context : Context)
    (parsed : Option Markup.Document) :
    Spends (0, 0, 1) (do
      let _ ← (host.engine opts).visitMarkup visitor context parsed
      pure () : Run σ Unit) :=
  (spends_visit fun _ h => h.visitMarkup (Naming.visitor_alone _ fun _ => trivial)
    ⟨rfl, List.mem_cons_self⟩ parsed).bind fun _ => .pure ()

theorem spends_checkWith (context : Context) (detector : Detector)
    (hhook : ∀ n : Naming, n.context context context → n.FileHooks hook hook) :
    Spends (0, 0, 1) ((host.engine opts).checkWith context hook detector) :=
  spends_visit fun _ h => h.checkWith ⟨rfl, List.mem_cons_self⟩
    (hhook _ ⟨rfl, List.mem_cons_self⟩) ⟨rfl, trivial⟩

def Free (x : Run σ α) (Q : α → Prop) : Prop :=
  Spends 0 x ∧ ∀ s a t, x s = .ok a t → Q a

theorem Free.andThen {cost : Cost} {x : Run σ α} {f : α → Run σ β} {Q : α → Prop}
    (hx : Free x Q) (hf : ∀ a, Q a → Spends cost (f a)) :
    Spends cost (x >>= f) := by
  intro s
  cases h : x s with
  | ok a t =>
    rw [bind_of_ok h]
    have hspent := (hx.1.ok h).trans (hf a (hx.2 s a t h) t)
    rwa [zero_add] at hspent
  | error fault t =>
    have hspent := hx.1 s
    rw [h] at hspent
    rw [bind_of_error h]
    exact hspent.free

def thrift : Judgement σ where
  state := fun _ => True
  minds := fun _ _ => True
  counts := fun _ => True
  kinds := fun _ => True
  checks := fun categories _ => categories ≠ []
  markup := fun _ _ => True
  source := fun _ => True
  stage := Spends (1, 0, 1)
  yields := Free

theorem walk : ResourceWalk (host.engine opts) pass thrift where
  give := fun ha => ⟨.pure _, fun _ _ _ h => by cases h; exact ha⟩
  bind := fun hx hf => ⟨hx.andThen fun a ha => (hf a ha).1, fun s b t h => by
    obtain ⟨a, u, hfirst, hrest⟩ := bind_eq_ok h
    exact (hf a (hx.2 s a u hfirst)).2 u b t hrest⟩
  look := ⟨fun s => .refl s, fun _ _ _ _ => trivial⟩
  ask := fun {_ _ detector hook} _ _ _ hcontext => by
    have hlevel : hook.isLevel = false := by
      cases hook with
      | appliesToFolder | elementNames | attributeNames | nodeTypes => rfl
      | _ => cases hcontext
    refine ⟨.of_keeps [] fun b s hs => ?_, fun _ _ _ _ => trivial⟩
    refine (finds_ledger host [] b).ask opts (Script.within_true _) ?_
    refine (asks_ledger host [] b).asked trivial hlevel (fun c hc => ?_) hs
    cases hcontext.symm.trans hc
  sublist := fun hchecks _ => hchecks
  mind := fun hchecks _ _ => ⟨_, List.head_mem hchecks, trivial⟩
  markup := fun _ _ => trivial
  source := fun _ _ => trivial
  applies := fun _ _ _ _ => trivial
  memo := fun _ _ => ⟨fun _ _ => trivial, fun _ _ _ _ => trivial, fun _ _ _ _ => trivial⟩
  remember := fun _ => ⟨.modify fun _ => ⟨rfl, rfl⟩, fun _ _ _ _ => trivial⟩
  done := (Spends.pure ()).free
  andThen := Free.andThen
  guarded := .guarded
  each := fun elements _ hall => .eachUntilCanceled elements hall
  log := fun _ => (spends_log _ _).free
  listed := fun _ _ _ => (Spends.throw _).free
  read := fun _ => ⟨.modify fun _ => ⟨rfl, rfl⟩, fun _ _ _ _ => trivial⟩
  parse := fun context => ⟨.of_keeps [] fun b => (finds_ledger host [] b).parseMarkup opts context,
    fun _ _ t h => ⟨t, trivial, parsed_of_eq_ok h⟩⟩
  readClass := fun bytes =>
    ⟨.of_keeps [] fun b => ((finds_ledger host [] b).readClass opts bytes).attempt,
      fun s _ t h parsed hparsed => ⟨s, trivial, t, eq_ok_of_attempt (hparsed ▸ h)⟩⟩
  bucket := fun _ _ _ => List.cons_ne_nil _ _
  merged := fun _ _ _ _ _ => List.cons_ne_nil _ _
  scanMarkup := fun parsed _ _ _ =>
    spends_scan (spends_visitMarkup _ _ parsed)
  scanSource := fun _ _ _ => spends_scan <|
    (spends_visit fun _ h => h.visitSource (Naming.sourceVisitor_alone _ fun _ => trivial)
      ⟨rfl, List.mem_cons_self⟩).bind fun _ => .pure ()
  scanClass := fun _ _ _ => spends_scan <| .eachUntilCanceled _ fun detector _ =>
    spends_checkWith _ detector fun _ hc => .classFile _ hc
  scanRules := fun _ _ _ => spends_scan <| spends_visit fun _ h =>
    .each (Naming.alone_detectors fun _ _ => trivial) fun _ _ hd =>
      h.checkWith ⟨rfl, List.mem_cons_self⟩ (.run ⟨rfl, List.mem_cons_self⟩) hd

theorem spends_checkFiles : Spends (1, 0, 1) ((host.engine opts).checkFiles pass) :=
  (walk pass).checkFiles fun _ => trivial

end Stages

/-! ## Phases -/

section Phases

variable {opts : Options}
variable {project : ProjectRef} {config : Configuration}

theorem spends_tellUntilCanceled (h : hook.isLevel = true) (detectors : List Detector) :
    Spends (0, 1, 0) ((host.engine opts).tellUntilCanceled detectors hook) := by
  refine .eachUntilCanceled detectors fun detector _ s => ?_
  have hask := (finds_ledger host [] _).ask opts (Script.within_true _)
    (Ledger.refl (s.write (.called (.detector detector hook) s.moment)))
  exact (Spent.write s (.called (.detector detector hook) s.moment)
    (fun _ hmoment => (Option.some.inj hmoment).symm) (.level _ _ _ h)).trans (.of_ledger hask)

theorem spends_announce (event : Event) (context : Context) (hevent : event ≠ .newPhase)
    (hhook : hook.isLevel = true) (detectors : List Detector) :
    Spends 1 ((host.engine opts).fire event (some context) >>= fun _ =>
      (host.engine opts).tellUntilCanceled detectors hook) :=
  ((spends_fire event (some context) hevent).bind fun _ =>
    spends_tellUntilCanceled hhook detectors).mono (by decide)

theorem spends_farewell (hhook : hook.isLevel = true) (detectors : List Detector) :
    Spends 1 ((host.engine opts).tellUntilCanceled detectors hook) :=
  (spends_tellUntilCanceled hhook detectors).mono (by decide)

theorem spends_pass (pass : Pass) : Spends 1 ((host.engine opts).checkFiles pass) :=
  (spends_checkFiles pass).mono (by decide)

theorem spends_checkLibrary (detectors : List Detector) (main library : ProjectRef) :
    Spends 1 ((host.engine opts).checkLibrary detectors main library) :=
  (spends_announce .scanningLibrary _ nofun rfl detectors).guarded_bind <|
    (spends_pass _).guarded (spends_farewell rfl detectors)

theorem spends_checkLibraries (detectors : List Detector) (project : ProjectRef) :
    Spends 1 ((host.engine opts).checkLibraries detectors project) := by
  refine .inspect fun s => .ite _ (Spends.pure ()).free ?_
  refine .after_free (.of_keeps [] fun b => (finds_ledger host [] b).libraries opts project)
    fun libraries => ?_
  exact .eachUntilCanceled libraries fun library _ =>
    spends_checkLibrary detectors project library

theorem spends_checkPhase (project : ProjectRef) :
    Spends 1 ((host.engine opts).checkPhase project) := by
  refine .inspect fun s => ?_
  refine (spends_announce .scanningProject _ nofun rfl _).guarded_bind ?_
  refine (spends_pass _).guarded ?_
  exact (spends_checkLibraries _ project).guarded (spends_farewell rfl _)

theorem spends_reportCanceled (context : Context) :
    Spends 0 ((host.engine opts).reportCanceled context) := by
  refine .inspect fun s => .ite _ (.pure ()) (.after_free (.modify fun _ => ⟨rfl, rfl⟩) fun _ => ?_)
  refine .of_keeps [] fun b t ht => ?_
  have hledger := finds_ledger host [] b
  exact Bears.submit hledger.toBears (hledger.serves opts)
    (ht.write_aside rfl rfl fun _ hmoment => nomatch hmoment)

theorem spends_checkProject (host : Host σ) (opts : Options) (project : ProjectRef) :
    Spends 1 ((host.engine opts).checkProject project) :=
  (spends_checkPhase project).bind fun _ => .inspect fun _ =>
    .ite _ (spends_reportCanceled _) (.pure ())

theorem spends_plan (host : Host σ) (opts : Options) (project : ProjectRef) (scope : ScopeSet) :
    Spends 0 ((host.engine opts).plan ownSlot ((host.engine opts).configuration project) scope) :=
  .of_keeps [] fun b => (finds_ledger host [] b).plan opts (fun _ _ h => h) (fun _ _ h => h)
    (fun _ _ _ h => h.write_aside rfl rfl fun _ hmoment => nomatch hmoment) project scope

theorem spent_replanned (s : State σ) (config : Configuration) :
    Spent 0 s (s.replanned config) := by
  refine Spent.aside (Spent.aside ?_ rfl rfl rfl) rfl rfl rfl
  exact .of_state rfl rfl

theorem spent_laterPhases {fuel : Nat}
    (hmore : ∀ {s : State σ}, s.canceled = false → s.Configured project config →
      Spent 1 s (endState ((host.engine opts).extraPhases project fuel s)))
    (hconfig : s.Configured project config) :
    Spent 1 s (endState ((host.engine opts).laterPhases project fuel s)) := by
  have hrepeated : Spent 0 s (s.repeated config) :=
    (spent_replanned s config).changed rfl rfl
  rcases laterPhases_cases (host.engine opts) fuel hconfig with
    ⟨-, heq⟩ | ⟨-, ⟨fault, heq⟩ | ⟨-, heq⟩ | ⟨first, rest, -, heq⟩⟩
  · rw [heq]
    exact (Spent.refl s).free
  · rw [heq]
    exact (spent_replanned s config).free
  · rw [heq]
    exact hrepeated.free
  · rw [heq]
    refine hrepeated.trans (?_ : Spent 1 _ _)
    have hproject := spends_checkProject host opts project (s.repeated config)
    cases hcheck : (host.engine opts).checkProject project (s.repeated config) with
    | error fault t =>
      rw [hcheck] at hproject
      rwa [bind_of_error hcheck]
    | ok _ t =>
      rw [hcheck] at hproject
      rw [bind_of_ok hcheck, goOn, get_bind]
      cases ht : t.canceled with
      | true => exact hproject
      | false =>
        have hconfig' : t.Configured project config :=
          ((lasts_configured project config).checkProject host opts project).ok
            (s := s.repeated config) hconfig hcheck
        refine hproject.trans_calm ht ?_
        by_cases hstop : (false && !(first :: rest).isEmpty ||
            decide (Options.maxPhases ≤ (ownSlot.schedule t).phase) ||
            !(ownSlot.schedule t).isPending) = true
        · rw [if_pos hstop]
          exact (Spent.refl t).free
        · rw [if_neg hstop]
          exact hmore ht hconfig'

theorem spent_extraPhases (host : Host σ) (opts : Options) (fuel : Nat) :
    ∀ {s : State σ}, s.canceled = false → s.Configured project config →
      Spent 1 s (endState ((host.engine opts).extraPhases project fuel s)) := by
  induction fuel with
  | zero => exact fun _ _ => (Spent.refl _).free
  | succ fuel ih =>
    intro s hs hconfig
    cases hadvance : (ownSlot.schedule s).advance? with
    | none =>
      rw [extraPhases_of_none _ _ _ hadvance]
      exact (Spent.refl s).free
    | some advanced =>
      obtain ⟨s₁, hfire, heq⟩ := extraPhases_announced host opts project fuel hadvance
      have hspent := spent_fire host opts (s := { s with schedule := some advanced })
        .newPhase (some (projectContext project)) hs
      have hconfig₁ : s₁.Configured project config :=
        ((lasts_configured project config).fire host opts _ _).ok
          (s := { s with schedule := some advanced }) hconfig hfire
      rw [hfire] at hspent
      have hadvanced : Spent 0 s { s with schedule := some advanced } := .of_state rfl rfl
      have hfirst : Spent 0 s s₁.narrow := Spent.changed (hadvanced.trans hspent) rfl rfl
      rw [heq]
      exact hfirst.trans (spent_laterPhases ih (s := s₁.narrow) hconfig₁)

theorem spent_repeatPhases (hs : s.canceled = false) (hconfig : s.Configured project config) :
    Spent 1 s (endState ((host.engine opts).repeatPhases project s)) := by
  have hextra := spent_extraPhases host opts Options.maxPhases hs hconfig
  rw [repeatPhases, get_bind]
  cases (ownSlot.schedule s).isPending with
  | false => exact (Spent.refl s).free
  | true =>
    rw [if_pos rfl, keepingScope]
    cases hend : (host.engine opts).extraPhases project Options.maxPhases s with
    | ok _ t =>
      rw [hend] at hextra
      exact hextra.changed rfl rfl
    | error fault t =>
      rw [hend] at hextra
      exact hextra.changed rfl rfl

theorem spent_checkRoot (host : Host σ) (opts : Options) (hproject : s.Has project) :
    Spent 1 s (endState ((host.engine opts).checkRoot project s)) := by
  have hplan := spends_plan host opts project s.scope s
  rcases checkRoot_cases (host.engine opts) project s with
    ⟨fault, t, heq, hend⟩ | ⟨detectors, t, heq, ⟨-, hend⟩ | ⟨-, hend⟩⟩
  · rw [heq] at hplan
    rw [hend]
    exact hplan.free
  · rw [heq] at hplan
    rw [hend]
    refine Spent.free (Spent.aside ?_ rfl rfl rfl)
    exact hplan.changed rfl rfl
  · rw [heq] at hplan
    rw [hend]
    have hforget : Spent 0 s { t with memo := none } := hplan.changed rfl rfl
    refine hforget.trans (?_ : Spent 1 _ _)
    obtain ⟨config, hconfig⟩ := plan_configured opts hproject heq
    have hphase := spends_checkProject host opts project { t with memo := none }
    cases hcheck : (host.engine opts).checkProject project { t with memo := none } with
    | error fault u =>
      rw [hcheck] at hphase
      rwa [bind_of_error hcheck]
    | ok _ u =>
      rw [hcheck] at hphase
      rw [bind_of_ok hcheck]
      cases hu : u.canceled with
      | true => rwa [unlessCanceled_of_canceled hu]
      | false =>
        rw [unlessCanceled_of_not_canceled hu]
        exact hphase.trans_calm hu (spent_repeatPhases hu
          (((lasts_configured project config).checkProject host opts project).ok
            (s := { t with memo := none }) hconfig hcheck))

theorem spent_checkRoots (host : Host σ) (opts : Options) (rest : List ProjectRef) :
    ∀ {s : State σ} (current : ProjectRef), (∀ root ∈ rest, s.Has root) →
      Spent 1 s (endState ((host.engine opts).checkRoots current rest s)) := by
  induction rest with
  | nil => exact fun _ _ => (Spent.refl _).free
  | cons project rest ih =>
    intro s current hrest
    rw [checkRoots, get_bind]
    cases s.canceled with
    | true => exact (Spent.refl s).free
    | false =>
      have hroot := spent_checkRoot host opts (hrest project List.mem_cons_self)
      rw [if_neg Bool.false_ne_true]
      cases hcheck : (host.engine opts).checkRoot project s with
      | error fault t =>
        rw [hcheck] at hroot
        rwa [bind_of_error hcheck]
      | ok _ t =>
        rw [hcheck] at hroot
        rw [bind_of_ok hcheck]
        cases ht : t.canceled with
        | true => rwa [checkRoots_of_canceled _ _ _ ht]
        | false =>
          refine hroot.trans_calm ht (ih project fun root hmem => ?_)
          exact ((lasts_has root).checkRoot host opts project).ok
            (hrest root (List.mem_cons_of_mem _ hmem)) hcheck

end Phases
end Engine

/-! ## A whole run -/

namespace Promptness

open Journal Run Engine

variable {host : Host σ} {opts : Options} {s s' t : State σ}

/-- What a run writes before and after it is canceled, if it is. Without a cancellation in time it
ends with its completion, unless it found nothing to check or was canceled before it began to. -/
structure Prompt (early late : List Entry) : Prop where
  events :
    signals late = [] ∧
        (signals early = [] ∨ ∃ before, signals early = before ++ [(.completed, none)]) ∨
      ∃ further, signals late = further ++ [(.canceled, none)] ∧ further.length ≤ 1 ∧
        ∀ signal ∈ further, signal.1 ≠ .newPhase
  levels : ((hooks late).filter Hook.isLevel).length ≤ 1
  file : ∃ context, ∀ hook ∈ hooks late, ∀ c, hook.file? = some c → c = context

theorem file_of_tail {cost : Cost} {entries : List Entry} (h : Tail cost entries)
    (hcost : cost.2.2 ≤ 1) :
    ∃ context, ∀ hook ∈ hooks entries, ∀ c, hook.file? = some c → c = context := by
  obtain ⟨contexts, hlength, hall⟩ := h.files
  match contexts, hlength.trans hcost with
  | [], _ =>
    exact ⟨⟨⟨0, ""⟩, none, "", .plain⟩, fun hook hhook c hc =>
      absurd (hall hook hhook c hc) List.not_mem_nil⟩
  | [context], _ =>
    exact ⟨context, fun hook hhook c hc => List.mem_singleton.1 (hall hook hhook c hc)⟩

theorem signals_of_quiet {early late : List Entry} (hparted : Parted s s' early late)
    (hlater : State.Later Quiet s s') : signals early = [] ∧ signals late = [] := by
  obtain ⟨new, hnew, hsilent, -⟩ := hlater.silent
  have hsame : early ++ late = new := List.append_cancel_left (hparted.written.symm.trans hnew)
  rwa [← hsame, signals_append, List.append_eq_nil_iff] at hsilent

theorem prompt_of_quiet (h : Spent 0 s s') (hlater : State.Later Quiet s s') :
    ∃ early late, Parted s s' early late ∧ Prompt early late := by
  obtain ⟨early, late, hparted, htail⟩ := h
  obtain ⟨hearly, hlate⟩ := signals_of_quiet hparted hlater
  exact ⟨early, late, hparted, .inl ⟨hlate, .inl hearly⟩,
    Nat.le_trans htail.levels (Nat.zero_le _),
    file_of_tail htail (Nat.zero_le _)⟩

theorem prompt_conclude (elapsed : Int) (h : Spent 1 s t)
    (hend : (host.engine opts).conclude elapsed t = .ok () s') :
    ∃ early late, Parted s s' early late ∧ Prompt early late := by
  obtain ⟨early, late, hparted, htail⟩ : Spent 1 s (t.closing elapsed) := h.aside rfl rfl rfl
  generalize hevent : (if t.canceled then Event.canceled else .completed) = event
  rw [conclude, hevent] at hend
  have hmoment : ∀ moment, Entry.moment? (.fired event none (t.closing elapsed).moment) =
      some moment → moment = (t.closing elapsed).moment :=
    fun _ hmoment => (Option.some.inj hmoment).symm
  obtain ⟨u, hfire, hlater⟩ := fire_eq_ok host opts event none (t.closing elapsed)
  obtain rfl : u = s' := by
    rw [hend] at hfire
    cases hfire
    rfl
  have hnotify := spent_heard host opts event none (t.closing elapsed)
  rw [hend] at hnotify
  obtain ⟨early', late', hparted', htail'⟩ := hnotify
  obtain ⟨hearly', hlate'⟩ := signals_of_quiet hparted' hlater
  cases ht : t.canceled with
  | true =>
    rw [ht] at hevent
    subst hevent
    have hfinal := hparted.trans (.write_late (t.closing elapsed) ht hmoment)
    have htails := (htail.append (Tail.event .canceled none (t.closing elapsed).moment
      nofun)).append htail'
    refine ⟨_, _, hfinal.trans hparted', .inr ⟨signals late, ?_, htail.events, htail.phases⟩,
      htails.levels, file_of_tail htails (Nat.le_refl _)⟩
    rw [signals_append, signals_append, hlate', List.append_nil]
    rfl
  | false =>
    rw [ht] at hevent
    subst hevent
    have hfinal := hparted.trans (.write_early (t.closing elapsed) ht hmoment)
    rw [hparted.after ht] at hfinal
    refine ⟨_, _, hfinal.trans hparted', .inl ⟨hlate', .inr ⟨signals early, ?_⟩⟩,
      Nat.le_trans htail'.levels (Nat.zero_le _),
      file_of_tail htail' (Nat.zero_le _)⟩
    rw [signals_append, signals_append, hearly', List.append_nil]
    rfl

theorem prompt_finish {current : ProjectRef} (elapsed : Int) (h : Spent 1 s t)
    (hend : (host.engine opts).finish current elapsed t = .ok () s') :
    ∃ early late, Parted s s' early late ∧ Prompt early late := by
  cases ht : t.canceled with
  | false =>
    rw [finish_of_not_canceled _ _ _ ht] at hend
    exact prompt_conclude elapsed h hend
  | true =>
    rw [finish_of_canceled _ _ _ ht] at hend
    obtain ⟨_, u, hreport, hend⟩ := bind_eq_ok hend
    have hspent := (spends_reportCanceled (projectContext current)).ok hreport
    exact prompt_conclude elapsed (h.trans hspent) hend

/-- A canceled run stops promptly. Divide what a run writes at the moment it is canceled, wherever
that is: before the final event of the canceled run at most one more event is fired, and none of a
new phase; at most one more call is about a project or a library as a whole; and all calls about
files are about one of them. -/
theorem analyze_prompt (host : Host σ) (opts : Options) {paths : List String}
    {scope : Option ScopeSet} {elapsed : Int}
    (hs : s.Sound) (h : (host.engine opts).analyze paths scope elapsed s = .ok () s') :
    ∃ early late, s'.written = s.written ++ (early ++ late) ∧
      (∀ entry ∈ early, ∀ moment, entry.moment? = some moment → moment.canceled = false) ∧
      (∀ entry ∈ late, ∀ moment, entry.moment? = some moment → moment.canceled = true) ∧
      Prompt early late := by
  have hbegun : (s.begun scope).Sound := ⟨hs.cache, hs.libraries⟩
  suffices hprompt : ∃ early late, Parted (s.begun scope) s' early late ∧ Prompt early late by
    obtain ⟨early, late, hparted, hprompt⟩ := hprompt
    exact ⟨early, late, hparted.written, hparted.isEarly, hparted.isLate, hprompt⟩
  cases hresolve : Discovery.resolve (host.engine opts) State.canceled paths (s.begun scope) with
  | error fault s₁ =>
    rw [analyze_of_error hresolve] at h
    cases h
  | ok roots s₁ =>
    have hfound := (frames_resolve host opts State.canceled paths).ok hresolve
    have hspent : Spent 0 (s.begun scope) s₁ := (Spends.of_keeps [] fun b =>
      (finds_ledger host [] b).resolve opts State.canceled paths).ok hresolve
    cases hs₁ : s₁.canceled with
    | true =>
      rw [analyze_of_canceled hresolve hs₁] at h
      cases h
      exact prompt_of_quiet hspent hfound
    | false =>
      cases roots with
      | nil =>
        rw [analyze_of_nil hresolve hs₁] at h
        exact prompt_of_quiet (hspent.trans ((spends_log _ _).ok h))
          (hfound.trans ((frames_log host opts _ _ _).ok h))
      | cons first rest =>
        rw [analyze_of_cons hresolve hs₁, checkAll_eq] at h
        obtain ⟨_, s₂, hstart, h⟩ := bind_eq_ok h
        obtain ⟨current, s₃, hroots, h⟩ := bind_eq_ok h
        have hentered : Spent 0 (s.begun scope)
            ((s₁.ready scope (first :: rest)).entered (rest.length + 1)) :=
          Spent.aside (hspent.changed rfl rfl) rfl rfl rfl
        have hstarted := spent_fire host opts
          (s := (s₁.ready scope (first :: rest)).entered (rest.length + 1)) .starting none hs₁
        have hhas : ∀ root ∈ first :: rest, s₂.Has root := by
          intro root hroot
          obtain ⟨refs, hrefs⟩ := Discovery.resolve_knows hbegun hresolve root hroot
          exact ((lasts_has root).fire host opts _ _).ok
            (s := (s₁.ready scope (first :: rest)).entered (rest.length + 1))
            (State.has_of_libraries hrefs) hstart
        have hchecked := spent_checkRoots host opts (first :: rest) first hhas
        rw [hstart] at hstarted
        rw [hroots] at hchecked
        exact prompt_finish elapsed ((hentered.trans hstarted).trans hchecked) h

def reluctantHost : Host Scripted.Memory :=
  Scripted.Embedding.host
    { detectors :=
        [("D", { scanners := [.markup], declared := [.markup],
                 rules := [{ trigger := "getApplicableElements", commands := [.cancel] }] })] }

def loneProject : State Scripted.Memory :=
  fresh {} (sideBySide [("a", "")]) ⟨[manifestIssue]⟩

def reluctantRun : Outcome Scripted.Memory Unit :=
  (reluctantHost.engine ⟨false⟩).analyze ["a"] (some (.ofList [.manifest])) 0 loneProject

theorem reluctantRun_outcome :
    (result? reluctantRun = some () ∧ (endState reluctantRun).canceled = true) ∧
      (signals (endState reluctantRun).written).map Prod.fst =
        [.starting, .scanningProject, .scanningFile, .canceled] ∧
      (hooks (endState reluctantRun).written).map Hook.name =
        ["beforeCheckProject", "getApplicableElements", "getApplicableAttributes",
          "beforeCheckFile", "visitDocument", "afterCheckFile"] := by
  decide +kernel

theorem analyze_prompt_reluctant :
    ∃ s' early late, loneProject.Sound ∧
      (reluctantHost.engine ⟨false⟩).analyze ["a"] (some (.ofList [.manifest])) 0 loneProject =
        .ok () s' ∧ s'.canceled = true ∧
      (signals s'.written).map Prod.fst = [.starting, .scanningProject, .scanningFile, .canceled] ∧
      s'.written = loneProject.written ++ (early ++ late) ∧ Prompt early late := by
  obtain ⟨⟨hends, hcanceled⟩, hsignals, -⟩ := reluctantRun_outcome
  have hsound : loneProject.Sound := sound_fresh _ _ _
  have hrun := eq_ok_of_result? hends
  obtain ⟨early, late, hwritten, -, -, hprompt⟩ := analyze_prompt _ _ hsound hrun
  exact ⟨_, early, late, hsound, hrun, hcanceled, hsignals, hwritten, hprompt⟩

end Promptness
end ProjectLint
