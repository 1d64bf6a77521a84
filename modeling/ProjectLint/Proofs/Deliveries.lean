/-
What becomes of reports. A report is judged by the configuration of the project of its context: it
is passed on if the issue is enabled, not ignored there, and of a severity that counts. A report of
a disabled issue leaves a message, unless it comes from a parser.

A run is accounted for in rulings, each a report with the configuration that it was judged by, in
the order in which the reports were made. A configuration that a project has once, it keeps. The
code that keeps the client's books may not make reports, nor may any code write a message like one
about a report.
-/
import ProjectLint.Proofs.Planning

namespace ProjectLint

/-! ## The account of reports -/

namespace Journal

def Entry.submission? : Entry → Option Report
  | .submitted _ report => some report
  | _ => none

def Entry.delivery? : Entry → Option Report
  | .called (.report report) _ => some report
  | _ => none

def Entry.complaint? : Entry → Option String
  | .called (.log error message _) _ => if Log.complains error message then some message else none
  | .logged entry => if entry.isComplaint then some entry.message else none
  | _ => none

/-- The reports that were made. -/
def submissions (entries : List Entry) : List Report :=
  entries.filterMap Entry.submission?

/-- The reports that the client received. -/
def deliveries (entries : List Entry) : List Report :=
  entries.filterMap Entry.delivery?

/-- The messages about reports of disabled issues. -/
def complaints (entries : List Entry) : List String :=
  entries.filterMap Entry.complaint?

theorem Entry.unconcerned {entry : Entry} (h : entry.concernsReport = false) :
    entry.submission? = none ∧ entry.delivery? = none ∧ entry.complaint? = none := by
  cases entry with
  | submitted author report => cases h
  | called call moment =>
    cases call with
    | report report => cases h
    | log error message context => exact ⟨rfl, rfl, if_neg (Bool.eq_false_iff.1 h)⟩
    | _ => exact ⟨rfl, rfl, rfl⟩
  | logged entry => exact ⟨rfl, rfl, if_neg (Bool.eq_false_iff.1 h)⟩
  | _ => exact ⟨rfl, rfl, rfl⟩

end Journal

namespace Configuration

/-- Whether a report gets through to the client. -/
def delivers (cwd : String) (report : Report) (config : Configuration) : Bool :=
  config.isEnabled report.issue && !config.isIgnored cwd report &&
    config.severity report.issue != .ignore

/-- Whether a report leaves a message. -/
def blames (report : Report) (config : Configuration) : Bool :=
  !config.isEnabled report.issue && report.issue.role != .unparsable

end Configuration

/-- The message that a report of a disabled issue leaves. -/
def Report.complaint (report : Report) : String :=
  Log.complaintStart ++ report.issue.id

theorem Report.complains_complaint (report : Report) :
    Log.complains none report.complaint = true := by
  rw [Log.complains, Option.isNone_none, Bool.true_and, Text.startsWith, Report.complaint,
    String.toList_append]
  exact List.isPrefixOf_iff_prefix.2 (List.prefix_append _ _)

namespace Deliveries

open Journal

abbrev Ruling := Report × Configuration

structure Accounts (cwd : String) (rulings : List Ruling) (entries : List Entry) : Prop where
  submissions : submissions entries = rulings.map Prod.fst
  deliveries : deliveries entries =
    (rulings.filter fun ruling => ruling.2.delivers cwd ruling.1).map Prod.fst
  complaints : complaints entries =
    (rulings.filter fun ruling => ruling.2.blames ruling.1).map fun ruling => ruling.1.complaint

namespace Accounts

variable {cwd : String} {rulings others : List Ruling} {entries more : List Entry}

theorem append (h : Accounts cwd rulings entries) (h' : Accounts cwd others more) :
    Accounts cwd (rulings ++ others) (entries ++ more) where
  submissions := by
    rw [Journal.submissions, List.filterMap_append, List.map_append]
    exact congrArg₂ _ h.submissions h'.submissions
  deliveries := by
    rw [Journal.deliveries, List.filterMap_append, List.filter_append, List.map_append]
    exact congrArg₂ _ h.deliveries h'.deliveries
  complaints := by
    rw [Journal.complaints, List.filterMap_append, List.filter_append, List.map_append]
    exact congrArg₂ _ h.complaints h'.complaints

theorem of_unconcerned (cwd : String) (h : ∀ entry ∈ entries, entry.concernsReport = false) :
    Accounts cwd [] entries where
  submissions := List.filterMap_eq_nil_iff.2 fun entry hentry =>
    (Entry.unconcerned (h entry hentry)).1
  deliveries := List.filterMap_eq_nil_iff.2 fun entry hentry =>
    (Entry.unconcerned (h entry hentry)).2.1
  complaints := List.filterMap_eq_nil_iff.2 fun entry hentry =>
    (Entry.unconcerned (h entry hentry)).2.2

end Accounts
end Deliveries

/-! ## What is kept -/

namespace State

structure Retains (s t : State σ) : Prop where
  cwd : t.files.cwd = s.files.cwd
  size : t.projects.size = s.projects.size
  configured : ∀ {ref config}, s.Configured ref config → t.Configured ref config
  libraries : ∀ {ref refs}, (s.project ref).libraries = some refs →
    (t.project ref).libraries = some refs

namespace Retains

variable {s t u : State σ}

theorem of_eq (hcwd : t.files.cwd = s.files.cwd) (hprojects : t.projects = s.projects) :
    Retains s t where
  cwd := hcwd
  size := congrArg Array.size hprojects
  configured := fun h => (Engine.lasts_configured _ _).projects h hprojects
  libraries := fun h => (Engine.lasts_libraries _ _).projects h hprojects

theorem refl (s : State σ) : Retains s s :=
  of_eq rfl rfl

theorem trans (h : Retains s t) (h' : Retains t u) : Retains s u where
  cwd := h'.cwd.trans h.cwd
  size := h'.size.trans h.size
  configured := fun hs => h'.configured (h.configured hs)
  libraries := fun hs => h'.libraries (h.libraries hs)

theorem has (h : Retains s t) {ref : ProjectRef} : t.Has ref ↔ s.Has ref := by
  rw [Has, Has, h.size]

-- The configuration may have come in the meantime, when the client looked at the project itself.
theorem configure (h : Retains s t) {ref : ProjectRef}
    (hnone : (s.project ref).configuration = none) (config : Configuration) :
    Retains s (t.changed ref.index ({ · with configuration := some config })) where
  cwd := h.cwd
  size := Array.size_modify.trans h.size
  configured := fun hs => (Engine.lasts_configured _ _).configured ref config hs hnone
    (h.configured hs)
  libraries := fun hs => (Engine.lasts_libraries _ _).configured ref config hs hnone
    (h.libraries hs)

theorem changed (s : State σ) (index : Nat) {change : Project → Project}
    (hchange : ∀ p, (change p).dir = p.dir ∧ (change p).libraries = p.libraries ∧
      (change p).configuration = p.configuration) :
    Retains s (s.changed index change) where
  cwd := rfl
  size := Array.size_modify
  configured := (Engine.lasts_configured _ _).changed index change hchange
  libraries := (Engine.lasts_libraries _ _).changed index change hchange

end Retains

def Hushed (s t : State σ) : Prop :=
  ∃ new, t.written = s.written ++ new ∧ ∀ entry ∈ new, entry.concernsReport = false

namespace Hushed

variable {s t u : State σ}

theorem of_eq (h : t.journal = s.journal) : Hushed s t :=
  ⟨[], by rw [written, written, h, List.append_nil], List.forall_mem_nil _⟩

theorem trans (h : Hushed s t) (h' : Hushed t u) : Hushed s u := by
  obtain ⟨new, hnew, hall⟩ := h
  obtain ⟨more, hmore, hrest⟩ := h'
  refine ⟨new ++ more, ?_, List.forall_mem_append.2 ⟨hall, hrest⟩⟩
  rw [hmore, hnew, List.append_assoc]

theorem write (s : State σ) {entry : Journal.Entry} (h : entry.concernsReport = false) :
    Hushed s (s.write entry) :=
  ⟨[entry], written_write s entry, List.forall_mem_singleton.2 h⟩

end Hushed

structure Aloof (s t : State σ) : Prop extends Retains s t where
  hushed : Hushed s t

namespace Aloof

variable {s t u : State σ}

theorem of_eq (hcwd : t.files.cwd = s.files.cwd) (hprojects : t.projects = s.projects)
    (hjournal : t.journal = s.journal) : Aloof s t :=
  ⟨.of_eq hcwd hprojects, .of_eq hjournal⟩

theorem refl (s : State σ) : Aloof s s :=
  of_eq rfl rfl rfl

theorem trans (h : Aloof s t) (h' : Aloof t u) : Aloof s u :=
  ⟨h.toRetains.trans h'.toRetains, h.hushed.trans h'.hushed⟩

theorem write (s : State σ) {entry : Journal.Entry} (h : entry.concernsReport = false) :
    Aloof s (s.write entry) :=
  ⟨.of_eq rfl rfl, .write s h⟩

theorem entered (s : State σ) (count : Nat) : Aloof s (s.entered count) :=
  ⟨.of_eq rfl rfl, [_], written_write _ _, List.forall_mem_singleton.2 rfl⟩

end Aloof

open Deliveries in
/-- What is known stays known, and reports were handled: each was judged by the configuration that
its project has, if there is such a project. -/
structure Handles (s t : State σ) : Prop extends Retains s t where
  accounts : ∃ new rulings, t.written = s.written ++ new ∧
    (∀ ruling ∈ rulings, t.Has ruling.1.context.project →
      t.Configured ruling.1.context.project ruling.2) ∧ Accounts s.files.cwd rulings new

namespace Handles

open Deliveries

variable {s t u : State σ}

theorem of_aloof (h : Aloof s t) : Handles s t := by
  obtain ⟨new, hnew, hall⟩ := h.hushed
  exact ⟨h.toRetains, new, [], hnew, List.forall_mem_nil _, .of_unconcerned _ hall⟩

theorem trans (h : Handles s t) (h' : Handles t u) : Handles s u := by
  obtain ⟨new, rulings, hnew, hrulings, haccounts⟩ := h.accounts
  obtain ⟨more, others, hmore, hothers, haccounts'⟩ := h'.accounts
  rw [h.cwd] at haccounts'
  refine ⟨h.toRetains.trans h'.toRetains, new ++ more, rulings ++ others, ?_, ?_,
    haccounts.append haccounts'⟩
  · rw [hmore, hnew, List.append_assoc]
  · refine List.forall_mem_append.2 ⟨fun ruling hruling hhas => ?_, hothers⟩
    exact h'.configured (hrulings ruling hruling (h'.has.1 hhas))

theorem andThen (h : Handles s t) (h' : Aloof t u) : Handles s u :=
  h.trans (of_aloof h')

end Handles
end State

/-! ## Code that keeps to its part -/

def Action.IsDecent : Action → Prop
  | .log error message _ => Log.complains error message = false
  | .changeFiles change => ∀ ws, (change ws).cwd = ws.cwd
  | _ => True

def Action.IsReserved : Action → Prop
  | .report _ => False
  | action => action.IsDecent

/-- An embedding that leaves reports to detectors, listeners and parsers. Whenever the client is
asked for a configuration, its code returns. -/
structure Host.Reserved (host : Host σ) (opts : Options) : Prop where
  reacts : ∀ call moment memory,
    (host.react call moment memory).Within Action.IsDecent fun _ => True
  books : ∀ {call} moment memory, call.isBookkeeping = true →
    (host.react call moment memory).Within Action.IsReserved fun _ => True
  configures : ∀ {depth}, Host.nestingLimit ≤ depth + 1 → ∀ ref (s : State σ),
    ∃ t, host.invoke opts depth (.getConfiguration ref) s = .ok () t
  noted : ∀ {dir files memory made}, host.configuration dir files memory = some made →
    ∀ entry ∈ made.2, entry.isComplaint = false

def Host.nested (host : Host σ) (opts : Options) (depth : Nat) : Engine σ :=
  ⟨host, opts, host.invoke opts depth⟩

theorem Run.Keeps.script {I : State σ → Prop} {may : Action → Prop}
    {perform : Action → Run σ Reply} (hperform : ∀ {action}, may action → Keeps I (perform action))
    (hupdate : ∀ memory {s}, I s → I { s with host := memory }) {script : Script σ}
    (h : script.Within may fun _ => True) : Keeps I (script.run perform) := by
  induction script with
  | done => exact .pure ()
  | fail fault => exact .throw fault
  | update change next ih =>
    rw [Script.run]
    exact Keeps.bind (.modify (hupdate _)) fun _ => .inspect fun s _ => ih s.host (h.2 s.host)
  | act action next ih =>
    rw [Script.run]
    exact (hperform h.1).bind fun reply => ih reply (h.2 reply)

theorem Configuration.isComplaint_load (ws : Workspace) (dir : String) (parent : Configuration) :
    ∀ entry ∈ (Configuration.load ws dir parent).2, entry.isComplaint = false := by
  show ∀ entry ∈ (Settings.load ws dir).2, entry.isComplaint = false
  rw [Settings.load]
  cases Settings.file? ws dir with
  | none => exact List.forall_mem_nil _
  | some path =>
    dsimp only
    cases Settings.ofFile ws path with
    | ok settings => exact List.forall_mem_singleton.2 rfl
    | error fault => cases fault <;> exact List.forall_mem_singleton.2 rfl

namespace Deliveries

open Run Engine Journal State

variable {host : Host σ} {opts : Options} {b s t : State σ} {ref : ProjectRef}

/-! ## Configurations -/

theorem noted_eq_ok {made : Configuration × List Log.Entry}
    (hmade : ∀ entry ∈ made.2, entry.isComplaint = false) (s : State σ) :
    ∃ t, noted made s = .ok made.1 t ∧ s.Aloof t := by
  obtain ⟨config, entries⟩ := made
  have heach : ∃ t, each entries (fun entry => record (.logged entry)) s = .ok () t ∧
    s.Aloof t := by
    induction entries generalizing s with
    | nil => exact ⟨s, rfl, .refl s⟩
    | cons entry rest ih =>
      obtain ⟨hfirst, hrest⟩ := List.forall_mem_cons.1 hmade
      obtain ⟨t, hrun, haloof⟩ := ih (s.write (.logged entry)) hrest
      have hwritten : s.Aloof (s.write (.logged entry)) := .write s hfirst
      exact ⟨t, hrun, hwritten.trans haloof⟩
  obtain ⟨t, hrun, ht⟩ := heach
  refine ⟨t, ?_, ht⟩
  rw [noted, bind_of_ok hrun]
  rfl

section Reserved

variable (hhost : host.Reserved opts)

include hhost

section Nested

variable {depth : Nat}
  (hcall : ∀ {b : State σ} {call}, call.isBookkeeping = true → call.concernsReport = false →
    Keeps b.Aloof (host.invoke opts depth call))

include hcall

theorem askConfiguration_cases (ref : ProjectRef) (s : State σ) :
    (∃ config t, (host.nested opts depth).askConfiguration ref s = .ok config t ∧ s.Aloof t) ∨
    ∃ fault t, host.invoke opts depth (.getConfiguration ref) s = .error fault t ∧
      (host.nested opts depth).askConfiguration ref s = .error fault t ∧ s.Aloof t := by
  have haloof : s.Aloof (endState (host.invoke opts depth (.getConfiguration ref) s)) :=
    hcall rfl rfl s (.refl s)
  rw [Engine.askConfiguration]
  cases hrun : host.invoke opts depth (.getConfiguration ref) s with
  | error fault u =>
    rw [hrun] at haloof
    exact .inr ⟨fault, u, rfl, bind_of_error hrun, haloof⟩
  | ok _ u =>
    rw [hrun] at haloof
    rw [bind_of_ok (x := (host.nested opts depth).invoke _) hrun, get_bind]
    have hmade : ∀ entry ∈ (host.made u.files ref.dir u.host).2, entry.isComplaint = false := by
      rw [Host.made]
      cases hown : host.configuration ref.dir u.files u.host with
      | some made => exact hhost.noted hown
      | none => exact Configuration.isComplaint_load _ _ _
    obtain ⟨t, hrun, ht⟩ := noted_eq_ok hmade u
    exact .inl ⟨_, t, hrun, haloof.trans ht⟩

theorem configuration_cases (ref : ProjectRef) (s : State σ) :
    (∃ config t, (host.nested opts depth).configuration ref s = .ok config t ∧ s.Aloof t ∧
      (s.Has ref → t.Configured ref config)) ∨
    ∃ fault t, host.invoke opts depth (.getConfiguration ref) s = .error fault t ∧
      (host.nested opts depth).configuration ref s = .error fault t ∧ s.Aloof t := by
  rw [Engine.configuration, get_bind]
  cases hknown : (s.project ref).configuration with
  | some config => exact .inl ⟨config, s, rfl, .refl s, fun hs => ⟨_, getElem?_of_has hs, hknown⟩⟩
  | none =>
    rcases askConfiguration_cases hhost hcall ref s with
      ⟨config, t, hask, haloof⟩ | ⟨fault, t, hrun, hask, haloof⟩
    · refine .inl ⟨config, _, bind_of_ok hask,
        ⟨haloof.configure hknown config, haloof.hushed.trans (.of_eq rfl)⟩, fun hs => ?_⟩
      refine ⟨{ t.project ref with configuration := some config }, ?_, rfl⟩
      show (t.projects.modify ref.index _)[ref.index]? = _
      rw [Array.getElem?_modify, if_pos rfl, getElem?_of_has (haloof.has.2 hs)]
      rfl
    · exact .inr ⟨fault, t, hrun, bind_of_error hask, haloof⟩

theorem keeps_configuration (ref : ProjectRef) :
    Keeps b.Aloof ((host.nested opts depth).configuration ref) := by
  intro s hs
  rcases configuration_cases hhost hcall ref s with
    ⟨config, t, hrun, haloof, -⟩ | ⟨fault, t, -, hrun, haloof⟩
  · rw [hrun]
    exact hs.trans haloof
  · rw [hrun]
    exact hs.trans haloof

/-! ## Code that makes no reports -/

theorem keeps_reserved {action : Action} (hmay : action.IsReserved) :
    Keeps b.Aloof ((host.nested opts depth).perform action) := by
  have hplain : ∀ {f : State σ → State σ}, (∀ s, Aloof s (f s)) →
      Keeps b.Aloof (do modify f; return Reply.done : Run σ Reply) :=
    fun hf => Keeps.bind (.modify fun hs => hs.trans (hf _)) fun _ => .pure _
  cases action with
  | report report => exact hmay.elim
  | requestRepeat detector scope =>
    refine Keeps.bind (fun s hs => ?_) fun _ => .pure _
    cases hschedule : s.schedule with
    | none =>
      rw [requestRepeat_of_none hschedule]
      exact hs.trans (.write s rfl)
    | some schedule =>
      rw [requestRepeat_of_some hschedule]
      exact (hs.trans (.write s rfl)).trans (.of_eq rfl rfl rfl)
  | cancel => exact hplain fun _ => .of_eq rfl rfl rfl
  | cancelSearch => exact hplain fun _ => .of_eq rfl rfl rfl
  | addListener listener => exact hplain fun _ => .of_eq rfl rfl rfl
  | removeListener listener => exact hplain fun _ => .of_eq rfl rfl rfl
  | changeFiles change => exact hplain fun s => .of_eq (hmay s.files) rfl rfl
  | log error message context =>
    refine Keeps.bind (.ite _ (.record fun {s} hs => ?_) (hcall rfl hmay)) fun _ => .pure _
    exact hs.trans (.write s ((isComplaint_plainEntry ..).trans hmay))
  | observe context issue scope project =>
    refine Keeps.bind (.inspect fun _ _ => ?_) fun _ =>
      Keeps.bind (.record fun {s} hs => hs.trans (.write s rfl)) fun _ => .pure _
    cases context with
    | none => exact .pure _
    | some context =>
      cases issue with
      | none => exact (Keeps.pure _).bind fun _ => .inspect fun _ _ => .inspect fun _ _ => .pure _
      | some issue =>
        exact (keeps_configuration hhost hcall _).bind fun _ => (Keeps.pure _).bind fun _ =>
          .inspect fun _ _ => .inspect fun _ _ => .pure _
  | askSuppressed issue target =>
    exact Keeps.bind (.record fun {s} hs => hs.trans (.write s rfl)) fun _ => .pure _

theorem aloof_of_books {call : Call} (hbooks : call.isBookkeeping = true) (s : State σ) :
    (s.write (.called call s.moment)).Aloof (endState (host.invoke opts (depth + 1) call s)) := by
  rw [Host.invoke, get_bind]
  refine Keeps.bindAt (x := record _) (.refl _) fun _ => ?_
  exact .script (keeps_reserved hhost hcall) (fun _ _ hs => hs.trans (.of_eq rfl rfl rfl))
    (hhost.books _ _ hbooks)

end Nested

theorem keeps_books (depth : Nat) {b : State σ} {call : Call} (hbooks : call.isBookkeeping = true)
    (hcall : call.concernsReport = false) : Keeps b.Aloof (host.invoke opts depth call) := by
  induction depth generalizing b call with
  | zero => exact .throw _
  | succ depth ih =>
    intro s hs
    have hwritten : s.Aloof (s.write (.called call s.moment)) := .write s hcall
    exact (hs.trans hwritten).trans (aloof_of_books hhost ih hbooks s)

theorem aloof_invoke (depth : Nat) {call : Call} (hbooks : call.isBookkeeping = true)
    (s : State σ) : (s.write (.called call s.moment)).Aloof
      (endState (host.invoke opts (depth + 1) call s)) :=
  aloof_of_books hhost (keeps_books hhost depth) hbooks s

end Reserved

/-! ## The way of a report -/

section Outcome

theorem judged_eq (config : Configuration) (cwd : String) (report : Report) :
    config.delivers cwd report = (verdict config cwd report == .delivered) ∧
    config.blames report =
      (verdict config cwd report == .disabled && report.issue.role != .unparsable) := by
  rw [Configuration.delivers, Configuration.blames, verdict]
  cases config.isEnabled report.issue with
  | false => exact ⟨rfl, rfl⟩
  | true =>
    cases config.isIgnored cwd report with
    | true => exact ⟨rfl, rfl⟩
    | false => by_cases hseverity : config.severity report.issue = .ignore <;> simp [hseverity]

theorem handles_of_outcome {config : Configuration} {report : Report} {author : Author}
    {outcome : List Entry} {u v : State σ}
    (hmade : (s.write (.submitted author report)).Aloof t)
    (hknown : s.Has report.context.project → t.Configured report.context.project config)
    (hwritten : u.written = t.written ++ outcome) (hretains : t.Retains u) (hrest : u.Aloof v)
    (hsubmissions : submissions outcome = [])
    (hdeliveries : deliveries outcome =
      if config.delivers s.files.cwd report then [report] else [])
    (hcomplaints : complaints outcome =
      if config.blames report then [report.complaint] else []) : s.Handles v := by
  have hstart : s.Retains (s.write (.submitted author report)) := .of_eq rfl rfl
  have hall := (hstart.trans hmade.toRetains).trans hretains
  obtain ⟨asked, hasked, hquiet⟩ := hmade.hushed
  have hbefore : Accounts s.files.cwd [] asked := .of_unconcerned _ hquiet
  refine State.Handles.andThen ⟨hall, [.submitted author report] ++ asked ++ outcome,
    [(report, config)], ?_, ?_, ⟨?_, ?_, ?_⟩⟩ hrest
  · rw [hwritten, hasked, written_write, List.append_assoc, List.append_assoc, List.append_assoc]
  · refine List.forall_mem_singleton.2 fun hhas => hretains.configured (hknown ?_)
    exact hall.has.1 hhas
  · rw [submissions, List.filterMap_append, List.filterMap_append]
    exact congrArg₂ _ (congrArg₂ _ rfl hbefore.submissions) hsubmissions
  · rw [deliveries, List.filterMap_append, List.filterMap_append]
    refine (congrArg₂ _ (congrArg₂ _ rfl hbefore.deliveries) hdeliveries).trans ?_
    rw [List.filter_singleton]
    cases config.delivers s.files.cwd report <;> rfl
  · rw [complaints, List.filterMap_append, List.filterMap_append]
    refine (congrArg₂ _ (congrArg₂ _ rfl hbefore.complaints) hcomplaints).trans ?_
    rw [List.filter_singleton]
    cases config.blames report <;> rfl

end Outcome

section Handled

variable (hhost : host.Reserved opts)

include hhost

theorem configuration_eq_ok {depth : Nat} (hroom : Host.nestingLimit ≤ depth + 1) (ref : ProjectRef)
    (s : State σ) :
    ∃ config t, (host.nested opts depth).configuration ref s = .ok config t ∧
      s.Aloof t ∧ (s.Has ref → t.Configured ref config) := by
  rcases configuration_cases hhost (keeps_books hhost depth) ref s with hok | ⟨fault, t, hrun, -⟩
  · exact hok
  · obtain ⟨_, hreturns⟩ := hhost.configures hroom ref s
    cases hreturns.symm.trans hrun

theorem handles_submit {depth : Nat} (hroom : Host.nestingLimit ≤ depth + 1 + 1) (author : Author)
    (report : Report) (s : State σ) :
    s.Handles (endState ((host.nested opts (depth + 1)).submit author report s)) := by
  obtain ⟨config, t, hconfig, hmade, hknown⟩ := configuration_eq_ok hhost hroom
    report.context.project (s.write (.submitted author report))
  have hrecord : record (.submitted author report) s =
      .ok () (s.write (.submitted author report)) := rfl
  have hcwd : t.files.cwd = s.files.cwd := hmade.cwd
  rw [Engine.submit, bind_of_ok hrecord, bind_of_ok hconfig, get_bind, hcwd]
  obtain ⟨hdelivers, hblames⟩ := judged_eq config s.files.cwd report
  have hnothing (hdelivers : config.delivers s.files.cwd report = false)
      (hblames : config.blames report = false) : s.Handles t :=
    handles_of_outcome hmade hknown (List.append_nil _).symm (.refl t) (.refl t) rfl
      (by rw [hdelivers]; rfl) (by rw [hblames]; rfl)
  generalize verdict config s.files.cwd report = judged at hdelivers hblames ⊢
  cases judged with
  | ignored => exact hnothing hdelivers hblames
  | silenced => exact hnothing hdelivers hblames
  | delivered =>
    exact handles_of_outcome hmade hknown (written_write t (.called (.report report) t.moment))
      (.of_eq rfl rfl) (aloof_invoke hhost depth rfl t) rfl (by rw [hdelivers]; rfl)
      (by rw [hblames]; rfl)
  | disabled =>
    dsimp only
    by_cases hrole : report.issue.role = .unparsable
    · rw [if_pos hrole]
      rw [hrole] at hblames
      exact hnothing hdelivers hblames
    · rw [bne_iff_ne.2 hrole] at hblames
      rw [if_neg hrole, Engine.log]
      have hcomplains := report.complains_complaint
      cases (host.nested opts (depth + 1)).host.logsPlainly with
      | true =>
        exact handles_of_outcome hmade hknown
          (written_write t (.logged (plainEntry none report.complaint none)))
          (.of_eq rfl rfl) (.refl _) rfl (by rw [hdelivers]; rfl)
          (by rw [hblames]; exact congrArg Option.toList (if_pos hcomplains))
      | false =>
        exact handles_of_outcome hmade hknown
          (written_write t (.called (.log none report.complaint none) t.moment))
          (.of_eq rfl rfl) (aloof_invoke hhost depth rfl t) rfl (by rw [hdelivers]; rfl)
          (by rw [hblames]; exact congrArg Option.toList (if_pos hcomplains))

/-! ## A whole run -/

theorem keeps_perform {depth : Nat} (hroom : Host.nestingLimit ≤ depth + 1 + 1) {action : Action}
    (hmay : action.IsDecent) :
    Keeps b.Handles ((host.nested opts (depth + 1)).perform action) := by
  have hquiet (hreserved : action.IsReserved) :
      Keeps b.Handles ((host.nested opts (depth + 1)).perform action) := fun s hs =>
    hs.andThen (keeps_reserved hhost (keeps_books hhost _) hreserved s (.refl s))
  cases action with
  | report report =>
    exact Keeps.bind (fun s hs => hs.trans (handles_submit hhost hroom _ report s)) fun _ => .pure _
  | _ => exact hquiet hmay

theorem keeps_invoke {call : Call} (hcall : call.concernsReport = false) :
    Keeps b.Handles ((host.engine opts).invoke call) := by
  intro s hs
  have hwritten : s.Aloof (s.write (.called call s.moment)) := .write s hcall
  show b.Handles (endState (host.invoke opts (_ + 2) call s))
  rw [Host.invoke, get_bind]
  refine Keeps.bindAt (x := record _) (hs.andThen hwritten) fun _ => ?_
  exact .script (keeps_perform hhost le_rfl)
    (fun _ _ ht => ht.andThen (.of_eq rfl rfl rfl)) (hhost.reacts _ _ _)

theorem custody (b : State σ) :
    Custody (host.engine opts) b.Handles (fun _ => True) (fun _ => True)
      fun ref => ∃ refs, (b.project ref).libraries = some refs where
  call := fun _ hcall => .of_keeps (keeps_invoke hhost hcall)
  risky := fun {call} hcall => .of_keeps <| keeps_invoke hhost <| by
    cases call with
    | listener => rfl
    | readClass => rfl
    | _ => cases hcall
  write := fun {_ s} _ hentry hs => hs.andThen (.write s hentry)
  scanned := fun {_ s} _ hs => hs.andThen (.write s rfl)
  due := fun _ => trivial
  read := fun _ document s hs => hs.andThen
    ⟨.changed s _ fun p => p.readManifest_settled document, .of_eq rfl⟩
  configuration := fun ref => .of_keeps fun s hs =>
    hs.andThen (keeps_configuration hhost (keeps_books hhost _) ref s (.refl s))
  submit := fun report => .of_keeps fun s hs =>
    hs.trans (handles_submit hhost (Nat.le_succ _) .engine report s)
  libraries := fun {ref} href s hs => by
    obtain ⟨refs, hrefs⟩ := href
    have hknown : (s.project ref).libraries = some refs := hs.libraries hrefs
    rw [Engine.libraries, bind_of_ok (x := getProject ref) rfl, hknown]
    exact .ok hs
  serials := fun _ _ hs => hs.andThen (.of_eq rfl rfl rfl)
  schedule := fun _ _ hs => hs.andThen (.of_eq rfl rfl rfl)
  memo := fun _ _ hs => hs.andThen (.of_eq rfl rfl rfl)
  reported := fun hs => hs.andThen (.of_eq rfl rfl rfl)
  narrowed := fun hs => hs.andThen (.of_eq rfl rfl rfl)
  restored := fun _ hs => hs.andThen (.of_eq rfl rfl rfl)

theorem hushed_resolve (paths : List String) (stopped : State σ → Bool) (s : State σ) :
    (endState (Discovery.resolve (host.engine opts) stopped paths s)).files.cwd = s.files.cwd ∧
    s.Hushed (endState (Discovery.resolve (host.engine opts) stopped paths s)) := by
  have hfiling : Filing (host.engine opts)
      (fun t => t.files.cwd = s.files.cwd ∧ s.Hushed t) fun _ => True := {
    call := fun hbooks hcall => .of_keeps fun t ht => by
      have haloof := keeps_books hhost Host.nestingLimit hbooks hcall t (.refl t)
      exact ⟨haloof.cwd.trans ht.1, ht.2.trans haloof.hushed⟩
    logged := fun {_ t} hentry ht => ⟨ht.1, ht.2.trans (.write t hentry)⟩
    changed := fun _ _ _ _ ht => ⟨ht.1, ht.2.trans (.of_eq rfl)⟩
    added := fun _ _ ht => ⟨ht.1, ht.2.trans (.of_eq rfl)⟩
    cached := fun _ _ ht => ⟨ht.1, ht.2.trans (.of_eq rfl)⟩
    endless := trivial }
  have hseeks : Seeks (host.engine opts) fun t => t.files.cwd = s.files.cwd ∧ s.Hushed t := {
    noted := fun {entry t} hlevel ht => by
      have hentry : entry.isComplaint = false := by rw [Log.Entry.isComplaint, hlevel]; rfl
      exact ⟨ht.1, ht.2.trans (.write t hentry)⟩
    projectAt := fun dir reference => (hfiling.projectAt dir reference).keeps
    libraries := fun ref => (hfiling.libraries ref).keeps
    pointed := fun _ _ _ _ ht => ⟨ht.1, ht.2.trans (.of_eq rfl)⟩ }
  exact hseeks.resolve stopped paths s ⟨rfl, .of_eq rfl⟩

theorem handles_analyze (hs : s.Sound) (paths : List String) (scope : Option ScopeSet)
    (elapsed : Int) :
    ∃ t : State σ, t.files.cwd = s.files.cwd ∧ s.Hushed t ∧
      t.Handles (endState ((host.engine opts).analyze paths scope elapsed s)) := by
  have hsearch := hushed_resolve hhost paths State.canceled (s.begun scope)
  cases hresolve : Discovery.resolve (host.engine opts) State.canceled paths (s.begun scope) with
  | error fault t =>
    rw [hresolve] at hsearch
    rw [analyze_of_error hresolve]
    exact ⟨t, hsearch.1, hsearch.2, .of_aloof (.refl t)⟩
  | ok roots t =>
    rw [hresolve] at hsearch
    cases hcanceled : t.canceled with
    | true =>
      rw [analyze_of_canceled hresolve hcanceled]
      exact ⟨t, hsearch.1, hsearch.2, .of_aloof (.refl t)⟩
    | false =>
      have hcustody : ∀ u : State σ, _ := custody hhost
      cases roots with
      | nil =>
        rw [analyze_of_nil hresolve hcanceled]
        refine ⟨t, hsearch.1, hsearch.2, ?_⟩
        have hmessage : Log.complains none ("No projects found for " ++
            Text.joined ", " paths) = false :=
          Log.complains_of_startsElse (Log.startsElse_append rfl _) none
        exact ((hcustody t).visiting.log hmessage none t (.of_aloof (.refl t))).endState
      | cons first rest =>
        rw [analyze_of_cons hresolve hcanceled]
        refine ⟨t.ready scope (first :: rest), hsearch.1, hsearch.2.trans (.of_eq rfl), ?_⟩
        have hknows := Discovery.resolve_knows (s := s.begun scope) { hs with } hresolve
        refine ((hcustody (t.ready scope (first :: rest))).checkAll hknows elapsed ?_).endState
        exact .of_aloof (.entered _ _)

end Handled

/-- The configuration that a project has. -/
def settled (s : State σ) (ref : ProjectRef) : Configuration :=
  (s.project ref).configuration.getD .defaults

theorem exact_of_accounts {cwd : String} {rulings : List Ruling} {entries : List Entry}
    (h : Accounts cwd rulings entries)
    (hrulings : ∀ ruling ∈ rulings, s.Configured ruling.1.context.project ruling.2) :
    (∀ report ∈ submissions entries,
      s.Configured report.context.project (settled s report.context.project)) ∧
    deliveries entries = ((submissions entries).filter fun report =>
      (settled s report.context.project).delivers cwd report) ∧
    complaints entries = ((submissions entries).filter fun report =>
      (settled s report.context.project).blames report).map Report.complaint := by
  have hsettled : ∀ ruling ∈ rulings, settled s ruling.1.context.project = ruling.2 := by
    intro ruling hruling
    rw [settled, (hrulings ruling hruling).project_eq rfl]
    rfl
  refine ⟨?_, ?_, ?_⟩
  · rw [h.submissions]
    refine List.forall_mem_map.2 fun ruling hruling => ?_
    rw [hsettled ruling hruling]
    exact hrulings ruling hruling
  · rw [h.deliveries, h.submissions, List.filter_map]
    refine congrArg _ (List.filter_congr fun ruling hruling => ?_)
    rw [Function.comp_apply, hsettled ruling hruling]
  · rw [h.complaints, h.submissions, List.filter_map, List.map_map]
    refine congrArg _ (List.filter_congr fun ruling hruling => ?_)
    rw [Function.comp_apply, hsettled ruling hruling]

def talkativeReports : Call → List Report
  | .detector _ (.beforeProject context) | .detector _ (.beforeLibrary context) =>
    [⟨context, manifestIssue, none, "shown", .null⟩,
      ⟨context, manifestIssue, none, "hidden", .null⟩,
      ⟨context, { manifestIssue with id := "J", enabled := false }, none, "off", .null⟩,
      ⟨context, { manifestIssue with id := "K", severity := .ignore }, none, "mute", .null⟩,
      ⟨context, .unparsable, none, "broken", .null⟩]
  | _ => []

def reporting (reports : List Report) : Script σ :=
  reports.foldr (fun report next => .perform (.report report) next) .done

def talkativeHost : Host Scripted.Memory :=
  { idleHost with
    react := fun call _ _ =>
      match call with
      | .getConfiguration _ => .perform (.log none "asked" none) .done
      | other => reporting (talkativeReports other)
    configuration := fun dir _ _ => some (.policy
      ⟨fun issue => issue.enabled && dir == "/w/a", fun report => report.message == "hidden",
        Issue.severity⟩, []) }

theorem within_reporting (reports : List Report) :
    (reporting reports : Script σ).Within Action.IsDecent fun _ => True := by
  induction reports with
  | nil => trivial
  | cons report rest ih => exact ⟨trivial, fun _ => ih⟩

theorem talkativeHost_reserved : talkativeHost.Reserved ⟨false⟩ where
  reacts := fun call _ _ => by
    cases call with
    | getConfiguration => exact ⟨rfl, fun _ => trivial⟩
    | _ => exact within_reporting _
  books := fun {call} _ _ hbooks => by
    cases call with
    | detector => cases hbooks
    | getConfiguration => exact ⟨rfl, fun _ => trivial⟩
    | _ => trivial
  configures := fun {depth} hroom ref s => by
    obtain ⟨room, rfl⟩ := Nat.exists_eq_add_of_le' (Nat.le_of_succ_le_succ (Nat.le_trans
      (show 3 ≤ Host.nestingLimit by decide) hroom))
    exact ⟨_, rfl⟩
  noted := fun hmade => by
    cases hmade
    exact List.forall_mem_nil _

def talkative : State Scripted.Memory :=
  fresh {} (sideBySide [("a", "android.library.reference.1=../b"), ("b", "")]) ⟨[manifestIssue]⟩

def talkativeRun : Outcome Scripted.Memory Unit :=
  (talkativeHost.engine ⟨false⟩).analyze ["a"] none 0 talkative

def told (report : Report) : String × String :=
  (report.context.project.dir, report.message)

end Deliveries
end ProjectLint
