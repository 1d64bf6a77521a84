/-
Classes that can be checked, among classes that cannot. A class whose bytes cannot be read, or that
the reader refuses, leaves one message; a class that is suppressed as a whole leaves none. Events
and calls of detectors are for the other classes only, and they are what they would be if a folder
or an archive held these alone: a class that is passed by changes nothing that the other code sees.
-/
import ProjectLint.Proofs.Isolation.Privacy
import ProjectLint.Proofs.Provisions
import ProjectLint.Proofs.Rerun.Callbacks

namespace ProjectLint

open Run Journal

variable {opts : Options} {view : σ → τ} {read : Bytes → Except Fault Bytecode.ClassFile}
  {ws ws' : Workspace} {host : Host σ} {s t : State σ}

/-! ## Code that keeps to itself -/

def Journal.Entry.isLook : Entry → Bool
  | .observed _ => true
  | _ => false

/-- What has been told on the way from one state to the other is this, apart from what code has
looked at. -/
def State.Tells (s : State σ) (entries : List Entry) (s' : State σ) : Prop :=
  ∃ new, s'.written = s.written ++ new ∧ new.filter (!·.isLook) = entries

theorem State.Tells.trans {entries more : List Entry} {u : State σ} (h : s.Tells entries t)
    (h' : t.Tells more u) : s.Tells (entries ++ more) u := by
  obtain ⟨new, hnew, rfl⟩ := h
  obtain ⟨rest, hrest, rfl⟩ := h'
  exact ⟨new ++ rest, by rw [hrest, hnew, List.append_assoc], List.filter_append ..⟩

theorem State.tells_write (s : State σ) {entry : Entry} (h : entry.isLook = false) :
    s.Tells [entry] (s.write entry) :=
  ⟨[entry], written_write s entry, by rw [List.filter_singleton, h]; rfl⟩

/-- The second state is left by code that does not more than look at things and remember what other
code does not see. -/
structure State.Bystander (view : σ → τ) (s t : State σ) : Prop where
  same : t = { s with host := t.host, journal := t.journal }
  host : view t.host = view s.host
  tells : s.Tells [] t

inductive Script.Same (view : σ → τ) : Script σ → Script σ → Prop
  | done : Same view .done .done
  | fail (fault : Fault) : Same view (.fail fault) (.fail fault)
  | update {change change' : σ → σ} {next next' : σ → Script σ} :
      (∀ m m', view m = view m' → view (change m) = view (change' m')) →
      (∀ m m', view m = view m' → Same view (next m) (next' m')) →
      Same view (.update change next) (.update change' next')
  | act {action : Action} {next next' : Reply → Script σ} : action.KeepsFiles →
      (∀ reply, Same view (next reply) (next' reply)) →
      Same view (.act action next) (.act action next')

def Call.isAside : Call → Bool
  | .log .. => true
  | call => call.isReading

/-- An embedding whose log and whose reader of classes keep to themselves: `view` is what the other
code sees of the memory, and `read` what the reader makes of bytes. Projects are configured alike in
two workspaces. -/
structure Host.Apart (host : Host σ) (opts : Options) (view : σ → τ)
    (read : Bytes → Except Fault Bytecode.ClassFile) (ws ws' : Workspace) : Prop where
  reacts : ∀ {call m m'} moment, call.isAside = false → view m = view m' →
    Script.Same view (host.react call moment m) (host.react call moment m')
  logs : ∀ depth error message context (s : State σ), ∃ t,
    host.invoke opts (depth + 1) (.log error message context) s = .ok () t ∧
      (s.write (.called (.log error message context) s.moment)).Bystander view t
  reads : ∀ bytes (s : State σ), ∃ t,
    attempt ((host.engine opts).readClass bytes) s = .ok (read bytes) t ∧
      (s.write (.called (.readClass bytes) s.moment)).Bystander view t
  appliesToFile : ∀ d c file {m m'}, view m = view m' →
    host.appliesToFile d c file m = host.appliesToFile d c file m'
  made : ∀ dir {m m'}, view m = view m' → host.made ws dir m = host.made ws' dir m'
  cwd : ws.cwd = ws'.cwd

structure Alongside (view : σ → τ) (ws ws' : Workspace) (s t : State σ) : Prop where
  left : s.files = ws
  right : t.files = ws'
  host : view s.host = view t.host
  sights : s.sights = t.sights
  registry : s.registry = t.registry
  projects : s.projects = t.projects
  cache : s.cache = t.cache
  serials : s.serials = t.serials
  listeners : s.listeners = t.listeners
  canceled : s.canceled = t.canceled
  searchCanceled : s.searchCanceled = t.searchCanceled
  scope : s.scope = t.scope
  schedule : s.schedule = t.schedule
  memo : s.memo = t.memo
  cancelReported : s.cancelReported = t.cancelReported

namespace Alongside

variable (h : Alongside view ws ws' s t)

include h

theorem moment : s.moment = t.moment := by
  rw [State.moment, State.moment, State.phase, State.phase, h.scope, h.schedule, h.canceled]

theorem project (ref : ProjectRef) : s.project ref = t.project ref := by
  rw [State.project, State.project, h.projects]

theorem write (entry : Entry) : Alongside view ws ws' (s.write entry) (t.write entry) := by
  refine { h with sights := ?_ }
  cases hentry : entry.isSight with
  | true =>
    rw [State.sights_write_of_seen s hentry, State.sights_write_of_seen t hentry, h.sights]
  | false =>
    rw [State.sights_write_of_unseen s hentry, State.sights_write_of_unseen t hentry, h.sights]

theorem unseen {entry : Entry} (hentry : entry.isSight = false) :
    Alongside view ws ws' (s.write entry) t :=
  { h with sights := (State.sights_write_of_unseen s hentry).trans h.sights }

theorem bystander {s' : State σ} (hs : s.Bystander view s') : Alongside view ws ws' s' t := by
  obtain ⟨new, hnew, hlooks⟩ := hs.tells
  have hsights : Journal.sights new = [] := by
    refine List.filter_eq_nil_iff.2 fun entry hentry => ?_
    have hlook := List.filter_eq_nil_iff.1 hlooks entry hentry
    cases entry with
    | observed => exact Bool.false_ne_true
    | _ => exact absurd rfl hlook
  rw [hs.same]
  refine { h with host := hs.host.trans h.host, sights := ?_ }
  show Journal.sights s'.written = t.sights
  rw [hnew, Journal.sights_append, hsights, List.append_nil]
  exact h.sights

theorem symm : Alongside view ws' ws t s :=
  ⟨h.right, h.left, h.host.symm, h.sights.symm, h.registry.symm, h.projects.symm, h.cache.symm,
    h.serials.symm, h.listeners.symm, h.canceled.symm, h.searchCanceled.symm, h.scope.symm,
    h.schedule.symm, h.memo.symm, h.cancelReported.symm⟩

theorem aside {entry entry' : Entry} (hentry : entry.isSight = false)
    (hentry' : entry'.isSight = false) {s' t' : State σ} (hs : (s.write entry).Bystander view s')
    (ht : (t.write entry').Bystander view t') : Alongside view ws ws' s' t' :=
  ((((h.unseen hentry).bystander hs).symm.unseen hentry').bystander ht).symm

end Alongside

def StepsAside (view : σ → τ) (ws ws' : Workspace) (x : Run σ Unit) (s : State σ)
    (entries : List Entry) : Prop :=
  ∃ s', x s = .ok () s' ∧ s.Tells entries s' ∧
    ∀ {t}, Alongside view ws ws' s t → Alongside view ws ws' s' t

/-! ## Classes that can be checked -/

/-- A class that can be read and is not suppressed. -/
def Engine.isCheckable (read : Bytes → Except Fault Bytecode.ClassFile)
    (bytes : Except Files.Failure Bytes) : Bool :=
  (bytes.toOption.bind fun bytes => (read bytes).toOption).any fun parsed =>
    !Suppression.inBytecode none parsed.annotations

/-- A class of an archive that can be read and is not suppressed. -/
def Files.ArchiveEntry.isCheckable (read : Bytes → Except Fault Bytecode.ClassFile)
    (archive : String) (entry : Files.ArchiveEntry) : Bool :=
  Text.endsWith entry.name Layout.classTail && Engine.isCheckable read (entry.bytes archive)

/-! ## The log and the reader -/

namespace Host

def logEntry (host : Host σ) (error : Option String) (message : String) (moment : Moment) : Entry :=
  if host.logsPlainly then .logged (Engine.plainEntry error message none)
  else .called (.log error message none) moment

/-- What is written for a class that is passed by. -/
def passing (host : Host σ) (read : Bytes → Except Fault Bytecode.ClassFile) (file : String)
    (moment : Moment) : Except Files.Failure Bytes → List Entry
  | .error failure => [host.logEntry none failure.message moment]
  | .ok bytes => .called (.readClass bytes) moment ::
      match read bytes with
      | .error fault =>
        [host.logEntry (some fault.message) ("Could not read class " ++ file) moment]
      | .ok _ => []

theorem logEntry_cases (host : Host σ) (error : Option String) (message : String)
    (moment : Moment) : (host.logEntry error message moment).isSight = false ∧
      (host.logEntry error message moment).isLook = false := by
  rw [logEntry]
  split <;> exact ⟨rfl, rfl⟩

namespace Apart

variable (h : host.Apart opts view read ws ws')

include h

theorem log_aside (error : Option String) (message : String) (s : State σ) : ∃ t,
    (host.engine opts).log error message none s = .ok () t ∧
      (s.write (host.logEntry error message s.moment)).Bystander view t := by
  rw [Engine.log, show (host.engine opts).host = host from rfl, logEntry]
  cases hplain : host.logsPlainly with
  | true => exact ⟨_, rfl, rfl, rfl, [], (List.append_nil _).symm, rfl⟩
  | false => exact h.logs (nestingLimit - 1) error message none s

/-! ## Other code -/

section Calls

theorem ties : Rerun.Ties (Alongside view ws ws') where
  known := fun ref _ _ hst => congrArg Project.configuration (hst.project ref)
  cwd := fun hst => by rw [hst.left, hst.right, h.cwd]
  listeners := Alongside.listeners
  logged := fun _ _ _ hst => hst.write _
  submitted := fun _ _ _ _ hst => hst.write _
  suppressed := fun _ _ _ _ hst => hst.write _
  configured := fun _ _ _ _ hst => { hst with projects := by rw [State.changed, hst.projects] }
  listening := fun _ _ _ hst => { hst with listeners := by rw [hst.listeners] }
  search := fun hst => { hst with searchCanceled := rfl }

theorem mirrors_logCall (depth : Nat) (error : Option String) (message : String)
    (context : Option Context) :
    Respects (Alongside view ws ws') (host.invoke opts depth (.log error message context)) := by
  cases depth with
  | zero => exact .throw _
  | succ depth =>
    intro s t hst
    obtain ⟨s', hrun, hs⟩ := h.logs depth error message context s
    obtain ⟨t', hrun', ht⟩ := h.logs depth error message context t
    rw [hrun, hrun']
    exact .ok rfl (hst.aside rfl rfl hs ht)

variable {e : Engine σ} (he : e.host = host) (hcall : ∀ {call}, call.isReading = false →
    Respects (Alongside view ws ws') (e.invoke call))

include he

theorem attuned : Rerun.Attuned e e (Alongside view ws ws') where
  plainly := rfl
  made := fun dir s t hst => by
    rw [hst.left, hst.right, he]
    exact h.made dir hst.host

include hcall

theorem mirrors_perform {action : Action} (haction : action.KeepsFiles) :
    Respects (Alongside view ws ws') (e.perform action) := by
  have hleads : action.Leads (Rerun.Answers e e (Alongside view ws ws')) :=
    action.leads_client.imp fun hclient => hcall hclient.2
  have hplain : action.isPlain = true → Respects (Alongside view ws ws') (e.perform action) := by
    refine fun hplain =>
      (h.ties.perform (attuned h he) hplain ?_ hleads).imp fun _ _ hreply => hreply.1
    intro change hchange s t hst
    rw [haction change hchange, haction change hchange]
    exact hst
  cases action with
  | requestRepeat detector scope =>
    refine Mirrors.andThen (h.ties.requestRepeat Alongside.schedule ?_) fun _ => .pure rfl
    exact fun _ _ _ hst => { hst.write _ with schedule := rfl }
  | cancel =>
    exact Mirrors.andThen (.modify fun hst => { hst with canceled := rfl }) fun _ => .pure rfl
  | observe context issue scope project =>
    refine Mirrors.andThen (h.ties.observe (attuned h he) hleads (fun hst => ?_) ?_) fun _ =>
      Mirrors.andThen (.modify fun hst => hst.write _) fun _ => .pure rfl
    · rw [hst.moment]
    · intro s t u v hst huv shown _ enabled
      rw [hst.moment, huv.scope, huv.project]
  | _ => exact hplain rfl

theorem mirrors_script {script script' : Script σ} (hscript : Script.Same view script script') :
    Mirrors (Alongside view ws ws') Eq (script.run e.perform) (script'.run e.perform) := by
  induction hscript with
  | done => exact .pure rfl
  | fail fault => exact .throw fault
  | update hchange _ ih =>
    refine Mirrors.andThen (.modify fun hst => { hst with host := hchange _ _ hst.host }) fun _ =>
      ?_
    exact .read fun s t hst => ih _ _ hst.host
  | act haction _ ih => exact (mirrors_perform h he hcall haction).andThen ih

end Calls

theorem mirrors_invoke (depth : Nat) : ∀ {call : Call}, call.isReading = false →
    Respects (Alongside view ws ws') (host.invoke opts depth call) := by
  induction depth with
  | zero => exact fun _ => .throw _
  | succ depth ih =>
    intro call hcall
    cases haside : call.isAside with
    | true =>
      cases call with
      | log error message context => exact h.mirrors_logCall _ error message context
      | readClass bytes => cases hcall
      | _ => cases haside
    | false =>
      intro s t hst
      have hscript := h.reacts s.moment haside hst.host
      rw [invoke, get_bind, get_bind, ← hst.moment]
      exact mirrors_script (e := ⟨host, opts, host.invoke opts depth⟩) h rfl ih hscript _ _
        (hst.write _)

/-! ## Classes -/

theorem mirrors_engineLog (error : Option String) (message : String) (context : Option Context) :
    Respects (Alongside view ws ws') ((host.engine opts).log error message context) :=
  h.ties.log (h.attuned rfl) (h.mirrors_invoke nestingLimit rfl)

theorem mirrors_ask (detector : Detector) (hook : Hook) :
    Respects (Alongside view ws ws') ((host.engine opts).ask detector hook) :=
  h.mirrors_invoke nestingLimit rfl

theorem mirrors_checkWith (context : Context) (hook : Hook) (detector : Detector) :
    Respects (Alongside view ws ws') ((host.engine opts).checkWith context hook detector) := by
  have hask := fun hook => h.mirrors_ask detector hook
  refine Mirrors.andThen (x := (host.engine opts).appliesToFile detector context) ?_
    fun applies => ?_
  · exact Mirrors.question (fun hst => h.appliesToFile _ _ _ hst.host) fun answer => hask _
  · refine .ite Iff.rfl ((hask _).andThen fun _ => ?_) (.pure rfl)
    exact (hask _).andThen fun _ => hask _

theorem mirrors_fire (event : Event) (context : Option Context) :
    Respects (Alongside view ws ws') ((host.engine opts).fire event context) :=
  h.ties.fire (fun _ => h.mirrors_invoke nestingLimit rfl) fun hst => by
    rw [hst.moment]
    exact hst.write _

theorem mirrors_checkClass (pass : Engine.Pass) (checks : List Detector)
    (origin : Engine.ClassOrigin) (file : String) (bytes : Bytes) : Respects (Alongside view ws ws')
      ((host.engine opts).checkClass pass checks origin file bytes) := by
  have hread : Respects (Alongside view ws ws')
    (attempt ((host.engine opts).readClass bytes)) := by
    intro s t hst
    obtain ⟨s', hrun, hs⟩ := h.reads bytes s
    obtain ⟨t', hrun', ht⟩ := h.reads bytes t
    rw [hrun, hrun']
    exact .ok rfl (hst.aside rfl rfl hs ht)
  refine hread.andThen fun outcome => ?_
  cases outcome with
  | error fault => exact h.mirrors_engineLog _ _ _
  | ok parsed =>
    refine .ite Iff.rfl (.pure rfl) ((h.mirrors_fire _ _).andThen fun _ => ?_)
    exact .eachUntilCanceled_same Alongside.canceled checks fun detector =>
      h.mirrors_checkWith _ _ detector

theorem mirrors_checkEntry (pass : Engine.Pass) (checks : List Detector) (archive : String)
    (entry : Files.ArchiveEntry) : Respects (Alongside view ws ws')
      ((host.engine opts).checkEntry pass checks archive entry) := by
  refine .ite Iff.rfl ?_ (.pure rfl)
  cases entry.bytes archive with
  | error failure => exact h.mirrors_engineLog _ _ _
  | ok bytes => exact h.mirrors_checkClass pass checks _ entry.name bytes

/-! ## Classes that are passed by -/

theorem log_passing (error : Option String) (message : String) (s : State σ) :
    StepsAside view ws ws' ((host.engine opts).log error message) s
      [host.logEntry error message s.moment] := by
  obtain ⟨s', hrun, hs⟩ := h.log_aside error message s
  obtain ⟨hsight, hlook⟩ := host.logEntry_cases error message s.moment
  exact ⟨s', hrun, (s.tells_write hlook).trans hs.tells, fun hst =>
    (hst.unseen hsight).bystander hs⟩

theorem checkClass_passing (pass : Engine.Pass) (checks : List Detector)
    (origin : Engine.ClassOrigin) (file : String) {bytes : Bytes}
    (hbytes : Engine.isCheckable read (.ok bytes) = false) (s : State σ) :
    StepsAside view ws ws' ((host.engine opts).checkClass pass checks origin file bytes) s
      (host.passing read file s.moment (.ok bytes)) := by
  obtain ⟨u, hrun, hu⟩ := h.reads bytes s
  have htold : s.Tells [.called (.readClass bytes) s.moment] u := (s.tells_write rfl).trans hu.tells
  have hmoment : u.moment = s.moment := by rw [hu.same]; rfl
  rw [Engine.isCheckable, Except.toOption, Option.bind_some] at hbytes
  rw [StepsAside, Engine.checkClass, bind_of_ok hrun, passing]
  cases hread : read bytes with
  | error fault =>
    obtain ⟨s', hlog, htells, hstays⟩ := h.log_passing (some fault.message)
      ("Could not read class " ++ file) u
    rw [hmoment] at htells
    exact ⟨s', hlog, htold.trans htells, fun hst => hstays ((hst.unseen rfl).bystander hu)⟩
  | ok parsed =>
    rw [hread, Except.toOption, Option.any_some, Bool.not_eq_false'] at hbytes
    exact ⟨u, congrFun (if_pos hbytes) _, htold, fun hst => (hst.unseen rfl).bystander hu⟩

theorem checkEntry_passing (pass : Engine.Pass) (checks : List Detector) (archive : String)
    {entry : Files.ArchiveEntry} (hentry : entry.isCheckable read archive = false) (s : State σ) :
    StepsAside view ws ws' ((host.engine opts).checkEntry pass checks archive entry) s
      (if Text.endsWith entry.name Layout.classTail then
        host.passing read entry.name s.moment (entry.bytes archive) else []) := by
  rw [Engine.checkEntry]
  cases hclass : Text.endsWith entry.name Layout.classTail with
  | false => exact ⟨s, rfl, ⟨[], (List.append_nil _).symm, rfl⟩, id⟩
  | true =>
    rw [Files.ArchiveEntry.isCheckable, hclass, Bool.true_and] at hentry
    rw [if_pos rfl, if_pos rfl]
    cases hbytes : entry.bytes archive with
    | error failure => exact h.log_passing none failure.message s
    | ok bytes => exact h.checkClass_passing pass checks _ entry.name (hbytes ▸ hentry) s

theorem checkFolderClass_passing (pass : Engine.Pass) (checks : List Detector) (root : String)
    {file : String} (hfile : Engine.isCheckable read (s.files.bytes file) = false) :
    StepsAside view ws ws' ((host.engine opts).checkFolderClass pass checks root file) s
      (host.passing read file s.moment (s.files.bytes file)) := by
  rw [StepsAside, Engine.checkFolderClass, get_bind]
  cases hbytes : s.files.bytes file with
  | error failure => exact h.log_passing none failure.message s
  | ok bytes => exact h.checkClass_passing pass checks _ file (hbytes ▸ hfile) s

end Apart

end Host

namespace Run

theorem mirrors_guarded_filter {ρ : State σ → State σ → Prop}
    (hcanceled : ∀ {s t}, ρ s t → s.canceled = t.canceled) {f g : α → Run σ Unit} {keep : α → Bool}
    {elements : List α} (hkept : ∀ a ∈ elements, keep a = true → Mirrors ρ Eq (f a) (g a))
    (hpassed : ∀ a ∈ elements, keep a = false → ∀ s t, ρ s t → ∃ s', f a s = .ok () s' ∧ ρ s' t) :
    Mirrors ρ Eq (unlessCanceled (eachUntilCanceled elements f))
      (unlessCanceled (eachUntilCanceled (elements.filter keep) g)) := by
  induction elements with
  | nil => exact Mirrors.unlessCanceled hcanceled (.pure rfl)
  | cons a rest ih =>
    have ih := ih (fun b hb => hkept b (.tail _ hb)) fun b hb => hpassed b (.tail _ hb)
    cases hkeep : keep a with
    | true =>
      rw [List.filter_cons_of_pos hkeep, eachUntilCanceled, eachUntilCanceled]
      exact Mirrors.unlessCanceled hcanceled ((hkept a (.head _) hkeep).andThen fun _ => ih)
    | false =>
      intro s t hst
      rw [List.filter_cons_of_neg (by rw [hkeep]; exact Bool.false_ne_true)]
      cases hs : s.canceled with
      | true =>
        rw [unlessCanceled_of_canceled hs, unlessCanceled_of_canceled
          ((hcanceled hst).symm.trans hs)]
        exact .ok rfl hst
      | false =>
        obtain ⟨s', hrun, hst'⟩ := hpassed a (.head _) hkeep s t hst
        rw [unlessCanceled_of_not_canceled hs, eachUntilCanceled, bind_of_ok hrun]
        exact ih s' t hst'

end Run

namespace Engine

open Host

/-- Runs that end alike, with the same sights and the same view of the memory. -/
def SameSights (view : σ → τ) (r r' : Outcome σ Unit) : Prop :=
  Alike (fun s t => s.sights = t.sights ∧ view s.host = view t.host) r r'

def readMarked : Bytes → Except Fault Bytecode.ClassFile
  | 0 :: _ => .error (.failure "broken")
  | 1 :: _ =>
    .ok ⟨"Quiet", [⟨"Landroid/annotation/SuppressLint;", [("value", .text "all")]⟩], [], []⟩
  | _ => .ok ⟨"Plain", [], [], []⟩

def sortingHost : Host Scripted.Memory :=
  { idleHost with
    react := fun call _ _ =>
      match call with
      | .log .. => .update (fun memory => { memory with observers := [] }) fun _ =>
          .perform (.observe none none none false) .done
      | .detector _ (.classFile ..) =>
        .update (fun memory => { memory with issues := .unparsable :: memory.issues })
          fun _ => .done
      | _ => .done
    appliesToFile := fun _ _ _ memory => memory.issues.length < 2
    readClass := fun bytes _ => readMarked bytes
    configuration := fun _ _ _ => some (.defaults, []) }

theorem sortingHost_apart (opts : Options) (hcwd : ws.cwd = ws'.cwd) :
    sortingHost.Apart opts Scripted.Memory.issues readMarked ws ws' where
  reacts := by
    intro call m m' moment hcall hview
    cases call with
    | log => cases hcall
    | detector _ hook =>
      cases hook with
      | classFile =>
        exact .update (fun _ _ h => congrArg (Issue.unparsable :: ·) h) fun _ _ _ => .done
      | _ => exact .done
    | _ => exact .done
  logs := fun _ _ _ _ s => ⟨_, rfl, rfl, rfl, [_], State.written_write _ _, rfl⟩
  reads := fun bytes s => by
    have hcall : (sortingHost.engine opts).invoke (.readClass bytes) s =
        .ok () (s.write (.called (.readClass bytes) s.moment)) := rfl
    refine ⟨_, ?_, rfl, rfl, [], (List.append_nil _).symm, rfl⟩
    rw [attempt, Engine.readClass, consult, bind_of_ok hcall, get_bind,
      show (sortingHost.engine opts).host.readClass bytes _ = readMarked bytes from rfl]
    cases readMarked bytes <;> rfl
  appliesToFile := fun _ _ _ _ _ hview =>
    congrArg (fun issues : List Issue => decide (issues.length < 2)) hview
  made := fun _ _ _ _ => rfl
  cwd := hcwd

def withClasses (entries : List (String × UInt8 × Option Files.ArchiveFault)) : Workspace :=
  ⟨.folder "" true [.folder "w" true [
    .file "a.jar" (.archive ⟨(entries ++ [("B.class", 3, none)]).map fun (name, mark, damage) =>
      ⟨name, [mark], damage⟩, none⟩),
    .folder "out" true (entries.map fun (name, mark, damage) =>
      .file name (if damage.isSome then .unreadable else .bytes [mark]))]], "/w"⟩

def mixedClasses : Workspace :=
  withClasses [("B.class", 2, none), ("A.class", 0, none), ("C.class", 2, some .badChecksum),
    ("n.txt", 2, none), ("D.class", 1, none), ("E.class", 2, none)]

def siftedClasses : Workspace :=
  withClasses [("B.class", 2, none), ("E.class", 2, none)]

end Engine
end ProjectLint
