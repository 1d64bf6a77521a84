/-
What is in the files does not end a run. Whatever cannot be opened, read or parsed is passed by with
a message, and the rest is still checked; the one exception is an archive that opens and cannot be
listed. So a run whose archives can be listed returns, and its stage of classes accounts for every
class and every failure in order.
-/
import ProjectLint.Proofs.Stock.Search
import ProjectLint.Proofs.Upkeep.Phases

namespace ProjectLint

/-! ## Archives that can be listed -/

namespace Files.Entry

mutual

/-- No archive fails when it is listed. -/
def archivesListable : Entry → Bool
  | .file _ (.archive archive) => archive.list.isOk
  | .folder _ _ entries => allArchivesListable entries
  | _ => true

def allArchivesListable : List Entry → Bool
  | [] => true
  | entry :: rest => entry.archivesListable && allArchivesListable rest

end

variable {entry child : Entry} {entries : List Entry}

theorem archivesListable_of_mem (h : allArchivesListable entries = true)
    (hchild : child ∈ entries) :
    child.archivesListable = true := by
  induction entries with
  | nil => cases hchild
  | cons first rest ih =>
    obtain ⟨hfirst, hrest⟩ := Bool.and_eq_true_iff.1 h
    rcases List.mem_cons.1 hchild with rfl | hmem
    · exact hfirst
    · exact ih hrest hmem

theorem archivesListable_child {name : String} (h : entry.archivesListable = true)
    (hchild : entry.child? name = some child) : child.archivesListable = true := by
  obtain ⟨own, listable, entries, rfl, hmem, -⟩ := child?_eq_some hchild
  exact archivesListable_of_mem h hmem

end Files.Entry

namespace Workspace

open Files

variable {ws : Workspace} {path : String} {archive : Archive}

theorem openArchive_eq_ok (h : ws.openArchive path = .ok archive) :
    archive.entries = [] ∧ archive.damage = none ∨
      ∃ name, ws.entry? path = some (.file name (.archive archive)) := by
  rw [openArchive] at h
  by_cases hpath : path = ""
  · rw [if_pos hpath] at h
    cases h
    exact .inl ⟨rfl, rfl⟩
  · rw [if_neg hpath] at h
    cases hentry : ws.entry? path with
    | none => simp [hentry] at h
    | some entry =>
      cases entry with
      | folder | link => simp [hentry] at h
      | file name content =>
        cases content with
        | bytes | unreadable => simp [hentry] at h
        | archive stored =>
          rw [hentry] at h
          cases h
          exact .inr ⟨name, rfl⟩

theorem list_of_archive (h : ws.root.archivesListable = true)
    (harchive : ws.archive path = .ok archive) : ∃ entries, archive.list = .ok entries := by
  have hopen : ws.openArchive path = .ok archive := by
    rw [Workspace.archive] at harchive
    cases hopen : ws.openArchive path with
    | error fault => simp [hopen] at harchive
    | ok other => simpa [hopen] using harchive
  rcases openArchive_eq_ok hopen with ⟨hentries, hdamage⟩ | ⟨name, hentry⟩
  · exact ⟨[], by simp [Archive.list, hentries, hdamage]⟩
  · obtain ⟨there, -, hdescend⟩ := Option.bind_eq_some_iff.1 hentry
    have hlistable := Entry.descend_keeps Entry.archivesListable_child h hdescend
    cases hlist : archive.list with
    | ok entries => exact ⟨entries, rfl⟩
    | error fault => simp [Entry.archivesListable, hlist, Except.isOk, Except.toBool] at hlistable

end Workspace

/-! ## What the stage of classes meets -/

/-- A class file with its bytes, or the message of what cannot be read. -/
inductive ClassItem
  | found (origin : Engine.ClassOrigin) (file : String) (bytes : Bytes)
  | lost (message : String)
  deriving DecidableEq

namespace ClassItem

def ofEntry (archive : String) (entry : Files.ArchiveEntry) : List ClassItem :=
  if Text.endsWith entry.name Layout.classTail then
    match entry.bytes archive with
    | .ok bytes => [.found ⟨some archive, archive⟩ entry.name bytes]
    | .error failure => [.lost failure.message]
  else []

def ofFile (ws : Workspace) (root file : String) : ClassItem :=
  match ws.bytes file with
  | .ok bytes => .found ⟨none, root⟩ file bytes
  | .error failure => .lost failure.message

def ofArchive (ws : Workspace) (path : String) : List ClassItem :=
  match ws.archive path with
  | .error failure => [.lost failure.message]
  | .ok archive =>
    match archive.list with
    | .error fault => [.lost ("Could not read archive " ++ path ++ ": " ++ fault.message)]
    | .ok entries => entries.flatMap (ofEntry path)

def ofFolder (ws : Workspace) (root : String) : List ClassItem :=
  if ws.exists? root then (ws.gather root Layout.classTail).map (ofFile ws root)
  else [.lost ("Class folder " ++ root ++ " does not exist")]

/-- The class files of an archive or of a folder. -/
def ofPath (ws : Workspace) (path : String) : List ClassItem :=
  if Text.endsWith path Layout.archiveTail then ofArchive ws path else ofFolder ws path

end ClassItem

namespace Run

/-- From state to state the elements are dealt with in order, up to the end or until the run is
canceled. -/
inductive Through (R : α → State σ → State σ → Prop) : List α → State σ → State σ → Prop
  | done : Through R [] s s
  | stopped : s.canceled = true → Through R elements s s
  | last : R a s t → t.canceled = true → Through R (a :: rest) s t
  | next : R a s t → t.canceled = false → Through R rest t u → Through R (a :: rest) s u

namespace Through

variable {R : α → State σ → State σ → Prop} {elements others : List α} {s t u : State σ}

theorem one {a : α} (h : R a s t) : Through R [a] s t := by
  cases hcanceled : t.canceled with
  | true => exact .last h hcanceled
  | false => exact .next h hcanceled .done

theorem append (h : Through R elements s t) (hrunning : t.canceled = false)
    (h' : Through R others t u) : Through R (elements ++ others) s u := by
  induction h with
  | done => exact h'
  | stopped hcanceled | last _ hcanceled =>
    rw [hrunning] at hcanceled
    cases hcanceled
  | next hfirst hgoing _ ih => exact .next hfirst hgoing (ih hrunning h')

theorem append_canceled (h : Through R elements s t) (hcanceled : t.canceled = true)
    (others : List α) : Through R (elements ++ others) s t := by
  induction h with
  | done | stopped => exact .stopped hcanceled
  | last hlast => exact .last hlast hcanceled
  | next hfirst hgoing _ ih => exact .next hfirst hgoing (ih hcanceled)

theorem map {f : β → α} {elements : List β} (h : Through (fun b => R (f b)) elements s t) :
    Through R (elements.map f) s t := by
  induction h with
  | done => exact .done
  | stopped hcanceled => exact .stopped hcanceled
  | last hlast hcanceled => exact .last hlast hcanceled
  | next hfirst hgoing _ ih => exact .next hfirst hgoing ih

theorem flatMap {items : β → List α} {elements : List β}
    (h : Through (fun b => Through R (items b)) elements s t) :
    Through R (elements.flatMap items) s t := by
  induction h with
  | done => exact .done
  | stopped hcanceled => exact .stopped hcanceled
  | last hlast hcanceled => exact hlast.append_canceled hcanceled _
  | next hfirst hgoing _ ih => exact hfirst.append hgoing ih

end Through

def Relates (ws : Workspace) (x : Run σ α) (R : State σ → State σ → Prop) : Prop :=
  ∀ s, s.files = ws → ∃ a t, x s = .ok a t ∧ t.files = ws ∧ R s t

namespace Relates

variable {ws : Workspace} {R : State σ → State σ → Prop}

theorem imp {x : Run σ α} {R' : State σ → State σ → Prop} (h : Relates ws x R)
    (hR : ∀ s t, R s t → R' s t) : Relates ws x R' := by
  intro s hs
  obtain ⟨a, t, hok, ht, hst⟩ := h s hs
  exact ⟨a, t, hok, ht, hR s t hst⟩

theorem eachUntilCanceled {f : α → Run σ Unit} {R : α → State σ → State σ → Prop}
    (elements : List α) (h : ∀ a ∈ elements, Relates ws (f a) (R a)) :
    Relates ws (eachUntilCanceled elements f) (Through R elements) := by
  induction elements with
  | nil => exact fun s hs => ⟨(), s, rfl, hs, .done⟩
  | cons first rest ih =>
    intro s hs
    obtain ⟨hfirst, hrest⟩ := List.forall_mem_cons.1 h
    obtain ⟨_, t, hok, ht, hR⟩ := hfirst s hs
    rw [Run.eachUntilCanceled, bind_of_ok hok]
    cases hcanceled : t.canceled with
    | true =>
      rw [unlessCanceled_of_canceled hcanceled]
      exact ⟨(), t, rfl, ht, .last hR hcanceled⟩
    | false =>
      rw [unlessCanceled_of_not_canceled hcanceled]
      obtain ⟨_, u, hok', hu, hthrough⟩ := ih hrest t ht
      exact ⟨(), u, hok', hu, .next hR hcanceled hthrough⟩

end Relates
end Run

namespace Engine

open Run Journal
open State (Untouched)

/-! ## Messages and classes in the journal -/

def WroteFirst (entry : Entry) (s t : State σ) : Prop :=
  ∃ more, t.written = s.written ++ entry :: more

namespace WroteFirst

variable {entry : Entry} {s t u : State σ}

theorem of_grown (h : (s.write entry).written <+: t.written) : WroteFirst entry s t := by
  obtain ⟨more, hmore⟩ := h
  exact ⟨more, by rw [← hmore, State.written_write, List.append_assoc, List.singleton_append]⟩

theorem grown (h : WroteFirst entry s t) : s.written <+: t.written := by
  obtain ⟨more, hmore⟩ := h
  exact ⟨_, hmore.symm⟩

theorem trans (h : WroteFirst entry s t) (hgrown : t.written <+: u.written) :
    WroteFirst entry s u := by
  obtain ⟨more, hmore⟩ := h
  obtain ⟨others, hothers⟩ := hgrown
  exact ⟨more ++ others, by rw [← hothers, hmore, List.append_assoc, List.cons_append]⟩

end WroteFirst

def classRead? : Entry → Option Bytes
  | .called (.readClass bytes) _ => some bytes
  | _ => none

def Told (e : Engine σ) (error : Option String) (message : String) (s t : State σ) : Prop :=
  WroteFirst (if e.host.logsPlainly then .logged (plainEntry error message none)
    else .called (.log error message none) s.moment) s t

def Asked (e : Engine σ) (context : Context) (detector : Detector) (s t : State σ) : Prop :=
  WroteFirst (.called (.detector detector (.appliesToFile context context.file
    (e.host.appliesToFile detector context context.file s.host))) s.moment) s t

/-- An item of the stage of classes gets its due. A failure is a message. A class is read; what
cannot be parsed is a message too, and what is not suppressed is scanned with all detectors. -/
inductive Accounted (e : Engine σ) (pass : Pass) (checks : List Detector) :
    ClassItem → State σ → State σ → Prop
  | lost : e.Told none message s t → Accounted e pass checks (.lost message) s t
  | broken : e.readClass bytes s = .error fault t →
      e.Told (some fault.message) ("Could not read class " ++ file) t u →
      Accounted e pass checks (.found origin file bytes) s u
  | suppressed : e.readClass bytes s = .ok parsed t →
      Suppression.inBytecode none parsed.annotations = true →
      Accounted e pass checks (.found origin file bytes) s t
  | scanned : e.readClass bytes s = .ok parsed t →
      Suppression.inBytecode none parsed.annotations = false →
      context = pass.context file (.bytecode origin.archive origin.root bytes parsed) →
      WroteFirst (.fired .scanningFile (some context) t.moment) t u →
      Through (e.Asked context) checks u v →
      Accounted e pass checks (.found origin file bytes) s v

variable {host : Host σ} {opts : Options} {ws : Workspace}

theorem relates_invoke (hhost : host.Steady opts ws) {call : Call} (hcall : call.isRisky = false) :
    Relates ws ((host.engine opts).invoke call)
      fun s t => WroteFirst (.called call s.moment) s t := by
  intro s hs
  obtain ⟨t, hok, huntouched⟩ := untouched_invoke hhost hs call hcall
  have hlater := invoke_later host opts call s
  rw [hok, endState_ok] at hlater
  exact ⟨(), t, hok, huntouched.files.trans hs, .of_grown hlater.grown⟩

theorem relates_log (hhost : host.Steady opts ws) (error : Option String) (message : String) :
    Relates ws ((host.engine opts).log error message none)
      ((host.engine opts).Told error message) := by
  intro s hs
  simp only [Told]
  rw [Engine.log]
  by_cases hplain : (host.engine opts).host.logsPlainly = true
  · rw [if_pos hplain, if_pos hplain]
    exact ⟨(), _, rfl, hs, .of_grown (List.prefix_refl _)⟩
  · rw [if_neg hplain, if_neg hplain]
    exact relates_invoke hhost rfl s hs

theorem relates_ask (hhost : host.Steady opts ws) (detector : Detector) (hook : Hook) :
    Relates ws ((host.engine opts).ask detector hook)
      fun s t => WroteFirst (.called (.detector detector hook) s.moment) s t :=
  relates_invoke hhost rfl

theorem relates_checkWith (hhost : host.Steady opts ws) (context : Context) (hook : Hook)
    (detector : Detector) :
    Relates ws ((host.engine opts).checkWith context hook detector)
      ((host.engine opts).Asked context detector) := by
  intro s hs
  obtain ⟨_, t, hok, ht, hasked⟩ := relates_ask hhost detector (.appliesToFile context context.file
    (host.appliesToFile detector context context.file s.host)) s hs
  have happlies : (host.engine opts).appliesToFile detector context s =
      .ok (host.appliesToFile detector context context.file s.host) t := by
    rw [appliesToFile, get_bind]
    exact bind_of_ok hok
  rw [checkWith, bind_of_ok happlies]
  by_cases hanswer : host.appliesToFile detector context context.file s.host = true
  · rw [if_pos hanswer]
    obtain ⟨_, t₁, hok₁, ht₁, hbefore⟩ := relates_ask hhost detector (.beforeFile context) t ht
    obtain ⟨_, t₂, hok₂, ht₂, hduring⟩ := relates_ask hhost detector hook t₁ ht₁
    obtain ⟨_, t₃, hok₃, ht₃, hafter⟩ := relates_ask hhost detector (.afterFile context) t₂ ht₂
    refine ⟨(), t₃, ?_, ht₃, ((hasked.trans hbefore.grown).trans hduring.grown).trans hafter.grown⟩
    rw [bind_of_ok hok₁, bind_of_ok hok₂, hok₃]
  · rw [if_neg hanswer]
    exact ⟨(), t, rfl, ht, hasked⟩

theorem relates_checkClass (hhost : host.Steady opts ws) (pass : Pass) (checks : List Detector)
    (origin : ClassOrigin) (file : String) (bytes : Bytes) :
    Relates ws ((host.engine opts).checkClass pass checks origin file bytes)
      ((host.engine opts).Accounted pass checks (.found origin file bytes)) := by
  intro s hs
  have hkept := ((hears_untouched hhost s).readClass opts bytes s (.refl s)).files.trans hs
  rw [checkClass]
  cases hread : (host.engine opts).readClass bytes s with
  | error fault t =>
    rw [hread, endState_error] at hkept
    have hattempt : attempt ((host.engine opts).readClass bytes) s = .ok (.error fault) t := by
      rw [attempt, hread]
    rw [bind_of_ok hattempt]
    obtain ⟨_, u, hok, hu, htold⟩ :=
      relates_log hhost (some fault.message) ("Could not read class " ++ file) t hkept
    exact ⟨(), u, hok, hu, .broken hread htold⟩
  | ok parsed t =>
    rw [hread, endState_ok] at hkept
    have hattempt : attempt ((host.engine opts).readClass bytes) s = .ok (.ok parsed) t := by
      rw [attempt, hread]
    rw [bind_of_ok hattempt]
    dsimp only
    cases hsuppressed : Suppression.inBytecode none parsed.annotations with
    | true =>
      rw [if_pos rfl]
      exact ⟨(), t, rfl, hkept, .suppressed hread hsuppressed⟩
    | false =>
      rw [if_neg Bool.false_ne_true]
      let context := pass.context file (.bytecode origin.archive origin.root bytes parsed)
      obtain ⟨u, hfire, hlater⟩ := fire_eq_ok host opts .scanningFile (some context) t
      have huntouched : Untouched t
          (endState ((host.engine opts).fire .scanningFile (some context) t)) :=
        (hears_untouched hhost t).fire opts { Untouched.refl t with }
      rw [hfire, endState_ok] at huntouched
      obtain ⟨_, v, hok, hv, hasked⟩ := Relates.eachUntilCanceled checks
        (fun detector _ => relates_checkWith hhost context (.classFile context parsed) detector)
        u (huntouched.files.trans hkept)
      rw [bind_of_ok hfire]
      exact ⟨(), v, hok, hv, .scanned hread hsuppressed rfl (.of_grown hlater.grown) hasked⟩

section Classes

variable (hhost : host.Steady opts ws) (pass : Pass) (checks : List Detector)

include hhost

theorem relates_checkEntry (archive : String) (entry : Files.ArchiveEntry) :
    Relates ws ((host.engine opts).checkEntry pass checks archive entry)
      (Through ((host.engine opts).Accounted pass checks) (ClassItem.ofEntry archive entry)) := by
  rw [checkEntry, ClassItem.ofEntry]
  by_cases hclass : Text.endsWith entry.name Layout.classTail = true
  · rw [if_pos hclass, if_pos hclass]
    cases entry.bytes archive with
    | ok bytes => exact (relates_checkClass hhost pass checks _ _ bytes).imp fun _ _ => .one
    | error failure => exact (relates_log hhost none _).imp fun _ _ htold => .one (.lost htold)
  · rw [if_neg hclass, if_neg hclass]
    exact fun s hs => ⟨(), s, rfl, hs, .done⟩

theorem relates_checkArchive (hlistable : ws.root.archivesListable = true) (path : String) :
    Relates ws ((host.engine opts).checkArchive pass checks path)
      (Through ((host.engine opts).Accounted pass checks) (ClassItem.ofArchive ws path)) := by
  intro s hs
  rw [checkArchive, get_bind, ClassItem.ofArchive, hs]
  cases harchive : ws.archive path with
  | error failure =>
    exact ((relates_log hhost none failure.message).imp fun _ _ htold => .one (.lost htold)) s hs
  | ok archive =>
    obtain ⟨entries, hentries⟩ := Workspace.list_of_archive hlistable harchive
    dsimp only
    rw [hentries]
    exact ((Relates.eachUntilCanceled entries fun entry _ =>
      relates_checkEntry hhost pass checks path entry).imp fun _ _ h => h.flatMap) s hs

theorem relates_checkFolderClass (root file : String) :
    Relates ws ((host.engine opts).checkFolderClass pass checks root file)
      ((host.engine opts).Accounted pass checks (ClassItem.ofFile ws root file)) := by
  intro s hs
  rw [checkFolderClass, get_bind, ClassItem.ofFile, hs]
  cases ws.bytes file with
  | ok bytes => exact relates_checkClass hhost pass checks _ _ bytes s hs
  | error failure =>
    exact ((relates_log hhost none failure.message).imp fun _ _ => .lost) s hs

theorem relates_checkClassFolder (root : String) :
    Relates ws ((host.engine opts).checkClassFolder pass checks root)
      (Through ((host.engine opts).Accounted pass checks) (ClassItem.ofFolder ws root)) := by
  intro s hs
  rw [checkClassFolder, get_bind, ClassItem.ofFolder, hs]
  by_cases hexists : ws.exists? root = true
  · rw [if_pos hexists, if_pos hexists]
    exact ((Relates.eachUntilCanceled _ fun file _ =>
      relates_checkFolderClass hhost pass checks root file).imp fun _ _ h => h.map) s hs
  · rw [if_neg hexists, if_neg hexists]
    exact ((relates_log hhost none _).imp fun _ _ htold => .one (.lost htold)) s hs

theorem relates_checkPath (hlistable : ws.root.archivesListable = true) (path : String) :
    Relates ws (if Text.endsWith path Layout.archiveTail then
        (host.engine opts).checkArchive pass checks path
      else (host.engine opts).checkClassFolder pass checks path)
      (Through ((host.engine opts).Accounted pass checks) (ClassItem.ofPath ws path)) := by
  rw [ClassItem.ofPath]
  by_cases harchive : Text.endsWith path Layout.archiveTail = true
  · rw [if_pos harchive, if_pos harchive]
    exact relates_checkArchive hhost pass checks hlistable path
  · rw [if_neg harchive, if_neg harchive]
    exact relates_checkClassFolder hhost pass checks path

theorem checkClasses_accounts (hlistable : ws.root.archivesListable = true) {s : State σ}
    (hs : s.files = ws) :
    ∃ t, (host.engine opts).checkClasses pass s = .ok () t ∧
      (s.scope.contains .classFile = true → host.supplies .bytecode s.host = true →
        ∀ checks, (host.engine opts).scanners (s.selection.bucket .classFile) .bytecode = checks →
          checks ≠ [] → Through ((host.engine opts).Accounted pass checks)
            ((s.project pass.project).classes.flatMap (ClassItem.ofPath ws)) s t) := by
  rw [checkClasses, Engine.stage, bind_of_ok (x := inScope [.classFile]) rfl]
  by_cases hscope : [Scope.classFile].any s.scope.contains = true
  · rw [if_pos hscope, get_bind]
    cases hchecks : (host.engine opts).scanners (s.selection.bucket .classFile) .bytecode with
    | nil => exact ⟨s, rfl, fun _ _ checks hnil hne => absurd hnil.symm hne⟩
    | cons detector rest =>
      dsimp only
      rw [get_bind]
      by_cases hsupplies : (host.engine opts).host.supplies .bytecode s.host = true
      · rw [if_pos hsupplies, bind_of_ok (x := getProject pass.project) rfl]
        obtain ⟨_, t, hok, -, hthrough⟩ := Relates.eachUntilCanceled
          (s.project pass.project).classes
          (fun path _ => relates_checkPath hhost pass (detector :: rest) hlistable path) s hs
        refine ⟨t, hok, fun _ _ checks heq _ => ?_⟩
        rw [← heq]
        exact hthrough.flatMap
      · rw [if_neg hsupplies]
        obtain ⟨_, t, hok, -, -⟩ := relates_log hhost none
          "No class reader provided to lint: not running class checks" s hs
        exact ⟨t, hok, fun _ hyes => absurd hyes hsupplies⟩
  · rw [if_neg hscope]
    exact ⟨s, rfl, fun hin => absurd (by simpa using hin) hscope⟩

end Classes

/-! ## A whole run -/

theorem upkeep_files (hhost : host.Steady opts ws)
    (hlistable : ws.root.archivesListable = true) (hlinks : ws.LinksEnd)
    (hassertions : opts.assertions = false) :
    Upkeep (host.engine opts) (fun s => s.files = ws ∧ s.Filed) (fun _ => False) fun _ => True where
  call := by
    intro call hcall s hs
    obtain ⟨t, hok, huntouched⟩ := untouched_invoke hhost hs.1 call hcall
    rw [hok]
    exact .ok ⟨huntouched.files.trans hs.1, huntouched.filed hs.2⟩
  risky := by
    intro call s hs
    have huntouched := untouched_endState hhost call s
    cases hresult : (host.engine opts).invoke call s with
    | ok _ t =>
      rw [hresult, endState_ok] at huntouched
      exact .ok ⟨huntouched.files.trans hs.1, huntouched.filed hs.2⟩
    | error fault t =>
      rw [hresult, endState_error] at huntouched
      exact .error trivial ⟨huntouched.files.trans hs.1, huntouched.filed hs.2⟩
  parseMarkup := by
    intro context s fault hs hfault
    obtain ⟨document, hparse⟩ := hhost.parseMarkup context s.host
    rw [hs.1] at hfault
    cases hparse.symm.trans hfault
  parseSource := by
    intro context s fault hs hfault
    obtain ⟨unit, hparse⟩ := hhost.parseSource context s.host
    rw [hs.1] at hfault
    cases hparse.symm.trans hfault
  construct := fun {name s _} _ hfault => by cases (hhost.construct name s.host).symm.trans hfault
  misplaced := fun hon _ => by cases hassertions.symm.trans hon
  listed := by
    intro path archive fault s hs harchive hlist
    rw [hs.1] at harchive
    obtain ⟨entries, hentries⟩ := Workspace.list_of_archive hlistable harchive
    cases hentries.symm.trans hlist
  libraries := by
    intro ref s hs
    obtain ⟨refs, t, hok, ht, hgrew, -⟩ :=
      (libraries_returns (Engine.caching_of_steady hhost) hs.1 hs.2 ref).returns (hs.1 ▸ hlinks)
    rw [hok]
    exact .ok ⟨hgrew.files.trans hs.1, ht⟩
  changed := fun index _ s hchange hs =>
    ⟨hs.1, (Untouched.changed s index fun p => (hchange p).2).filed hs.2⟩
  write := fun _ hs => ⟨hs.1, { hs.2 with }⟩
  scanned := fun _ hs => ⟨hs.1, { hs.2 with }⟩
  serials := fun _ _ hs => ⟨hs.1, { hs.2 with }⟩
  schedule := fun _ _ hs => ⟨hs.1, { hs.2 with }⟩
  memo := fun _ _ hs => ⟨hs.1, { hs.2 with }⟩
  reported := fun hs => ⟨hs.1, { hs.2 with }⟩
  narrowed := fun hs => ⟨hs.1, { hs.2 with }⟩
  restored := fun _ hs => ⟨hs.1, { hs.2 with }⟩
  due := fun _ => trivial

/-- Over any files whose archives can be listed, and whose links can be replaced one after the other
to an end, a run returns, and the next one can start from the state that it leaves. Whenever the
stage of classes comes up, it returns, and where it has something to do it goes through all classes
and all failures to get at one. -/
theorem analyze_survives_files {s : State σ} (hhost : host.Steady opts s.files)
    (hproper : s.files.Proper) (hlistable : s.files.root.archivesListable = true)
    (hassertions : opts.assertions = false) (hs : s.Filed) (paths : List String)
    (scope : Option ScopeSet) (elapsed : Int) :
    (s.files.LinksEnd → ∃ t, (host.engine opts).analyze paths scope elapsed s = .ok () t ∧
      t.files = s.files ∧ t.Filed) ∧
    ∀ pass (u : State σ), u.files = s.files →
      ∃ t, (host.engine opts).checkClasses pass u = .ok () t ∧
        (u.scope.contains .classFile = true → host.supplies .bytecode u.host = true →
          ∀ checks, (host.engine opts).scanners (u.selection.bucket .classFile) .bytecode = checks →
            checks ≠ [] → Through ((host.engine opts).Accounted pass checks)
              ((u.project pass.project).classes.flatMap (ClassItem.ofPath s.files)) u t) := by
  refine ⟨fun hlinks => ?_, fun pass u hu => checkClasses_accounts hhost pass hlistable hu⟩
  have hbegun : (s.begun scope).Filed := { hs with }
  have hsearch := Discovery.resolve_returns (J := fun _ => True) (Engine.caching_of_steady hhost)
    hproper
    ⟨fun _ _ => trivial, fun _ _ _ _ => trivial, fun _ _ _ => trivial, fun _ _ _ _ _ => trivial⟩
    (fun _ hu _ _ => Discovery.checkDistinct_of_off hassertions hu _)
    (show (s.begun scope).files = s.files from rfl) hbegun trivial State.canceled paths
  obtain ⟨roots, t, hresolve, ⟨hfiles, ht⟩, -⟩ := hsearch.returns_of_linksEnd hlinks
  cases hcanceled : t.canceled with
  | true => exact ⟨t, analyze_of_canceled hresolve hcanceled, hfiles, ht⟩
  | false =>
    have hupkeep := upkeep_files hhost hlistable hlinks hassertions
    cases roots with
    | nil =>
      rw [analyze_of_nil hresolve hcanceled]
      obtain ⟨_, u, hok, hu⟩ := (hupkeep.log none _ none t ⟨hfiles, ht⟩).returns
      exact ⟨u, hok, hu⟩
    | cons first rest =>
      rw [analyze_of_cons hresolve hcanceled]
      obtain ⟨_, u, hok, hu⟩ :=
        (hupkeep.checkAll first rest elapsed (s := t.ready scope (first :: rest))
          ⟨hfiles, { ht with }⟩).returns
      exact ⟨u, hok, hu⟩

def sturdyHost : Host Scripted.Memory :=
  { idleHost with scans := fun _ _ => true }.withTrees none none

theorem sturdyHost_steady (opts : Options) (ws : Workspace) : sturdyHost.Steady opts ws where
  keepsProjects := rfl
  keepsFiles := by
    intro call moment memory
    cases call with
    | parseMarkup | parseSource => exact trivial
    | _ => exact ⟨trivial, fun _ => trivial⟩
  calls := by
    intro call s hcall hs
    cases call <;> exact ⟨_, rfl⟩
  construct := fun _ _ => rfl
  parseMarkup := fun _ _ => ⟨none, rfl⟩
  parseSource := fun _ _ => ⟨none, rfl⟩

def stocked (archives : List Files.Entry) : State Scripted.Memory :=
  fresh {} ⟨.folder "" true [.folder "w" true [.folder "a" true [
    .file "AndroidManifest.xml" (.bytes []), .file "project.properties" .unreadable,
    .folder "libs" true archives, .folder "src" false []]]], "/w"⟩
    ⟨[{ manifestIssue with scope := .ofList [.classFile] }]⟩

def battered : State Scripted.Memory :=
  stocked [.file "a.jar" (.bytes [0]), .file "b.jar" .unreadable,
    .file "c.jar" (.archive ⟨[⟨"A.class", [65], some .badChecksum⟩,
      ⟨"B.class", [66], none⟩], none⟩),
    .link "d.jar" "nowhere.jar", .link "e.jar" "e.jar"]

def batteredItems : List ClassItem :=
  [.lost ("Could not read archive /w/a/libs/a.jar: " ++ Files.ArchiveFault.noArchive.message),
    .lost ("Could not read archive /w/a/libs/b.jar: " ++
      Files.ReadFault.denied.message "/w/a/libs/b.jar"),
    .lost ("Could not read A.class from /w/a/libs/c.jar: " ++
      Files.ArchiveFault.badChecksum.message),
    .found ⟨some "/w/a/libs/c.jar", "/w/a/libs/c.jar"⟩ "B.class" [66]]

def checking (s : State σ) : State σ :=
  { s with
    scope := .ofList [.classFile]
    projects := #[Project.ofFolder s.files "/w/a" "/w/a"]
    schedule := some { selection := ⟨[(⟨"D", 1⟩, .ofList [.classFile])]⟩ } }

/-- The failures leave messages, and the class that comes after them is checked. -/
theorem analyze_survives_files_battered :
    battered.files.Proper ∧ battered.files.root.archivesListable = true ∧
    battered.files.LinksEnd ∧
    (∃ t, (sturdyHost.engine ⟨false⟩).analyze ["a"] none 0 battered = .ok () t) ∧
    ∃ t, (sturdyHost.engine ⟨false⟩).checkClasses ⟨⟨0, "/w/a"⟩, ⟨0, "/w/a"⟩⟩ (checking battered) =
        .ok () t ∧
      Through ((sturdyHost.engine ⟨false⟩).Accounted ⟨⟨0, "/w/a"⟩, ⟨0, "/w/a"⟩⟩ [⟨"D", 1⟩])
        batteredItems (checking battered) t := by
  have hproper : battered.files.Proper := by decide +kernel
  have hlistable : battered.files.root.archivesListable = true := by decide +kernel
  have hlinks : battered.files.LinksEnd := Workspace.linksEnd_of_aims (by decide +kernel)
  obtain ⟨hruns, hclasses⟩ := analyze_survives_files (sturdyHost_steady ⟨false⟩ _) hproper
    hlistable rfl (State.filed_fresh _ _ _) ["a"] none 0
  obtain ⟨t, hok, -⟩ := hruns hlinks
  obtain ⟨u, hok', hthrough⟩ := hclasses ⟨⟨0, "/w/a"⟩, ⟨0, "/w/a"⟩⟩ (checking battered) rfl
  have hitems : ((checking battered).project ⟨0, "/w/a"⟩).classes.flatMap
      (ClassItem.ofPath battered.files) = batteredItems := by
    decide +kernel
  have hdetectors : (sturdyHost.engine ⟨false⟩).scanners
      ((checking battered).selection.bucket .classFile) .bytecode = [⟨"D", 1⟩] := by
    decide +kernel
  rw [hitems] at hthrough
  exact ⟨hproper, hlistable, hlinks, ⟨t, hok⟩, u, hok',
    hthrough (by decide +kernel) (by decide +kernel) _ hdetectors (List.cons_ne_nil _ _)⟩

def unlisted : State Scripted.Memory :=
  stocked [.file "x.jar" (.archive ⟨[⟨"A.class", [65], none⟩], some .badDirectory⟩),
    .file "y.jar" (.archive ⟨[⟨"B.class", [66], none⟩], none⟩)]

def unlistedRun : Outcome Scripted.Memory Unit :=
  (sturdyHost.engine ⟨false⟩).analyze ["a"] (some (.ofList [.classFile])) 0 unlisted

/-- An archive that cannot be listed ends a run, although no code fails and the files are in order;
the class in the archive that comes after it is not read. -/
theorem unlisted_archive_ends_run :
    sturdyHost.Steady ⟨false⟩ unlisted.files ∧ unlisted.files.Proper ∧ unlisted.Filed ∧
      (∀ t, unlistedRun ≠ .ok () t) ∧
      ClassItem.ofPath unlisted.files "/w/a/libs/y.jar" =
        [.found ⟨some "/w/a/libs/y.jar", "/w/a/libs/y.jar"⟩ "B.class" [66]] ∧
      (endState unlistedRun).written.filterMap classRead? = [] := by
  have hresult : result? unlistedRun = none := by decide +kernel
  refine ⟨sturdyHost_steady _ _, by decide +kernel, State.filed_fresh _ _ _, fun t hok => ?_,
    by decide +kernel, by decide +kernel⟩
  rw [hok] at hresult
  cases hresult

end Engine
end ProjectLint
