/-
The stages of a pass over a whole project, scan by scan. While the answers of an embedding are plain
functions and nobody touches the files, the state in which a pass begins settles all of its scans:
the manifest, the resources of each type that some detector wants, all source code, all classes that
can be read and are not suppressed, and the rules of the shrinker. A stage that returns and is not
canceled has scanned just its part of these.
-/
import ProjectLint.Proofs.Grounds
import ProjectLint.Proofs.Resilience
import ProjectLint.Proofs.ResourceScans

namespace ProjectLint

variable {x : Run σ Unit}

namespace Run

variable {A B C : State σ → Prop}

/-! ## Operations that lead somewhere -/

def Brings (A : State σ → Prop) (B : α → State σ → Prop) (x : Run σ α) : Prop :=
  ∀ s a t, A s → x s = .ok a t → B a t

def Live (A : State σ → Prop) (s : State σ) : Prop :=
  s.canceled = false → A s

namespace Brings

theorem of_keeps {x : Run σ α} (h : Keeps A x) : Brings A (fun _ => A) x :=
  fun _ _ _ hs hrun => h.ok hs hrun

theorem of_gives {E : Fault → Prop} {x : Run σ α} {Q : α → Prop} (h : Gives A E x Q) :
    Brings A (fun a s => A s ∧ Q a) x :=
  fun s a t hs hrun => ⟨h.upholds.keeps.ok hs hrun, (h s hs).2 a t hrun⟩

theorem bind {x : Run σ α} {f : α → Run σ β} {P : α → State σ → Prop} {Q : β → State σ → Prop}
    (hx : Brings A P x) (hf : ∀ a, Brings (P a) Q (f a)) : Brings A Q (x >>= f) := by
  intro s b u hs hrun
  obtain ⟨a, t, hfirst, hrest⟩ := bind_eq_ok hrun
  exact hf a t b u (hx s a t hs hfirst) hrest

theorem inspect {k : State σ → Run σ α} {Q : α → State σ → Prop}
    (h : ∀ s, A s → Brings A Q (k s)) : Brings A Q (get >>= k) :=
  fun s a t hs hrun => h s hs s a t hs hrun

theorem given {x : Run σ α} {P : Prop} {Q : α → State σ → Prop} (h : P → Brings A Q x) :
    Brings (fun s => A s ∧ P) Q x :=
  fun s a t hs hrun => h hs.2 s a t hs.1 hrun

theorem live (h : Brings A (fun _ => B) x) : Brings A (fun _ => Live B) x :=
  fun s a t hs hrun _ => h s a t hs hrun

theorem now {y : Run σ Unit} (hx : Brings A (fun _ => Live B) x) (hy : Keeps B y) :
    Brings A (fun _ => Live B) (x >>= fun _ => unlessCanceled y) := by
  refine hx.bind fun _ s _ t hs hrun => ?_
  cases hcanceled : s.canceled with
  | true =>
    rw [unlessCanceled_of_canceled hcanceled] at hrun
    cases hrun
    exact hs
  | false =>
    rw [unlessCanceled_of_not_canceled hcanceled] at hrun
    exact fun _ => hy.ok (hs hcanceled) hrun

theorem later {y : Run σ Unit} (hx : Keeps A x) (hy : Brings A (fun _ => Live B) y) :
    Brings A (fun _ => Live B) (x >>= fun _ => unlessCanceled y) := by
  refine (of_keeps hx).bind fun _ s a t hs hrun ht => ?_
  obtain ⟨-, hrun⟩ := unlessCanceled_eq_ok hrun ht
  exact hy s a t hs hrun ht

end Brings
end Run

open Run Engine Journal

/-- What an embedding answers, as functions of what it is asked: whether it supplies a parser or
reader, the document that a file of markup is parsed to, the class that bytes are read as, and
whether a detector applies to a type of folder. -/
structure Answers where
  supplies : Scanner → Bool
  parses : Context → Workspace → Option Markup.Document
  reads : Bytes → Option Bytecode.ClassFile
  applies : Detector → FolderType → Bool

/-- An embedding that leaves the files alone and answers in this way, whatever it remembers. Parsing
may also fail, which ends the run. -/
structure Host.Answering (host : Host σ) (opts : Options) (answers : Answers) : Prop where
  keepsFiles : ∀ call moment memory,
    (host.react call moment memory).Within Action.KeepsFiles fun _ => True
  supplies : ∀ scanner memory, host.supplies scanner memory = answers.supplies scanner
  parses : ∀ {context ws memory document},
    host.parseMarkup context ws memory = .ok document → document = answers.parses context ws
  reads : ∀ bytes s, result? ((host.engine opts).readClass bytes s) = answers.reads bytes
  applies : ∀ detector folder memory,
    host.appliesToFolder detector folder memory = answers.applies detector folder

/-! ## What a pass has to scan -/

namespace Sweeps

section Specification

variable (e : Engine σ) (answers : Answers) (pass : Pass) (t : State σ)

def staged (categories : List Scope) (checks : List Detector) (scanner : Scanner)
    (files : List Context) : List Context :=
  if categories.any t.scope.contains && !checks.isEmpty && answers.supplies scanner then files
  else []

def manifest : List Context :=
  match (t.project pass.project).manifest with
  | none => []
  | some file =>
    let context := pass.context file (.markup none)
    if (t.project pass.project).isLibrary || (answers.parses context t.files).isNone then []
    else staged answers t [.manifest] (e.scanners (t.selection.bucket .manifest) .markup) .markup
      [context]

def typeFolder (checks : List Detector) (dir : String) : List Context :=
  match FolderType.ofFolder? (Path.baseName dir) with
  | none => []
  | some folder =>
    if t.files.isFolder dir && checks.any (answers.applies · folder) then
      (t.files.markupFiles dir).map fun file => pass.context file (.markup (some folder))
    else []

def resources : List Context :=
  let checks := e.scanners (t.selection.merged .resourceFile .allResourceFiles) .markup
  staged answers t [.resourceFile, .allResourceFiles] checks .markup <|
    (t.project pass.project).resources.flatMap fun folder =>
      (t.files.list folder).flatMap (typeFolder answers pass t checks)

def sources : List Context :=
  staged answers t [.javaFile, .allJavaFiles]
    (e.scanners (t.selection.merged .javaFile .allJavaFiles) .source) .source <|
    ((t.project pass.project).sources.flatMap fun folder =>
      t.files.gather folder Layout.sourceTail).map fun file => pass.context file .source

def classContext? : ClassItem → Option Context
  | .lost _ => none
  | .found origin file bytes =>
    match answers.reads bytes with
    | none => none
    | some parsed =>
      if Suppression.inBytecode none parsed.annotations then none
      else some (pass.context file (.bytecode origin.archive origin.root bytes parsed))

def classes : List Context :=
  staged answers t [.classFile] (e.scanners (t.selection.bucket .classFile) .bytecode) .bytecode <|
    (t.project pass.project).classes.flatMap fun path =>
      (ClassItem.ofPath t.files path).filterMap (classContext? answers pass)

def rules : List Context :=
  let file := Path.join pass.project.dir Layout.shrinkerRules
  if pass.project = pass.main ∧ t.scope.contains .proguardFile ∧ t.files.isFile file ∧
      t.selection.bucket .proguardFile ≠ [] then [pass.context file]
  else []

/-- All the files that a pass comes to, in order. -/
def files : List Context :=
  manifest e answers pass t ++ (resources e answers pass t ++ (sources e answers pass t ++
    (classes e answers pass t ++ rules pass t)))

end Specification

/-! ## Operations that scan so much -/

variable {host : Host σ} {opts : Options} {answers : Answers} {pass : Pass} {t : State σ}
  {M : Option VisitorMemo → Prop} {contexts more : List Context}

def Swept (t : State σ) (M : Option VisitorMemo → Prop) (done : List Context)
    (s : State σ) : Prop :=
  (∃ new, s.written = t.written ++ new ∧ scans new = done) ∧ M s.memo

theorem unmoved_swept (t : State σ) (M : Option VisitorMemo → Prop) (done : List Context) :
    Unmoved (Swept t M done) := by
  rintro s u more hwritten hmore hmemo ⟨⟨new, hnew, hdone⟩, hM⟩
  refine ⟨⟨new ++ more, by rw [hwritten, hnew, List.append_assoc], ?_⟩, hmemo ▸ hM⟩
  have hnone : scans more = [] := List.filterMap_eq_nil_iff.2 fun entry hentry =>
    Entry.scan?_of_aside entry (by rw [hmore entry hentry, Bool.true_or])
  rw [scans, List.filterMap_append]
  exact (congrArg₂ _ hdone hnone).trans (List.append_nil _)

abbrev Done (t : State σ) (M : Option VisitorMemo → Prop) (done : List Context) : State σ → Prop :=
  Course t (Swept t M done)

def Scans (t : State σ) (M : Option VisitorMemo → Prop) (x : Run σ Unit) (contexts : List Context) :
    Prop :=
  ∀ done, Brings (Done t M done) (fun _ => Live (Done t M (done ++ contexts))) x

namespace Scans

variable {f : α → Run σ Unit}

theorem of_keeps (h : ∀ done, Keeps (Done t M done) x) : Scans t M x [] := by
  intro done
  rw [List.append_nil]
  exact .live (.of_keeps (h done))

theorem nothing : Scans t M (pure ()) [] :=
  .of_keeps fun _ => .pure ()

theorem inspect {k : State σ → Run σ Unit}
    (h : ∀ {s done}, Done t M done s → Scans t M (k s) contexts) : Scans t M (get >>= k) contexts :=
  fun done => .inspect fun _ hs => h hs done

theorem after {x : Run σ α} {Q : α → Prop} (hx : ∀ done, Gives (Done t M done) (fun _ => True) x Q)
    (hf : ∀ a, Q a → Scans t M (f a) contexts) : Scans t M (x >>= f) contexts :=
  fun done => (Brings.of_gives (hx done)).bind fun a => .given fun ha => hf a ha done

theorem free {x : Run σ α} (hx : ∀ done, Keeps (Done t M done) x)
    (hf : ∀ a, Scans t M (f a) contexts) : Scans t M (x >>= f) contexts :=
  fun done => (Brings.of_keeps (hx done)).bind fun a => hf a done

theorem next {y : Run σ Unit} (hx : Scans t M x contexts) (hy : Scans t M y more) :
    Scans t M (x >>= fun _ => unlessCanceled y) (contexts ++ more) := by
  intro done
  refine (hx done).bind fun _ s a u hs hrun hu => ?_
  obtain ⟨hcanceled, hrun⟩ := unlessCanceled_eq_ok hrun hu
  rw [← List.append_assoc]
  exact hy _ s a u (hs hcanceled) hrun hu

theorem eachUntilCanceled {costs : α → List Context} (elements : List α)
    (h : ∀ a ∈ elements, Scans t M (f a) (costs a)) :
    Scans t M (eachUntilCanceled elements f) (elements.flatMap costs) := by
  induction elements with
  | nil => exact nothing
  | cons first rest ih =>
    obtain ⟨hfirst, hrest⟩ := List.forall_mem_cons.1 h
    exact hfirst.next (ih hrest)

end Scans

/-! ## Stages -/

theorem Swept.scanned {done : List Context} {s : State σ} (h : Swept t M done s)
    (context : Context) :
    Swept t M (done ++ [context]) (s.write (.fired .scanningFile (some context) s.moment)) := by
  obtain ⟨⟨new, hnew, rfl⟩, hM⟩ := h
  refine ⟨⟨new ++ [.fired .scanningFile (some context) s.moment], ?_, ?_⟩, hM⟩
  · rw [State.written_write, hnew, List.append_assoc]
  · rw [scans, List.filterMap_append]
    rfl

section Stages

variable (hhost : host.Answering opts answers)

include hhost

theorem staging (t : State σ) (M : Option VisitorMemo → Prop) (done : List Context) :
    Staging (host.engine opts) (Done t M done) (fun _ => True) fun _ _ => True :=
  (Course.works hhost.keepsFiles (unmoved_swept t M done) fun _ => trivial).staging opts

theorem scans_log (error : Option String) (message : String) :
    Scans t M ((host.engine opts).log error message none) [] :=
  .of_keeps fun done =>
    Course.log hhost.keepsFiles (unmoved_swept t M done) opts error message none

theorem scans_fire (context : Context) (hx : ∀ done, Keeps (Done t M done) x) :
    Scans t M ((host.engine opts).fire .scanningFile (some context) >>= fun _ => x) [context] := by
  intro done s _ u hs hrun _
  obtain ⟨_, v, hfire, hrest⟩ := bind_eq_ok hrun
  have hv := Course.fire hhost.keepsFiles (unmoved_swept t M _) opts hs (hs.wrote.scanned context)
  rw [hfire] at hv
  exact (hx _).ok hv hrest

theorem keeps_checkWith {context : Context} {hook : Hook}
    (hhook : context.kind.categories ⊆ hook.categories) (detector : Detector)
    (done : List Context) :
    Keeps (Done t M done) ((host.engine opts).checkWith context hook detector) :=
  ((staging hhost t M done).checkWith hhook
    (minds_any context.kind.categories_ne_nil detector)).keeps

theorem keeps_visitMarkup (visitor : MarkupVisitor) (context : Context)
    (parsed : Option Markup.Document) (done : List Context) :
    Keeps (Done t M done) (do
      let _ ← (host.engine opts).visitMarkup visitor context parsed
      pure ()) :=
  ((staging hhost t M done).visitMarkup (visitor.calls_any context.kind.categories_ne_nil)
    parsed).keeps.bind fun _ => .pure ()

theorem gives_parseMarkup (context : Context) (done : List Context) :
    Gives (Done t M done) (fun _ => True) ((host.engine opts).parseMarkup context)
      fun document => document = answers.parses context t.files := by
  intro s hs
  obtain ⟨hends, hshown⟩ := (staging hhost t M done).parse context s hs
  refine ⟨hends, fun document u hrun => ?_⟩
  obtain ⟨v, hv, hparse⟩ := hshown document u hrun
  rw [← hv.stands.files]
  exact hhost.parses hparse

theorem keeps_markupVisitor (detectors : List Detector) (done : List Context) :
    Keeps (Done t M done) ((host.engine opts).markupVisitor detectors) :=
  Gives.keeps (((staging hhost t M done).inquiry (fun _ => True) fun _ => True).markupVisitor
    (markup_categories_subset none) fun detector _ => minds_any (List.cons_ne_nil _ _) detector)

theorem scans_checkManifest :
    Scans t M ((host.engine opts).checkManifest pass)
      (manifest (host.engine opts) answers pass t) := by
  refine .inspect fun {s _} hs => ?_
  dsimp only
  rw [hs.stands.project Project.manifest (fun _ => rfl),
    hs.stands.project Project.isLibrary (fun _ => rfl), manifest]
  cases (t.project pass.project).manifest with
  | none => exact .nothing
  | some file =>
  dsimp only
  cases (t.project pass.project).isLibrary with
  | true => exact .nothing
  | false =>
  refine .inspect fun {u _} hu => ?_
  have hsupplies : (host.engine opts).host.supplies .markup u.host = answers.supplies .markup :=
    hhost.supplies _ _
  rw [hsupplies, Bool.false_or, staged]
  cases answers.supplies .markup with
  | false =>
    rw [if_neg Bool.false_ne_true, Bool.and_false, if_neg Bool.false_ne_true, ite_self]
    exact scans_log hhost none _
  | true =>
  refine .after (gives_parseMarkup hhost _) fun document hdocument => ?_
  rw [← hdocument]
  cases document with
  | none => exact .nothing
  | some document =>
  refine .free (fun done => .modify ((staging hhost t M done).read pass.project document))
    fun _ => .inspect fun {v _} hv => ?_
  rw [hv.scope]
  cases [Scope.manifest].any t.scope.contains with
  | false => exact .nothing
  | true =>
  refine .inspect fun {w _} hw => ?_
  rw [hw.selection]
  cases (host.engine opts).scanners (t.selection.bucket .manifest) .markup with
  | nil => exact .nothing
  | cons first rest =>
    refine .free (keeps_markupVisitor hhost _) fun visitor => ?_
    exact scans_fire hhost _ (keeps_visitMarkup hhost visitor _ (some document))

theorem scans_stage {scopes : List Scope} {choice : Selection → List Detector} {scanner : Scanner}
    {missing : String} {check : List Detector → Run σ Unit} (listed : List Detector → List Context)
    (hcheck : ∀ checks, Scans t M (check checks) (listed checks)) :
    Scans t M ((host.engine opts).stage scopes choice scanner missing check)
      (staged answers t scopes ((host.engine opts).scanners (choice t.selection) scanner) scanner
        (listed ((host.engine opts).scanners (choice t.selection) scanner))) := by
  refine .inspect fun {s _} hs => ?_
  rw [hs.scope, staged]
  cases scopes.any t.scope.contains with
  | false => exact .nothing
  | true =>
  refine .inspect fun {u _} hu => ?_
  rw [hu.selection]
  generalize (host.engine opts).scanners (choice t.selection) scanner = checks
  cases checks with
  | nil => exact .nothing
  | cons first rest =>
  refine .inspect fun {v _} hv => ?_
  have hsupplies : (host.engine opts).host.supplies scanner v.host = answers.supplies scanner :=
    hhost.supplies _ _
  rw [hsupplies]
  cases answers.supplies scanner with
  | false => exact scans_log hhost none _
  | true => exact hcheck (first :: rest)

theorem scans_checkSources :
    Scans t M ((host.engine opts).checkSources pass)
      (sources (host.engine opts) answers pass t) := by
  refine scans_stage hhost (fun _ => _) fun checks => .inspect fun {w _} hw => ?_
  dsimp only
  rw [hw.stands.project Project.sources (fun _ => rfl), hw.stands.files]
  generalize ((t.project pass.project).sources.flatMap fun folder =>
    t.files.gather folder Layout.sourceTail) = files
  cases files with
  | nil => exact .nothing
  | cons file files =>
    have hvisitor : ∀ done, Keeps (Done t M done)
        ((host.engine opts).sourceVisitor checks) := fun done =>
      Gives.keeps (((staging hhost t M done).inquiry (fun _ => True) fun _ => True).sourceVisitor
        fun detector _ => minds_any (List.cons_ne_nil _ _) detector)
    refine .free hvisitor fun visitor => ?_
    have hvisit : ∀ context done, Keeps (Done t M done) (do
        let _ ← (host.engine opts).visitSource visitor context
        pure ()) := fun context done =>
      ((staging hhost t M done).visitSource
        (visitor.calls_any context.kind.categories_ne_nil)).keeps.bind fun _ => .pure ()
    have hloop := Scans.eachUntilCanceled (file :: files) fun file _ =>
      scans_fire hhost (pass.context file .source) (hvisit (pass.context file .source))
    rwa [← List.map_eq_flatMap] at hloop

theorem scans_checkShrinkerRules :
    Scans t M ((host.engine opts).checkShrinkerRules pass) (rules pass t) := by
  rw [checkShrinkerRules, rules]
  by_cases hown : pass.project = pass.main
  · rw [if_pos hown]
    refine .inspect fun {s _} hs => ?_
    have hscope : [Scope.proguardFile].any s.scope.contains = t.scope.contains .proguardFile := by
      rw [hs.scope, List.any_cons, List.any_nil, Bool.or_false]
    rw [hscope]
    cases t.scope.contains .proguardFile with
    | false =>
      rw [if_neg Bool.false_ne_true, if_neg fun h => Bool.false_ne_true h.2.1]
      exact .nothing
    | true =>
    refine .inspect fun {u _} hu => ?_
    dsimp only
    rw [hu.selection, hu.stands.files]
    cases hfile : t.files.isFile (Path.join pass.project.dir Layout.shrinkerRules) with
    | false =>
      rw [if_neg fun h => Bool.false_ne_true h.2.2.1]
      cases t.selection.bucket .proguardFile <;> exact .nothing
    | true =>
    cases t.selection.bucket .proguardFile with
    | nil =>
      rw [if_neg fun h => h.2.2.2 rfl]
      exact .nothing
    | cons first rest =>
      rw [if_pos ⟨hown, rfl, rfl, List.cons_ne_nil _ _⟩]
      refine scans_fire hhost _ fun done => .each _ fun detector _ => ?_
      exact keeps_checkWith hhost (List.Subset.refl _) detector done
  · rw [if_neg hown, if_neg fun h => hown h.1]
    exact .nothing

/-! ## Classes -/

theorem keeps_readClass (bytes : Bytes) (done : List Context) :
    Keeps (Done t M done) ((host.engine opts).readClass bytes) :=
  (Gives.consult ((staging hhost t M done).risky rfl) fun _ _ => trivial).keeps

theorem gives_readClass (bytes : Bytes) (done : List Context) :
    Gives (Done t M done) (fun _ => True) (attempt ((host.engine opts).readClass bytes))
      fun outcome => outcome.toOption = answers.reads bytes := by
  intro s hs
  have hread := hhost.reads bytes s
  have hkept := keeps_readClass hhost bytes done s hs
  rw [attempt]
  cases hrun : (host.engine opts).readClass bytes s with
  | ok parsed u =>
    rw [hrun] at hread hkept
    exact ⟨.ok hkept, fun _ _ heq => by cases heq; exact hread⟩
  | error fault u =>
    rw [hrun] at hread hkept
    exact ⟨.ok hkept, fun _ _ heq => by cases heq; exact hread⟩

theorem scans_checkClass (checks : List Detector) (origin : ClassOrigin) (file : String)
    (bytes : Bytes) :
    Scans t M ((host.engine opts).checkClass pass checks origin file bytes)
      (classContext? answers pass (.found origin file bytes)).toList := by
  refine .after (gives_readClass hhost bytes) fun outcome houtcome => ?_
  rw [classContext?, ← houtcome]
  cases outcome with
  | error fault => exact scans_log hhost _ _
  | ok parsed =>
    dsimp only [Except.toOption]
    by_cases hsuppressed : Suppression.inBytecode none parsed.annotations = true
    · rw [if_pos hsuppressed, if_pos hsuppressed]
      exact .nothing
    · rw [if_neg hsuppressed, if_neg hsuppressed]
      refine scans_fire hhost _ fun done => .eachUntilCanceled _ fun detector _ => ?_
      exact keeps_checkWith hhost (List.Subset.refl _) detector done

theorem scans_checkArchive (checks : List Detector) (path : String) :
    Scans t M ((host.engine opts).checkArchive pass checks path)
      ((ClassItem.ofArchive t.files path).filterMap (classContext? answers pass)) := by
  refine .inspect fun {s _} hs => ?_
  rw [hs.stands.files, ClassItem.ofArchive]
  cases t.files.archive path with
  | error failure => exact scans_log hhost none _
  | ok archive =>
    dsimp only
    cases archive.list with
    | error fault => exact .of_keeps fun _ => .throw _
    | ok entries =>
      dsimp only
      rw [List.filterMap_flatMap]
      refine .eachUntilCanceled entries fun entry _ => ?_
      rw [ClassItem.ofEntry, checkEntry]
      by_cases htail : Text.endsWith entry.name Layout.classTail = true
      · rw [if_pos htail, if_pos htail]
        cases entry.bytes path with
        | ok bytes =>
          rw [List.filterMap_eq_flatMap_toList, List.flatMap_singleton]
          exact scans_checkClass hhost checks ⟨some path, path⟩ entry.name bytes
        | error failure => exact scans_log hhost none _
      · rw [if_neg htail, if_neg htail]
        exact .nothing

theorem scans_checkClassFolder (checks : List Detector) (root : String) :
    Scans t M ((host.engine opts).checkClassFolder pass checks root)
      ((ClassItem.ofFolder t.files root).filterMap (classContext? answers pass)) := by
  refine .inspect fun {s _} hs => ?_
  dsimp only
  rw [hs.stands.files, ClassItem.ofFolder]
  cases t.files.exists? root with
  | false => exact scans_log hhost none _
  | true =>
    rw [if_pos rfl, if_pos rfl, List.filterMap_map, List.filterMap_eq_flatMap_toList]
    refine .eachUntilCanceled _ fun file _ => .inspect fun {u _} hu => ?_
    rw [hu.stands.files, Function.comp_apply, ClassItem.ofFile]
    cases t.files.bytes file with
    | ok bytes => exact scans_checkClass hhost checks ⟨none, root⟩ file bytes
    | error failure => exact scans_log hhost none _

theorem scans_checkClasses :
    Scans t M ((host.engine opts).checkClasses pass)
      (classes (host.engine opts) answers pass t) := by
  refine scans_stage hhost (fun _ => _) fun checks => .inspect fun {w _} hw => ?_
  rw [hw.stands.project Project.classes (fun _ => rfl)]
  refine .eachUntilCanceled _ fun path _ => ?_
  rw [ClassItem.ofPath]
  by_cases htail : Text.endsWith path Layout.archiveTail = true
  · rw [if_pos htail, if_pos htail]
    exact scans_checkArchive hhost checks path
  · rw [if_neg htail, if_neg htail]
    exact scans_checkClassFolder hhost checks path

end Stages

/-! ## Resources -/

/-- There is a visitor unless there are no detectors for it. -/
def Honest (memo : Option VisitorMemo) : Prop :=
  ∀ known, memo = some known → (known.visitor = none ↔ known.detectors = [])

structure Current (answers : Answers) (checks : List Detector)
    (memo : Option VisitorMemo) : Prop where
  honest : Honest memo
  applied : ∀ known folder, memo = some known → known.folder = some folder →
    known.detectors = checks.filter (answers.applies · folder)

theorem isSome_visitor (known : VisitorMemo) {checks : List Detector} {p : Detector → Bool}
    (hvisitor : known.visitor = none ↔ known.detectors = [])
    (hdetectors : known.detectors = checks.filter p) : known.visitor.isSome = checks.any p := by
  rw [hdetectors, List.filter_eq_nil_iff] at hvisitor
  rw [Bool.eq_iff_iff, Option.isSome_iff_ne_none, List.any_eq_true, Ne, hvisitor]
  push Not
  rfl

theorem Current.renewed {checks detectors : List Detector} {folder : FolderType}
    {visitor : Option MarkupVisitor} (hvisitor : visitor = none ↔ detectors = [])
    (hdetectors : detectors = checks.filter (answers.applies · folder)) :
    Current answers checks (some ⟨some folder, detectors, visitor⟩) := by
  refine ⟨fun known hknown => ?_, fun known other hknown hother => ?_⟩
  · cases hknown
    exact hvisitor
  · cases hknown
    cases hother
    exact hdetectors

theorem Honest.restarted {memo : Option VisitorMemo} (h : Honest memo) (answers : Answers)
    (checks : List Detector) :
    Current answers checks (memo.map fun known => { known with folder := none }) := by
  constructor
  · intro known hknown
    obtain ⟨memo, rfl, rfl⟩ := Option.map_eq_some_iff.1 hknown
    exact h memo rfl
  · intro known folder hknown hfolder
    obtain ⟨memo, rfl, rfl⟩ := Option.map_eq_some_iff.1 hknown
    cases hfolder

theorem Done.remembered {done : List Context} {s : State σ} {memo : Option VisitorMemo}
    {M' : Option VisitorMemo → Prop} (hs : Done t M done s) (hmemo : M' memo) :
    Done t M' done { s with memo } :=
  { hs with stands := { hs.stands with }, wrote := ⟨hs.wrote.1, hmemo⟩ }

theorem Scans.restarted (answers : Answers) (checks : List Detector)
    (hx : Scans t (Current answers checks) x contexts) :
    Scans t Honest (startPass >>= fun _ => x) contexts := by
  intro done s a u hs hrun hlive
  have hend := hx done _ a u (Done.remembered hs (hs.wrote.2.restarted answers checks)) hrun hlive
  exact { hend with wrote := ⟨hend.wrote.1, hend.wrote.2.honest⟩ }

section Resources

variable (hhost : host.Answering opts answers) {checks : List Detector}

include hhost

theorem gives_applicable (folder : FolderType) (checks : List Detector) (done : List Context) :
    Gives (Done t M done) (fun _ => True) ((host.engine opts).applicable folder checks)
      fun found => found = checks.filter (answers.applies · folder) := by
  induction checks with
  | nil => exact .pure rfl
  | cons detector rest ih =>
    have hask : Gives (Done t M done) (fun _ => True)
        ((host.engine opts).appliesToFolder detector folder)
        fun answer => answer = answers.applies detector folder := by
      refine .inspect fun s _ => ?_
      have hasked := (staging hhost t M done).ask (minds_any (List.cons_ne_nil _ _) detector)
        (List.Subset.refl (Hook.appliesToFolder folder
          (host.appliesToFolder detector folder s.host)).categories)
      exact (Gives.shown hasked).andThen fun _ _ => .pure (hhost.applies detector folder s.host)
    rw [applicable]
    refine hask.andThen fun answer hanswer => ih.andThen fun others hothers => .pure ?_
    rw [hanswer, hothers, List.filter_cons]

theorem gives_newVisitor {folder : FolderType} {detectors : List Detector}
    (hdetectors : detectors = checks.filter (answers.applies · folder)) (done : List Context) :
    Gives (Done t (Current answers checks) done) (fun _ => True)
      ((host.engine opts).newVisitor folder detectors)
      fun found => found.isSome = checks.any (answers.applies · folder) := by
  have hremember : ∀ found : Option MarkupVisitor, (found = none ↔ detectors = []) →
      Gives (Done t (Current answers checks) done) (fun _ => True) (do
        modify fun s => { s with memo := some ⟨some folder, detectors, found⟩ }
        return found : Run σ (Option MarkupVisitor))
        fun found => found.isSome = checks.any (answers.applies · folder) := by
    intro found hfound
    refine (Gives.shown (.modify fun hs => Done.remembered hs ?_)).andThen fun _ _ => .pure ?_
    · exact .renewed hfound hdetectors
    · exact isSome_visitor ⟨some folder, detectors, found⟩ hfound hdetectors
  cases detectors with
  | nil => exact hremember none ⟨fun _ => rfl, fun _ => rfl⟩
  | cons detector rest =>
    have hvisitor := keeps_markupVisitor (t := t) (M := Current answers checks) hhost
      (detector :: rest) done
    have hsome : Gives (Done t (Current answers checks) done) (fun _ => True)
        (some <$> (host.engine opts).markupVisitor (detector :: rest))
        fun found => found ≠ none :=
      (Gives.shown (Upholds.of_keeps hvisitor)).andThen fun visitor _ => .pure (by simp)
    refine hsome.andThen fun found hfound => hremember found ?_
    exact iff_of_false hfound (List.cons_ne_nil _ _)

theorem gives_folderVisitor (folder : FolderType) (done : List Context) :
    Gives (Done t (Current answers checks) done) (fun _ => True)
      ((host.engine opts).folderVisitor checks folder)
      fun found => found.isSome = checks.any (answers.applies · folder) := by
  refine .inspect fun s hs => ?_
  have hcurrent := hs.wrote.2
  cases hmemo : s.memo with
  | none =>
    exact (gives_applicable hhost folder checks done).andThen fun _ hdetectors =>
      gives_newVisitor hhost hdetectors done
  | some memo =>
    have hvisitor := hcurrent.honest memo hmemo
    refine .ite (fun hsame => .pure ?_) fun _ => ?_
    · exact isSome_visitor memo hvisitor (hcurrent.applied memo folder hmemo hsame)
    · refine (gives_applicable hhost folder checks done).andThen fun detectors hdetectors =>
        .ite (fun hsame => ?_) fun _ => gives_newVisitor hhost hdetectors done
      have hdetectors' := hsame.trans hdetectors
      refine (Gives.shown (.modify fun hs => Done.remembered hs ?_)).andThen fun _ _ => .pure ?_
      · exact .renewed hvisitor hdetectors'
      · exact isSome_visitor memo hvisitor hdetectors'

theorem scans_checkTypeFolder (dir : String) (folder : FolderType) :
    Scans t (Current answers checks) ((host.engine opts).checkTypeFolder pass
        ((host.engine opts).folderVisitor checks) dir folder)
      (if checks.any (answers.applies · folder) then
        (t.files.markupFiles dir).map fun file => pass.context file (.markup (some folder))
      else []) := by
  refine .inspect fun {s _} hs => ?_
  dsimp only
  rw [hs.stands.files, Workspace.markupFiles]
  generalize (t.files.list dir).filter _ = files
  cases files with
  | nil =>
    rw [List.map_nil, ite_self]
    exact .nothing
  | cons file files =>
    refine .after (gives_folderVisitor hhost folder) fun found hfound => ?_
    rw [← hfound]
    cases found with
    | none => exact .nothing
    | some visitor =>
      have hloop := Scans.eachUntilCanceled (file :: files) fun file _ =>
        scans_fire hhost (pass.context file (.markup (some folder)))
          (keeps_visitMarkup (t := t) (M := Current answers checks) hhost visitor
            (pass.context file (.markup (some folder))) none)
      rwa [← List.map_eq_flatMap] at hloop

theorem scans_checkResourceFolder (resources : String) :
    Scans t (Current answers checks)
      ((host.engine opts).checkResourceFolder pass ((host.engine opts).folderVisitor checks)
        resources)
      ((t.files.list resources).flatMap (typeFolder answers pass t checks)) := by
  refine .inspect fun {s _} hs => ?_
  rw [hs.stands.files]
  refine .eachUntilCanceled _ fun dir _ => .inspect fun {u _} hu => ?_
  rw [hu.stands.files, typeFolder]
  cases t.files.isFolder dir with
  | false =>
    cases FolderType.ofFolder? (Path.baseName dir) <;> exact .nothing
  | true =>
    cases FolderType.ofFolder? (Path.baseName dir) with
    | none => exact .nothing
    | some folder => exact scans_checkTypeFolder hhost dir folder

theorem scans_checkResources (listed : List Detector → List Context)
    (hwhole : (t.project pass.project).subset = none → ∀ checks, Scans t (Current answers checks)
      (eachUntilCanceled (t.project pass.project).resources
        ((host.engine opts).checkResourceFolder pass ((host.engine opts).folderVisitor checks)))
      (listed checks))
    (hgiven : ∀ files, (t.project pass.project).subset = some files → ∀ checks,
      Scans t (Current answers checks) (eachUntilCanceled files
        ((host.engine opts).checkGivenResource pass ((host.engine opts).folderVisitor checks)))
      (listed checks)) :
    Scans t Honest ((host.engine opts).checkResources pass)
      (staged answers t [.resourceFile, .allResourceFiles] ((host.engine opts).scanners
          (t.selection.merged .resourceFile .allResourceFiles) .markup) .markup
        (listed ((host.engine opts).scanners
          (t.selection.merged .resourceFile .allResourceFiles) .markup))) := by
  refine scans_stage hhost listed fun checks => .restarted answers checks
    (.inspect fun {w _} hw => ?_)
  rw [hw.stands.project Project.subset (fun _ => rfl),
    hw.stands.project Project.resources (fun _ => rfl)]
  cases hsubset : (t.project pass.project).subset with
  | none => exact hwhole hsubset checks
  | some files => exact hgiven files hsubset checks

end Resources

section Files

variable (hhost : host.Answering opts answers)

include hhost

theorem scans_checkFiles_of
    (hresources : Scans t Honest ((host.engine opts).checkResources pass) contexts) :
    Scans t Honest ((host.engine opts).checkFiles pass)
      (manifest (host.engine opts) answers pass t ++ (contexts ++
        (sources (host.engine opts) answers pass t ++
          (classes (host.engine opts) answers pass t ++ rules pass t)))) :=
  (scans_checkManifest hhost).next <| hresources.next <| (scans_checkSources hhost).next <|
    (scans_checkClasses hhost).next (scans_checkShrinkerRules hhost)

theorem scans_checkFiles (hwhole : (t.project pass.project).subset = none) :
    Scans t Honest ((host.engine opts).checkFiles pass)
      (files (host.engine opts) answers pass t) := by
  refine scans_checkFiles_of hhost (scans_checkResources hhost
    (fun checks => (t.project pass.project).resources.flatMap fun folder =>
      (t.files.list folder).flatMap (typeFolder answers pass t checks)) (fun _ checks => ?_) ?_)
  · exact .eachUntilCanceled _ fun folder _ => scans_checkResourceFolder hhost folder
  · intro files hgiven
    cases hwhole.symm.trans hgiven

end Files

end Sweeps
end ProjectLint
