/-
Scans that a phase does not miss. A stage that is in scope and has a detector for a file comes to
it, if the grounds for the scan are given and nothing is canceled meanwhile: what happens before
leaves the stage as it is, and what happens after cannot take a scan back. Only the stage of
resources asks what the project is pointed at, so one that is pointed at a single file still comes
to all its source code and to all its classes.
-/
import ProjectLint.Proofs.Sweeps.Stages

namespace ProjectLint

open Run Engine Journal

theorem Selection.mem_merged {selection : Selection} {first second category : Scope}
    {detector : Detector} (hcategory : category ∈ [first, second])
    (hdetector : detector ∈ selection.bucket category) :
    detector ∈ selection.merged first second := by
  refine mem_distinct.2 (List.mem_append.2 ?_)
  rcases List.mem_cons.1 hcategory with rfl | hlast
  · exact .inl hdetector
  · cases List.mem_singleton.1 hlast
    exact .inr hdetector

def Host.answersAt (host : Host σ) (opts : Options) (t : State σ) : Answers where
  supplies := fun scanner => host.supplies scanner t.host
  parses := fun context ws => (host.parseMarkup context ws t.host).toOption.join
  reads := fun bytes => result? ((host.engine opts).readClass bytes t)
  applies := fun detector folder => host.appliesToFolder detector folder t.host

theorem Host.parses_at {host : Host σ} {opts : Options} {context : Context} {ws : Workspace}
    {t : State σ} {document : Option Markup.Document}
    (h : host.parseMarkup context ws t.host = .ok document) :
    (host.answersAt opts t).parses context ws = document :=
  congrArg (fun parsed : Except Fault (Option Markup.Document) => parsed.toOption.join) h

theorem Host.Stateless.reads_at {host : Host σ} {opts : Options} (h : host.Stateless opts)
    {bytes : Bytes} {parsed : Bytecode.ClassFile} {s s' : State σ}
    (hread : (host.engine opts).readClass bytes s = .ok parsed s') (t : State σ) :
    (host.answersAt opts t).reads bytes = some parsed := by
  obtain ⟨t', ht⟩ := h.reads hread t
  exact congrArg result? ht

theorem Host.Stateless.answering {host : Host σ} {opts : Options} (h : host.Stateless opts)
    (hhost : host.KeepsTo Action.KeepsFiles) (t : State σ) :
    host.Answering opts (host.answersAt opts t) where
  keepsFiles := hhost
  supplies := fun scanner memory => h.supplies scanner memory _
  parses := fun {context ws memory document} hparse =>
    (Host.parses_at ((h.parses ws t.host memory rfl rfl rfl).trans hparse)).symm
  reads := fun bytes s => by
    cases hread : (host.engine opts).readClass bytes s with
    | ok parsed u => exact (h.reads_at hread t).symm
    | error fault u =>
      cases hthere : (host.engine opts).readClass bytes t with
      | ok parsed v =>
        obtain ⟨_, hread'⟩ := h.reads hthere s
        cases hread.symm.trans hread'
      | error fault' v => exact (congrArg result? hthere).symm
  applies := fun _ folder memory => h.applies folder memory _ rfl

namespace Arrivals

open Grounds Sweeps

variable {host : Host σ} {opts : Options} {ws : Workspace} {t : State σ} {ref root : ProjectRef}
  {W : State σ → Prop} {name : DetectorClass} {file : String} {kind : Context.Kind}
  {before : List Entry} {c : Context}

/-! ## What is not taken back -/

def Recorded (before : List Entry) (c : Context) (s : State σ) : Prop :=
  ∃ new, before ++ new <+: s.written ∧ c ∈ scans new

theorem Recorded.grown {s u : State σ} (h : Recorded before c s)
    (hgrown : s.written <+: u.written) :
    Recorded before c u :=
  let ⟨new, hs, hc⟩ := h
  ⟨new, hs.trans hgrown, hc⟩

theorem unmoved_recorded (before : List Entry) (c : Context) :
    Unmoved (σ := σ) (Recorded before c) :=
  fun _ _ more hmore _ _ hs => hs.grown ⟨more, hmore.symm⟩

theorem recorded_of_done {M : Option VisitorMemo → Prop} {done : List Context} {s : State σ}
    (hs : Done t M done s) (hc : c ∈ done) : Course t (Recorded t.written c) s := by
  obtain ⟨new, hnew, rfl⟩ := hs.wrote.1
  exact { hs with wrote := ⟨new, hnew ▸ List.prefix_refl _, hc⟩ }

theorem surveys_recorded (hhost : host.KeepsTo Action.KeepsFiles) (opts : Options)
    {refs : List ProjectRef} (hrefs : (t.project root).libraries = some refs) :
    Surveys host opts (Course t (Recorded before c)) Action.KeepsFiles (fun _ => True)
      (fun _ _ => True) (fun _ => True) root := by
  have hwrite : ∀ (s : State σ) entry, Course t (Recorded before c) s →
      Course t (Recorded before c) (s.write entry) := fun s entry hs =>
    hs.announce entry (hs.wrote.grown ⟨[entry], (State.written_write s entry).symm⟩)
  exact {
    toWorks := Course.works hhost (unmoved_recorded before c) fun _ => trivial
    applies := fun _ _ _ _ => trivial
    memo := fun _ _ => VisitorMemo.fits_any _
    remembered := fun _ hs => { hs with stands := { hs.stands with }, wrote := hs.wrote }
    told := fun _ _ _ hs => hwrite _ _ hs
    scanned := fun _ _ hs => hwrite _ _ hs
    announced := fun _ _ hs => hwrite _ _ hs
    libraries := fun s hs => by rwa [hs.libraries opts hrefs] }

structure Awaits (host : Host σ) (ws : Workspace) (t : State σ) (ref : ProjectRef)
    (name : DetectorClass) (kind : Context.Kind) : Prop where
  files : t.files = ws
  shape : (t.project ref).chart = (host.shape ws ref.dir).chart
  inScope : kind.categories.any t.scope.contains = true
  served : ∃ detector category, detector.className = name ∧ category ∈ kind.categories ∧
    detector ∈ t.selection.bucket category

/-! ## Stages that come to a file -/

def givenFile (answers : Answers) (pass : Pass) (file : String) (checks : List Detector) :
    List Context :=
  match FolderType.ofFolder? (Path.baseName (Path.parent file)) with
  | none => []
  | some folder =>
    if Layout.isMarkup file && checks.any (answers.applies · folder) then
      [pass.context file (.markup (some folder))]
    else []

theorem scans_checkGivenFile {answers : Answers} (hhost : host.Answering opts answers) {pass : Pass}
    {checks : List Detector} (hfolder : t.files.isFolder file = false)
    (hfile : t.files.isFile file = true) :
    Scans t (Current answers checks) ((host.engine opts).checkGivenResource pass
        ((host.engine opts).folderVisitor checks) file)
      (givenFile answers pass file checks) := by
  refine .inspect fun {s _} hs => ?_
  dsimp only
  rw [hs.stands.files, hfolder, hfile, if_neg Bool.false_ne_true]
  delta givenFile
  cases Layout.isMarkup file with
  | false => cases FolderType.ofFolder? (Path.baseName (Path.parent file)) <;> exact .nothing
  | true =>
  cases FolderType.ofFolder? (Path.baseName (Path.parent file)) with
  | none => exact .nothing
  | some folder =>
  refine .after (gives_folderVisitor hhost folder) fun found hfound => ?_
  dsimp only
  rw [← hfound]
  cases found with
  | none => exact .nothing
  | some visitor =>
    exact scans_fire hhost _ (keeps_visitMarkup (M := Current answers checks) hhost visitor _ none)

section Stages

variable (hhost : host.KeepsTo Action.KeepsFiles) (hstateless : host.Stateless opts)

include hstateless

theorem mem_staged {detector : Detector} {checks : List Detector} {scanner : Scanner} {memory : σ}
    {files : List Context} (hscope : kind.categories.any t.scope.contains = true)
    (hdetector : detector ∈ checks) (hscans : host.scans detector.className scanner = true)
    (hsupplies : host.supplies scanner memory = true) (hc : c ∈ files) :
    c ∈ staged (host.answersAt opts t) t kind.categories
      ((host.engine opts).scanners checks scanner) scanner files := by
  have hchecks : ((host.engine opts).scanners checks scanner).isEmpty = false :=
    List.isEmpty_eq_false_iff.2 (List.ne_nil_of_mem (List.mem_filter.2 ⟨hdetector, hscans⟩))
  have hthere : (host.answersAt opts t).supplies scanner = true :=
    (hstateless.supplies _ _ _).trans hsupplies
  rw [staged, hscope, hchecks, hthere]
  exact hc

theorem mem_manifest (h : Awaits host ws t ref name (.markup none))
    (hground : Ground host opts ws ref.dir name file (.markup none)) :
    Pass.context ⟨ref, ref⟩ file (.markup none) ∈
      manifest (host.engine opts) (host.answersAt opts t) ⟨ref, ref⟩ t := by
  obtain ⟨detector, category, rfl, hcategory, hbucket⟩ := h.served
  cases List.mem_singleton.1 hcategory
  cases hground with
  | @manifest context _ other document hmanifest hlibrary hsupplies hdir hkind hparse hscans =>
  have hread : host.parseMarkup (Pass.context ⟨ref, ref⟩ context.file (.markup none)) ws t.host =
      host.parseMarkup context ws other := hstateless.parses ws _ _ hdir.symm rfl hkind.symm
  rw [manifest, Project.chart_congr Project.manifest (fun _ => rfl) h.shape, hmanifest]
  dsimp only
  rw [Project.chart_congr Project.isLibrary (fun _ => rfl) h.shape, hlibrary, h.files,
    Host.parses_at (hread.trans hparse)]
  exact mem_staged hstateless h.inScope hbucket hscans hsupplies (List.mem_singleton_self _)

theorem mem_givenFile {folder : FolderType} (h : Awaits host ws t ref name (.markup (some folder)))
    (hground : Ground host opts ws ref.dir name file (.markup (some folder))) :
    Pass.context ⟨ref, ref⟩ file (.markup (some folder)) ∈
      staged (host.answersAt opts t) t [.resourceFile, .allResourceFiles]
        ((host.engine opts).scanners
          (t.selection.merged .resourceFile .allResourceFiles) .markup) .markup
        (givenFile (host.answersAt opts t) ⟨ref, ref⟩ file ((host.engine opts).scanners
          (t.selection.merged .resourceFile .allResourceFiles) .markup)) := by
  obtain ⟨detector, category, rfl, hcategory, hbucket⟩ := h.served
  cases hground with
  | resource hmarkup hnamed hsupplies hscans hname happlies =>
  have hmerged := Selection.mem_merged hcategory hbucket
  have hany : ((host.engine opts).scanners (t.selection.merged .resourceFile .allResourceFiles)
      .markup).any ((host.answersAt opts t).applies · folder) = true :=
    List.any_eq_true.2 ⟨detector, List.mem_filter.2 ⟨hmerged, hscans⟩,
      (hstateless.applies folder t.host _ hname.symm).trans happlies⟩
  refine mem_staged hstateless h.inScope hmerged hscans hsupplies ?_
  delta givenFile
  rw [hnamed, hmarkup]
  dsimp only
  rw [hany]
  exact List.mem_singleton_self _

theorem mem_sources (h : Awaits host ws t ref name .source)
    (hground : Ground host opts ws ref.dir name file .source) :
    Pass.context ⟨ref, ref⟩ file .source ∈
      sources (host.engine opts) (host.answersAt opts t) ⟨ref, ref⟩ t := by
  obtain ⟨detector, category, rfl, hcategory, hbucket⟩ := h.served
  cases hground with
  | source hlisted hsupplies hscans =>
  refine mem_staged hstateless h.inScope (Selection.mem_merged hcategory hbucket) hscans
    hsupplies ?_
  rw [Project.chart_congr Project.sources (fun _ => rfl) h.shape, h.files]
  exact List.mem_map_of_mem hlisted

theorem mem_classes {root : String} {bytes : Bytes} {parsed : Bytecode.ClassFile}
    (h : Awaits host ws t ref name (.bytecode none root bytes parsed))
    (hground : Ground host opts ws ref.dir name file (.bytecode none root bytes parsed)) :
    Pass.context ⟨ref, ref⟩ file (.bytecode none root bytes parsed) ∈
      classes (host.engine opts) (host.answersAt opts t) ⟨ref, ref⟩ t := by
  obtain ⟨detector, category, rfl, hcategory, hbucket⟩ := h.served
  cases List.mem_singleton.1 hcategory
  cases hground with
  | folderClass hroot htail hexists hlisted hbytes hsupplies hread hsuppressed hscans =>
  refine mem_staged hstateless h.inScope hbucket hscans hsupplies ?_
  rw [Project.chart_congr Project.classes (fun _ => rfl) h.shape, h.files]
  refine List.mem_flatMap.2 ⟨root, hroot, List.mem_filterMap.2
    ⟨.found ⟨none, root⟩ file bytes, ?_, ?_⟩⟩
  · rw [ClassItem.ofPath, htail, if_neg Bool.false_ne_true, ClassItem.ofFolder, hexists, if_pos rfl]
    refine List.mem_map.2 ⟨file, hlisted, ?_⟩
    rw [ClassItem.ofFile, hbytes]
  · rw [classContext?, hstateless.reads_at hread t]
    dsimp only
    rw [hsuppressed, if_neg Bool.false_ne_true]

omit hstateless in
theorem mem_rules (h : Awaits host ws t ref name .plain)
    (hground : Ground host opts ws ref.dir name file .plain) :
    Pass.context ⟨ref, ref⟩ file .plain ∈ rules ⟨ref, ref⟩ t := by
  obtain ⟨detector, category, rfl, hcategory, hbucket⟩ := h.served
  cases List.mem_singleton.1 hcategory
  cases hground with
  | rules hthere =>
  have hscope : t.scope.contains .proguardFile = true := by
    simpa [Context.Kind.categories] using h.inScope
  rw [rules, if_pos ⟨rfl, hscope, h.files ▸ hthere, List.ne_nil_of_mem hbucket⟩]
  exact List.mem_singleton_self _

include hhost

/-! ## Passes and phases -/

theorem scans_checkFiles_file (h : Awaits host ws t ref name kind)
    (hground : Ground host opts ws ref.dir name file kind)
    (hgiven : (t.project ref).subset = some [file]) (hfile : ws.isFile file = true)
    (hfolder : ws.isFolder file = false) :
    ∃ contexts, Scans t Honest ((host.engine opts).checkFiles ⟨ref, ref⟩) contexts ∧
      Pass.context ⟨ref, ref⟩ file kind ∈ contexts := by
  have hanswering := hstateless.answering hhost t
  have hone : ∀ checks, Scans t (Current (host.answersAt opts t) checks)
      (eachUntilCanceled [file] ((host.engine opts).checkGivenResource ⟨ref, ref⟩
        ((host.engine opts).folderVisitor checks)))
      (givenFile (host.answersAt opts t) ⟨ref, ref⟩ file checks) := by
    intro checks
    rw [← List.append_nil (givenFile _ _ file checks)]
    exact (scans_checkGivenFile hanswering (h.files ▸ hfolder) (h.files ▸ hfile)).next .nothing
  have hresources : Scans t Honest ((host.engine opts).checkResources ⟨ref, ref⟩) _ :=
    scans_checkResources hanswering (givenFile (host.answersAt opts t) ⟨ref, ref⟩ file)
      (fun hwhole => by cases hwhole.symm.trans hgiven)
      fun files hfiles => by cases hgiven.symm.trans hfiles; exact hone
  refine ⟨_, scans_checkFiles_of hanswering hresources, ?_⟩
  simp only [List.mem_append]
  cases kind with
  | markup folder =>
    cases folder with
    | none => exact .inl (mem_manifest hstateless h hground)
    | some folder => exact .inr (.inl (mem_givenFile hstateless h hground))
  | source => exact .inr (.inr (.inl (mem_sources hstateless h hground)))
  | bytecode archive root bytes parsed =>
    cases archive with
    | none => exact .inr (.inr (.inr (.inl (mem_classes hstateless h hground))))
    | some archive => cases hground
  | plain => exact .inr (.inr (.inr (.inr (mem_rules h hground))))

theorem recorded_of_checkPhase (h : Awaits host ws t ref name kind)
    (hground : Ground host opts ws ref.dir name file kind)
    (hgiven : (t.project ref).subset = some [file]) (hfile : ws.isFile file = true)
    (hfolder : ws.isFolder file = false) {refs : List ProjectRef}
    (hrefs : (t.project ref).libraries = some refs) (hmemo : t.memo = none) {u : State σ}
    (hrun : (host.engine opts).checkPhase ref t = .ok () u) (hu : u.canceled = false) :
    Recorded t.written (Pass.context ⟨ref, ref⟩ file kind) u := by
  let c := Pass.context ⟨ref, ref⟩ file kind
  obtain ⟨contexts, hfiles, hc⟩ :=
    scans_checkFiles_file hhost hstateless h hground hgiven hfile hfolder
  have hswept : Unmoved (Swept t Honest []) := unmoved_swept t Honest []
  have hhonest : Honest t.memo := fun _ hknown => by cases hmemo.symm.trans hknown
  have hlibraries : Keeps (Course t (Recorded t.written c))
      ((host.engine opts).checkLibraries t.selection.detectors ref) := by
    intro s hs
    have hkept := ((surveys_recorded hhost opts hrefs).scanning.checkLibraries hs).keeps s hs
    rwa [hs.selection] at hkept
  have hunmoved : Unmoved (Recorded (σ := σ) t.written c) := unmoved_recorded t.written c
  have htell := fun hook => Course.tell (t := t) hhost hunmoved opts t.selection.detectors hook
  have hphase : Brings (Done t Honest []) (fun _ => Live (Course t (Recorded t.written c)))
      ((host.engine opts).checkAnnounced ref t.selection.detectors) := by
    refine .later (Course.tell hhost hswept opts _ _) (Brings.now ?_ ?_)
    · exact fun s a v hs hfrom hv => recorded_of_done (hfiles [] s a v hs hfrom hv) hc
    · exact hlibraries.bind fun _ => (htell _).unlessCanceled
  rw [checkPhase_eq] at hrun
  obtain ⟨_, s, hfire, hrun⟩ := bind_eq_ok hrun
  have hstart : Done t Honest [] t := .start ⟨⟨[], (List.append_nil _).symm, rfl⟩, hhonest⟩
  have hs : Done t Honest []
      (endState ((host.engine opts).fire .scanningProject (some (projectContext ref)) t)) :=
    Course.fire hhost hswept opts hstart ⟨⟨[_], State.written_write t _, rfl⟩, hhonest⟩
  rw [hfire] at hs
  exact (hphase s () u hs hrun hu).wrote

end Stages
end Arrivals
end ProjectLint
