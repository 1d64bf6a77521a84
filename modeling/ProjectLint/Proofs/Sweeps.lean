/-
The files that a pass over a whole project scans, in order. A pass that returns and is not canceled
has scanned just what the stages have to. Each scan comes from a listing or a walk, so within a
folder the scans follow the order of names and nothing is left out; and where the folders of a
project have no file in common, no stage scans a file twice.
-/
import Mathlib.Data.List.Flatten
import ProjectLint.Proofs.Listings
import ProjectLint.Proofs.Sweeps.Stages

namespace ProjectLint

open Run Engine Journal

structure Path.Scattered (cwd : String) (paths : List String) : Prop where
  nodup : paths.Nodup
  apart : ∀ path ∈ paths, ∀ dir ∈ paths, ¬ Path.Inside cwd path dir

def Workspace.archiveNames (ws : Workspace) (path : String) : List String :=
  match ws.archive path with
  | .error _ => []
  | .ok archive =>
    match archive.list with
    | .error _ => []
    | .ok entries => entries.map (·.name)

/-- A project whose folders are spelled out and have no file in common, with archives that hold no
name twice. -/
structure Project.Orderly (project : Project) (ws : Workspace) : Prop where
  spelled : ∀ path ∈ project.resources ++ project.sources ++ project.classes,
    Path.resolve ws.cwd path = path
  resources : project.resources.Nodup
  sources : Path.Scattered ws.cwd project.sources
  classes : Path.Scattered ws.cwd project.classes
  archives : ∀ path ∈ project.classes, (ws.archiveNames path).Nodup

theorem Project.Orderly.spells {project : Project} {ws : Workspace} (h : project.Orderly ws)
    {path : String} (hpath : path ∈ project.resources ++ project.sources ++ project.classes) :
    ∃ names, Path.Spells names path := by
  have hspelled := Path.Spells.resolve ws.cwd path
  rw [h.spelled path hpath] at hspelled
  exact ⟨_, hspelled⟩

namespace Sweeps

variable {host : Host σ} {opts : Options} {answers : Answers} {pass : Pass} {t : State σ}

/-! ## Files that are scanned once -/

section Distinct

variable {e : Engine σ}

/-- The file that a context is about, and what it is scanned for. -/
def target (context : Context) : List Scope × Option String × String :=
  (context.kind.categories, context.archive?, context.file)

theorem staged_sublist (answers : Answers) (t : State σ) (categories : List Scope)
    (checks : List Detector) (scanner : Scanner) (files : List Context) :
    (staged answers t categories checks scanner files).Sublist files := by
  rw [staged]
  split
  · exact List.Sublist.refl _
  · exact List.nil_sublist _

theorem nodup_targets {contexts : List Context} (h : (contexts.map Context.file).Nodup) :
    (contexts.map target).Nodup := by
  have hfiles : (contexts.map target).map (fun found => found.2.2) = contexts.map Context.file := by
    rw [List.map_map]
    rfl
  exact (hfiles ▸ h).of_map

theorem nodup_stages (stages : List (List Scope × List Context))
    (hkeys : (stages.map Prod.fst).Nodup)
    (h : ∀ stage ∈ stages, (stage.2.map target).Nodup ∧
      ∀ context ∈ stage.2, context.kind.categories = stage.1) :
    ((stages.flatMap Prod.snd).map target).Nodup := by
  rw [List.map_flatMap]
  refine List.nodup_flatMap.2 ⟨fun stage hstage => (h stage hstage).1, ?_⟩
  refine (List.pairwise_map.1 hkeys).imp_of_mem fun {a b} ha hb hne found hfirst hsecond => hne ?_
  obtain ⟨first, hmem, rfl⟩ := List.mem_map.1 hfirst
  obtain ⟨second, hmem', hsame⟩ := List.mem_map.1 hsecond
  rw [← (h a ha).2 first hmem, ← (h b hb).2 second hmem']
  exact (congrArg Prod.fst hsame).symm

variable (answers pass t)

theorem nodup_manifest : ((manifest e answers pass t).map target).Nodup ∧
    ∀ context ∈ manifest e answers pass t, context.kind.categories = [.manifest] := by
  rw [manifest]
  cases (t.project pass.project).manifest with
  | none => exact ⟨List.nodup_nil, List.forall_mem_nil _⟩
  | some file =>
    dsimp only
    split
    · exact ⟨List.nodup_nil, List.forall_mem_nil _⟩
    · have hless := staged_sublist answers t [.manifest]
        (e.scanners (t.selection.bucket .manifest) .markup) .markup
        [pass.context file (.markup none)]
      refine ⟨(hless.map target).nodup (List.nodup_singleton _), fun context hcontext => ?_⟩
      cases List.mem_singleton.1 (hless.subset hcontext)
      rfl

theorem nodup_rules : ((rules pass t).map target).Nodup ∧
    ∀ context ∈ rules pass t, context.kind.categories = [.proguardFile] := by
  rw [rules]
  split
  · exact ⟨List.nodup_singleton _, List.forall_mem_singleton.2 rfl⟩
  · exact ⟨List.nodup_nil, List.forall_mem_nil _⟩

variable {answers pass t}

theorem typeFolder_sublist (checks : List Detector) (dir : String) :
    ((typeFolder answers pass t checks dir).map Context.file).Sublist (t.files.typedFiles dir) := by
  rw [typeFolder, Workspace.typedFiles]
  cases FolderType.ofFolder? (Path.baseName dir) with
  | none => exact List.nil_sublist _
  | some folder =>
    cases t.files.isFolder dir with
    | false => exact List.nil_sublist _
    | true =>
      dsimp only
      split
      · rw [List.map_map]
        exact (List.map_id _).symm ▸ List.Sublist.refl _
      · exact List.nil_sublist _

theorem classContext?_sublist (origin : ClassOrigin) (file : String) (bytes : Bytes) :
    ((classContext? answers pass (.found origin file bytes)).toList.map target).Sublist
      [([.classFile], origin.archive, file)] := by
  rw [classContext?]
  repeat' split
  · exact List.nil_sublist _
  · exact List.nil_sublist _
  · exact List.Sublist.refl _

theorem ofArchive_sublist (answers : Answers) (pass : Pass) (ws : Workspace) (path : String) :
    (((ClassItem.ofArchive ws path).filterMap (classContext? answers pass)).map target).Sublist
      ((ws.archiveNames path).map fun name => ([.classFile], some path, name)) := by
  rw [ClassItem.ofArchive, Workspace.archiveNames]
  cases ws.archive path with
  | error failure => exact List.nil_sublist _
  | ok archive =>
    dsimp only
    cases archive.list with
    | error fault => exact List.nil_sublist _
    | ok entries =>
      dsimp only
      rw [List.filterMap_flatMap, List.map_flatMap, List.map_map, List.map_eq_flatMap]
      refine List.Sublist.flatMap_right _ fun entry _ => ?_
      rw [ClassItem.ofEntry]
      split
      · split
        · rw [List.filterMap_eq_flatMap_toList, List.flatMap_singleton]
          exact classContext?_sublist _ _ _
        · exact List.nil_sublist _
      · exact List.nil_sublist _

theorem ofFolder_sublist (answers : Answers) (pass : Pass) (ws : Workspace) (root : String) :
    (((ClassItem.ofFolder ws root).filterMap (classContext? answers pass)).map target).Sublist
      ((ws.gather root Layout.classTail).map fun file => ([.classFile], none, file)) := by
  rw [ClassItem.ofFolder]
  split
  · rw [List.filterMap_map, List.filterMap_eq_flatMap_toList, List.map_flatMap, List.map_eq_flatMap]
    refine List.Sublist.flatMap_right _ fun file _ => ?_
    rw [Function.comp_apply, ClassItem.ofFile]
    split
    · exact classContext?_sublist _ _ _
    · exact List.nil_sublist _
  · exact List.nil_sublist _

def classesAt (answers : Answers) (pass : Pass) (ws : Workspace) (path : String) :
    List (List Scope × Option String × String) :=
  ((ClassItem.ofPath ws path).filterMap (classContext? answers pass)).map target

theorem classesAt_spec (answers : Answers) (pass : Pass) {ws : Workspace} (hproper : ws.Proper)
    {path : String} {names : List String} (hnames : Path.Spells names path)
    (harchive : (ws.archiveNames path).Nodup) :
    (classesAt answers pass ws path).Nodup ∧
      ∀ found ∈ classesAt answers pass ws path, found.2.1 = some path ∨
        found.2.1 = none ∧ ∃ more, Path.Spells (names ++ more) found.2.2 := by
  rw [classesAt, ClassItem.ofPath]
  split
  · have hless := ofArchive_sublist answers pass ws path
    refine ⟨hless.nodup (harchive.map fun _ _ heq => ?_), fun found hfound => .inl ?_⟩
    · exact congrArg (fun found => found.2.2) heq
    · obtain ⟨name, -, rfl⟩ := List.mem_map.1 (hless.subset hfound)
      rfl
  · obtain ⟨hnodup, hspelled⟩ := Workspace.gather_spec hproper hnames Layout.classTail
    have hless := ofFolder_sublist answers pass ws path
    refine ⟨hless.nodup (hnodup.map fun _ _ heq => ?_), fun found hfound => .inr ?_⟩
    · exact congrArg (fun found => found.2.2) heq
    · obtain ⟨file, hfile, rfl⟩ := List.mem_map.1 (hless.subset hfound)
      exact ⟨rfl, hspelled file hfile⟩

section Orderly

variable (hproper : t.files.Proper) (horderly : (t.project pass.project).Orderly t.files)

include hproper horderly

theorem nodup_resources (hwhole : (t.project pass.project).subset = none) :
    ((resources e answers pass t).map target).Nodup ∧
      ∀ context ∈ resources e answers pass t,
        context.kind.categories = [.resourceFile, .allResourceFiles] := by
  rw [resources]
  generalize e.scanners (t.selection.merged .resourceFile .allResourceFiles) .markup = checks
  have hless := staged_sublist answers t [.resourceFile, .allResourceFiles] checks .markup
    ((t.project pass.project).resources.flatMap fun folder =>
      (t.files.list folder).flatMap (typeFolder answers pass t checks))
  refine ⟨nodup_targets ((hless.map Context.file).nodup ?_), fun context hcontext => ?_⟩
  · have hnodup := Project.nodup_resourceFiles_of_whole hproper hwhole horderly.resources
      fun folder hfolder => horderly.spells
        (List.mem_append_left _ (List.mem_append_left _ hfolder))
    rw [Project.resourceFiles, hwhole] at hnodup
    refine List.Sublist.nodup ?_ hnodup
    rw [List.map_flatMap]
    refine List.Sublist.flatMap_right _ fun folder _ => ?_
    rw [List.map_flatMap]
    exact List.Sublist.flatMap_right _ fun dir _ => typeFolder_sublist checks dir
  · obtain ⟨folder, -, hcontext⟩ := List.mem_flatMap.1 (hless.subset hcontext)
    obtain ⟨dir, -, hcontext⟩ := List.mem_flatMap.1 hcontext
    rw [typeFolder] at hcontext
    split at hcontext
    · cases hcontext
    · split at hcontext
      · obtain ⟨file, -, rfl⟩ := List.mem_map.1 hcontext
        rfl
      · cases hcontext

theorem nodup_sources :
    ((sources e answers pass t).map target).Nodup ∧
      ∀ context ∈ sources e answers pass t,
        context.kind.categories = [.javaFile, .allJavaFiles] := by
  have hless := staged_sublist answers t [.javaFile, .allJavaFiles]
    (e.scanners (t.selection.merged .javaFile .allJavaFiles) .source) .source
    (((t.project pass.project).sources.flatMap fun folder =>
      t.files.gather folder Layout.sourceTail).map fun file => pass.context file .source)
  refine ⟨nodup_targets ((hless.map Context.file).nodup ?_), fun context hcontext => ?_⟩
  · rw [List.map_map]
    refine (List.map_id _).symm ▸ Path.nodup_flatMap_of_apart horderly.sources.nodup
      (fun folder hfolder => ?_) horderly.sources.apart fun folder _ {_} hnames =>
        Workspace.gather_spec hproper hnames _
    exact horderly.spells (List.mem_append_left _ (List.mem_append_right _ hfolder))
  · obtain ⟨file, -, rfl⟩ := List.mem_map.1 (hless.subset hcontext)
    rfl

theorem nodup_classes :
    ((classes e answers pass t).map target).Nodup ∧
      ∀ context ∈ classes e answers pass t, context.kind.categories = [.classFile] := by
  have hless := staged_sublist answers t [.classFile]
    (e.scanners (t.selection.bucket .classFile) .bytecode) .bytecode
    ((t.project pass.project).classes.flatMap fun path =>
      (ClassItem.ofPath t.files path).filterMap (classContext? answers pass))
  have hspec : ∀ path ∈ (t.project pass.project).classes, ∀ {names}, Path.Spells names path →
      _ := fun path hpath _ hnames =>
        classesAt_spec answers pass hproper hnames (horderly.archives path hpath)
  refine ⟨(hless.map target).nodup ?_, fun context hcontext => ?_⟩
  · rw [List.map_flatMap]
    refine List.nodup_flatMap.2 ⟨fun path hpath => ?_, ?_⟩
    · obtain ⟨names, hnames⟩ := horderly.spells (List.mem_append_right _ hpath)
      exact (hspec path hpath hnames).1
    · refine horderly.classes.nodup.imp_of_mem fun {a b} ha hb hne found hfirst hsecond => ?_
      obtain ⟨first, hspells⟩ := horderly.spells (List.mem_append_right _ ha)
      obtain ⟨second, hspells'⟩ := horderly.spells (List.mem_append_right _ hb)
      have hfirst' := (hspec a ha hspells).2 found hfirst
      have hsecond' := (hspec b hb hspells').2 found hsecond
      rcases hfirst' with harchive | ⟨hnone, more, hfile⟩
      · rcases hsecond' with harchive' | ⟨hnone', -⟩
        · exact hne (Option.some_inj.1 (harchive.symm.trans harchive'))
        · cases harchive.symm.trans hnone'
      · rcases hsecond' with harchive' | ⟨-, rest, hfile'⟩
        · cases hnone.symm.trans harchive'
        · exact Path.not_shared hspells hspells' hne (horderly.classes.apart a ha b hb)
            (horderly.classes.apart b hb a ha) hfile hfile'
  · obtain ⟨path, -, hcontext⟩ := List.mem_flatMap.1 (hless.subset hcontext)
    obtain ⟨item, -, hcontext⟩ := List.mem_filterMap.1 hcontext
    cases item with
    | lost => cases hcontext
    | found origin file bytes =>
      rw [classContext?] at hcontext
      split at hcontext
      · cases hcontext
      · split at hcontext
        · cases hcontext
        · cases hcontext
          rfl

theorem nodup_files (hwhole : (t.project pass.project).subset = none) :
    ((files e answers pass t).map target).Nodup := by
  have hkeys : ([[.manifest], [.resourceFile, .allResourceFiles], [.javaFile, .allJavaFiles],
      [.classFile], [.proguardFile]] : List (List Scope)).Nodup := by decide
  have hstages := nodup_stages [(_, manifest e answers pass t), (_, resources e answers pass t),
    (_, sources e answers pass t), (_, classes e answers pass t), (_, rules pass t)] hkeys
  simp only [List.forall_mem_cons, List.flatMap_cons, List.flatMap_nil, List.append_nil] at hstages
  exact hstages ⟨nodup_manifest answers pass t, nodup_resources hproper horderly hwhole,
    nodup_sources hproper horderly, nodup_classes hproper horderly, nodup_rules pass t,
    List.forall_mem_nil _⟩

end Orderly

end Distinct

/-! ## A pass over a whole project -/

/-- A pass over a whole project that returns without being canceled scans the files that it has to,
in their order, and leaves its memory of visitors fit for the next one. Where a folder holds no name
twice, its files come in the order of names with none left out; and where besides the folders of the
project have no file in common, no stage scans a file twice. -/
theorem checkFiles_sweeps (host : Host σ) (opts : Options) (answers : Answers)
    (hhost : host.Answering opts answers) (pass : Pass) {s s' : State σ}
    (hwhole : (s.project pass.project).subset = none) (hmemo : Honest s.memo)
    (hrun : (host.engine opts).checkFiles pass s = .ok () s') (hlive : s'.canceled = false) :
    ∃ new, s'.written = s.written ++ new ∧
      scans new = files (host.engine opts) answers pass s ∧ Honest s'.memo ∧
      (s.files.Proper → s.files.InOrder ∧
        ((s.project pass.project).Orderly s.files → ((scans new).map target).Nodup)) := by
  have hstart : Done s Honest [] s :=
    .start ⟨⟨[], (List.append_nil _).symm, rfl⟩, hmemo⟩
  obtain ⟨⟨new, hnew, hscans⟩, hmemo'⟩ :=
    (scans_checkFiles hhost hwhole [] s () s' hstart hrun hlive).wrote
  rw [List.nil_append] at hscans
  refine ⟨new, hnew, hscans, hmemo', fun hproper => ⟨.of_proper hproper, fun horderly => ?_⟩⟩
  rw [hscans]
  exact nodup_files hproper horderly hwhole

def choosyHost : Host Scripted.Memory :=
  { idleHost with
    scans := fun _ _ => true
    appliesToFolder := fun _ folder _ => folder.name == "layout" }

def choosyAnswers : Answers where
  supplies := fun scanner => choosyHost.supplies scanner {}
  parses := fun context ws => (choosyHost.parseMarkup context ws {}).toOption.join
  reads := fun bytes => (choosyHost.readClass bytes {}).toOption
  applies := fun detector folder => choosyHost.appliesToFolder detector folder {}

theorem choosyHost_answering (opts : Options) : choosyHost.Answering opts choosyAnswers where
  keepsFiles := fun call _ _ => by cases call <;> exact ⟨trivial, fun _ => trivial⟩
  supplies := fun _ _ => rfl
  parses := fun {context ws _ document} h => by
    have hsame : choosyHost.parseMarkup context ws {} = .ok document := h
    rw [choosyAnswers]
    dsimp only
    rw [hsame]
    rfl
  reads := fun bytes s => by
    obtain ⟨u, hcall⟩ : ∃ u, (choosyHost.engine opts).invoke (.readClass bytes) s = .ok () u :=
      ⟨_, rfl⟩
    have hsame : (choosyHost.engine opts).host.readClass bytes u.host =
      choosyHost.readClass bytes {} := rfl
    rw [readClass, consult, bind_of_ok hcall, get_bind, hsame, choosyAnswers]
    dsimp only
    cases choosyHost.readClass bytes {} <;> rfl
  applies := fun _ _ _ => rfl

def variedProject : Project where
  dir := "/a"
  reference := "/a"
  manifest := some "/a/AndroidManifest.xml"
  resources := ["/a/res"]
  sources := ["/a/src"]
  classes := ["/a/libs/x.jar"]

def varied : State Scripted.Memory :=
  let files : Workspace := ⟨.folder "" true [.folder "a" true [
    .file "AndroidManifest.xml" (.bytes []), .file "proguard.cfg" (.bytes []),
    .folder "res" true [.folder "raw" true [.file "c.xml" (.bytes [])],
      .folder "layout" true [.file "b.xml" (.bytes []), .file "A.XML" (.bytes [])]],
    .folder "src" true [.folder "p" true [.file "F.java" (.bytes [])], .file "G.java" (.bytes [])],
    .folder "libs" true [.file "x.jar" (.archive ⟨[⟨"Y.class", [89], none⟩, ⟨"X", [], none⟩],
      none⟩)]]], "/"⟩
  { fresh {} files with
    projects := #[variedProject]
    schedule := some { selection := ⟨[(⟨"D", 1⟩, .all)]⟩ } }

def variedPass : Pass :=
  ⟨⟨0, "/a"⟩, ⟨0, "/a"⟩⟩

def variedRun : Outcome Scripted.Memory Unit :=
  (choosyHost.engine ⟨false⟩).checkFiles variedPass varied

theorem orderly_varied : (varied.project variedPass.project).Orderly varied.files where
  spelled := by decide +kernel
  resources := by decide +kernel
  sources := ⟨by decide +kernel, by decide +kernel⟩
  classes := ⟨by decide +kernel, by decide +kernel⟩
  archives := by decide +kernel

def variedFiles : List (Option String × String) :=
  [(none, "/a/AndroidManifest.xml"), (none, "/a/res/layout/A.XML"), (none, "/a/res/layout/b.xml"),
    (none, "/a/src/G.java"), (none, "/a/src/p/F.java"), (some "/a/libs/x.jar", "Y.class"),
    (none, "/a/proguard.cfg")]

/-- Files of every stage are scanned in order, and what no detector wants is not. -/
theorem checkFiles_sweeps_varied :
    varied.files.Proper ∧ varied.files.InOrder ∧ ∃ new, (endState variedRun).written = new ∧
      (scans new).map (fun context => (context.archive?, context.file)) = variedFiles ∧
      ((scans new).map target).Nodup := by
  have hproper : varied.files.Proper := by decide +kernel
  obtain ⟨hrun, hlive⟩ : result? variedRun = some () ∧ (endState variedRun).canceled = false := by
    decide +kernel
  have hfiles : (files (choosyHost.engine ⟨false⟩) choosyAnswers variedPass varied).map
      (fun context => (context.archive?, context.file)) = variedFiles := by
    decide +kernel
  obtain ⟨new, hnew, hscans, -, hordered⟩ := checkFiles_sweeps choosyHost ⟨false⟩ choosyAnswers
    (choosyHost_answering _) variedPass (s := varied) rfl (fun _ hknown => by cases hknown)
    (eq_ok_of_result? hrun) hlive
  exact ⟨hproper, (hordered hproper).1, new, hnew, hscans ▸ hfiles,
    (hordered hproper).2 orderly_varied⟩

end Sweeps
end ProjectLint
