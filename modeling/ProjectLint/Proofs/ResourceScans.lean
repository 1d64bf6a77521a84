/-
The resources that a pass scans. A project that is checked as a whole has its resources in folders
of folders, each file in one of them. A project that is pointed at files and folders has what these
stand for, so a file may come up more than once: by itself, with the folder that it lies in, and
with the folder above that. It comes up once where no path that is given, other than the folder of a
project, holds another one.
-/
import ProjectLint.Proofs.Allotment
import ProjectLint.Proofs.Restriction
import ProjectLint.Proofs.Standing

namespace ProjectLint

namespace Path

def Inside (cwd path dir : String) : Prop :=
  absoluteParts cwd dir <+: absoluteParts cwd path ∧ absoluteParts cwd dir ≠ absoluteParts cwd path

instance (cwd path dir : String) : Decidable (Inside cwd path dir) :=
  inferInstanceAs (Decidable (_ ∧ _))

theorem not_shared {cwd a b file : String} {first second more rest : List String}
    (ha : Spells first a) (hb : Spells second b) (hne : a ≠ b) (hab : ¬ Inside cwd a b)
    (hba : ¬ Inside cwd b a) (hfile : Spells (first ++ more) file) :
    ¬ Spells (second ++ rest) file := by
  intro hother
  -- Both spellings begin that of the file, so one of them begins the other.
  have hbegin : first <+: second ∨ second <+: first :=
    List.prefix_or_prefix_of_prefix (List.prefix_append first more)
      (hfile.unique hother ▸ List.prefix_append second rest)
  have hparts : ∀ {names path}, Spells names path → absoluteParts cwd path = names :=
    fun h => h.2 ▸ absoluteParts_ofParts _ h.1
  rw [Inside, hparts ha, hparts hb, not_and, not_not] at hab hba
  have hsame : first = second := hbegin.elim hba fun h => (hab h).symm
  exact hne (by rw [ha.2, hb.2, hsame])

theorem nodup_flatMap_of_apart {cwd : String} {paths : List String} {files : String → List String}
    (hnodup : paths.Nodup) (hspelled : ∀ path ∈ paths, ∃ names, Spells names path)
    (hapart : ∀ path ∈ paths, ∀ dir ∈ paths, ¬ Inside cwd path dir)
    (hfiles : ∀ path ∈ paths, ∀ {names}, Spells names path → (files path).Nodup ∧
      ∀ file ∈ files path, ∃ more, Spells (names ++ more) file) :
    (paths.flatMap files).Nodup := by
  refine List.nodup_flatMap.2 ⟨fun path hpath => ?_, ?_⟩
  · obtain ⟨names, hnames⟩ := hspelled path hpath
    exact (hfiles path hpath hnames).1
  · refine hnodup.imp_of_mem fun {a b} ha hb hne file hfile hother => ?_
    obtain ⟨first, hfirst⟩ := hspelled a ha
    obtain ⟨second, hsecond⟩ := hspelled b hb
    obtain ⟨more, hfile⟩ := (hfiles a ha hfirst).2 file hfile
    obtain ⟨rest, hother⟩ := (hfiles b hb hsecond).2 file hother
    exact not_shared hfirst hsecond hne (hapart a ha b hb) (hapart b hb a ha) hfile hother

end Path

/-! ## Files of resources -/

namespace Workspace

open Path

variable {ws : Workspace} {names : List String} {dir file : String}

def markupFiles (ws : Workspace) (dir : String) : List String :=
  (ws.list dir).filter fun file => Layout.isMarkup file && ws.isFile file

def typedFiles (ws : Workspace) (dir : String) : List String :=
  if ws.isFolder dir && (FolderType.ofFolder? (baseName dir)).isSome then ws.markupFiles dir else []

def resourceFiles (ws : Workspace) (resources : String) : List String :=
  (ws.list resources).flatMap ws.typedFiles

def givenFiles (ws : Workspace) (path : String) : List String :=
  if ws.isFolder path then
    if (FolderType.ofFolder? (baseName path)).isSome &&
        baseName (parent path) == Layout.resources then ws.markupFiles path
    else if baseName path = Layout.resources then ws.resourceFiles path
    else []
  else if ws.isFile path && Layout.isMarkup path then [path]
  else []

theorem spells_of_mem_list (hproper : ws.Proper) (hdir : Spells names dir)
    (hfile : file ∈ ws.list dir) : ∃ name, Spells (names ++ [name]) file := by
  obtain ⟨name, hname, rfl⟩ := mem_list hproper hfile
  exact ⟨name, hdir.join hname⟩

theorem nodup_list (hproper : ws.Proper) (hdir : Spells names dir) : (ws.list dir).Nodup := by
  rw [list]
  cases hentries : ws.entries? dir with
  | none => exact List.nodup_nil
  | some entries =>
    obtain ⟨name, own, hfolder, hperm⟩ := entries?_eq_some hentries
    obtain ⟨hnodup, hall⟩ := Files.Entry.isProper_folder.1 (hproper.entry hfolder)
    have hnames : ∀ entry ∈ entries, IsName entry.name :=
      fun entry hentry => (hall entry (hperm.mem_iff.1 hentry)).1
    refine List.Nodup.map_on (fun a ha b hb heq => ?_) ((hperm.nodup_iff).2 hnodup.of_map)
    have hspelled := hdir.join (hnames a ha)
    rw [heq] at hspelled
    have hname := (List.append_inj' (hspelled.unique (hdir.join (hnames b hb))) rfl).2
    exact List.inj_on_of_nodup_map ((hperm.map _).nodup_iff.2 hnodup) ha hb
      (List.singleton_inj.1 hname)

theorem spells_of_mem_markupFiles (hproper : ws.Proper) (hdir : Spells names dir)
    (hfile : file ∈ ws.markupFiles dir) : ∃ name, Spells (names ++ [name]) file :=
  spells_of_mem_list hproper hdir (List.mem_filter.1 hfile).1

theorem nodup_markupFiles (hproper : ws.Proper) (hdir : Spells names dir) :
    (ws.markupFiles dir).Nodup :=
  (nodup_list hproper hdir).filter _

theorem typedFiles_sublist (ws : Workspace) (dir : String) :
    (ws.typedFiles dir).Sublist (ws.markupFiles dir) := by
  rw [typedFiles]
  split
  · exact List.Sublist.refl _
  · exact List.nil_sublist _

theorem spells_of_mem_resourceFiles (hproper : ws.Proper) (hdir : Spells names dir)
    (hfile : file ∈ ws.resourceFiles dir) :
    ∃ first second, Spells (names ++ [first, second]) file := by
  obtain ⟨inner, hinner, hfile⟩ := List.mem_flatMap.1 hfile
  obtain ⟨first, hinner⟩ := spells_of_mem_list hproper hdir hinner
  obtain ⟨second, hfile⟩ := spells_of_mem_markupFiles hproper hinner
    ((ws.typedFiles_sublist inner).subset hfile)
  rw [List.append_assoc] at hfile
  exact ⟨first, second, hfile⟩

theorem nodup_resourceFiles (hproper : ws.Proper) (hdir : Spells names dir) :
    (ws.resourceFiles dir).Nodup := by
  refine List.nodup_flatMap.2 ⟨fun inner hinner => ?_, ?_⟩
  · obtain ⟨name, hinner⟩ := spells_of_mem_list hproper hdir hinner
    exact (ws.typedFiles_sublist inner).nodup (nodup_markupFiles hproper hinner)
  · refine (nodup_list hproper hdir).imp_of_mem fun {a b} ha hb hne file hfile hother => hne ?_
    obtain ⟨first, hfirst⟩ := spells_of_mem_list hproper hdir ha
    obtain ⟨second, hsecond⟩ := spells_of_mem_list hproper hdir hb
    obtain ⟨last, hfile⟩ := spells_of_mem_markupFiles hproper hfirst
      ((ws.typedFiles_sublist a).subset hfile)
    obtain ⟨other, hother⟩ := spells_of_mem_markupFiles hproper hsecond
      ((ws.typedFiles_sublist b).subset hother)
    rw [hfirst.2, hsecond.2, (List.append_inj' (hfile.unique hother) rfl).1]

theorem givenFiles_spec (hproper : ws.Proper) (hdir : Spells names dir) :
    (ws.givenFiles dir).Nodup ∧
      ∀ file ∈ ws.givenFiles dir, ∃ more, Spells (names ++ more) file := by
  rw [givenFiles]
  split_ifs
  · refine ⟨nodup_markupFiles hproper hdir, fun file hfile => ?_⟩
    obtain ⟨name, hfile⟩ := spells_of_mem_markupFiles hproper hdir hfile
    exact ⟨[name], hfile⟩
  · refine ⟨nodup_resourceFiles hproper hdir, fun file hfile => ?_⟩
    obtain ⟨first, second, hfile⟩ := spells_of_mem_resourceFiles hproper hdir hfile
    exact ⟨[first, second], hfile⟩
  · exact ⟨List.nodup_nil, List.forall_mem_nil _⟩
  · refine ⟨List.nodup_singleton _, List.forall_mem_singleton.2 ⟨[], ?_⟩⟩
    rwa [List.append_nil]
  · exact ⟨List.nodup_nil, List.forall_mem_nil _⟩

end Workspace

namespace Project

open Path

variable {ws : Workspace} {project : Project}

def resourceFiles (project : Project) (ws : Workspace) : List String :=
  match project.subset with
  | some given => given.flatMap ws.givenFiles
  | none => project.resources.flatMap ws.resourceFiles

theorem nodup_resourceFiles_of_given {given : List String} (hproper : ws.Proper)
    (hgiven : project.subset = some given) (hnodup : given.Nodup)
    (hspelled : ∀ path ∈ given, ∃ names, Spells names path)
    (hapart : ∀ path ∈ given, ∀ dir ∈ given, ¬ Inside ws.cwd path dir) :
    (project.resourceFiles ws).Nodup := by
  rw [resourceFiles, hgiven]
  exact nodup_flatMap_of_apart hnodup hspelled hapart fun _ _ {_} hnames =>
    Workspace.givenFiles_spec hproper hnames

theorem nodup_resourceFiles_of_whole (hproper : ws.Proper) (hwhole : project.subset = none)
    (hnodup : project.resources.Nodup)
    (hspelled : ∀ folder ∈ project.resources, ∃ names, Spells names folder) :
    (project.resourceFiles ws).Nodup := by
  rw [resourceFiles, hwhole]
  refine List.nodup_flatMap.2 ⟨fun folder hfolder => ?_, ?_⟩
  · obtain ⟨names, hnames⟩ := hspelled folder hfolder
    exact Workspace.nodup_resourceFiles hproper hnames
  · refine hnodup.imp_of_mem fun {a b} ha hb hne file hfile hother => hne ?_
    obtain ⟨names, ha⟩ := hspelled a ha
    obtain ⟨others, hb⟩ := hspelled b hb
    obtain ⟨_, _, hfile⟩ := Workspace.spells_of_mem_resourceFiles hproper ha hfile
    obtain ⟨_, _, hother⟩ := Workspace.spells_of_mem_resourceFiles hproper hb hother
    rw [ha.2, hb.2, (List.append_inj' (hfile.unique hother) rfl).1]

end Project

namespace Journal

/-- The project or library that a pass is announced for. -/
def Entry.passOf? : Entry → Option ProjectRef
  | .fired .scanningProject (some context) _ | .fired .scanningLibrary (some context) _ =>
    some context.project
  | _ => none

def Entry.resource? : Entry → Option String
  | .fired .scanningFile (some ⟨_, _, file, .markup (some _)⟩) _ => some file
  | _ => none

/-- The resource files that were scanned, in order. -/
def resourceScans (entries : List Entry) : List String :=
  entries.filterMap Entry.resource?

theorem Entry.silent_of_incidental {entry : Entry} (h : entry.isIncidental = true) :
    entry.passOf? = none ∧ entry.resource? = none := by
  cases entry with
  | fired => cases h
  | _ => exact ⟨rfl, rfl⟩

theorem Entry.silent_of_aside {entry : Entry} (h : entry.isAside = true) :
    entry.passOf? = none ∧ entry.resource? = none := by
  cases entry with
  | fired event context moment =>
    cases event <;> cases context <;> first | exact ⟨rfl, rfl⟩ | cases h
  | _ => exact ⟨rfl, rfl⟩

end Journal

namespace ResourceScans

open Run Engine Journal

variable {host : Host σ} {opts : Options} {t s : State σ} {start : List Entry}
  {allotted : List String}

/-! ## One pass -/

def Ahead (t : State σ) (allotted : List String) (start : List Entry) (rest : List String) :
    State σ → Prop :=
  Course t (Left Entry.passOf? Entry.resource? allotted start rest)

theorem lenient_ahead (t : State σ) (allotted : List String) (start : List Entry) :
    Lenient (Ahead t allotted start) :=
  fun _ _ _ hless hs => { hs with wrote := hs.wrote.less hless }

theorem unmoved_left (allotted : List String) (start : List Entry) (rest : List String) :
    Unmoved (σ := σ) (Left Entry.passOf? Entry.resource? allotted start rest) :=
  fun _ _ _ hmore hall _ hs => hs.append hmore fun entry hentry =>
    Entry.silent_of_incidental (hall entry hentry)

section Pass

variable (hhost : host.KeepsTo Action.KeepsFiles)

include hhost

theorem remembering (opts : Options) (rest : List String) :
    Remembering (host.engine opts) (Ahead t allotted start rest) (fun _ => True)
      (fun _ _ => True) fun _ => True :=
  Recalls.remembering {
    toWorks := Course.works hhost (unmoved_left _ _ _) fun _ => trivial
    applies := fun _ _ _ _ => trivial
    memo := fun _ _ => VisitorMemo.fits_any _
    remembered := fun _ hs => { hs with stands := { hs.stands with }, wrote := hs.wrote } } opts

theorem scan_free (opts : Options) {context : Context} (rest : List String)
    (h : ∀ moment, Entry.resource? (.fired .scanningFile (some context) moment) = none) :
    Upholds (Ahead t allotted start rest) (fun _ => True)
      ((host.engine opts).fire .scanningFile (some context)) :=
  .of_keeps fun _ hs => Course.fire hhost (unmoved_left _ _ _) opts hs (hs.wrote.write rfl (h _))

theorem spends_scanResource (opts : Options) (pass : Pass) (visitor : MarkupVisitor)
    (folder : FolderType) (file : String) :
    Spends (Ahead t allotted start) ((host.engine opts).scanResource pass visitor folder file)
      [file] := by
  have hI := lenient_ahead t allotted start
  have hfire : Spends (Ahead t allotted start) ((host.engine opts).fire .scanningFile
      (some (pass.context file (.markup (some folder))))) [file] :=
    fun rest s hs => Course.fire hhost (unmoved_left _ _ _) opts hs (hs.wrote.spend rfl rfl)
  have hcalls := visitor.calls_any (Context.Kind.markup (some folder)).categories_ne_nil
  have hvisit : Spends (Ahead t allotted start) ((host.engine opts).visitMarkup visitor
      (pass.context file (.markup (some folder))) none) [] :=
    .of_keeps fun rest => ((remembering hhost opts rest).visitMarkup hcalls none).keeps
  exact hfire.bind_free hI fun _ => hvisit.bind_free hI fun _ => .pure hI ()

section Resources

variable {source : VisitorSource σ}
  (hsource : ∀ folder, Spends (Ahead t allotted start) (source folder) [])

include hsource

omit hhost in
theorem spends_source (folder : FolderType) {cost : List String} {x : MarkupVisitor → Run σ Unit}
    (hx : ∀ visitor, Spends (Ahead t allotted start) (x visitor) cost) :
    Spends (Ahead t allotted start) (do
      match ← source folder with
      | none => pure ()
      | some visitor => x visitor) cost := by
  have hI := lenient_ahead t allotted start
  refine (hsource folder).free_bind hI fun found => ?_
  cases found with
  | none => exact .pure hI ()
  | some visitor => exact hx visitor

theorem spends_checkTypeFolder (opts : Options) (pass : Pass) (dir : String) (folder : FolderType) :
    Spends (Ahead t allotted start)
      ((host.engine opts).checkTypeFolder pass source dir folder) (t.files.markupFiles dir) := by
  have hI := lenient_ahead t allotted start
  refine .inspect fun hs => ?_
  dsimp only
  rw [hs.stands.files, Workspace.markupFiles]
  generalize (t.files.list dir).filter _ = files
  cases files with
  | nil => exact .pure hI ()
  | cons file rest =>
    refine spends_source hsource folder fun visitor => ?_
    have hscans : Spends (Ahead t allotted start) (eachUntilCanceled (file :: rest)
        ((host.engine opts).scanResource pass visitor folder))
        ((file :: rest).flatMap fun file => [file]) :=
      .eachUntilCanceled hI _ fun file _ =>
        spends_scanResource hhost opts pass visitor folder file
    rwa [List.flatMap_singleton'] at hscans

theorem spends_checkResourceFolder (opts : Options) (pass : Pass) (resources : String) :
    Spends (Ahead t allotted start)
      ((host.engine opts).checkResourceFolder pass source resources)
      (t.files.resourceFiles resources) := by
  have hI := lenient_ahead t allotted start
  refine .inspect fun hs => ?_
  rw [hs.stands.files]
  refine .eachUntilCanceled hI _ fun dir _ => .inspect fun hs' => ?_
  rw [hs'.stands.files, Workspace.typedFiles]
  cases hfolder : t.files.isFolder dir with
  | false => exact .pure hI ()
  | true =>
    cases FolderType.ofFolder? (Path.baseName dir) with
    | none => exact .pure hI ()
    | some folder => exact spends_checkTypeFolder hhost hsource opts pass dir folder

theorem spends_checkGivenResource (opts : Options) (pass : Pass) (path : String) :
    Spends (Ahead t allotted start)
      ((host.engine opts).checkGivenResource pass source path) (t.files.givenFiles path) := by
  have hI := lenient_ahead t allotted start
  refine .inspect fun hs => ?_
  dsimp only
  rw [hs.stands.files, Workspace.givenFiles]
  cases hfolder : t.files.isFolder path with
  | true =>
    have hother : Spends (Ahead t allotted start)
        (if Path.baseName path = Layout.resources then
          (host.engine opts).checkResourceFolder pass source path
        else (host.engine opts).log none ("Unexpected folder " ++ path ++
          "; should be project, \"res\" folder or resource folder"))
        (if Path.baseName path = Layout.resources then t.files.resourceFiles path else []) := by
      split
      · exact spends_checkResourceFolder hhost hsource opts pass path
      · exact .of_keeps fun rest => Course.log hhost (unmoved_left _ _ _) opts none _ none
    rw [if_pos rfl, if_pos rfl]
    cases FolderType.ofFolder? (Path.baseName path) with
    | none =>
      rw [Option.isSome_none, Bool.false_and, if_neg Bool.false_ne_true]
      exact hother
    | some folder =>
      cases Path.baseName (Path.parent path) == Layout.resources with
      | false =>
        rw [Bool.and_false, if_neg Bool.false_ne_true]
        exact hother
      | true => exact spends_checkTypeFolder hhost hsource opts pass path folder
  | false =>
    cases hfile : t.files.isFile path && Layout.isMarkup path with
    | false => exact .pure hI ()
    | true =>
      cases FolderType.ofFolder? (Path.baseName (Path.parent path)) with
      | none => exact .pure hI ()
      | some folder =>
        exact spends_source hsource folder fun visitor =>
          spends_scanResource hhost opts pass visitor folder path

end Resources

theorem spends_checkResources (opts : Options) (pass : Pass) :
    Spends (Ahead t allotted start) ((host.engine opts).checkResources pass)
      ((t.project pass.project).resourceFiles t.files) := by
  have hI := lenient_ahead t allotted start
  refine .inspect fun _ => .ite (fun _ => .inspect fun {rest u} _ => ?_) fun _ => .pure hI ()
  have hall : ∀ detector ∈ (host.engine opts).scanners
      (u.selection.merged .resourceFile .allResourceFiles) .markup,
      host.scans detector.className .markup = true :=
    fun detector hdetector => (List.mem_filter.1 hdetector).2
  generalize (host.engine opts).scanners _ _ = checks at hall ⊢
  cases checks with
  | nil => exact .pure hI ()
  | cons detector others =>
    refine .inspect fun _ => .ite (fun _ => ?_) fun _ => ?_
    · have hstart : Spends (Ahead t allotted start) (startPass : Run σ Unit) [] :=
        .of_keeps fun rest => .modify fun hs =>
          (remembering hhost opts rest).remembered (fun _ _ => VisitorMemo.fits_any _) hs
      refine hstart.free_bind hI fun _ => .inspect fun {rest v} hv => ?_
      have hsubset := hv.stands.project Project.subset (fun _ => rfl) pass.project
      have hresources := hv.stands.project Project.resources (fun _ => rfl) pass.project
      have hsource := fun folder => Spends.of_keeps (I := Ahead t allotted start) fun rest =>
        Gives.keeps (((remembering hhost opts rest).recall fun _ => True).folderVisitor folder
          (fun detector _ => minds_any (List.cons_ne_nil _ _) detector) hall)
      rw [Project.resourceFiles, hsubset, hresources]
      cases (t.project pass.project).subset with
      | some given =>
        exact .eachUntilCanceled hI given fun path _ =>
          spends_checkGivenResource hhost hsource opts pass path
      | none =>
        exact .eachUntilCanceled hI _ fun folder _ =>
          spends_checkResourceFolder hhost hsource opts pass folder
    · exact (Spends.of_keeps fun rest =>
        Course.log hhost (unmoved_left _ _ _) opts none _ none).mono hI (List.nil_sublist _)

theorem spends_checkFiles (opts : Options) (pass : Pass) :
    Spends (Ahead t allotted start) ((host.engine opts).checkFiles pass)
      ((t.project pass.project).resourceFiles t.files) := by
  have hI := lenient_ahead t allotted start
  have hwalk : ∀ rest, Walk (host.engine opts) pass (upkeep (Ahead t allotted start rest)
      (fun _ => True) (fun _ _ => True) (fun _ => True) fun kind => ∀ file moment,
        Entry.resource? (.fired .scanningFile (some (pass.context file kind)) moment) = none) :=
    fun rest => (remembering hhost opts rest).toStaging.walk fun hkind _ =>
      scan_free hhost opts rest (hkind _)
  have hmanifest : Spends (Ahead t allotted start) ((host.engine opts).checkManifest pass) [] :=
    .of_keeps fun rest => Upholds.keeps ((hwalk rest).checkManifest fun _ _ => rfl)
  have hsources : Spends (Ahead t allotted start) ((host.engine opts).checkSources pass) [] :=
    .of_keeps fun rest => Upholds.keeps ((hwalk rest).checkSources fun _ _ => rfl)
  have hclasses : Spends (Ahead t allotted start) ((host.engine opts).checkClasses pass) [] :=
    .of_keeps fun rest => Upholds.keeps ((hwalk rest).checkClasses fun _ _ _ _ _ _ => rfl)
  have hrules : Spends (Ahead t allotted start) ((host.engine opts).checkShrinkerRules pass) [] :=
    .of_keeps fun rest => Upholds.keeps ((hwalk rest).checkShrinkerRules fun _ _ => rfl)
  exact hmanifest.free_bind hI fun _ => .unlessCanceled hI <|
    (spends_checkResources hhost opts pass).bind_free hI fun _ => .unlessCanceled hI <|
      hsources.free_bind hI fun _ => .unlessCanceled hI <|
        hclasses.free_bind hI fun _ => .unlessCanceled hI hrules

end Pass

/-! ## One phase -/

def Once (_ : ProjectRef) (during : List Entry) : Prop :=
  (resourceScans during).Nodup

theorem Once.append {ref : ProjectRef} {during more : List Entry} (h : Once ref during)
    (hmore : ∀ entry ∈ more, entry.resource? = none) : Once ref (during ++ more) := by
  rw [Once, resourceScans, List.filterMap_append, List.filterMap_eq_nil_iff.2 hmore,
    List.append_nil]
  exact h

def Between (t : State σ) (before : List Entry) : State σ → Prop :=
  Course t (Sectioned Entry.passOf? Once before)

theorem unmoved_sectioned (before : List Entry) :
    Unmoved (σ := σ) (Sectioned Entry.passOf? Once before) := by
  intro s t more hmore hall _ hs
  refine hs.append hmore (fun entry hentry => (Entry.silent_of_incidental (hall entry hentry)).1) ?_
  exact fun ref during h => h.append fun entry hentry =>
    (Entry.silent_of_incidental (hall entry hentry)).2

theorem between_of_ahead {ref : ProjectRef} {entry : Entry} {before : List Entry}
    {rest : List String} {u : State σ} (hs : Between t before s) (hentry : entry.passOf? = some ref)
    (hnodup : allotted.Nodup) (hu : Ahead t allotted (s.write entry).written rest u) :
    Between t before u :=
  { hu with wrote := hu.wrote.sectioned hs.wrote hentry fun _ hsublist => hsublist.nodup hnodup }

section Phase

variable (hhost : host.KeepsTo Action.KeepsFiles) {root : ProjectRef} {before : List Entry}

include hhost

theorem keeps_pass (opts : Options) {event : Event} {context : Option Context} {pass : Pass}
    (detectors : List Detector) (hook : Hook) {next : Run σ Unit}
    (hopens : ∀ moment, Entry.passOf? (.fired event context moment) = some pass.project)
    (hnodup : ((t.project pass.project).resourceFiles t.files).Nodup)
    (hnext : Keeps (Between t before) next) :
    Keeps (Between t before) (do
      (host.engine opts).fire event context
      (host.engine opts).tellUntilCanceled detectors hook
      unlessCanceled do
        (host.engine opts).checkFiles pass
        next) := by
  intro s hs
  let allotted := (t.project pass.project).resourceFiles t.files
  let start := (s.write (.fired event context s.moment)).written
  have hclose : ∀ {rest u}, Ahead t allotted start rest u → Between t before u :=
    between_of_ahead hs (hopens _) hnodup
  have htell : Turns (Ahead t allotted start allotted) (Ahead t allotted start allotted)
      ((host.engine opts).tellUntilCanceled detectors hook) :=
    Course.tell hhost (unmoved_left _ _ _) opts detectors hook
  have hfiles : Turns (Ahead t allotted start allotted) (Ahead t allotted start [])
      ((host.engine opts).checkFiles pass) := by
    have hspends : Spends (Ahead t allotted start) ((host.engine opts).checkFiles pass) allotted :=
      spends_checkFiles hhost opts pass
    have hall := hspends []
    rwa [List.append_nil] at hall
  obtain ⟨s₁, hfire, -⟩ := fire_eq_ok host opts event context s
  have hbegun : Ahead t allotted start allotted
      (endState ((host.engine opts).fire event context s)) :=
    Course.fire hhost (unmoved_left _ _ _) opts hs (.full _)
  rw [hfire] at hbegun
  rw [bind_of_ok hfire]
  refine htell.bind (fun _ => ?_) hclose s₁ hbegun
  exact (hfiles.bind (fun _ u hu => hnext u (hclose hu)) hclose).unlessCanceled hclose

theorem keeps_checkPhase (opts : Options) {root : ProjectRef} {refs : List ProjectRef}
    (hrefs : (t.project root).libraries = some refs)
    (hnodup : ∀ ref, ref = root ∨ ref ∈ refs → ((t.project ref).resourceFiles t.files).Nodup)
    (hs : Between t before t) :
    Between t before (endState ((host.engine opts).checkPhase root t)) := by
  have htell : ∀ hook, Keeps (Between t before)
      ((host.engine opts).tellUntilCanceled t.selection.detectors hook) :=
    Course.tell hhost (unmoved_sectioned before) opts t.selection.detectors
  have hlibraries : Keeps (Between t before)
      ((host.engine opts).checkLibraries t.selection.detectors root) := by
    refine .inspect fun s _ => .ite _ (.pure ()) fun u hu => ?_
    rw [bind_of_ok (hu.libraries opts hrefs)]
    refine Keeps.eachUntilCanceled refs (fun library hlibrary => ?_) u hu
    exact keeps_pass hhost opts _ _ (fun _ => rfl) (hnodup library (.inr hlibrary))
      (htell _).unlessCanceled
  rw [checkPhase_eq]
  refine keeps_pass hhost opts _ _ (fun _ => rfl) (hnodup root (.inl rfl)) ?_ t hs
  exact (hlibraries.bind fun _ => (htell _).unlessCanceled).unlessCanceled

end Phase

/-! ## A run -/

/-- Resource folders that the client names are absolute, and none is named twice. -/
def Tidy (host : Host σ) (cwd : String) : Prop :=
  ∀ dir folders, (host.overrides dir).resources = some folders →
    folders.Nodup ∧ ∀ folder ∈ folders, Path.resolve cwd folder = folder

/-- A path that another one lies inside of is the folder of a project. -/
def Apart (ws : Workspace) (paths : List String) : Prop :=
  ∀ path ∈ paths, ∀ dir ∈ paths, Path.Inside ws.cwd path dir →
    ws.isFolder (Path.resolve ws.cwd dir) = true ∧
      Project.isProjectDir ws (Path.resolve ws.cwd dir) = true

instance (ws : Workspace) (paths : List String) : Decidable (Apart ws paths) :=
  inferInstanceAs (Decidable (∀ path ∈ paths, ∀ dir ∈ paths, _ → _ ∧ _))

theorem nodup_of_whole {ws : Workspace} (hs : Charted host ws s) (hproper : ws.Proper)
    (htidy : Tidy host ws.cwd) {ref : ProjectRef} (href : s.Made ref)
    (hwhole : (s.project ref).subset = none) : ((s.project ref).resourceFiles ws).Nodup := by
  obtain ⟨hproject, -⟩ := href.project_eq
  have hresources : (s.project ref).resources = (host.shape ws (s.project ref).dir).resources :=
    Project.chart_congr Project.resources (fun _ => rfl) (hs.shaped _ _ hproject)
  have hshape : (host.shape ws (s.project ref).dir).resources =
      (host.overrides (s.project ref).dir).resources.getD
        ([Path.join (ws.canonical (s.project ref).dir) Layout.resources].filter ws.isFolder) := rfl
  rw [hshape] at hresources
  have hboth : (s.project ref).resources.Nodup ∧
      ∀ folder ∈ (s.project ref).resources, ∃ names, Path.Spells names folder := by
    rw [hresources]
    cases hfolders : (host.overrides (s.project ref).dir).resources with
    | none =>
      obtain ⟨names, hnames⟩ := ws.spells_canonical (s.project ref).dir
      refine ⟨(List.nodup_singleton _).filter _, fun folder hfolder => ?_⟩
      rw [List.mem_singleton.1 (List.mem_filter.1 hfolder).1]
      exact ⟨_, hnames.join (by decide)⟩
    | some folders =>
      obtain ⟨hnodup, hspelled⟩ := htidy _ folders hfolders
      refine ⟨hnodup, fun folder hfolder => ?_⟩
      rw [← hspelled folder hfolder]
      exact ⟨_, .resolve ws.cwd folder⟩
  exact Project.nodup_resourceFiles_of_whole hproper hwhole hboth.1 hboth.2

/-- In each pass of a run the stage of resources scans no file twice, if no given path but the
folder of a project holds another one. -/
theorem nodup_resourceScans (host : Host σ) (opts : Options) {paths : List String}
    {scope : Option ScopeSet} {elapsed : Int} {new during : List Entry} {ref : ProjectRef}
    (hs : Charted host s.files s) (hproper : s.files.Proper)
    (hhost : ∀ call moment memory,
      (host.react call moment memory).Within Action.KeepsFiles fun _ => True)
    (htidy : Tidy host s.files.cwd) (hpaths : Apart s.files paths)
    (hnew : (endState ((host.engine opts).analyze paths scope elapsed s)).written =
      s.written ++ new)
    (hpass : (ref, during) ∈ sections Entry.passOf? new) : (resourceScans during).Nodup := by
  refine sections_analyze Entry.passOf? Once hs.sound (fun entry h => ?_)
    (fun ref during entry haside hkept => ?_) ?_ hnew _ hpass
  · rcases Bool.or_eq_true_iff.1 h with hincidental | haside
    · exact (Entry.silent_of_incidental hincidental).1
    · exact (Entry.silent_of_aside haside).1
  · exact hkept.append (List.forall_mem_singleton.2 (Entry.silent_of_aside haside).2)
  · intro roots found hresolve
    have hcharted : Charted host s.files (s.begun scope) := { hs with }
    obtain ⟨hfound, hmade⟩ := Discovery.charted_resolve (.of_within hhost opts _) hcharted hresolve
    have hnodup : ∀ root ∈ roots, ∀ other, Relation.ReflTransGen found.Links root other →
        found.Made other → ((found.project other).resourceFiles s.files).Nodup := by
      intro root hroot other hother hmade
      cases hsubset : (found.project other).subset with
      | none => exact nodup_of_whole hfound hproper htidy hmade hsubset
      | some given =>
        obtain ⟨hgiven, hparts⟩ := Discovery.charted_points (.of_within hhost opts _)
          hcharted hresolve
          hproper hroot hother hsubset
        refine Project.nodup_resourceFiles_of_given hproper hsubset hgiven (fun path hpath => ?_)
          fun path hpath dir hdir hinside => ?_
        · obtain ⟨spelled, -, rfl⟩ := List.mem_map.1 (hparts path hpath).1
          exact ⟨_, .resolve _ spelled⟩
        · obtain ⟨p, hp, rfl⟩ := List.mem_map.1 (hparts path hpath).1
          obtain ⟨hmem, hpart⟩ := hparts dir hdir
          obtain ⟨d, hd, rfl⟩ := List.mem_map.1 hmem
          rw [Path.Inside, Path.absoluteParts_resolve, Path.absoluteParts_resolve] at hinside
          exact hpart (hpaths p hp d hd hinside)
    refine ⟨_, _, found.Stands, settles_stands hhost found, { State.Stands.refl found with }, ?_⟩
    rintro before root config t hroot ⟨ht, hsectioned⟩ - - -
    obtain ⟨refs, hrefs, -, hlibraries⟩ :=
      Discovery.charted_links (.of_within hhost opts _) hcharted hresolve hroot
    have hknown : (t.project root).libraries = some refs :=
      (ht.project Project.libraries (fun _ => rfl) root).trans hrefs
    have hbetween : Between t before (endState ((host.engine opts).checkPhase root t)) :=
      keeps_checkPhase hhost opts hknown ?_ (.start hsectioned)
    · exact ⟨ht.trans hbetween.stands, hbetween.wrote⟩
    · intro other hother
      have hsame : (t.project other).resourceFiles t.files =
          (found.project other).resourceFiles s.files := by
        rw [ht.files, hfound.files]
        exact ht.project (Project.resourceFiles · s.files) (fun _ => rfl) other
      rw [hsame]
      rcases hother with rfl | hmem
      · exact hnodup other hroot other .refl (hmade other hroot)
      · exact hnodup root hroot other (.single ⟨refs, hrefs, hmem⟩) (hlibraries other hmem)

open Restriction in
def givenRun (paths : List String) : Outcome Scripted.Memory Unit :=
  (watchfulHost.engine ⟨true⟩).analyze paths none 0 (furnished .resourceFile)

def scanLists (entries : List Entry) : List (ProjectRef × List String) :=
  (sections Entry.passOf? entries).map fun part => (part.1, resourceScans part.2)

/-- A folder and a file in another one are scanned once each. -/
theorem nodup_resourceScans_apart :
    ∃ during, (⟨0, "/w/a"⟩, during) ∈ sections Entry.passOf?
        (endState (givenRun ["a/res/layout", "a/res/values/strings.xml"])).written ∧
      resourceScans during = ["/w/a/res/layout/main.xml", "/w/a/res/values/strings.xml"] ∧
      (resourceScans during).Nodup := by
  have hlists : scanLists
      (endState (givenRun ["a/res/layout", "a/res/values/strings.xml"])).written =
        [(⟨0, "/w/a"⟩, ["/w/a/res/layout/main.xml", "/w/a/res/values/strings.xml"])] := by
    decide +kernel
  obtain ⟨during, hpart, hscans⟩ := exists_section (hlists ▸ List.mem_singleton_self _)
  have hproper : (Restriction.furnished .resourceFile).files.Proper := by decide +kernel
  have hapart : Apart (Restriction.furnished .resourceFile).files
      ["a/res/layout", "a/res/values/strings.xml"] := by
    decide +kernel
  exact ⟨during, hpart, hscans, nodup_resourceScans Restriction.watchfulHost ⟨true⟩
    (charted_fresh _ _ _ _) hproper (within_idle _) (fun _ _ h => by cases h) hapart
    (List.nil_append _).symm hpart⟩

/-- A folder and a file in it make the file be scanned twice. -/
theorem given_twice_scanned_twice :
    ∃ during, (⟨0, "/w/a"⟩, during) ∈ sections Entry.passOf?
        (endState (givenRun ["a/res/layout", "a/res/layout/main.xml"])).written ∧
      ¬ (resourceScans during).Nodup := by
  have hlists : scanLists (endState (givenRun ["a/res/layout", "a/res/layout/main.xml"])).written =
      [(⟨0, "/w/a"⟩, ["/w/a/res/layout/main.xml", "/w/a/res/layout/main.xml"])] := by
    decide +kernel
  obtain ⟨during, hpart, hscans⟩ := exists_section (hlists ▸ List.mem_singleton_self _)
  exact ⟨during, hpart, by rw [hscans]; decide⟩

end ResourceScans
end ProjectLint
