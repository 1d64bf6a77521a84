/-
Grounds for the scan of a file. Where code leaves the files alone and answers without regard to what
it remembers, the directory of a project decides which of its files are scanned for a class of
detectors: the manifest if it can be parsed, resources by the type of their folder, source code and
classes in its folders, the rules of the shrinker. Every scan of a file of a project for itself has
such grounds, and behind it is an enabled issue of the class.
-/
import ProjectLint.Proofs.Eligibility
import ProjectLint.Proofs.Standing

namespace ProjectLint

namespace Journal

theorem map_fst_sections (opens : Entry → Option β) (entries : List Entry) :
    (sections opens entries).map Prod.fst = entries.filterMap opens := by
  induction entries with
  | nil => rfl
  | cons entry rest ih =>
    rw [sections]
    cases hentry : opens entry with
    | none => rw [ih, List.filterMap_cons_none hentry]
    | some b => rw [List.map_cons, ih, List.filterMap_cons_some hentry]

theorem Entry.scan?_of_aside (entry : Entry) (h : entry.isIncidental || entry.isAside) :
    entry.scan? = none := by
  cases entry with
  | fired event context moment =>
    cases event with
    | scanningFile =>
      cases context with
      | none => rfl
      | some => cases h
    | _ => rfl
  | _ => rfl

end Journal

open Run Engine Journal

/-- Code whose answers do not depend on what it remembers, nor on the number of a project or of a
detector. -/
structure Host.Stateless (host : Host σ) (opts : Options) : Prop where
  supplies : ∀ scanner memory other, host.supplies scanner memory = host.supplies scanner other
  applies : ∀ {detector another : Detector} folder memory other,
    detector.className = another.className →
      host.appliesToFolder detector folder memory = host.appliesToFolder another folder other
  parses : ∀ {context another : Context} ws memory other,
    context.project.dir = another.project.dir →
    context.file = another.file → context.kind = another.kind →
      host.parseMarkup context ws memory = host.parseMarkup another ws other
  reads : ∀ {bytes parsed s s'}, (host.engine opts).readClass bytes s = .ok parsed s' →
    ∀ t, ∃ t', (host.engine opts).readClass bytes t = .ok parsed t'

inductive Ground (host : Host σ) (opts : Options) (ws : Workspace) (dir : String)
    (name : DetectorClass) : String → Context.Kind → Prop
  | manifest (context : Context) {memory other : σ} {document : Markup.Document} :
      (host.shape ws dir).manifest = some context.file → (host.shape ws dir).isLibrary = false →
      host.supplies .markup memory = true → context.project.dir = dir →
      context.kind = .markup none → host.parseMarkup context ws other = .ok (some document) →
      host.scans name .markup = true → Ground host opts ws dir name context.file (.markup none)
  | resource {file : String} {folder : FolderType} {detector : Detector} {memory other : σ} :
      Layout.isMarkup file = true →
      FolderType.ofFolder? (Path.baseName (Path.parent file)) = some folder →
      host.supplies .markup memory = true → host.scans name .markup = true →
      detector.className = name → host.appliesToFolder detector folder other = true →
      Ground host opts ws dir name file (.markup (some folder))
  | source {file : String} {memory : σ} :
      (file ∈ (host.shape ws dir).sources.flatMap fun folder =>
        ws.gather folder Layout.sourceTail) →
      host.supplies .source memory = true → host.scans name .source = true →
      Ground host opts ws dir name file .source
  | folderClass {file root : String} {bytes : Bytes} {parsed : Bytecode.ClassFile} {memory : σ}
      {s s' : State σ} :
      root ∈ (host.shape ws dir).classes → Text.endsWith root Layout.archiveTail = false →
      ws.exists? root = true → file ∈ ws.gather root Layout.classTail →
      ws.bytes file = .ok bytes → host.supplies .bytecode memory = true →
      (host.engine opts).readClass bytes s = .ok parsed s' →
      Suppression.inBytecode none parsed.annotations = false →
      host.scans name .bytecode = true →
      Ground host opts ws dir name file (.bytecode none root bytes parsed)
  | rules : ws.isFile (Path.join dir Layout.shrinkerRules) = true →
      Ground host opts ws dir name (Path.join dir Layout.shrinkerRules) .plain

namespace Grounds

variable {host : Host σ} {opts : Options} {ws : Workspace} {t s : State σ} {ref : ProjectRef}
  {W : State σ → Prop} {file : String} {kind : Context.Kind}

/-! ## Resources -/

section Resources

variable {I : State σ → Prop} (hfiles : ∀ {s}, I s → s.files = ws) (hproper : ws.Proper)

include hfiles hproper

theorem parent_of_lists {dir : String} {names : List String} (hdir : Path.Spells names dir)
    (h : Lists I dir file) : Path.parent file = dir := by
  obtain ⟨s, hs, hlisted⟩ := h
  rw [hfiles hs] at hlisted
  obtain ⟨name, hname, rfl⟩ := Workspace.mem_list hproper hlisted
  rw [(hdir.join hname).parent.2, hdir.2]

theorem isAbsolute_of_lists {dir : String} (h : Lists I dir file)
    (hfile : Path.isAbsolute file = true) : Path.isAbsolute dir = true ∧
      ∃ names, Path.Spells names file := by
  obtain ⟨s, hs, hlisted⟩ := h
  rw [hfiles hs] at hlisted
  obtain ⟨name, hname, rfl⟩ := Workspace.mem_list hproper hlisted
  rw [Path.isAbsolute_join dir hname] at hfile
  exact ⟨hfile, _, .of_join hfile hname⟩

theorem folder_of_placed {project : Project} {folder : FolderType}
    (h : Placed I project folder file) (hfile : Path.isAbsolute file = true)
    (hgiven : ∀ given, project.subset = some given → ∀ path ∈ given,
      ∃ names, Path.Spells names path) :
    Layout.isMarkup file = true ∧
      FolderType.ofFolder? (Path.baseName (Path.parent file)) = some folder := by
  have hlies : ∀ {dir names}, Path.Spells names dir → Lies I dir folder file →
      Layout.isMarkup file = true ∧
        FolderType.ofFolder? (Path.baseName (Path.parent file)) = some folder := by
    rintro dir names hdir ⟨hnamed, s, hs, hlisted, hmarkup, -⟩
    rw [parent_of_lists hfiles hproper hdir ⟨s, hs, hlisted⟩]
    exact ⟨hmarkup, hnamed⟩
  have hwithin : ∀ {resources dir}, Lists I resources dir → Lies I dir folder file →
      Layout.isMarkup file = true ∧
        FolderType.ofFolder? (Path.baseName (Path.parent file)) = some folder := by
    intro resources dir hdir hfolder
    obtain ⟨s, hs, hlisted, -⟩ := hfolder.there
    have habsolute := (isAbsolute_of_lists hfiles hproper ⟨s, hs, hlisted⟩ hfile).1
    obtain ⟨-, names, hnames⟩ := isAbsolute_of_lists hfiles hproper hdir habsolute
    exact hlies hnames hfolder
  cases h with
  | itself _ _ hmarkup hnamed => exact ⟨hmarkup, hnamed⟩
  | typed hsubset hdir hfolder =>
    obtain ⟨names, hnames⟩ := hgiven _ hsubset _ hdir
    exact hlies hnames hfolder
  | within _ _ hdir hfolder => exact hwithin hdir hfolder
  | whole _ _ hdir hfolder => exact hwithin hdir hfolder

end Resources

/-! ## Grounds of what is due -/

def Applied (host : Host σ) (t : State σ) (folder : FolderType) : Prop :=
  ∃ detector memory, MindsResources t.Serving detector ∧
    host.scans detector.className .markup = true ∧
      host.appliesToFolder detector folder memory = true

theorem reads (hs : Course t W s) (hshape : (t.project ref).chart = (host.shape ws ref.dir).chart)
    (f : Project → α) (hfixed : ∀ project, f project.fixed = f project)
    (hchart : ∀ project, f project.chart = f project) :
    f (s.project ref) = f (host.shape ws ref.dir) :=
  (hs.stands.project f hfixed ref).trans (Project.chart_congr f hchart hshape)

theorem ground_of_due (ht : t.files = ws) (hproper : ws.Proper)
    (hshape : (t.project ref).chart = (host.shape ws ref.dir).chart)
    (hgiven : ∀ given, (t.project ref).subset = some given → ∀ path ∈ given,
      ∃ names, Path.Spells names path)
    (hdue : Due (host.engine opts) (Course t W) t.Serving (Applied host t) ⟨ref, ref⟩ file kind)
    (hfile : Path.isAbsolute file = true)
    (hloose : Context.archive? (Pass.context ⟨ref, ref⟩ file kind) = none) :
    ∃ detector, Minds t.Serving kind.categories detector ∧
      Ground host opts ws ref.dir detector.className file kind := by
  have hfiles : ∀ {s}, Course t W s → s.files = ws := fun hs => hs.stands.files.trans ht
  cases hdue.reason with
  | manifest hmanifest hsupplies hparse hserves hscans =>
    obtain ⟨s, hs, hmanifest, hlibrary⟩ := hmanifest
    obtain ⟨u, hu, hsupplies⟩ := hsupplies
    obtain ⟨v, hv, hparse⟩ := hparse
    rw [reads hs hshape Project.manifest (fun _ => rfl) fun _ => rfl] at hmanifest
    rw [reads hs hshape Project.isLibrary (fun _ => rfl) fun _ => rfl] at hlibrary
    rw [hfiles hv] at hparse
    exact ⟨_, ⟨_, List.mem_cons_self, hserves⟩,
      .manifest (Pass.context ⟨ref, ref⟩ file (.markup none)) hmanifest hlibrary hsupplies rfl rfl
        hparse hscans⟩
  | resource hsupplies hplaced happlied =>
    obtain ⟨u, hu, hsupplies⟩ := hsupplies
    obtain ⟨v, hv, hplaced⟩ := hplaced
    obtain ⟨detector, memory, hserves, hscans, happlies⟩ := happlied
    have hsubset := hv.stands.project Project.subset (fun _ => rfl) ref
    obtain ⟨hmarkup, hfolder⟩ := folder_of_placed hfiles hproper hplaced hfile
      fun given h => hgiven given (hsubset.symm.trans h)
    exact ⟨detector, hserves, .resource hmarkup hfolder hsupplies hscans rfl happlies⟩
  | source hsupplies hlisted hserves hscans =>
    obtain ⟨u, hu, hsupplies⟩ := hsupplies
    obtain ⟨v, hv, hlisted⟩ := hlisted
    rw [reads hv hshape Project.sources (fun _ => rfl) fun _ => rfl, hfiles hv] at hlisted
    exact ⟨_, hserves, .source hlisted hsupplies hscans⟩
  | folderClass hsupplies hroot htail hlisted hbytes hread hsuppressed hserves hscans =>
    obtain ⟨s, hs, hsupplies⟩ := hsupplies
    obtain ⟨u, hu, hroot⟩ := hroot
    obtain ⟨v, hv, hexists, hlisted⟩ := hlisted
    obtain ⟨w, hw, hbytes⟩ := hbytes
    obtain ⟨x, -, x', hread⟩ := hread
    rw [reads hu hshape Project.classes (fun _ => rfl) fun _ => rfl] at hroot
    rw [hfiles hv] at hexists hlisted
    rw [hfiles hw] at hbytes
    exact ⟨_, ⟨_, List.mem_cons_self, hserves⟩, .folderClass hroot htail hexists hlisted hbytes
      hsupplies hread hsuppressed hscans⟩
  | archiveClass => cases hloose
  | rules _ hserves hthere =>
    obtain ⟨s, hs, hthere⟩ := hthere
    rw [hfiles hs] at hthere
    exact ⟨_, ⟨_, List.mem_cons_self, hserves⟩, .rules hthere⟩

/-! ## One phase -/

structure Backed (host : Host σ) (t : State σ) (Q : Context → Prop) (before : List Entry)
    (s : State σ) : Prop where
  scans : Sectioned Entry.scan? (fun context _ => Q context) before s
  memo : ∀ memo, s.memo = some memo →
    memo.Fits (MarkupVisitor.Calls (MindsResources t.Serving)) (Applied host t)

variable {Q : Context → Prop} {before : List Entry}

theorem unmoved_backed (host : Host σ) (t : State σ) (Q : Context → Prop) (before : List Entry) :
    Unmoved (Backed host t Q before) := by
  intro s u more hmore hall hmemo hs
  refine ⟨hs.scans.append hmore (fun entry hentry => ?_) fun _ _ => id, hmemo ▸ hs.memo⟩
  exact entry.scan?_of_aside (by rw [hall entry hentry, Bool.true_or])

theorem surveys (hhost : host.KeepsTo Action.KeepsFiles)
    {root : ProjectRef} {refs : List ProjectRef} (hrefs : (t.project root).libraries = some refs)
    (hQ : ∀ {project file kind}, Due (host.engine opts) (Course t (Backed host t Q before))
      t.Serving (Applied host t) ⟨project, root⟩ file kind →
        Q (Pass.context ⟨project, root⟩ file kind)) :
    Surveys host opts (Course t (Backed host t Q before)) Action.KeepsFiles (fun _ => True)
      t.Serving (Applied host t) root where
  toWorks := Course.works hhost (unmoved_backed host t Q before) id
  applies := fun {s detector _} _ hminds hscans happlies =>
    ⟨detector, s.host, hminds, hscans, happlies⟩
  memo := fun hs hmemo => hs.wrote.memo _ hmemo
  remembered := fun hmemo hs =>
    { hs with stands := { hs.stands with }, wrote := ⟨hs.wrote.scans, hmemo⟩ }
  told := fun _ _ _ hs => hs.write (unmoved_backed host t Q before) rfl
  scanned := fun {_ _ _} hdue {s} hs => hs.announce _
    ⟨hs.wrote.scans.opened (State.written_write s _) rfl
    (List.forall_mem_nil _) (hQ hdue), hs.wrote.memo⟩
  announced := fun _ _ hs => hs.announce _ ⟨hs.wrote.scans.write rfl fun _ _ => id, hs.wrote.memo⟩
  libraries := fun s hs => by rwa [hs.libraries opts hrefs]

theorem backed_checkPhase (hhost : host.KeepsTo Action.KeepsFiles)
    {root : ProjectRef} {refs : List ProjectRef} (hrefs : (t.project root).libraries = some refs)
    (hQ : ∀ {project file kind}, Due (host.engine opts) (Course t (Backed host t Q before))
      t.Serving (Applied host t) ⟨project, root⟩ file kind →
        Q (Pass.context ⟨project, root⟩ file kind))
    (hmemo : t.memo = none) (hs : Sectioned Entry.scan? (fun context _ => Q context) before t) :
    Course t (Backed host t Q before) (endState ((host.engine opts).checkPhase root t)) := by
  have hstart : Course t (Backed host t Q before) t := .start ⟨hs, fun memo h => by
    cases hmemo.symm.trans h⟩
  refine (surveys hhost hrefs hQ).checkPhase (hstart.announce _ ⟨hs.write rfl fun _ _ => id, ?_⟩)
  exact hstart.wrote.memo

/-! ## A run -/

def Founded (host : Host σ) (opts : Options) (ws : Workspace) (registry : Registry)
    (config : Configuration) (c : Context) : Prop :=
  ∃ name, Ground host opts ws c.project.dir name c.file c.kind ∧
    ∃ issue ∈ registry.enabledIssues config name, ∃ category ∈ c.kind.categories,
      issue.scope.contains category = true

theorem founded_of_scan {paths : List String} {scope : Option ScopeSet} {elapsed : Int}
    {new : List Entry} {c : Context} (hs : Charted host s.files s) (hproper : s.files.Proper)
    (hhost : host.KeepsTo Action.KeepsFiles)
    (hnew : (endState ((host.engine opts).analyze paths scope elapsed s)).written =
      s.written ++ new)
    (hc : c ∈ scans new) (hown : c.main = some c.project) (hloose : c.archive? = none)
    (hfile : Path.isAbsolute c.file = true) :
    s.files.canonical c.project.dir = c.project.dir ∧
      ∃ config, (endState ((host.engine opts).analyze paths scope elapsed s)).Configured c.project
          config ∧ Founded host opts s.files s.registry config c := by
  let final := endState ((host.engine opts).analyze paths scope elapsed s)
  let Q : Context → Prop := fun c => c.main = some c.project → c.archive? = none →
    Path.isAbsolute c.file = true → s.files.canonical c.project.dir = c.project.dir ∧
      ∃ config, final.Configured c.project config ∧ Founded host opts s.files s.registry config c
  have hall := sections_analyze Entry.scan? (fun context _ => Q context) hs.sound
    Entry.scan?_of_aside (fun _ _ _ _ => id) ?_ hnew
  · rw [scans, ← map_fst_sections] at hc
    obtain ⟨part, hpart, rfl⟩ := List.mem_map.1 hc
    exact hall part hpart hown hloose hfile
  · intro roots found hresolve
    have hcharted : Charted host s.files (s.begun scope) := { hs with }
    obtain ⟨hfound, hmade⟩ := Discovery.charted_resolve (.of_within hhost opts _) hcharted hresolve
    have hregistry : found.registry = s.registry := (Eligibility.framed_ready hresolve).registry
    refine ⟨_, _, found.Stands, settles_stands hhost found, { State.Stands.refl found with }, ?_⟩
    rintro before root config t hroot ⟨ht, hscans⟩ hchosen hmemo hlasting
    obtain ⟨refs, hrefs, -⟩ := Discovery.charted_links (.of_within hhost opts _) hcharted
      hresolve hroot
    obtain ⟨hproject, hdir⟩ := (hmade root hroot).project_eq
    have hphase : Course t (Backed host t Q before)
        (endState ((host.engine opts).checkPhase root t)) := by
      refine backed_checkPhase hhost
        ((ht.project Project.libraries (fun _ => rfl) root).trans hrefs) ?_ hmemo hscans
      intro project file kind hdue hown hloose hfile
      obtain rfl : root = project := Option.some.inj hown
      have hshape : (t.project root).chart = (host.shape s.files root.dir).chart := by
        rw [ht.project Project.chart (fun _ => rfl) root, ← hdir]
        exact hfound.shaped _ _ hproject
      have hgiven : ∀ given, (t.project root).subset = some given → ∀ path ∈ given,
          ∃ names, Path.Spells names path := by
        intro given h path hpath
        rw [ht.project Project.subset (fun _ => rfl) root] at h
        obtain ⟨-, hparts⟩ := Discovery.charted_points (.of_within hhost opts _) hcharted hresolve
          hproper hroot
          .refl h
        obtain ⟨spelled, -, rfl⟩ := List.mem_map.1 (hparts path hpath).1
        exact ⟨_, .resolve _ spelled⟩
      obtain ⟨detector, ⟨category, hcategory, hserves⟩, hground⟩ := ground_of_due
        (ht.files.trans hfound.files) hproper hshape hgiven hdue hfile hloose
      obtain ⟨issue, hissue, hlists, -⟩ := hchosen.issue hserves.1
      rw [ht.registry, hregistry] at hissue
      refine ⟨?_, config, hlasting _ _ hchosen.configured, detector.className, hground,
        issue, hissue,
        category, hcategory, hlists⟩
      have hcanonical := hfound.canonical hproject
      rwa [hdir] at hcanonical
    exact ⟨ht.trans hphase.stands, hphase.wrote.scans⟩

end Grounds
end ProjectLint
