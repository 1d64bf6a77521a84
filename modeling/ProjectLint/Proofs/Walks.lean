/-
The stages of a pass, gone through once. What can be said of a stage is put together from what is
said of its parts: operations that are about no file, and the event for a file with the visit that
follows it. Whatever is closed under the rules that the parts are joined by holds of all stages.

A file is due for a scan if its category is in scope and a stage comes upon it.
-/
import ProjectLint.Proofs.Upkeep

namespace ProjectLint

open Run

variable {failure : Files.Failure} {path : String}

theorem Run.eq_ok_of_attempt {x : Run σ α} {a : α} {s t : State σ}
    (h : attempt x s = .ok (.ok a) t) : x s = .ok a t := by
  rw [attempt] at h
  cases hx : x s with
  | ok b u =>
    rw [hx] at h
    cases h
    rfl
  | error fault u =>
    rw [hx] at h
    cases h

theorem Engine.parsed_of_eq_ok {e : Engine σ} {context : Context} {s t : State σ}
    {document : Option Markup.Document} (h : e.parseMarkup context s = .ok document t) :
    e.host.parseMarkup context t.files t.host = .ok document := by
  obtain ⟨-, u, -, h⟩ := bind_eq_ok h
  rw [get_bind] at h
  cases hparse : e.host.parseMarkup context u.files u.host with
  | ok other =>
    rw [hparse] at h
    cases h
    exact hparse
  | error fault =>
    rw [hparse] at h
    cases h

/-! ## Failures to read -/

theorem Files.ArchiveEntry.startsElse_of_bytes (entry : Files.ArchiveEntry) {archive : String}
    (h : entry.bytes archive = .error failure) :
    Log.startsElse failure.message = true := by
  rw [ArchiveEntry.bytes] at h
  cases hread : entry.read with
  | ok bytes =>
    rw [hread] at h
    cases h
  | error fault =>
    rw [hread] at h
    cases h
    iterate 5 refine Log.startsElse_append ?_ _
    rfl

namespace Workspace

theorem startsElse_of_bytes (ws : Workspace)
    (h : ws.bytes path = .error failure) : Log.startsElse failure.message = true := by
  rw [bytes] at h
  repeat' split at h
  all_goals cases h
  · exact Log.startsElse_append rfl _
  · exact Log.startsElse_append rfl _
  · exact Log.startsElse_append (Log.startsElse_append (Log.startsElse_append rfl _) _) _

theorem startsElse_of_archive (ws : Workspace)
    (h : ws.archive path = .error failure) : Log.startsElse failure.message = true := by
  rw [archive] at h
  split at h
  · cases h
  · cases h
    exact Log.startsElse_append (Log.startsElse_append (Log.startsElse_append rfl _) _) _

end Workspace

abbrev MindsResources (D : Scope → Detector → Prop) : Detector → Prop :=
  Minds D [.resourceFile, .allResourceFiles]

/-- What is remembered of a visitor of resources: it is a good one, and was made for a type of
folder that counts. -/
structure VisitorMemo.Fits (V : MarkupVisitor → Prop) (A : FolderType → Prop) (memo : VisitorMemo) :
    Prop where
  calls : ∀ visitor, memo.visitor = some visitor → V visitor
  counts : ∀ visitor folder, memo.visitor = some visitor → memo.folder = some folder → A folder
  inhabited : ∀ visitor, memo.visitor = some visitor → memo.detectors = [] → ∀ folder, A folder

theorem MarkupVisitor.detectors_addElements (visitor : MarkupVisitor) (detector : Detector)
    (filter : NameFilter) :
    (visitor.addElements detector filter).detectors = visitor.detectors := by
  cases filter <;> rfl

theorem MarkupVisitor.detectors_addAttributes (visitor : MarkupVisitor) (detector : Detector)
    (filter : NameFilter) :
    (visitor.addAttributes detector filter).detectors = visitor.detectors := by
  cases filter <;> rfl

namespace Engine

open Run Journal

variable {e : Engine σ} {pass : Pass}
variable {categories : List Scope} {detectors : List Detector} {folder : FolderType}

/-! ## Reasons for a scan -/

def Lists (I : State σ → Prop) (dir file : String) : Prop :=
  Shown I fun s => file ∈ s.files.list dir

structure Lies (I : State σ → Prop) (dir : String) (folder : FolderType)
    (file : String) : Prop where
  named : FolderType.ofFolder? (Path.baseName dir) = some folder
  there : Shown I fun s =>
    file ∈ s.files.list dir ∧ Layout.isMarkup file = true ∧ s.files.isFile file = true

/-- Where a resource of a project is: it is given, lies in a given folder of a type or of resources,
or in a folder of resources of a project that is checked as a whole. -/
inductive Placed (I : State σ → Prop) (project : Project) (folder : FolderType) (file : String) :
    Prop
  | itself {given : List String} : project.subset = some given → file ∈ given →
      Layout.isMarkup file = true →
      FolderType.ofFolder? (Path.baseName (Path.parent file)) = some folder →
      Placed I project folder file
  | typed {given : List String} {dir : String} : project.subset = some given → dir ∈ given →
      Lies I dir folder file → Placed I project folder file
  | within {given : List String} {resources dir : String} : project.subset = some given →
      resources ∈ given → Lists I resources dir → Lies I dir folder file →
      Placed I project folder file
  | whole {resources dir : String} : project.subset = none → resources ∈ project.resources →
      Lists I resources dir → Lies I dir folder file → Placed I project folder file

inductive Reason (e : Engine σ) (I : State σ → Prop) (D : Scope → Detector → Prop)
    (A : FolderType → Prop) (pass : Pass) : String → Context.Kind → Prop
  | manifest {file : String} {document : Markup.Document} {detector : Detector} :
      (Shown I fun s => (s.project pass.project).manifest = some file ∧
        (s.project pass.project).isLibrary = false) →
      (Shown I fun s => e.host.supplies .markup s.host = true) →
      (Shown I fun s => e.host.parseMarkup (pass.context file (.markup none)) s.files s.host =
        .ok (some document)) →
      D .manifest detector → e.host.scans detector.className .markup = true →
      Reason e I D A pass file (.markup none)
  | resource {file : String} {folder : FolderType} :
      (Shown I fun s => e.host.supplies .markup s.host = true) →
      (Shown I fun s => Placed I (s.project pass.project) folder file) → A folder →
      Reason e I D A pass file (.markup (some folder))
  | source {file : String} {detector : Detector} :
      (Shown I fun s => e.host.supplies .source s.host = true) →
      (Shown I fun s => file ∈ (s.project pass.project).sources.flatMap fun folder =>
        s.files.gather folder Layout.sourceTail) →
      Minds D [.javaFile, .allJavaFiles] detector →
      e.host.scans detector.className .source = true → Reason e I D A pass file .source
  | folderClass {file root : String} {bytes : Bytes} {parsed : Bytecode.ClassFile}
      {detector : Detector} :
      (Shown I fun s => e.host.supplies .bytecode s.host = true) →
      (Shown I fun s => root ∈ (s.project pass.project).classes) →
      Text.endsWith root Layout.archiveTail = false →
      (Shown I fun s => s.files.exists? root = true ∧ file ∈ s.files.gather root Layout.classTail) →
      (Shown I fun s => s.files.bytes file = .ok bytes) →
      (Shown I fun s => ∃ t, e.readClass bytes s = .ok parsed t) →
      Suppression.inBytecode none parsed.annotations = false →
      D .classFile detector → e.host.scans detector.className .bytecode = true →
      Reason e I D A pass file (.bytecode none root bytes parsed)
  | archiveClass {file archive : String} {bytes : Bytes} {parsed : Bytecode.ClassFile} :
      (Shown I fun s => archive ∈ (s.project pass.project).classes) →
      Text.endsWith archive Layout.archiveTail = true →
      Reason e I D A pass file (.bytecode (some archive) archive bytes parsed)
  | rules {detector : Detector} : pass.project = pass.main → D .proguardFile detector →
      (Shown I fun s => s.files.isFile (Path.join pass.project.dir Layout.shrinkerRules) = true) →
      Reason e I D A pass (Path.join pass.project.dir Layout.shrinkerRules) .plain

structure Due (e : Engine σ) (I : State σ → Prop) (D : Scope → Detector → Prop)
    (A : FolderType → Prop) (pass : Pass) (file : String) (kind : Context.Kind) : Prop where
  inScope : Shown I fun s => kind.categories.any s.scope.contains = true
  reason : Reason e I D A pass file kind

/-! ## Judgements and their rules -/

/-- What is said of operations and of what they handle. A stage is an operation that may stand in a
pass; one that is about no file yields results with a property. -/
structure Judgement (σ : Type) where
  state : State σ → Prop
  minds : Scope → Detector → Prop
  counts : FolderType → Prop
  kinds : Context.Kind → Prop
  checks : List Scope → List Detector → Prop
  markup : List Scope → MarkupVisitor → Prop
  source : SourceVisitor → Prop
  stage : Run σ Unit → Prop
  yields : ∀ {α : Type}, Run σ α → (α → Prop) → Prop

structure Inquiry (e : Engine σ) (j : Judgement σ) : Prop where
  give : ∀ {α : Type} {a : α} {Q : α → Prop}, Q a → j.yields (pure a) Q
  bind : ∀ {α β : Type} {x : Run σ α} {f : α → Run σ β} {Q : α → Prop} {R : β → Prop},
    j.yields x Q → (∀ a, Q a → j.yields (f a) R) → j.yields (x >>= f) R
  look : j.yields get j.state
  ask : ∀ {categories detectors detector hook}, j.checks categories detectors →
    detector ∈ detectors → categories ⊆ hook.categories → hook.context? = none →
    j.yields (e.ask detector hook) fun _ => True
  sublist : ∀ {categories detectors others}, j.checks categories detectors →
    List.Sublist others detectors → j.checks categories others
  mind : ∀ {categories detectors}, j.checks categories detectors →
    ∀ detector ∈ detectors, Minds j.minds categories detector
  markup : ∀ {categories visitor}, j.checks categories visitor.detectors →
    visitor.Calls (· ∈ visitor.detectors) → j.markup categories visitor
  source : ∀ {visitor}, j.checks [.javaFile, .allJavaFiles] visitor.detectors →
    visitor.Calls (· ∈ visitor.detectors) → j.source visitor

/-- A judgement that can be taken through the use of remembered visitors. A type of folder counts if
a detector of resources applies to it. -/
structure Recall (e : Engine σ) (j : Judgement σ) : Prop extends Inquiry e j where
  applies : ∀ {s detector folder}, j.state s → MindsResources j.minds detector →
    e.host.scans detector.className .markup = true →
    e.host.appliesToFolder detector folder s.host = true → j.counts folder
  memo : ∀ {s memo}, j.state s → s.memo = some memo →
    memo.Fits (j.markup [.resourceFile, .allResourceFiles]) j.counts
  remember : ∀ {change : State σ → Option VisitorMemo}, (∀ s, j.state s → ∀ known,
      change s = some known → known.Fits (j.markup [.resourceFile, .allResourceFiles]) j.counts) →
    j.yields (modify fun s => { s with memo := change s }) fun _ => True

/-- A judgement that can be taken through the stages of a pass, as far as they scan files of its
kinds. -/
structure Walk (e : Engine σ) (pass : Pass) (j : Judgement σ) : Prop extends Inquiry e j where
  done : j.stage (pure ())
  andThen : ∀ {α : Type} {x : Run σ α} {f : α → Run σ Unit} {Q : α → Prop}, j.yields x Q →
    (∀ a, Q a → j.stage (f a)) → j.stage (x >>= f)
  guarded : ∀ {x y}, j.stage x → j.stage y → j.stage (x >>= fun _ => unlessCanceled y)
  each : ∀ {α : Type} (elements : List α) {f : α → Run σ Unit}, (∀ a ∈ elements, j.stage (f a)) →
    j.stage (eachUntilCanceled elements f)
  log : ∀ {error message}, Log.complains error message = false → j.stage (e.log error message none)
  listed : ∀ {path archive fault s}, j.state s → s.files.archive path = .ok archive →
    archive.list = .error fault → j.stage (throw (.archive fault))
  read : ∀ document, j.yields (changeProject pass.project (·.readManifest document)) fun _ => True
  parse : ∀ context, j.yields (e.parseMarkup context) fun document =>
    Shown j.state fun s => e.host.parseMarkup context s.files s.host = .ok document
  readClass : ∀ bytes, j.yields (attempt (e.readClass bytes)) fun outcome => ∀ parsed,
    outcome = .ok parsed → Shown j.state fun s => ∃ t, e.readClass bytes s = .ok parsed t
  bucket : ∀ {category s t}, j.state s → [category].any s.scope.contains = true → j.state t →
    j.checks [category] (t.selection.bucket category)
  merged : ∀ {first second s t}, first.counterpart? = some second →
    second.counterpart? = some first → j.state s → [first, second].any s.scope.contains = true →
    j.state t → j.checks [first, second] (t.selection.merged first second)
  scanMarkup : ∀ {file folder visitor} parsed, j.kinds (.markup folder) →
    Due e j.state j.minds j.counts pass file (.markup folder) →
    j.markup (Context.Kind.markup folder).categories visitor →
    j.stage (do
      e.fire .scanningFile (some (pass.context file (.markup folder)))
      let _ ← e.visitMarkup visitor (pass.context file (.markup folder)) parsed
      pure ())
  scanSource : ∀ {file visitor}, j.kinds .source →
    Due e j.state j.minds j.counts pass file .source → j.source visitor →
    j.stage (e.scanSource pass visitor file)
  scanClass : ∀ {file archive root bytes parsed detectors},
    j.kinds (.bytecode archive root bytes parsed) →
    Due e j.state j.minds j.counts pass file (.bytecode archive root bytes parsed) →
    j.checks [.classFile] detectors →
    let context := pass.context file (.bytecode archive root bytes parsed)
    j.stage (do
      e.fire .scanningFile (some context)
      eachUntilCanceled detectors (e.checkWith context (.classFile context parsed)))
  scanRules : ∀ {file detectors}, j.kinds .plain →
    Due e j.state j.minds j.counts pass file .plain → j.checks [.proguardFile] detectors →
    j.stage (do
      e.fire .scanningFile (some (pass.context file))
      Run.each detectors (e.checkWith (pass.context file) (.run (pass.context file))))

variable {j : Judgement σ}

theorem Judgement.stage.ite {x y : Run σ Unit} {c : Prop} [Decidable c] (hx : c → j.stage x)
    (hy : ¬ c → j.stage y) : j.stage (if c then x else y) :=
  iteInduction hx hy

/-! ## Visitors -/

namespace Inquiry

variable (q : Inquiry e j)

include q

theorem answer {detector : Detector} {hook : State σ → Hook} {answer : State σ → β} {Q : β → Prop}
    (hchecks : j.checks categories detectors) (hdetector : detector ∈ detectors)
    (hhook : ∀ s, categories ⊆ (hook s).categories ∧ (hook s).context? = none)
    (hanswer : ∀ s, j.state s → Q (answer s)) :
    j.yields (get >>= fun s => e.ask detector (hook s) >>= fun _ => pure (answer s)) Q :=
  q.bind q.look fun s hs => q.bind (q.ask hchecks hdetector (hhook s).1 (hhook s).2)
    fun _ _ => q.give (hanswer s hs)

theorem markupVisitor (hcategories : categories ⊆ Hook.elementNames.categories)
    (hchecks : j.checks categories detectors) :
    j.yields (e.markupVisitor detectors) (j.markup categories) := by
  have hfill : ∀ (rest : List Detector) (visitor : MarkupVisitor),
      (∀ detector ∈ rest, detector ∈ detectors) → visitor.detectors = detectors →
      visitor.Calls (· ∈ detectors) →
      j.yields (e.fillMarkupVisitor visitor rest) (j.markup categories) := by
    intro rest
    induction rest with
    | nil =>
      rintro visitor - rfl hcalls
      exact q.give (q.markup hchecks hcalls)
    | cons detector rest ih =>
      intro visitor hrest hsame hcalls
      obtain ⟨hfirst, hothers⟩ := List.forall_mem_cons.1 hrest
      rw [fillMarkupVisitor]
      have helements : j.yields (e.elementNames detector) fun _ => True :=
        q.answer hchecks hfirst (fun _ => ⟨hcategories, rfl⟩) fun _ _ => trivial
      have hattributes : j.yields (e.attributeNames detector) fun _ => True :=
        q.answer hchecks hfirst (fun _ => ⟨hcategories, rfl⟩) fun _ _ => trivial
      refine q.bind helements fun elements _ => q.bind hattributes fun attributes _ =>
        ih _ hothers ?_ ?_
      · rw [MarkupVisitor.detectors_addAttributes, MarkupVisitor.detectors_addElements, hsame]
      · exact (hcalls.addElements hfirst elements).addAttributes hfirst attributes
  have hempty : ∀ entry ∈ ([] : NameTable), entry.2 ∈ detectors := List.forall_mem_nil _
  exact hfill detectors { detectors } (fun _ => id) rfl
    ⟨fun _ => id, hempty, hempty, List.forall_mem_nil _, List.forall_mem_nil _⟩

theorem sourceVisitor (hchecks : j.checks [.javaFile, .allJavaFiles] detectors) :
    j.yields (e.sourceVisitor detectors) j.source := by
  have hfill : ∀ (rest : List Detector) (visitor : SourceVisitor),
      (∀ detector ∈ rest, detector ∈ detectors) → visitor.detectors = detectors →
      visitor.Calls (· ∈ detectors) →
      j.yields (e.fillSourceVisitor visitor rest) j.source := by
    intro rest
    induction rest with
    | nil =>
      rintro visitor - rfl hcalls
      exact q.give (q.source hchecks hcalls)
    | cons detector rest ih =>
      intro visitor hrest hsame hcalls
      obtain ⟨hfirst, hothers⟩ := List.forall_mem_cons.1 hrest
      rw [fillSourceVisitor]
      have htypes : j.yields (e.nodeTypes detector) fun _ => True :=
        q.answer hchecks hfirst (fun _ => ⟨List.Subset.refl _, rfl⟩) fun _ _ => trivial
      refine q.bind htypes fun types _ => ih _ hothers hsame ⟨hcalls.detectors, ?_⟩
      refine List.forall_mem_append.2 ⟨hcalls.byType, ?_⟩
      exact List.forall_mem_map.2 fun _ _ => hfirst
  exact hfill detectors { detectors } (fun _ => id) rfl ⟨fun _ => id, List.forall_mem_nil _⟩

end Inquiry

def Judgement.ForFolder (j : Judgement σ) (folder : FolderType)
    (found : Option MarkupVisitor) : Prop :=
  ∀ visitor, found = some visitor →
    j.markup [.resourceFile, .allResourceFiles] visitor ∧ j.counts folder

namespace Recall

variable (q : Recall e j)

include q

theorem applicable (folder : FolderType) {checks : List Detector}
    (hchecks : j.checks [.resourceFile, .allResourceFiles] checks)
    (hcan : ∀ detector ∈ checks, e.host.scans detector.className .markup = true) :
    j.yields (e.applicable folder checks) fun detectors =>
      List.Sublist detectors checks ∧ (detectors ≠ [] → j.counts folder) := by
  induction checks with
  | nil => exact q.give ⟨.slnil, fun hnil => absurd rfl hnil⟩
  | cons detector rest ih =>
    obtain ⟨hfirst, hrest⟩ := List.forall_mem_cons.1 hcan
    have hminds := q.mind hchecks detector List.mem_cons_self
    rw [Engine.applicable]
    have hasked : j.yields (e.appliesToFolder detector folder)
        fun answer => answer = true → j.counts folder :=
      q.answer hchecks List.mem_cons_self (fun _ => ⟨List.Subset.refl _, rfl⟩)
        fun s hs => q.applies hs hminds hfirst
    refine q.bind hasked fun answer hanswer => ?_
    refine q.bind (ih (q.sublist hchecks (List.sublist_cons_self _ _)) hrest) fun others hothers =>
      q.give ?_
    cases answer with
    | false => exact ⟨hothers.1.cons detector, hothers.2⟩
    | true => exact ⟨hothers.1.cons_cons detector, fun _ => hanswer rfl⟩

theorem newVisitor (hdetectors : j.checks [.resourceFile, .allResourceFiles] detectors)
    (hfolder : detectors ≠ [] → j.counts folder) :
    j.yields (e.newVisitor folder detectors) (j.ForFolder folder) := by
  have hremember : ∀ found, j.ForFolder folder found → (detectors = [] → found = none) →
      j.yields (do
        modify fun s => { s with memo := some ⟨some folder, detectors, found⟩ }
        return found : Run σ (Option MarkupVisitor)) (j.ForFolder folder) := by
    intro found hfound hempty
    refine q.bind (q.remember fun _ _ known hknown => ?_) fun _ _ => q.give hfound
    cases hknown
    refine ⟨fun visitor hvisitor => (hfound visitor hvisitor).1,
      fun visitor other hvisitor hother => ?_, fun visitor hvisitor hnil => ?_⟩
    · cases hother
      exact (hfound visitor hvisitor).2
    · cases (hempty hnil).symm.trans hvisitor
  cases detectors with
  | nil => exact hremember none (fun _ hnone => by cases hnone) fun _ => rfl
  | cons detector rest =>
    have hvisitor := q.markupVisitor (List.subset_cons_self _ _) hdetectors
    refine q.bind (q.bind hvisitor fun visitor hgood => q.give ?_) fun found hfound =>
      hremember found hfound fun hnil => by cases hnil
    intro other hother
    cases hother
    exact ⟨hgood, hfolder (List.cons_ne_nil _ _)⟩

theorem folderVisitor (folder : FolderType) {checks : List Detector}
    (hchecks : j.checks [.resourceFile, .allResourceFiles] checks)
    (hcan : ∀ detector ∈ checks, e.host.scans detector.className .markup = true) :
    j.yields (e.folderVisitor checks folder) (j.ForFolder folder) := by
  have happlicable := q.applicable folder hchecks hcan
  refine q.bind q.look fun s hs => ?_
  cases hmemo : s.memo with
  | none =>
    exact q.bind happlicable fun detectors hdetectors =>
      q.newVisitor (q.sublist hchecks hdetectors.1) hdetectors.2
  | some memo =>
    have hfits := q.memo hs hmemo
    dsimp only
    by_cases hsame : memo.folder = some folder
    · rw [if_pos hsame]
      exact q.give fun visitor hvisitor =>
        ⟨hfits.calls visitor hvisitor, hfits.counts visitor folder hvisitor hsame⟩
    · rw [if_neg hsame]
      refine q.bind happlicable fun detectors hdetectors => ?_
      by_cases hequal : memo.detectors = detectors
      · rw [if_pos hequal]
        have hcounts : ∀ visitor, memo.visitor = some visitor → j.counts folder := by
          intro visitor hvisitor
          by_cases hnil : memo.detectors = []
          · exact hfits.inhabited visitor hvisitor hnil folder
          · exact hdetectors.2 (hequal ▸ hnil)
        refine q.bind (q.remember fun _ _ known hknown => ?_) fun _ _ => q.give
          fun visitor hvisitor => ⟨hfits.calls visitor hvisitor, hcounts visitor hvisitor⟩
        cases hknown
        refine { hfits with counts := fun visitor other hvisitor hother => ?_ }
        cases hother
        exact hcounts visitor hvisitor
      · rw [if_neg hequal]
        exact q.newVisitor (q.sublist hchecks hdetectors.1) hdetectors.2

end Recall

namespace Walk

variable (w : Walk e pass j)

include w

theorem inspect {k : State σ → Run σ Unit} (h : ∀ s, j.state s → j.stage (k s)) :
    j.stage (get >>= k) :=
  w.andThen w.look h

theorem project {ref : ProjectRef} {k : Project → Run σ Unit}
    (h : ∀ s, j.state s → j.stage (k (s.project ref))) : j.stage (getProject ref >>= k) := by
  rw [getProject, bind_assoc]
  refine w.inspect fun s hs => ?_
  rw [pure_bind]
  exact h s hs

theorem ifInScope {scopes : List Scope} {x : Run σ Unit}
    (h : ∀ s, j.state s → scopes.any s.scope.contains = true → j.stage x) :
    j.stage (inScope scopes >>= fun holds => if holds = true then x else pure ()) := by
  rw [inScope, bind_assoc]
  refine w.inspect fun s hs => ?_
  rw [pure_bind]
  exact .ite (h s hs) fun _ => w.done

theorem scanners (scanner : Scanner) (hchecks : j.checks categories detectors) :
    j.checks categories (e.scanners detectors scanner) ∧ ∀ detector ∈ e.scanners detectors scanner,
        e.host.scans detector.className scanner = true :=
  ⟨w.sublist hchecks List.filter_sublist, fun _ hdetector => (List.mem_filter.1 hdetector).2⟩

/-! ## Manifest and shrinker rules -/

theorem checkManifest (hkind : j.kinds (.markup none)) : j.stage (e.checkManifest pass) := by
  rw [Engine.checkManifest]
  refine w.project fun s hs => ?_
  cases hmanifest : (s.project pass.project).manifest with
  | none => exact w.done
  | some file =>
    refine .ite (fun _ => w.done) fun hlibrary => w.inspect fun t ht =>
      .ite (fun hsupplies => w.andThen (w.parse _) fun document hparse => ?_) fun _ => w.log rfl
    cases document with
    | none => exact w.done
    | some document =>
      refine w.andThen (w.read document) fun _ _ => w.ifInScope fun u hu hscope =>
        w.inspect fun v hv => ?_
      obtain ⟨hchecks, hcan⟩ := w.scanners .markup (w.bucket hu hscope hv)
      generalize e.scanners (v.selection.bucket .manifest) .markup = detectors at hchecks hcan ⊢
      cases detectors with
      | nil => exact w.done
      | cons detector rest =>
        obtain ⟨category, hcategory, hminds⟩ := w.mind hchecks detector List.mem_cons_self
        cases List.mem_singleton.1 hcategory
        have hdue : Due e j.state j.minds j.counts pass file (.markup none) :=
          ⟨⟨u, hu, hscope⟩, .manifest ⟨s, hs, hmanifest, Bool.eq_false_iff.2 hlibrary⟩
            ⟨t, ht, hsupplies⟩ hparse hminds (hcan detector List.mem_cons_self)⟩
        exact w.andThen (w.markupVisitor (markup_categories_subset none) hchecks)
          fun visitor hvisitor => w.scanMarkup _ hkind hdue hvisitor

theorem checkShrinkerRules (hkind : j.kinds .plain) : j.stage (e.checkShrinkerRules pass) := by
  refine .ite (fun hown => w.ifInScope fun s hs hscope => w.inspect fun t ht => ?_) fun _ => w.done
  have hchecks := w.bucket hs hscope ht
  dsimp only
  generalize t.selection.bucket .proguardFile = detectors at hchecks ⊢
  cases detectors with
  | nil => exact w.done
  | cons detector rest =>
    refine .ite (fun hfile => ?_) fun _ => w.done
    obtain ⟨category, hcategory, hminds⟩ := w.mind hchecks detector List.mem_cons_self
    cases List.mem_singleton.1 hcategory
    exact w.scanRules hkind ⟨⟨s, hs, hscope⟩, .rules hown hminds ⟨t, ht, hfile⟩⟩ hchecks

/-! ## Source code -/

theorem stage {scopes : List Scope} {choice : Selection → List Detector} {scanner : Scanner}
    {missing : String} {check : List Detector → Run σ Unit}
    (hchoice : ∀ {s t}, j.state s → scopes.any s.scope.contains = true → j.state t →
      j.checks scopes (choice t.selection))
    (hmissing : Log.complains none missing = false)
    (hcheck : ∀ {s u detector rest}, j.state s → scopes.any s.scope.contains = true →
      j.checks scopes (detector :: rest) →
      (∀ d ∈ detector :: rest, e.host.scans d.className scanner = true) →
      j.state u → e.host.supplies scanner u.host = true → j.stage (check (detector :: rest))) :
    j.stage (e.stage scopes choice scanner missing check) := by
  refine w.ifInScope fun s hs hscope => w.inspect fun t ht => ?_
  obtain ⟨hchecks, hcan⟩ := w.scanners scanner (hchoice hs hscope ht)
  generalize e.scanners (choice t.selection) scanner = detectors at hchecks hcan ⊢
  cases detectors with
  | nil => exact w.done
  | cons detector rest =>
    exact w.inspect fun u hu => .ite (hcheck hs hscope hchecks hcan hu) fun _ => w.log hmissing

theorem checkSources (hkind : j.kinds .source) : j.stage (e.checkSources pass) := by
  refine w.stage (w.merged rfl rfl) rfl fun hs hscope hchecks hcan hu hsupplies =>
    w.inspect fun v hv => ?_
  dsimp only
  cases hfiles : (v.project pass.project).sources.flatMap fun folder =>
      v.files.gather folder Layout.sourceTail with
  | nil => exact w.done
  | cons file files =>
    refine w.andThen (w.sourceVisitor hchecks) fun visitor hvisitor => w.each _ fun file hfile => ?_
    rw [← hfiles] at hfile
    exact w.scanSource hkind ⟨⟨_, hs, hscope⟩, .source ⟨_, hu, hsupplies⟩ ⟨v, hv, hfile⟩
      (w.mind hchecks _ List.mem_cons_self) (hcan _ List.mem_cons_self)⟩ hvisitor

/-! ## Compiled classes -/

section Classes

variable (hkind : ∀ archive root bytes parsed, j.kinds (.bytecode archive root bytes parsed))
  {s₀ : State σ} {checks : List Detector} (hs₀ : j.state s₀)
  (hscope : [Scope.classFile].any s₀.scope.contains = true)
  (hchecks : j.checks [.classFile] checks)

include hkind hs₀ hscope hchecks

theorem checkClass {origin : ClassOrigin} {file : String} {bytes : Bytes}
    (hreason : ∀ parsed, (Shown j.state fun s => ∃ t, e.readClass bytes s = .ok parsed t) →
      Suppression.inBytecode none parsed.annotations = false →
      Reason e j.state j.minds j.counts pass file
        (.bytecode origin.archive origin.root bytes parsed)) :
    j.stage (e.checkClass pass checks origin file bytes) := by
  refine w.andThen (w.readClass bytes) fun outcome hshown => ?_
  cases outcome with
  | error fault => exact w.log rfl
  | ok parsed =>
    refine .ite (fun _ => w.done) fun hsuppressed => ?_
    exact w.scanClass (hkind _ _ _ _) ⟨⟨s₀, hs₀, hscope⟩, hreason parsed (hshown parsed rfl)
      (Bool.eq_false_iff.2 hsuppressed)⟩ hchecks

theorem checkArchive (hpath : Shown j.state fun s => path ∈ (s.project pass.project).classes)
    (htail : Text.endsWith path Layout.archiveTail = true) :
    j.stage (e.checkArchive pass checks path) := by
  refine w.inspect fun s hs => ?_
  cases harchive : s.files.archive path with
  | error failure =>
    exact w.log (Log.complains_of_startsElse (s.files.startsElse_of_archive harchive) _)
  | ok archive =>
    dsimp only
    cases hlist : archive.list with
    | error fault => exact w.listed hs harchive hlist
    | ok entries =>
      refine w.each _ fun entry _ => .ite (fun _ => ?_) fun _ => w.done
      cases hbytes : entry.bytes path with
      | ok bytes =>
        exact w.checkClass hkind hs₀ hscope hchecks fun _ _ _ => .archiveClass hpath htail
      | error failure =>
        exact w.log (Log.complains_of_startsElse (entry.startsElse_of_bytes hbytes) _)

theorem checkClassFolder {s₁ : State σ} (hs₁ : j.state s₁)
    (hsupplies : e.host.supplies .bytecode s₁.host = true) {detector : Detector}
    (hdetector : detector ∈ checks) (hcan : e.host.scans detector.className .bytecode = true)
    {root : String} (hroot : Shown j.state fun s => root ∈ (s.project pass.project).classes)
    (htail : Text.endsWith root Layout.archiveTail = false) :
    j.stage (e.checkClassFolder pass checks root) := by
  obtain ⟨category, hcategory, hminds⟩ := w.mind hchecks detector hdetector
  cases List.mem_singleton.1 hcategory
  refine w.inspect fun s hs => .ite (fun hexists => ?_) fun _ => w.log
    (Log.complains_of_startsElse (Log.startsElse_append (Log.startsElse_append rfl _) _) _)
  refine w.each _ fun file hfile => w.inspect fun t ht => ?_
  cases hbytes : t.files.bytes file with
  | error failure =>
    exact w.log (Log.complains_of_startsElse (t.files.startsElse_of_bytes hbytes) _)
  | ok bytes =>
    refine w.checkClass hkind hs₀ hscope hchecks fun parsed hparsed hsuppressed => ?_
    exact .folderClass ⟨s₁, hs₁, hsupplies⟩ hroot htail ⟨s, hs, hexists, hfile⟩ ⟨t, ht, hbytes⟩
      hparsed hsuppressed hminds hcan

end Classes

theorem checkClasses
    (hkind : ∀ archive root bytes parsed, j.kinds (.bytecode archive root bytes parsed)) :
    j.stage (e.checkClasses pass) := by
  refine w.stage w.bucket rfl fun hs hscope hchecks hcan hu hsupplies => w.project fun v hv => ?_
  refine w.each _ fun path hpath => .ite (fun htail => ?_) fun htail => ?_
  · exact w.checkArchive hkind hs hscope hchecks ⟨v, hv, hpath⟩ htail
  · exact w.checkClassFolder hkind hs hscope hchecks hu hsupplies List.mem_cons_self
      (hcan _ List.mem_cons_self) ⟨v, hv, hpath⟩ (Bool.eq_false_iff.2 htail)

end Walk

/-! ## Resources -/

structure ResourceWalk (e : Engine σ) (pass : Pass) (j : Judgement σ) : Prop
    extends Walk e pass j, Recall e j

namespace ResourceWalk

variable (w : ResourceWalk e pass j)

include w

section Folders

variable (hkind : ∀ folder, j.kinds (.markup (some folder))) {s₀ s₁ s₂ : State σ}
  {source : VisitorSource σ} (hs₀ : j.state s₀)
  (hscope : [Scope.resourceFile, .allResourceFiles].any s₀.scope.contains = true)
  (hs₁ : j.state s₁) (hsupplies : e.host.supplies .markup s₁.host = true) (hs₂ : j.state s₂)
  (hsource : ∀ folder, j.yields (source folder) (j.ForFolder folder))

include hkind hs₀ hscope hs₁ hsupplies hs₂

theorem scanResource {visitor : MarkupVisitor} {file : String}
    (hvisitor : j.markup [.resourceFile, .allResourceFiles] visitor) (hfolder : j.counts folder)
    (hplaced : Placed j.state (s₂.project pass.project) folder file) :
    j.stage (e.scanResource pass visitor folder file) :=
  w.scanMarkup none (hkind folder)
    ⟨⟨s₀, hs₀, hscope⟩, .resource ⟨s₁, hs₁, hsupplies⟩ ⟨s₂, hs₂, hplaced⟩ hfolder⟩ hvisitor

include hsource

theorem checkTypeFolder {dir : String}
    (hnamed : FolderType.ofFolder? (Path.baseName dir) = some folder)
    (hplaced : ∀ file, Lies j.state dir folder file →
      Placed j.state (s₂.project pass.project) folder file) :
    j.stage (e.checkTypeFolder pass source dir folder) := by
  refine w.inspect fun s hs => ?_
  dsimp only
  have hfiles : ∀ file ∈ (s.files.list dir).filter fun file =>
      Layout.isMarkup file && s.files.isFile file,
        Placed j.state (s₂.project pass.project) folder file := by
    intro file hfile
    obtain ⟨hlisted, hboth⟩ := List.mem_filter.1 hfile
    obtain ⟨hmarkup, hthere⟩ := Bool.and_eq_true_iff.1 hboth
    exact hplaced file ⟨hnamed, s, hs, hlisted, hmarkup, hthere⟩
  generalize (s.files.list dir).filter _ = files at hfiles ⊢
  cases files with
  | nil => exact w.done
  | cons file rest =>
    refine w.andThen (hsource folder) fun found hfound => ?_
    cases found with
    | none => exact w.done
    | some visitor =>
      obtain ⟨hvisitor, hfolder⟩ := hfound visitor rfl
      exact w.each _ fun file hfile => w.scanResource hkind hs₀ hscope hs₁ hsupplies hs₂ hvisitor
        hfolder (hfiles file hfile)

theorem checkResourceFolder {resources : String}
    (hplaced : ∀ dir folder file, Lists j.state resources dir → Lies j.state dir folder file →
      Placed j.state (s₂.project pass.project) folder file) :
    j.stage (e.checkResourceFolder pass source resources) := by
  refine w.inspect fun s hs => w.each _ fun dir hdir => w.inspect fun t _ =>
    .ite (fun _ => ?_) fun _ => w.done
  cases hnamed : FolderType.ofFolder? (Path.baseName dir) with
  | none => exact w.done
  | some folder =>
    exact w.checkTypeFolder hkind hs₀ hscope hs₁ hsupplies hs₂ hsource hnamed fun file =>
      hplaced dir folder file ⟨s, hs, hdir⟩

theorem checkGivenResource {given : List String}
    (hgiven : (s₂.project pass.project).subset = some given) (hpath : path ∈ given) :
    j.stage (e.checkGivenResource pass source path) := by
  refine w.inspect fun s hs => .ite (fun _ => ?_) fun _ => .ite (fun hfile => ?_) fun _ => w.done
  · have hmessage : Log.complains none ("Unexpected folder " ++ path ++
        "; should be project, \"res\" folder or resource folder") = false :=
      Log.complains_of_startsElse (Log.startsElse_append (Log.startsElse_append rfl _) _) _
    have hother := Judgement.stage.ite (c := Path.baseName path = Layout.resources)
      (fun _ => w.checkResourceFolder hkind hs₀ hscope hs₁ hsupplies hs₂ hsource
        fun _ _ _ => .within hgiven hpath)
      fun _ => w.log hmessage
    cases hnamed : FolderType.ofFolder? (Path.baseName path) with
    | none => exact hother
    | some folder =>
      cases Path.baseName (Path.parent path) == Layout.resources with
      | false => exact hother
      | true =>
        exact w.checkTypeFolder hkind hs₀ hscope hs₁ hsupplies hs₂ hsource hnamed
          fun _ => .typed hgiven hpath
  · cases hnamed : FolderType.ofFolder? (Path.baseName (Path.parent path)) with
    | none => exact w.done
    | some folder =>
      refine w.andThen (hsource folder) fun found hfound => ?_
      cases found with
      | none => exact w.done
      | some visitor =>
        obtain ⟨hvisitor, hfolder⟩ := hfound visitor rfl
        have hmarkup := (Bool.and_eq_true_iff.1 hfile).2
        exact w.scanResource hkind hs₀ hscope hs₁ hsupplies hs₂ hvisitor hfolder
          (.itself hgiven hpath hmarkup hnamed)

end Folders

theorem checkResources (hkind : ∀ folder, j.kinds (.markup (some folder))) :
    j.stage (e.checkResources pass) := by
  refine w.stage (w.merged rfl rfl) rfl fun hs hscope hchecks hcan hu hsupplies => ?_
  refine w.andThen (w.remember fun v hv known hknown => ?_) fun _ _ => w.project fun v hv => ?_
  · obtain ⟨memo, hmemo, rfl⟩ := Option.map_eq_some_iff.1 hknown
    exact { w.memo hv hmemo with counts := fun _ _ _ hnone => by cases hnone }
  · have hsource := fun folder => w.folderVisitor folder hchecks hcan
    cases hsubset : (v.project pass.project).subset with
    | some files =>
      exact w.each _ fun path hpath =>
        w.checkGivenResource hkind hs hscope hu hsupplies hv hsource hsubset hpath
    | none =>
      exact w.each _ fun resources hresources => w.checkResourceFolder hkind hs hscope hu
        hsupplies hv hsource fun _ _ _ => .whole hsubset hresources

theorem checkFiles (hkind : ∀ kind, j.kinds kind) : j.stage (e.checkFiles pass) :=
  w.guarded (w.checkManifest (hkind _)) <|
    w.guarded (w.checkResources fun _ => hkind _) <|
      w.guarded (w.checkSources (hkind _)) <|
        w.guarded (w.checkClasses fun _ _ _ _ => hkind _) (w.checkShrinkerRules (hkind _))

end ResourceWalk
end Engine
end ProjectLint
