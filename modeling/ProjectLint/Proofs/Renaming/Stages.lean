/-
The stages of a pass and the phase of a project, followed in two runs at once. Beside the names, the
runs may differ in what a manifest, a client or an earlier run has left in a project; the files of a
pass do not depend on it. Stages look at the cancellation of the run between one piece of work and
the next, so they are in step until one of the two runs stops there.
-/
import ProjectLint.Proofs.Renaming

namespace ProjectLint

open List (Forall₂)

def Project.outline (project : Project) : Project :=
  { project with
    reference := ""
    package := none
    minSdk := none
    targetSdk := none
    libraries := none
    configuration := none }

namespace Engine

open Run

structure Paces (e e' : Engine σ) (n : Naming) (ρ : State σ → State σ → Prop) : Prop
    extends Visits e e' n ρ where
  files : ∀ {s t}, ρ s t → s.files = t.files
  readClass : ∀ bytes, Mirrors ρ Eq (e.readClass bytes) (e'.readClass bytes)
  log : ∀ error message, Mirrors ρ Eq (e.log error message) (e'.log error message)
  fire : ∀ {c c'}, n.context c c' →
    Mirrors ρ Eq (e.fire .scanningFile (some c)) (e'.fire .scanningFile (some c'))

structure Strides (e e' : Engine σ) (n : Naming) (ρ : State σ → State σ → Prop) : Prop
    extends Paces e e' n ρ where
  unique : Relator.BiUnique n.detector
  scans : ∀ {d d'} scanner, n.detector d d' →
    e.host.scans d.className scanner = e'.host.scans d'.className scanner
  scope : ∀ {s t}, ρ s t → s.scope = t.scope
  selection : ∀ {s t}, ρ s t → Forall₂ n.Members s.selection.members t.selection.members
  memo : ∀ {s t}, ρ s t → Option.Rel n.Memos s.memo t.memo
  remembered : ∀ {memo memo' s t}, Option.Rel n.Memos memo memo' → ρ s t →
    ρ { s with memo } { t with memo := memo' }
  supplies : ∀ scanner {s t}, ρ s t →
    e.host.supplies scanner s.host = e'.host.supplies scanner t.host
  appliesToFolder : ∀ folder {d d' s t}, n.detector d d' → ρ s t →
    e.host.appliesToFolder d folder s.host = e'.host.appliesToFolder d' folder t.host

structure SamePass (n : Naming) (ρ : State σ → State σ → Prop) (pass pass' : Pass) : Prop where
  context : ∀ file kind, n.context (pass.context file kind) (pass'.context file kind)
  dir : pass.project.dir = pass'.project.dir
  own : pass.project = pass.main ↔ pass'.project = pass'.main
  outline : ∀ {s t}, ρ s t → (s.project pass.project).outline = (t.project pass'.project).outline
  read : ∀ document {s t}, ρ s t →
    ρ (s.changed pass.project.index (·.readManifest document))
      (t.changed pass'.project.index (·.readManifest document))

namespace Paces

variable {e e' : Engine σ} {n : Naming} {pass pass' : Pass} {checks checks' : List Detector}

section Alone

variable {ρ : State σ → State σ → Prop}

theorem getProject (hpass : SamePass n ρ pass pass') :
    Mirrors ρ (fun p p' => p.outline = p'.outline) (getProject pass.project)
      (getProject pass'.project) :=
  .read fun _ _ hst => .pure (hpass.outline hst)

theorem read (f : Project → α) (hf : ∀ p, f p.outline = f p) {p p' : Project}
    (h : p.outline = p'.outline) : f p = f p' :=
  (hf p).symm.trans ((congrArg f h).trans (hf p'))

theorem scanResource (h : Paces e e' n ρ) (hpass : SamePass n ρ pass pass')
    {visitor visitor' : MarkupVisitor} (hvisitor : n.MarkupVisitors visitor visitor')
    (folder : FolderType) (file : String) :
    Mirrors ρ Eq (e.scanResource pass visitor folder file)
      (e'.scanResource pass' visitor' folder file) :=
  (h.fire (hpass.context file _)).andThen fun _ =>
    (h.visitMarkup hvisitor (hpass.context file _) none).andThen fun _ => .pure rfl

end Alone

section Stopping

variable {ι : Type} {ρ κ : ι → State σ → State σ → Prop} (h : ∀ i, Paces e e' n (ρ i))
  (hκ : Halting ρ κ State.canceled) (hpass : ∀ i, SamePass n (ρ i) pass pass')

include h hκ hpass

/-! ## Resources -/

section Sources

variable {source source' : VisitorSource σ} (hsource : ∀ i folder,
  Mirrors (ρ i) (Option.Rel n.MarkupVisitors) (source folder) (source' folder))

include hsource

theorem checkTypeFolder (dir : String) (folder : FolderType) :
    Cuts ρ κ (fun _ => True) (e.checkTypeFolder pass source dir folder)
      (e'.checkTypeFolder pass' source' dir folder) := by
  refine .read fun i s t hst => ?_
  rw [(h i).files hst]
  dsimp only
  cases (t.files.list dir).filter fun file => Layout.isMarkup file && t.files.isFile file with
  | nil => exact .pure ()
  | cons first rest =>
    refine Mirrors.bind_cuts (hsource · folder) fun visitor visitor' hvisitor => ?_
    cases hvisitor with
    | none => exact .pure ()
    | some hvisitor =>
      exact .eachUntilCanceled_same hκ _ fun file =>
        Mirrors.cuts fun i => (h i).scanResource (hpass i) hvisitor folder file

theorem checkResourceFolder (resources : String) :
    Cuts ρ κ (fun _ => True) (e.checkResourceFolder pass source resources)
      (e'.checkResourceFolder pass' source' resources) := by
  refine .read fun i s t hst => ?_
  rw [(h i).files hst]
  refine .eachUntilCanceled_same hκ _ fun dir => .read fun i s' t' hst' => ?_
  rw [(h i).files hst']
  refine .ite Iff.rfl ?_ (.pure ())
  cases FolderType.ofFolder? (Path.baseName dir) with
  | none => exact .pure ()
  | some folder => exact checkTypeFolder h hκ hpass hsource dir folder

theorem checkGivenResource (path : String) :
    Cuts ρ κ (fun _ => True) (e.checkGivenResource pass source path)
      (e'.checkGivenResource pass' source' path) := by
  refine .read fun i s t hst => ?_
  rw [(h i).files hst]
  refine .ite Iff.rfl ?_ (.ite Iff.rfl ?_ (.pure ()))
  · have hother := Cuts.ite (c := Path.baseName path = Layout.resources) Iff.rfl
      (checkResourceFolder h hκ hpass hsource path)
      (Mirrors.cuts fun i => (h i).log none ("Unexpected folder " ++ path ++
        "; should be project, \"res\" folder or resource folder"))
    cases FolderType.ofFolder? (Path.baseName path) with
    | none => exact hother
    | some folder =>
      cases Path.baseName (Path.parent path) == Layout.resources with
      | false => exact hother
      | true => exact checkTypeFolder h hκ hpass hsource path folder
  · cases FolderType.ofFolder? (Path.baseName (Path.parent path)) with
    | none => exact .pure ()
    | some folder =>
      refine Mirrors.bind_cuts (hsource · folder) fun visitor visitor' hvisitor => ?_
      cases hvisitor with
      | none => exact .pure ()
      | some hvisitor =>
        exact Mirrors.cuts fun i => (h i).scanResource (hpass i) hvisitor folder path

theorem checkResourcesBy :
    Cuts ρ κ (fun _ => True) (e.checkResourcesBy pass source)
      (e'.checkResourcesBy pass' source') := by
  refine Mirrors.bind_cuts (fun i => getProject (hpass i)) fun p p' hp => ?_
  rw [read Project.subset (fun _ => rfl) hp, read Project.resources (fun _ => rfl) hp]
  cases p'.subset with
  | some files => exact .eachUntilCanceled_same hκ _ (checkGivenResource h hκ hpass hsource)
  | none => exact .eachUntilCanceled_same hκ _ (checkResourceFolder h hκ hpass hsource)

end Sources

/-! ## Compiled classes -/

section Checks

variable (hchecks : Forall₂ n.detector checks checks')

include hchecks

theorem checkClass (origin : ClassOrigin) (file : String) (bytes : Bytes) :
    Cuts ρ κ (fun _ => True) (e.checkClass pass checks origin file bytes)
      (e'.checkClass pass' checks' origin file bytes) := by
  refine Mirrors.bind_cuts (fun i => ((h i).readClass bytes).attempt) ?_
  rintro outcome _ rfl
  cases outcome with
  | error fault => exact Mirrors.cuts fun i => (h i).log _ _
  | ok parsed =>
    have hc := fun i =>
      (hpass i).context file (.bytecode origin.archive origin.root bytes parsed)
    refine .ite Iff.rfl (.pure ()) (Mirrors.bind_cuts (fun i => (h i).fire (hc i)) fun _ _ _ => ?_)
    exact .eachUntilCanceled hκ hchecks fun _ _ hd =>
      Mirrors.cuts fun i => (h i).checkWith (hc i) (.classFile parsed (hc i)) hd

theorem checkArchive (path : String) :
    Cuts ρ κ (fun _ => True) (e.checkArchive pass checks path)
      (e'.checkArchive pass' checks' path) := by
  refine .read fun i s t hst => ?_
  rw [(h i).files hst]
  cases t.files.archive path with
  | error failure => exact Mirrors.cuts fun i => (h i).log none _
  | ok archive =>
    dsimp only
    cases archive.list with
    | error fault => exact Mirrors.cuts fun _ => .throw _
    | ok entries =>
      refine .eachUntilCanceled_same hκ _ fun entry => .ite Iff.rfl ?_ (.pure ())
      cases entry.bytes path with
      | ok bytes => exact checkClass h hκ hpass hchecks _ _ bytes
      | error failure => exact Mirrors.cuts fun i => (h i).log none _

theorem checkClassFolder (root : String) :
    Cuts ρ κ (fun _ => True) (e.checkClassFolder pass checks root)
      (e'.checkClassFolder pass' checks' root) := by
  refine .read fun i s t hst => ?_
  rw [(h i).files hst]
  refine .ite Iff.rfl ?_ (Mirrors.cuts fun i => (h i).log none _)
  refine .eachUntilCanceled_same hκ _ fun file => .read fun i s' t' hst' => ?_
  rw [(h i).files hst']
  cases t'.files.bytes file with
  | ok bytes => exact checkClass h hκ hpass hchecks _ _ bytes
  | error failure => exact Mirrors.cuts fun i => (h i).log none _

end Checks

end Stopping
end Paces

namespace Strides

variable {e e' : Engine σ} {n : Naming} {pass pass' : Pass} {checks checks' : List Detector}

section Alone

variable {ρ : State σ → State σ → Prop}

variable (h : Strides e e' n ρ)

include h

theorem inScope (scopes : List Scope) : Respects ρ (Engine.inScope scopes) := by
  refine .read fun s t hst => ?_
  rw [h.scope hst]
  exact .pure rfl

theorem scanners (hchecks : Forall₂ n.detector checks checks') (scanner : Scanner) :
    Forall₂ n.detector (e.scanners checks scanner) (e'.scanners checks' scanner) := by
  refine List.rel_filter ?_ hchecks
  intro d d' hd
  show e.host.scans d.className scanner = true ↔ e'.host.scans d'.className scanner = true
  rw [h.scans scanner hd]

/-! ## Manifest -/

theorem scanManifest {c c' : Context} (hc : n.context c c') (document : Markup.Document) :
    Mirrors ρ Eq (e.scanManifest c document) (e'.scanManifest c' document) := by
  refine (h.inScope _).andThen fun within => ?_
  refine .ite Iff.rfl (.read fun s t hst => ?_) (.pure rfl)
  have hchecks := h.scanners (Naming.bucket (h.selection hst) .manifest) .markup
  generalize e.scanners (s.selection.bucket .manifest) .markup = checks at hchecks
  generalize e'.scanners (t.selection.bucket .manifest) .markup = checks' at hchecks
  cases hchecks with
  | nil => exact .pure rfl
  | cons hd hrest =>
    refine (h.markupVisitor (.cons hd hrest)).bind fun visitor visitor' hvisitor => ?_
    refine (h.fire hc).andThen fun _ => ?_
    exact (h.visitMarkup hvisitor hc _).andThen fun _ => .pure rfl

theorem checkManifest (hpass : SamePass n ρ pass pass') :
    Mirrors ρ Eq (e.checkManifest pass) (e'.checkManifest pass') := by
  refine (Paces.getProject hpass).bind fun p p' hp => ?_
  rw [Paces.read Project.manifest (fun _ => rfl) hp, Paces.read Project.isLibrary (fun _ => rfl) hp]
  cases p'.manifest with
  | none => exact .pure rfl
  | some file =>
    refine .ite Iff.rfl (.pure rfl) (.read fun s t hst => ?_)
    rw [h.supplies .markup hst]
    refine .ite Iff.rfl ?_ (h.log none _)
    refine (h.parseMarkup (hpass.context file _)).andThen fun parsed => ?_
    cases parsed with
    | none => exact .pure rfl
    | some document =>
      refine Mirrors.andThen (.modify (hpass.read document)) fun _ => ?_
      exact h.scanManifest (hpass.context file _) document

/-! ## Visitors of resources -/

theorem applicable (folder : FolderType) (hchecks : Forall₂ n.detector checks checks') :
    Mirrors ρ (Forall₂ n.detector) (e.applicable folder checks) (e'.applicable folder checks') := by
  induction hchecks with
  | nil => exact .pure .nil
  | cons hd _ ih =>
    rw [Engine.applicable, Engine.applicable]
    refine Mirrors.andThen (.question (h.appliesToFolder folder hd) fun answer =>
      h.ask hd (.appliesToFolder folder answer)) fun applies => ?_
    refine ih.bind fun others others' hothers => .pure ?_
    cases applies with
    | true => exact .cons hd hothers
    | false => exact hothers

theorem newVisitor (folder : FolderType) (hchecks : Forall₂ n.detector checks checks') :
    Mirrors ρ (Option.Rel n.MarkupVisitors) (e.newVisitor folder checks)
      (e'.newVisitor folder checks') := by
  have hfinish : ∀ visitor visitor', Option.Rel n.MarkupVisitors visitor visitor' →
      Mirrors ρ (Option.Rel n.MarkupVisitors)
        (do modify fun s => { s with memo := some ⟨some folder, checks, visitor⟩ }
            return visitor)
        (do modify fun s => { s with memo := some ⟨some folder, checks', visitor'⟩ }
            return visitor') := by
    intro visitor visitor' hvisitor
    exact Mirrors.andThen (.modify (h.remembered (.some ⟨rfl, hchecks, hvisitor⟩))) fun _ =>
      .pure hvisitor
  cases hchecks with
  | nil => exact hfinish none none .none
  | cons hd hrest =>
    refine (Mirrors.bind (h.markupVisitor (.cons hd hrest)) fun visitor visitor' hvisitor =>
      Mirrors.pure (Option.Rel.some hvisitor)).bind hfinish

theorem folderVisitor (folder : FolderType) (hchecks : Forall₂ n.detector checks checks') :
    Mirrors ρ (Option.Rel n.MarkupVisitors) (e.folderVisitor checks folder)
      (e'.folderVisitor checks' folder) := by
  refine .read fun s t hst => ?_
  have hmemo := h.memo hst
  generalize s.memo = memo at hmemo
  generalize t.memo = memo' at hmemo
  cases hmemo with
  | none => exact (h.applicable folder hchecks).bind fun _ _ hfound => h.newVisitor folder hfound
  | some hmemo =>
    refine .ite (by rw [hmemo.folder]) (.pure hmemo.visitor) ?_
    refine (h.applicable folder hchecks).bind fun found found' hfound => ?_
    refine .ite (Relator.rel_eq h.unique.forall₂ hmemo.detectors hfound) ?_ ?_
    · refine Mirrors.andThen (.modify (h.remembered (.some ?_))) fun _ => .pure hmemo.visitor
      exact { hmemo with folder := rfl }
    · exact h.newVisitor folder hfound

theorem startPass : Respects ρ Engine.startPass := by
  intro s t hst
  refine .ok rfl (h.remembered ?_ hst)
  have hmemo := h.memo hst
  generalize s.memo = memo at hmemo
  generalize t.memo = memo' at hmemo
  cases hmemo with
  | none => exact .none
  | some hmemo => exact .some { hmemo with folder := rfl }

/-! ## Sources and shrinker rules -/

theorem scanSource (hpass : SamePass n ρ pass pass')
    {visitor visitor' : SourceVisitor} (hvisitor : n.SourceVisitors visitor visitor')
    (file : String) :
    Mirrors ρ Eq (e.scanSource pass visitor file) (e'.scanSource pass' visitor' file) :=
  (h.fire (hpass.context file _)).andThen fun _ =>
    (h.visitSource hvisitor (hpass.context file _)).andThen fun _ => .pure rfl

theorem checkShrinkerRules (hpass : SamePass n ρ pass pass') :
    Mirrors ρ Eq (e.checkShrinkerRules pass) (e'.checkShrinkerRules pass') := by
  refine .ite hpass.own ?_ (.pure rfl)
  refine (h.inScope _).andThen fun within => ?_
  refine .ite Iff.rfl (.read fun s t hst => ?_) (.pure rfl)
  rw [h.files hst, hpass.dir]
  dsimp only
  have hchecks := Naming.bucket (h.selection hst) .proguardFile
  generalize s.selection.bucket .proguardFile = checks at hchecks
  generalize t.selection.bucket .proguardFile = checks' at hchecks
  cases hchecks with
  | nil => exact .pure rfl
  | cons hd hrest =>
    have hc := hpass.context (Path.join pass'.project.dir Layout.shrinkerRules) .plain
    refine .ite Iff.rfl ((h.fire hc).andThen fun _ => ?_) (.pure rfl)
    exact .each (.cons hd hrest) fun _ _ hd => h.checkWith hc (.run hc) hd

end Alone

section Stopping

variable {ι : Type} {ρ κ : ι → State σ → State σ → Prop} (h : ∀ i, Strides e e' n (ρ i))
  (hκ : Halting ρ κ State.canceled) (hpass : ∀ i, SamePass n (ρ i) pass pass')

include h hκ hpass

omit hκ hpass in
theorem stage {scopes : List Scope} {choice : Selection → List Detector} {scanner : Scanner}
    {missing : String} {check check' : List Detector → Run σ Unit}
    (hchoice : ∀ {i s t}, ρ i s t →
      Forall₂ n.detector (choice s.selection) (choice t.selection))
    (hcheck : ∀ {checks checks'}, Forall₂ n.detector checks checks' →
      Cuts ρ κ (fun _ => True) (check checks) (check' checks')) :
    Cuts ρ κ (fun _ => True) (e.stage scopes choice scanner missing check)
      (e'.stage scopes choice scanner missing check') := by
  refine Mirrors.bind_cuts (fun i => (h i).inScope _) ?_
  rintro within _ rfl
  refine .ite Iff.rfl (.read fun i s t hst => ?_) (.pure ())
  have hchecks := (h i).scanners (hchoice hst) scanner
  generalize e.scanners (choice s.selection) scanner = checks at hchecks
  generalize e'.scanners (choice t.selection) scanner = checks' at hchecks
  cases hchecks with
  | nil => exact .pure ()
  | cons hd hrest =>
    refine .read fun i s' t' hst' => ?_
    rw [(h i).supplies scanner hst']
    exact .ite Iff.rfl (hcheck (.cons hd hrest)) (Mirrors.cuts fun i => (h i).log none _)

theorem checkResources :
    Cuts ρ κ (fun _ => True) (e.checkResources pass) (e'.checkResources pass') := by
  refine stage h (fun {i _ _} hst => Naming.merged (h i).unique ((h i).selection hst) _ _)
    fun hchecks => Mirrors.bind_cuts (fun i => (h i).startPass) fun _ _ _ => ?_
  exact Paces.checkResourcesBy (fun i => (h i).toPaces) hκ hpass
    fun i folder => (h i).folderVisitor folder hchecks

theorem checkSources : Cuts ρ κ (fun _ => True) (e.checkSources pass) (e'.checkSources pass') := by
  refine stage h (fun {i _ _} hst => Naming.merged (h i).unique ((h i).selection hst) _ _)
    fun hchecks => .read fun i s t hst => ?_
  rw [Paces.read Project.sources (fun _ => rfl) ((hpass i).outline hst), (h i).files hst]
  dsimp only
  cases (t.project pass'.project).sources.flatMap fun folder =>
    t.files.gather folder Layout.sourceTail with
  | nil => exact .pure ()
  | cons file files =>
    refine Mirrors.bind_cuts (fun i => (h i).sourceVisitor hchecks)
      fun visitor visitor' hvisitor => .eachUntilCanceled_same hκ _ fun file => ?_
    exact Mirrors.cuts fun i => (h i).scanSource (hpass i) hvisitor file

theorem checkClasses : Cuts ρ κ (fun _ => True) (e.checkClasses pass) (e'.checkClasses pass') := by
  refine stage h (fun {i _ _} hst => Naming.bucket ((h i).selection hst) _) fun hchecks =>
    Mirrors.bind_cuts (fun i => Paces.getProject (hpass i)) fun p p' hp => ?_
  rw [Paces.read Project.classes (fun _ => rfl) hp]
  refine .eachUntilCanceled_same hκ _ fun path => .ite Iff.rfl ?_ ?_
  · exact Paces.checkArchive (fun i => (h i).toPaces) hκ hpass hchecks path
  · exact Paces.checkClassFolder (fun i => (h i).toPaces) hκ hpass hchecks path

/-! ## All stages -/

theorem checkFiles : Cuts ρ κ (fun _ => True) (e.checkFiles pass) (e'.checkFiles pass') := by
  refine (Mirrors.cuts fun i => (h i).checkManifest (hpass i)).guarded hκ ?_
  refine (checkResources h hκ hpass).guarded hκ ?_
  refine (checkSources h hκ hpass).guarded hκ ?_
  refine (checkClasses h hκ hpass).guarded hκ ?_
  exact Mirrors.cuts fun i => (h i).checkShrinkerRules (hpass i)

end Stopping
end Strides

/-- A relation that the stages of a pass cannot break, between runs of one engine that are canceled
together. -/
structure Stages (e : Engine σ) (n : Naming) (ρ : State σ → State σ → Prop) : Prop
    extends Strides e e n ρ where
  canceled : ∀ {s t}, ρ s t → s.canceled = t.canceled

theorem Stages.checkFiles {e : Engine σ} {n : Naming} {ρ : State σ → State σ → Prop}
    {pass pass' : Pass} (h : Stages e n ρ) (hpass : SamePass n ρ pass pass') :
    Mirrors ρ Eq (e.checkFiles pass) (e.checkFiles pass') :=
  (Strides.checkFiles (fun _ => h.toStrides) (halting_never h.canceled) fun _ => hpass).mirrors

/-! ## A phase of a project -/

def checkAnnounced (e : Engine σ) (project : ProjectRef) (detectors : List Detector) :
    Run σ Unit := do
  e.tellUntilCanceled detectors (.beforeProject (projectContext project))
  unlessCanceled do
    e.checkFiles ⟨project, project⟩
    unlessCanceled do
      e.checkLibraries detectors project
      unlessCanceled (e.tellUntilCanceled detectors (.afterProject (projectContext project)))

theorem checkPhase_eq (e : Engine σ) (project : ProjectRef) (s : State σ) :
    e.checkPhase project s = (do
      e.fire .scanningProject (some (projectContext project))
      e.checkAnnounced project s.selection.detectors : Run σ Unit) s :=
  rfl

structure Marches {ι : Type} (e e' : Engine σ) (n : Naming) (ρ : ι → State σ → State σ → Prop)
    (root root' : ProjectRef) : Prop where
  strides : ∀ i, Strides e e' n (ρ i)
  level : ∀ i {d d' hook hook'}, n.detector d d' → n.LevelHooks hook hook' →
    Mirrors (ρ i) Eq (e.ask d hook) (e'.ask d' hook')
  announce : ∀ i event {c c'}, event ≠ .newPhase → n.context c c' →
    Mirrors (ρ i) Eq (e.fire event (some c)) (e'.fire event (some c'))
  project : n.context (projectContext root) (projectContext root')
  pass : ∀ i, SamePass n (ρ i) ⟨root, root⟩ ⟨root', root'⟩
  libraries : ∀ i, Mirrors (ρ i)
    (Forall₂ fun library library' =>
      n.context (libraryContext library root) (libraryContext library' root') ∧
        ∀ i, SamePass n (ρ i) ⟨library, root⟩ ⟨library', root'⟩)
    (e.libraries root) (e'.libraries root')

namespace Marches

variable {ι : Type} {e e' : Engine σ} {n : Naming} {ρ κ : ι → State σ → State σ → Prop}
  {root root' : ProjectRef} {checks checks' : List Detector} (h : Marches e e' n ρ root root')
  (hκ : Halting ρ κ State.canceled)

include h hκ

section Checks

variable (hchecks : Forall₂ n.detector checks checks')

include hchecks

theorem tellUntilCanceled {hook hook' : Hook} (hhook : n.LevelHooks hook hook') :
    Cuts ρ κ (fun _ => True) (e.tellUntilCanceled checks hook)
      (e'.tellUntilCanceled checks' hook') :=
  .eachUntilCanceled hκ hchecks fun _ _ hd => Mirrors.cuts fun i => h.level i hd hhook

theorem checkLibrary {library library' : ProjectRef}
    (hc : n.context (libraryContext library root) (libraryContext library' root'))
    (hpass : ∀ i, SamePass n (ρ i) ⟨library, root⟩ ⟨library', root'⟩) :
    Cuts ρ κ (fun _ => True) (e.checkLibrary checks root library)
      (e'.checkLibrary checks' root' library') := by
  refine Mirrors.bind_cuts (fun i => h.announce i .scanningLibrary nofun hc) fun _ _ _ => ?_
  refine (h.tellUntilCanceled hκ hchecks (.beforeLibrary hc)).guarded hκ ?_
  exact (Strides.checkFiles h.strides hκ hpass).guarded hκ
    (h.tellUntilCanceled hκ hchecks (.afterLibrary hc))

theorem checkLibraries :
    Cuts ρ κ (fun _ => True) (e.checkLibraries checks root) (e'.checkLibraries checks' root') := by
  refine .read fun i s t hst => ?_
  rw [(h.strides i).scope hst]
  refine .ite Iff.rfl (.pure ()) (Mirrors.bind_cuts h.libraries fun found found' hfound => ?_)
  exact .eachUntilCanceled hκ hfound fun _ _ hlibrary =>
    h.checkLibrary hκ hchecks hlibrary.1 hlibrary.2

theorem checkAnnounced :
    Cuts ρ κ (fun _ => True) (e.checkAnnounced root checks) (e'.checkAnnounced root' checks') := by
  refine (h.tellUntilCanceled hκ hchecks (.beforeProject h.project)).guarded hκ ?_
  refine (Strides.checkFiles h.strides hκ h.pass).guarded hκ ?_
  refine (h.checkLibraries hκ hchecks).guarded hκ ?_
  exact h.tellUntilCanceled hκ hchecks (.afterProject h.project)

end Checks

theorem checkPhase : Cuts ρ κ (fun _ => True) (e.checkPhase root) (e'.checkPhase root') := by
  intro i s t hst
  rw [checkPhase_eq, checkPhase_eq]
  exact Mirrors.bind_cuts (fun i => h.announce i .scanningProject nofun h.project)
    (fun _ _ _ => h.checkAnnounced hκ (Naming.detectors ((h.strides i).selection hst))) i s t hst

end Marches

/-- A relation that a phase of two projects cannot break, between runs of one engine that are
canceled together. -/
structure Phase (e : Engine σ) (n : Naming) (ρ : State σ → State σ → Prop)
    (root root' : ProjectRef) : Prop extends Marches e e n (fun _ : Unit => ρ) root root' where
  canceled : ∀ {s t}, ρ s t → s.canceled = t.canceled

namespace Phase

variable {e : Engine σ} {n : Naming} {ρ : State σ → State σ → Prop} {root root' : ProjectRef}
  (h : Phase e n ρ root root')

include h

theorem checkAnnounced {checks checks' : List Detector}
    (hchecks : Forall₂ n.detector checks checks') :
    Mirrors ρ Eq (e.checkAnnounced root checks) (e.checkAnnounced root' checks') :=
  (h.toMarches.checkAnnounced (halting_never h.canceled) hchecks).mirrors

theorem checkPhase : Mirrors ρ Eq (e.checkPhase root) (e.checkPhase root') :=
  (h.toMarches.checkPhase (halting_never h.canceled)).mirrors

end Phase
end Engine
end ProjectLint
