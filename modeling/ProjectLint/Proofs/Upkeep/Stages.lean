/-
What the stages of a pass keep up, and the faults they can end with. A property of the state has to
survive the scans of files that are due only.
-/
import ProjectLint.Proofs.Roots
import ProjectLint.Proofs.Walks

namespace ProjectLint

namespace Journal

def Entry.scan? : Entry → Option Context
  | .fired .scanningFile context _ => context
  | _ => none

/-- The files that were announced, in order. -/
def scans (entries : List Entry) : List Context :=
  entries.filterMap Entry.scan?

end Journal

namespace ScopeSet

variable {a : ScopeSet} {first second : Scope}

theorem covers_of_any (h : [first].any a.contains = true) : a.covers first = true := by
  rw [List.any_cons, List.any_nil, Bool.or_false] at h
  rw [covers, h, Bool.true_or]

theorem covers_of_any_pair (hfirst : first.counterpart? = some second)
    (hsecond : second.counterpart? = some first)
    (h : [first, second].any a.contains = true) :
    ∀ category ∈ [first, second], a.covers category = true := by
  rw [List.any_cons, List.any_cons, List.any_nil, Bool.or_false, Bool.or_eq_true] at h
  simp only [List.mem_cons, List.not_mem_nil, or_false, forall_eq_or_imp, forall_eq, covers, hfirst,
    hsecond, Option.any_some, Bool.or_eq_true]
  exact ⟨h, h.symm⟩

end ScopeSet

theorem Selection.minds_of_merged {selection : Selection} {D : Scope → Detector → Prop}
    {first second : Scope}
    (h : ∀ category ∈ [first, second], ∀ detector ∈ selection.bucket category,
      D category detector) :
    ∀ detector ∈ selection.merged first second, Minds D [first, second] detector := by
  intro detector hdetector
  have hsecond : second ∈ [first, second] := List.mem_cons_of_mem _ List.mem_cons_self
  rcases List.mem_append.1 (mem_distinct.1 hdetector) with hmem | hmem
  · exact ⟨first, List.mem_cons_self, h first List.mem_cons_self detector hmem⟩
  · exact ⟨second, hsecond, h second hsecond detector hmem⟩

theorem minds_any {categories : List Scope} (h : categories ≠ []) (detector : Detector) :
    Minds (fun _ _ => True) categories detector :=
  ⟨_, List.head_mem h, trivial⟩

theorem MarkupVisitor.calls_any {categories : List Scope} (h : categories ≠ [])
    (visitor : MarkupVisitor) : visitor.Calls (Minds (fun _ _ => True) categories) :=
  ⟨fun _ _ => minds_any h _, fun _ _ => minds_any h _, fun _ _ => minds_any h _,
    fun _ _ => minds_any h _, fun _ _ => minds_any h _⟩

theorem SourceVisitor.calls_any {categories : List Scope} (h : categories ≠ [])
    (visitor : SourceVisitor) : visitor.Calls (Minds (fun _ _ => True) categories) :=
  ⟨fun _ _ => minds_any h _, fun _ _ => minds_any h _⟩

theorem VisitorMemo.fits_any (memo : VisitorMemo) :
    memo.Fits (MarkupVisitor.Calls (MindsResources fun _ _ => True)) fun _ => True :=
  ⟨fun visitor _ => visitor.calls_any (List.cons_ne_nil _ _), fun _ _ _ _ => trivial,
    fun _ _ _ _ => trivial⟩

namespace Engine

open Run Journal

variable {e : Engine σ} {I : State σ → Prop} {E : Fault → Prop} {D : Scope → Detector → Prop}
  {A : FolderType → Prop} {pass : Pass}

/-- A property that survives what stages of a pass do beside scanning. Detectors of the selection
mind their categories where a stage is in scope. -/
structure Staging (e : Engine σ) (I : State σ → Prop) (E : Fault → Prop)
    (D : Scope → Detector → Prop) : Prop extends Visiting e I E D where
  serves : ∀ {category s t}, I s → s.scope.covers category = true → I t →
    ∀ detector ∈ t.selection.bucket category, D category detector
  listed : ∀ {path archive fault s}, I s → s.files.archive path = .ok archive →
    archive.list = .error fault → E (.archive fault)
  read : ∀ (ref : ProjectRef) document {s}, I s → I (s.changed ref.index (·.readManifest document))

/-- The visitor remembered calls detectors of resources only. A type of folder counts if such a
detector applies to it. -/
structure Recollects (host : Host σ) (I : State σ → Prop) (D : Scope → Detector → Prop)
    (A : FolderType → Prop) : Prop where
  applies : ∀ {s detector folder}, I s → MindsResources D detector →
    host.scans detector.className .markup = true →
    host.appliesToFolder detector folder s.host = true → A folder
  memo : ∀ {s memo}, I s → s.memo = some memo →
    memo.Fits (MarkupVisitor.Calls (MindsResources D)) A
  remembered : ∀ {memo s}, (∀ known, memo = some known →
    known.Fits (MarkupVisitor.Calls (MindsResources D)) A) → I s → I { s with memo }

/-- A property that survives the stage of resources too, where visitors are remembered. -/
structure Remembering (e : Engine σ) (I : State σ → Prop) (E : Fault → Prop)
    (D : Scope → Detector → Prop) (A : FolderType → Prop) : Prop extends
    Staging e I E D, Recollects e.host I D A

def upkeep (I : State σ → Prop) (E : Fault → Prop) (D : Scope → Detector → Prop)
    (A : FolderType → Prop) (P : Context.Kind → Prop) : Judgement σ where
  state := I
  minds := D
  counts := A
  kinds := P
  checks := fun categories detectors => ∀ detector ∈ detectors, Minds D categories detector
  markup := fun categories => MarkupVisitor.Calls (Minds D categories)
  source := SourceVisitor.Calls (Minds D [.javaFile, .allJavaFiles])
  stage := Upholds I E
  yields := Gives I E

theorem Staging.inquiry (h : Staging e I E D) (A : FolderType → Prop) (P : Context.Kind → Prop) :
    Inquiry e (upkeep I E D A P) where
  give := .pure
  bind := .andThen
  look := fun s hs => ⟨.ok hs, fun _ _ heq => by cases heq; exact hs⟩
  ask := fun hchecks hdetector hhook _ => (h.ask (hchecks _ hdetector) hhook).gives
  sublist := fun hchecks hsublist detector hdetector => hchecks detector (hsublist.subset hdetector)
  mind := id
  markup := fun hchecks hcalls => hcalls.imp hchecks
  source := fun hchecks hcalls => hcalls.imp hchecks

theorem Remembering.recall (h : Remembering e I E D A) (P : Context.Kind → Prop) :
    Recall e (upkeep I E D A P) where
  toInquiry := h.inquiry A P
  applies := h.applies
  memo := h.memo
  remember := fun hchange => Upholds.gives fun s hs => .ok (h.remembered (hchange s hs) hs)

section Walks

variable {P : Context.Kind → Prop} (hscan : ∀ {file kind}, P kind → Due e I D A pass file kind →
    Upholds I E (e.fire .scanningFile (some (pass.context file kind))))

include hscan

theorem Staging.walk (h : Staging e I E D) : Walk e pass (upkeep I E D A P) where
  toInquiry := h.inquiry A P
  done := .pure ()
  andThen := Gives.bind
  guarded := fun hx hy => hx.bind fun _ => hy.unlessCanceled
  each := fun elements _ hall => .eachUntilCanceled elements hall
  log := fun hmessage => h.log hmessage none
  listed := fun hs harchive hlist => .throw (h.listed hs harchive hlist)
  read := fun document => Upholds.gives (.modify (h.read pass.project document))
  parse := h.parse
  readClass := fun bytes => by
    have hread : Upholds I (fun _ => True) (e.readClass bytes) :=
      (Gives.consult (h.risky rfl) fun _ _ => trivial).upholds
    refine fun s hs => ⟨hread.attempt s hs, fun outcome t heq parsed hparsed => ⟨s, hs, t, ?_⟩⟩
    exact eq_ok_of_attempt (hparsed ▸ heq)
  bucket := fun hs hscope ht detector hdetector =>
    ⟨_, List.mem_cons_self, h.serves hs (ScopeSet.covers_of_any hscope) ht detector hdetector⟩
  merged := fun hfirst hsecond hs hscope ht => Selection.minds_of_merged fun category hcategory =>
    h.serves hs (ScopeSet.covers_of_any_pair hfirst hsecond hscope category hcategory) ht
  scanMarkup := fun {file folder visitor} parsed hkind hdue hvisitor => by
    have hcalls : visitor.Calls (Minds D (pass.context file (.markup folder)).kind.categories) :=
      hvisitor
    exact (hscan hkind hdue).bind fun _ =>
      Upholds.bind (h.visitMarkup hcalls parsed) fun _ => .pure ()
  scanSource := fun {file visitor} hkind hdue hvisitor => by
    have hcalls : visitor.Calls (Minds D (pass.context file .source).kind.categories) := hvisitor
    exact (hscan hkind hdue).bind fun _ => Upholds.bind (h.visitSource hcalls) fun _ => .pure ()
  scanClass := fun hkind hdue hchecks => (hscan hkind hdue).bind fun _ =>
    .eachUntilCanceled _ fun detector hdetector =>
      h.checkWith (List.Subset.refl _) (hchecks detector hdetector)
  scanRules := fun hkind hdue hchecks => (hscan hkind hdue).bind fun _ =>
    .each _ fun detector hdetector =>
      h.checkWith (List.Subset.refl _) (hchecks detector hdetector)

theorem Remembering.walk (h : Remembering e I E D A) : ResourceWalk e pass (upkeep I E D A P) :=
  { h.toStaging.walk hscan, h.recall P with }

end Walks

theorem Remembering.checkFiles (h : Remembering e I E D A)
    (hscan : ∀ {file kind}, Due e I D A pass file kind →
      Upholds I E (e.fire .scanningFile (some (pass.context file kind)))) :
    Upholds I E (e.checkFiles pass) :=
  (h.walk (P := fun _ => True) fun _ => hscan).checkFiles fun _ => trivial

/-! ## A phase of a project -/

structure Scanning (e : Engine σ) (I : State σ → Prop) (E : Fault → Prop)
    (D : Scope → Detector → Prop) (A : FolderType → Prop) (root : ProjectRef) : Prop
    extends Remembering e I E D A where
  scanned : ∀ {project file kind}, Due e I D A ⟨project, root⟩ file kind → ∀ {s}, I s →
    I (s.write (.fired .scanningFile (some (Pass.context ⟨project, root⟩ file kind)) s.moment))
  told : ∀ {detector hook s}, I s → detector ∈ s.selection.detectors → hook.categories = [] →
    Upholds I E (e.ask detector hook)
  announced : ∀ library {s}, I s →
    I (s.write (.fired .scanningLibrary (some (libraryContext library root)) s.moment))
  libraries : Upholds I E (e.libraries root)

namespace Scanning

variable {root : ProjectRef} (h : Scanning e I E D A root)

include h

theorem checkFiles (project : ProjectRef) : Upholds I E (e.checkFiles ⟨project, root⟩) :=
  h.toRemembering.checkFiles fun hdue => h.fire (h.scanned hdue)

section Announced

variable {s₀ : State σ} (hs₀ : I s₀)

include hs₀

theorem tellUntilCanceled {hook : Hook} (hhook : hook.categories = []) :
    Upholds I E (e.tellUntilCanceled s₀.selection.detectors hook) :=
  .eachUntilCanceled _ fun _ hdetector => h.told hs₀ hdetector hhook

theorem checkLibraries : Upholds I E (e.checkLibraries s₀.selection.detectors root) := by
  have hlibrary : ∀ library, Upholds I E (e.checkLibrary s₀.selection.detectors root library) :=
    fun library => (h.fire (h.announced library)).bind fun _ =>
      (h.tellUntilCanceled hs₀ rfl).bind fun _ => .unlessCanceled <|
        (h.checkFiles library).bind fun _ => .unlessCanceled (h.tellUntilCanceled hs₀ rfl)
  refine .inspect fun s _ => .ite (fun _ => .pure ()) fun _ => h.libraries.bind fun found => ?_
  exact .eachUntilCanceled found fun library _ => hlibrary library

theorem checkAnnounced : Upholds I E (e.checkAnnounced root s₀.selection.detectors) :=
  (h.tellUntilCanceled hs₀ rfl).bind fun _ => .unlessCanceled <|
    (h.checkFiles root).bind fun _ => .unlessCanceled <|
      (h.checkLibraries hs₀).bind fun _ => .unlessCanceled (h.tellUntilCanceled hs₀ rfl)

end Announced
end Scanning

/-! ## Phases that may end with any fault -/

/-- A property that survives what code does in stages of a pass: the client, listeners, and
detectors where they mind what they are called about. -/
structure Works (host : Host σ) (I : State σ → Prop) (may : Action → Prop)
    (allowed : (σ → σ) → Prop) (D : Scope → Detector → Prop) : Prop
    extends Hears host I may allowed where
  answers : ∀ detector hook moment memory,
    (host.react (.detector detector hook) moment memory).Within may allowed := by
      intros; first | exact Script.within_true _ | apply_assumption
  asked : ∀ {category detector hook s}, D category detector → category ∈ hook.categories → I s →
    I (s.write (.called (.detector detector hook) s.moment))
  serves : ∀ {category s t}, I s → s.scope.covers category = true → I t →
    ∀ detector ∈ t.selection.bucket category, D category detector
  read : ∀ (ref : ProjectRef) document {s}, I s → I (s.changed ref.index (·.readManifest document))

theorem Works.staging {host : Host σ} {may : Action → Prop} {allowed : (σ → σ) → Prop}
    (h : Works host I may allowed D) (opts : Options) :
    Staging (host.engine opts) I (fun _ => True) D where
  call := fun hcall _ => .of_keeps (h.serves_invoke opts _ (Call.isClient_of_isBookkeeping hcall))
  parsing := fun _ => .of_keeps (h.serves_invoke opts _ rfl)
  reading := fun _ => .of_keeps (h.serves_invoke opts _ rfl)
  logged := fun _ => h.logged _
  risky := fun {call} hrisky => by
    refine .of_keeps fun s hs => ?_
    cases call with
    | listener => exact h.invoke opts (h.heeds _ _ _ _ _) (h.heard hs)
    | readClass => exact h.serves_invoke opts _ rfl s hs
    | _ => cases hrisky
  asked := fun hminds hhook =>
    .of_keeps fun _ hs => h.ask opts (h.answers _ _ _ _) (h.asked hminds hhook hs)
  parseMarkup := fun _ _ => trivial
  parseSource := fun _ _ => trivial
  serves := h.serves
  listed := fun _ _ _ => trivial
  read := h.read

structure Recalls (host : Host σ) (I : State σ → Prop) (may : Action → Prop)
    (allowed : (σ → σ) → Prop) (D : Scope → Detector → Prop) (A : FolderType → Prop) : Prop
    extends Works host I may allowed D, Recollects host I D A

theorem Recalls.remembering {host : Host σ} {may : Action → Prop} {allowed : (σ → σ) → Prop}
    (h : Recalls host I may allowed D A) (opts : Options) :
    Remembering (host.engine opts) I (fun _ => True) D A where
  toStaging := h.staging opts
  toRecollects := h.toRecollects

structure Surveys (host : Host σ) (opts : Options) (I : State σ → Prop) (may : Action → Prop)
    (allowed : (σ → σ) → Prop) (D : Scope → Detector → Prop) (A : FolderType → Prop)
    (root : ProjectRef) : Prop extends Recalls host I may allowed D A where
  told : ∀ {detector hook s₀ s}, I s₀ → detector ∈ s₀.selection.detectors → hook.categories = [] →
    I s → I (s.write (.called (.detector detector hook) s.moment))
  scanned : ∀ {project file kind}, Due (host.engine opts) I D A ⟨project, root⟩ file kind →
    ∀ {s}, I s →
    I (s.write (.fired .scanningFile (some (Pass.context ⟨project, root⟩ file kind)) s.moment))
  announced : ∀ library {s}, I s →
    I (s.write (.fired .scanningLibrary (some (libraryContext library root)) s.moment))
  libraries : Keeps I ((host.engine opts).libraries root)

namespace Surveys

variable {host : Host σ} {opts : Options} {may : Action → Prop} {allowed : (σ → σ) → Prop}
  {root : ProjectRef} (h : Surveys host opts I may allowed D A root)

include h

theorem scanning : Scanning (host.engine opts) I (fun _ => True) D A root where
  toRemembering := h.remembering opts
  scanned := h.scanned
  told := fun hs₀ hdetector hhook =>
    .of_keeps fun _ hs => h.ask opts (h.answers _ _ _ _) (h.told hs₀ hdetector hhook hs)
  announced := h.announced
  libraries := .of_keeps h.libraries

theorem checkAnnounced {s₀ : State σ} (hs₀ : I s₀) :
    Keeps I ((host.engine opts).checkAnnounced root s₀.selection.detectors) :=
  (h.scanning.checkAnnounced hs₀).keeps

theorem checkPhase {s : State σ}
    (hs : I (s.write (.fired .scanningProject (some (projectContext root)) s.moment))) :
    I (endState ((host.engine opts).checkPhase root s)) := by
  have hannounced : (s.write (.fired .scanningProject (some (projectContext root))
      s.moment)).selection = s.selection := rfl
  rw [checkPhase_eq, ← hannounced]
  exact Keeps.bindAt (h.fire opts hs) fun _ => h.checkAnnounced hs

end Surveys
end Engine
end ProjectLint
