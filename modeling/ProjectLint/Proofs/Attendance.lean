/-
Who is called in a phase. A run is its own counterpart if every detector that takes part and every
context that calls are about stand for themselves. Seen so, the stages of a pass call no detector
but those selected and those that a visitor was made for, and a phase calls them on behalf of one
project only: a property that survives such calls survives the phase.
-/
import ProjectLint.Proofs.Conduct
import ProjectLint.Proofs.Renaming.Stages

namespace ProjectLint

open List (Forall₂)

theorem Project.readManifest_settled (project : Project) (document : Markup.Document) :
    (project.readManifest document).dir = project.dir ∧
      (project.readManifest document).libraries = project.libraries ∧
      (project.readManifest document).configuration = project.configuration := by
  rw [Project.readManifest]
  repeat' split
  all_goals exact ⟨rfl, rfl, rfl⟩

namespace Journal

def Entry.hook? : Entry → Option Hook
  | .called (.detector _ hook) _ => some hook
  | _ => none

/-- The hooks that detectors were called with. -/
def hooks (entries : List Entry) : List Hook :=
  entries.filterMap Entry.hook?

@[simp]
theorem hooks_append (first second : List Entry) :
    hooks (first ++ second) = hooks first ++ hooks second :=
  List.filterMap_append

end Journal

namespace Engine

open Run Naming

variable {host : Host σ} {I : State σ → Prop} {may : Action → Prop} {allowed : (σ → σ) → Prop}
  {D : Detector → Prop} {C : Context → Prop}

structure Asks (host : Host σ) (I : State σ → Prop) (may : Action → Prop)
    (allowed : (σ → σ) → Prop) (D : Detector → Prop) (C : Context → Prop) : Prop
    extends Bears host I may allowed where
  answers : ∀ {d} hook moment memory, D d →
    (host.react (.detector d hook) moment memory).Within may allowed := by
      intros; first | exact Script.within_true _ | apply_assumption
  asked : ∀ {d hook s}, D d → hook.isLevel = false → (∀ c, hook.context? = some c → C c) → I s →
    I (s.write (.called (.detector d hook) s.moment))

theorem Asks.visits (h : Asks host I may allowed D C) (opts : Options) :
    Visits (host.engine opts) (host.engine opts) (alone D C) (Diagonal I) where
  file := fun ⟨hc, _⟩ => congrArg Context.file hc
  elementNames := fun ⟨hd, _⟩ ⟨hst, _⟩ => by rw [hd, hst]
  attributeNames := fun ⟨hd, _⟩ ⟨hst, _⟩ => by rw [hd, hst]
  nodeTypes := fun ⟨hd, _⟩ ⟨hst, _⟩ => by rw [hd, hst]
  appliesToFile := fun _ ⟨hd, _⟩ ⟨hc, _⟩ ⟨hst, _⟩ => by rw [hd, hc, hst]
  ask := by
    rintro d _ hook hook' ⟨rfl, hd⟩ hhook
    obtain ⟨rfl, hlevel, hC⟩ := alone_fileHooks hhook
    exact .of_keeps fun s hs =>
      h.ask opts (h.answers hook _ _ hd) (h.asked hd hlevel hC hs)
  parseMarkup := by
    rintro c _ ⟨rfl, _⟩
    exact .of_keeps (h.parseMarkup opts c)
  parseSource := by
    rintro c _ ⟨rfl, _⟩
    exact .of_keeps (h.parseSource opts c)

structure Scans (host : Host σ) (I : State σ → Prop) (may : Action → Prop)
    (allowed : (σ → σ) → Prop) (D : Detector → Prop) (C : Context → Prop) : Prop
    extends Asks host I may allowed D C, Hears host I may allowed where
  scanned : ∀ {c s}, C c → I s → I (s.write (.fired .scanningFile (some c) s.moment))
  selection : ∀ {s}, I s → ∀ d ∈ s.selection.detectors, D d
  memo : ∀ {s}, I s → Option.Rel (alone D C).Memos s.memo s.memo
  remembered : ∀ {memo s}, Option.Rel (alone D C).Memos memo memo → I s → I { s with memo }

theorem Scans.stages (h : Scans host I may allowed D C) (opts : Options) :
    Stages (host.engine opts) (alone D C) (Diagonal I) where
  toVisits := h.visits opts
  unique := alone_unique
  scans := fun _ ⟨hd, _⟩ => by rw [hd]
  files := fun ⟨hst, _⟩ => by rw [hst]
  scope := fun ⟨hst, _⟩ => by rw [hst]
  canceled := fun ⟨hst, _⟩ => by rw [hst]
  selection := by
    rintro s _ ⟨rfl, hs⟩
    refine List.forall₂_same.2 fun member hmember => ⟨⟨rfl, h.selection hs _ ?_⟩, rfl⟩
    exact List.mem_map_of_mem hmember
  memo := by
    rintro s _ ⟨rfl, hs⟩
    exact h.memo hs
  remembered := by
    rintro memo memo' s _ hmemo ⟨rfl, hs⟩
    obtain rfl := alone_memo hmemo
    exact ⟨rfl, h.remembered hmemo hs⟩
  supplies := fun _ _ _ ⟨hst, _⟩ => by rw [hst]
  appliesToFolder := fun _ _ _ _ _ ⟨hd, _⟩ ⟨hst, _⟩ => by rw [hd, hst]
  readClass := fun bytes => .of_keeps (h.readClass opts bytes)
  log := fun error message =>
    .of_keeps (Bears.log h.toBears (h.serves opts) error message none)
  fire := by
    rintro c _ ⟨rfl, hc⟩
    exact .of_keeps fun s hs => h.fire opts (h.scanned hc hs)

structure Attends (host : Host σ) (I : State σ → Prop) (may : Action → Prop)
    (allowed : (σ → σ) → Prop) (D : Detector → Prop) (root : ProjectRef) : Prop
    extends Finds host I may allowed, Scans host I may allowed D (·.rootProject = root) where
  askedLevel : ∀ {d hook s}, D d → (∀ c, hook.context? = some c → c.rootProject = root) → I s →
    I (s.write (.called (.detector d hook) s.moment))
  announced : ∀ {event c s}, event ≠ .newPhase → c.rootProject = root → I s →
    I (s.write (.fired event (some c) s.moment))

theorem Finds.samePass (h : Finds host I may allowed) {pass : Pass}
    (hpass : ∀ file kind, C (pass.context file kind)) :
    SamePass (alone D C) (Diagonal I) pass pass where
  context := fun file kind => ⟨rfl, hpass file kind⟩
  dir := rfl
  own := Iff.rfl
  outline := fun ⟨hst, _⟩ => by rw [hst]
  read := fun document _ _ hst =>
    hst.map (h.changed _ (·.readManifest document) fun p => p.readManifest_settled document)

namespace Attends

variable {root : ProjectRef}

theorem checkPhase (h : Attends host I may allowed D root) (opts : Options) :
    Keeps I ((host.engine opts).checkPhase root) := by
  have hannounce : ∀ event {c c'}, event ≠ .newPhase →
      (alone D (·.rootProject = root)).context c c' →
      Mirrors (Diagonal I) Eq ((host.engine opts).fire event (some c))
        ((host.engine opts).fire event (some c')) := by
    rintro event c _ hevent ⟨rfl, hc⟩
    exact .of_keeps fun s hs => h.fire opts (h.announced hevent hc hs)
  have hlevel : ∀ {d d' hook hook'}, (alone D (·.rootProject = root)).detector d d' →
      (alone D (·.rootProject = root)).LevelHooks hook hook' →
      Mirrors (Diagonal I) Eq ((host.engine opts).ask d hook)
        ((host.engine opts).ask d' hook') := by
    rintro d _ hook hook' ⟨rfl, hd⟩ hhook
    obtain ⟨rfl, hC⟩ := alone_levelHooks hhook
    exact .of_keeps fun s hs => h.ask opts (h.answers hook _ _ hd) (h.askedLevel hd hC hs)
  have hlibraries : Mirrors (Diagonal I)
      (Forall₂ fun library library' =>
        (alone D (·.rootProject = root)).context (libraryContext library root)
            (libraryContext library' root) ∧
          ∀ _ : Unit, SamePass (alone D (·.rootProject = root)) (Diagonal I) ⟨library, root⟩
            ⟨library', root⟩)
      ((host.engine opts).libraries root) ((host.engine opts).libraries root) := by
    refine (Mirrors.of_keeps (h.libraries opts root)).imp ?_
    rintro found _ rfl
    exact List.forall₂_same.2 fun library _ => ⟨⟨rfl, rfl⟩, fun _ => h.samePass fun _ _ => rfl⟩
  exact Mirrors.keeps <| Phase.checkPhase
    { strides := fun _ => (h.stages opts).toStrides
      level := fun _ => hlevel
      announce := fun _ => hannounce
      project := ⟨rfl, rfl⟩
      pass := fun _ => h.samePass fun _ _ => rfl
      libraries := fun _ => hlibraries
      canceled := (h.stages opts).canceled }

end Attends
end Engine
end ProjectLint
