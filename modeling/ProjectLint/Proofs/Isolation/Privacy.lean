/-
What it takes for projects not to disturb each other. `Privacy` says what part of the memory of an
embedding belongs to each instance of a detector. In an isolated embedding detectors know nothing
but their own part and the arguments of their calls, parsers and the client answer by their
arguments, and listeners only look.

Numbers of projects and of instances differ from run to run, so calls that are the same under a
pairing of names are answered by scripts that are the same under it.
-/
import ProjectLint.Proofs.Planning

namespace ProjectLint

open List (Forall₂)

/-! ## What is seen of a run -/

namespace Journal

def Entry.isSight : Entry → Bool
  | .fired .. | .called (.detector ..) _ | .called (.report _) _ => true
  | _ => false

def sights (entries : List Entry) : List Entry :=
  entries.filter Entry.isSight

@[simp]
theorem sights_append (first second : List Entry) :
    sights (first ++ second) = sights first ++ sights second :=
  List.filter_append _ _

end Journal

namespace State

open Journal

def sights (s : State σ) : List Entry :=
  Journal.sights s.written

theorem sights_write_of_unseen (s : State σ) {entry : Entry} (h : entry.isSight = false) :
    (s.write entry).sights = s.sights := by
  rw [sights, written_write, sights_append, sights, Journal.sights, Journal.sights,
    List.filter_cons_of_neg (by simp [h]), List.filter_nil, List.append_nil]

theorem sights_write_of_seen (s : State σ) {entry : Entry} (h : entry.isSight = true) :
    (s.write entry).sights = s.sights ++ [entry] := by
  rw [sights, written_write, sights_append, sights, Journal.sights, Journal.sights,
    List.filter_cons_of_pos h, List.filter_nil]

end State

/-! ## Names in two runs -/

structure Pairing where
  detector : Detector → Detector → Prop
  project : ProjectRef → ProjectRef → Prop
  className : ∀ {d d'}, detector d d' → d.className = d'.className
  dir : ∀ {ref ref'}, project ref ref' → ref.dir = ref'.dir
  detectors : Relator.BiUnique detector
  projects : Relator.BiUnique project

namespace Pairing

variable (n : Pairing)

structure Contexts (c c' : Context) : Prop where
  project : n.project c.project c'.project
  main : Option.Rel n.project c.main c'.main
  file : c.file = c'.file
  kind : c.kind = c'.kind

def naming : Naming :=
  ⟨n.detector, n.Contexts⟩

def Hooks (hook hook' : Hook) : Prop :=
  n.naming.FileHooks hook hook' ∨ n.naming.LevelHooks hook hook'

structure Reports (report report' : Report) : Prop where
  context : n.Contexts report.context report'.context
  issue : report.issue = report'.issue
  location : report.location = report'.location
  message : report.message = report'.message
  data : report.data = report'.data

inductive Entries : Journal.Entry → Journal.Entry → Prop
  | fired (event moment) {c c'} : Option.Rel n.Contexts c c' →
      Entries (.fired event c moment) (.fired event c' moment)
  | hook (moment) {d d' hook hook'} : n.detector d d' → n.Hooks hook hook' →
      Entries (.called (.detector d hook) moment) (.called (.detector d' hook') moment)
  | report (moment) {report report'} : n.Reports report report' →
      Entries (.called (.report report) moment) (.called (.report report') moment)

/-- The same action. Messages and listeners are nobody's business; a request is for one of `own`. -/
inductive Actions (own : Detector → Detector → Prop) : Action → Action → Prop
  | report {report report'} : n.Reports report report' →
      Actions own (.report report) (.report report')
  | requestRepeat (scope) {d d'} : own d d' →
      Actions own (.requestRepeat d scope) (.requestRepeat d' scope)
  | log (error message context error' message' context') :
      Actions own (.log error message context) (.log error' message' context')
  | addListener (listener listener') : Actions own (.addListener listener) (.addListener listener')
  | removeListener (listener listener') :
      Actions own (.removeListener listener) (.removeListener listener')
  | observe (issue scope project) {c c'} : Option.Rel n.Contexts c c' →
      Actions own (.observe c issue scope project) (.observe c' issue scope project)
  | askSuppressed (issue target) :
      Actions own (.askSuppressed issue target) (.askSuppressed issue target)

def Shown (sees : Project → Project) (shown shown' : ProjectRef × Project) : Prop :=
  n.project shown.1 shown'.1 ∧ sees shown.2 = sees shown'.2

inductive Replies (sees : Project → Project) : Reply → Reply → Prop
  | done : Replies sees .done .done
  | state (moment root enabled inScope) {shown shown'} :
      Option.Rel (n.Shown sees) shown shown' →
      Replies sees (.observed (.state moment root enabled inScope shown))
        (.observed (.state moment root enabled inScope shown'))
  | suppressed (issue answer) :
      Replies sees (.observed (.suppressed issue answer)) (.observed (.suppressed issue answer))

inductive Parsings : Call → Call → Prop
  | markup {c c'} : n.Contexts c c' → Parsings (.parseMarkup c) (.parseMarkup c')
  | source {c c'} : n.Contexts c c' → Parsings (.parseSource c) (.parseSource c')
  | bytecode (bytes) : Parsings (.readClass bytes) (.readClass bytes)

end Pairing

/-- Whose scripts are compared: what they see of a project, which instances they may ask to run
again, what they know of the memory, and how each of the two may change it. -/
structure Stance (σ : Type) where
  sees : Project → Project
  own : Detector → Detector → Prop
  view : σ → σ → Prop
  left : (σ → σ) → Prop
  right : (σ → σ) → Prop

/-- Two scripts that do the same up to names, as long as the memories are the same to them and they
are replied the same. -/
inductive Script.Alike (n : Pairing) (stance : Stance σ) : Script σ → Script σ → Prop
  | done : Alike n stance .done .done
  | fail (fault) : Alike n stance (.fail fault) (.fail fault)
  | update {change change' next next'} : stance.left change → stance.right change' →
      (∀ m m', stance.view m m' → stance.view (change m) (change' m')) →
      (∀ m m', stance.view m m' → Alike n stance (next m) (next' m')) →
      Alike n stance (.update change next) (.update change' next')
  | act {action action' next next'} : n.Actions stance.own action action' →
      (∀ reply reply', n.Replies stance.sees reply reply' →
        Alike n stance (next reply) (next' reply')) →
      Alike n stance (.act action next) (.act action' next')

/-! ## Memories -/

/-- The part of the memory that belongs to each instance, what it holds when the instance is made,
when two such parts are the same up to names, and what the code of an embedding sees of a
project. -/
structure Privacy (σ τ : Type) where
  own : Detector → σ → τ
  init : DetectorClass → τ
  same : Pairing → τ → τ → Prop
  sees : Project → Project

namespace Privacy

variable (p : Privacy σ τ)

def Leaves (change : σ → σ) : Prop :=
  ∀ d memory, p.own d (change memory) = p.own d memory

def Spares (d : Detector) (change : σ → σ) : Prop :=
  ∀ other, other ≠ d → ∀ memory, p.own other (change memory) = p.own other memory

def detector (n : Pairing) (d d' : Detector) : Stance σ where
  sees := p.sees
  own := fun other other' => other = d ∧ other' = d'
  view := fun m m' => p.same n (p.own d m) (p.own d' m')
  left := p.Spares d
  right := p.Spares d'

def parser : Stance σ where
  sees := p.sees
  own := fun _ _ => False
  view := fun _ _ => True
  left := p.Leaves
  right := p.Leaves

/-- All that is seen of a project is in its outline. -/
def Unplaced : Prop :=
  ∀ {project other : Project}, project.outline = other.outline → p.sees project = p.sees other

/-- The share of a detector that does not exist yet is as it will be at first. -/
def Unborn (s : State σ) : Prop :=
  ∀ d, Engine.serialOf s.serials d.className < d.serial → p.own d s.host = p.init d.className

end Privacy

def Script.Stores (p : Privacy σ τ) : Script σ → Prop
  | .done => True
  | .fail _ => False
  | .update change next => p.Leaves change ∧ ∀ memory, (next memory).Stores p
  | .act _ _ => False

def Action.Looks (context : Option Context) : Action → Prop
  | .observe seen issue _ _ => issue = none ∨ seen = none ∨ seen = context
  | .log .. | .askSuppressed .. => True
  | _ => False

/-! ## Configurations -/

def Configuration.Impartial (n : Pairing) : Configuration → Prop
  | .defaults => True
  | .policy rules => ∀ report report', n.Reports report report' →
      rules.ignored report = rules.ignored report'
  | .layer _ parent => parent.Impartial n

def Host.Gives (host : Host σ) (ws : Workspace) (dir : String) (config : Configuration) : Prop :=
  ∃ memory, config = (host.made ws dir memory).1

/-- An embedding whose detectors depend on their own history and the arguments of their calls, whose
parsers and client answer by their arguments, and whose listeners only look. -/
structure Host.Isolated (host : Host σ) (p : Privacy σ τ) : Prop where
  begins : ∀ n name, p.same n (p.init name) (p.init name)
  detector : ∀ (n : Pairing) moment {d d' hook hook' m m'}, n.detector d d' →
    n.Hooks hook hook' → p.same n (p.own d m) (p.own d' m') →
    Script.Alike n (p.detector n d d') (host.react (.detector d hook) moment m)
      (host.react (.detector d' hook') moment m')
  elementNames : ∀ (n : Pairing) {d d' m m'}, n.detector d d' →
    p.same n (p.own d m) (p.own d' m') → host.elementNames d m = host.elementNames d' m'
  attributeNames : ∀ (n : Pairing) {d d' m m'}, n.detector d d' →
    p.same n (p.own d m) (p.own d' m') → host.attributeNames d m = host.attributeNames d' m'
  nodeTypes : ∀ (n : Pairing) {d d' m m'}, n.detector d d' →
    p.same n (p.own d m) (p.own d' m') → host.nodeTypes d m = host.nodeTypes d' m'
  appliesToFolder : ∀ (n : Pairing) folder {d d' m m'}, n.detector d d' →
    p.same n (p.own d m) (p.own d' m') →
    host.appliesToFolder d folder m = host.appliesToFolder d' folder m'
  appliesToFile : ∀ (n : Pairing) file {d d' c c' m m'}, n.detector d d' → n.Contexts c c' →
    p.same n (p.own d m) (p.own d' m') →
    host.appliesToFile d c file m = host.appliesToFile d' c' file m'
  parser : ∀ (n : Pairing) moment m m' {call call'}, n.Parsings call call' →
    Script.Alike n p.parser (host.react call moment m) (host.react call' moment m')
  parseMarkup : ∀ (n : Pairing) ws m m' {c c'}, n.Contexts c c' →
    host.parseMarkup c ws m = host.parseMarkup c' ws m'
  parseSource : ∀ (n : Pairing) ws m m' {c c'}, n.Contexts c c' →
    host.parseSource c ws m = host.parseSource c' ws m'
  readClass : ∀ bytes m m', host.readClass bytes m = host.readClass bytes m'
  supplies : ∀ scanner m m', host.supplies scanner m = host.supplies scanner m'
  client : ∀ {call} moment memory, call.isBookkeeping = true →
    (host.react call moment memory).Stores p
  keepsProjects : host.keepsProjects = true
  configuration : ∀ dir ws m m', host.configuration dir ws m = host.configuration dir ws m'
  impartial : ∀ (n : Pairing) dir ws m {made}, host.configuration dir ws m = some made →
    made.1.Impartial n
  listener : ∀ listener event context moment memory,
    (host.react (.listener listener event context) moment memory).Within
      (Action.Looks context) p.Leaves

namespace Host.Isolated

variable {host : Host σ} {p : Privacy σ τ} {ws : Workspace} {dir : String}
  {config config' : Configuration}

theorem made_eq (h : host.Isolated p) (ws : Workspace) (dir : String) (m m' : σ) :
    host.made ws dir m = host.made ws dir m' := by
  rw [made, made, h.configuration dir ws m m']

theorem unique (h : host.Isolated p) (hconfig : host.Gives ws dir config)
    (hconfig' : host.Gives ws dir config') : config = config' := by
  obtain ⟨m, rfl⟩ := hconfig
  obtain ⟨m', rfl⟩ := hconfig'
  rw [h.made_eq ws dir m m']

theorem impartial_of_gives (h : host.Isolated p) (n : Pairing)
    (hconfig : host.Gives ws dir config) : config.Impartial n := by
  obtain ⟨m, rfl⟩ := hconfig
  rw [made]
  cases hmade : host.configuration dir ws m with
  | none => trivial
  | some made => exact h.impartial n dir ws m hmade

end Host.Isolated

namespace Pairing

variable {n : Pairing} {report report' : Report}

theorem Reports.reportedPath_eq (h : n.Reports report report') :
    Layer.reportedPath report = Layer.reportedPath report' := by
  rw [Layer.reportedPath, Layer.reportedPath, Context.archive?, Context.archive?, h.location,
    h.context.file, h.context.kind]

theorem Reports.isIgnored_eq (h : n.Reports report report') (cwd : String)
    {config : Configuration} (hconfig : config.Impartial n) :
    config.isIgnored cwd report = config.isIgnored cwd report' := by
  induction config with
  | defaults => rfl
  | policy rules => exact hconfig report report' h
  | layer own parent ih =>
    rw [Configuration.isIgnored, Configuration.isIgnored, ih hconfig, Layer.ignores,
      Layer.ignores, h.reportedPath_eq, h.issue]

theorem Reports.verdict_eq (h : n.Reports report report') (cwd : String) {config : Configuration}
    (hconfig : config.Impartial n) :
    Engine.verdict config cwd report = Engine.verdict config cwd report' := by
  rw [Engine.verdict, Engine.verdict, h.isIgnored_eq cwd hconfig, h.issue]

end Pairing
end ProjectLint
