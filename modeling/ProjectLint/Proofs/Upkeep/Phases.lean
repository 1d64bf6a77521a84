/-
What the phases of a project and the check of all projects keep up, from what the stages do.
-/
import ProjectLint.Proofs.Upkeep.Stages

namespace ProjectLint
namespace Engine

open Run Journal

variable {e : Engine σ} {I : State σ → Prop} {E : Fault → Prop} {C : Context → Prop}

/-! ## Looking libraries up -/

structure Filing (e : Engine σ) (I : State σ → Prop) (E : Fault → Prop) : Prop
    extends Serving e I E where
  changed : ∀ index {change : Project → Project} {s}, (∀ p, (change p).subset = p.subset) → I s →
    I (s.changed index change)
  added : ∀ project {s}, I s → I (s.extended project)
  cached : ∀ cache {s}, I s → I { s with cache }
  endless : E .endless

namespace Filing

variable (h : Filing e I E)

include h

theorem followLinks (path : String) : Upholds I E (followLinks path) :=
  .inspect fun _ _ => .ite (fun _ => .pure ()) fun _ => .throw h.endless

theorem makeProject (dir reference : String) : Upholds I E (e.makeProject dir reference) := by
  refine (h.followLinks dir).bind fun _ => .inspect fun s _ =>
    Upholds.bind ?_ fun properties => .inspect fun t ht => ?_
  · refine .inspect fun u _ => .ite (fun _ => ?_) fun _ => .pure []
    cases u.files.readText _ with
    | ok text => exact .pure _
    | error fault => exact (h.log rfl none).bind fun _ => .pure []
  · exact Upholds.bind (fun _ _ => .ok (h.added _ ht)) fun _ => .pure _

theorem projectAt (dir reference : String) : Upholds I E (e.projectAt dir reference) := by
  have hfinish : ∀ ref : ProjectRef, Upholds I E
      (do changeProject ref (e.host.overrides ref.dir).apply; return ref : Run σ ProjectRef) :=
    fun ref => Upholds.bind (.modify (h.changed _ fun _ => rfl)) fun _ => .pure ref
  refine (h.call rfl rfl).bind fun _ => .ite (fun _ => ?_) fun _ => ?_
  · refine .inspect fun s _ => Upholds.bind ?_ fun found =>
      Upholds.bind (.modify (h.cached _)) fun _ => hfinish found.1
    refine (h.followLinks dir).bind fun _ => .inspect fun t _ => ?_
    dsimp only
    cases s.cache.lookup (t.files.canonical dir) with
    | some ref => exact .pure _
    | none => exact (h.makeProject _ reference).bind fun _ => .pure _
  · exact (h.makeProject dir reference).bind hfinish

theorem lookUpLibraries (dir : String) (libraries : List String) :
    Upholds I E (e.lookUpLibraries dir libraries) := by
  induction libraries with
  | nil => exact .pure []
  | cons library rest ih =>
    rw [Engine.lookUpLibraries]
    have hmissing : Log.complains none ("Library project " ++ library ++ " referenced from " ++
        dir ++ " does not exist") = false := by
      refine Log.complains_of_startsElse ?_ none
      iterate 4 refine Log.startsElse_append ?_ _
      rfl
    refine .inspect fun s _ => .ite (fun _ => ?_) fun _ => (h.log hmissing none).bind fun _ => ih
    exact (h.projectAt library library).bind fun _ => ih.bind fun _ => .pure _

theorem libraries (ref : ProjectRef) : Upholds I E (e.libraries ref) := by
  refine .inspect fun s _ => ?_
  cases (s.project ref).libraries with
  | some refs => exact .pure refs
  | none =>
    exact (h.lookUpLibraries _ _).bind fun _ =>
      Upholds.bind (.modify (h.changed _ fun _ => rfl)) fun _ => .pure _

end Filing

/-! ## One phase -/

/-- A property that survives what the check of projects itself does to a state, with scans of
certain contexts, and the faults that the check may end with by itself. -/
structure Tending (e : Engine σ) (I : State σ → Prop) (E : Fault → Prop) (C : Context → Prop) :
    Prop where
  scanned : ∀ {context s}, C context → I s →
    I (s.write (.fired .scanningFile (some context) s.moment)) := by intros; assumption
  due : ∀ {pass file kind}, Due e I (fun _ _ => True) (fun _ => True) pass file kind →
    C (pass.context file kind)
  parseMarkup : ∀ {context s fault}, I s →
    e.host.parseMarkup context s.files s.host = .error fault → E fault := by intros; trivial
  parseSource : ∀ {context s fault}, I s →
    e.host.parseSource context s.files s.host = .error fault → E fault := by intros; trivial
  construct : ∀ {name s fault}, I s → e.host.construct name s.host = .error fault → E fault := by
    intros; trivial
  misplaced : ∀ {selection fault}, e.options.assertions = true →
    e.misplaced? selection = some fault → E fault := by intros; trivial
  listed : ∀ {path archive fault s}, I s → s.files.archive path = .ok archive →
    archive.list = .error fault → E (.archive fault) := by intros; trivial
  serials : ∀ serials {s}, I s → I { s with serials } := by intros; assumption
  schedule : ∀ schedule {s}, I s → I { s with schedule } := by intros; assumption
  memo : ∀ memo {s}, I s → I { s with memo } := by intros; assumption
  reported : ∀ {s}, I s → I { s with cancelReported := true } := by intros; assumption
  narrowed : ∀ {s}, I s → I s.narrow := by intros; assumption
  restored : ∀ {s₀ s}, I s₀ → I s → I { s with scope := s₀.scope } := by intros; assumption

/-- A property that survives the check of projects. What a report leads to is taken as a whole, and
so is the lookup of a configuration; the libraries of certain projects can be looked up. -/
structure Custody (e : Engine σ) (I : State σ → Prop) (E : Fault → Prop) (C : Context → Prop)
    (P : ProjectRef → Prop) : Prop extends Tending e I E C where
  call : ∀ {call}, call.isRisky = false → call.concernsReport = false → Upholds I E (e.invoke call)
  risky : ∀ {call}, call.isRisky = true → Upholds I (fun _ => True) (e.invoke call)
  write : ∀ {entry s}, entry.scan? = none → entry.concernsReport = false → I s → I (s.write entry)
  read : ∀ (ref : ProjectRef) document {s}, I s → I (s.changed ref.index (·.readManifest document))
  configuration : ∀ ref, Upholds I E (e.configuration ref)
  submit : ∀ report, Upholds I E (e.submit .engine report)
  libraries : ∀ {ref}, P ref → Upholds I E (e.libraries ref)

namespace Custody

variable {P : ProjectRef → Prop} (h : Custody e I E C P)
variable {project : ProjectRef}

include h

theorem visiting : Visiting e I E fun _ _ => True where
  call := fun {call} hcall => h.call <| by
    cases call with
    | listener => cases hcall
    | readClass => cases hcall
    | _ => rfl
  parsing := fun _ => h.call rfl rfl
  reading := fun _ => h.call rfl rfl
  logged := fun hentry hs => h.write rfl hentry hs
  risky := h.risky
  asked := fun _ _ => h.call rfl rfl
  parseMarkup := h.parseMarkup
  parseSource := h.parseSource

theorem scanning {root : ProjectRef} (hroot : P root) :
    Scanning e I E (fun _ _ => True) (fun _ => True) root :=
  { h.visiting with
    serves := fun _ _ _ _ _ => trivial
    applies := fun _ _ _ _ => trivial
    memo := fun _ _ => VisitorMemo.fits_any _
    remembered := fun _ hs => h.memo _ hs
    listed := h.listed
    read := h.read
    scanned := fun hdue _ hs => h.scanned (h.due hdue) hs
    told := fun _ _ _ => h.call rfl rfl
    announced := fun _ _ hs => h.write rfl rfl hs
    libraries := h.libraries hroot }

theorem note {level : Log.Level} {message : String} {details : List (String × Data.Value)}
    (hlevel : Log.Entry.isComplaint ⟨level, message, details⟩ = false) :
    Upholds I E (Run.note level message details) :=
  h.visiting.note hlevel

theorem fire {event : Event} (hevent : event ≠ .scanningFile) (context : Option Context) :
    Upholds I E (e.fire event context) := by
  refine h.visiting.fire fun hs => h.write ?_ rfl hs
  cases event with
  | scanningFile => exact absurd rfl hevent
  | _ => rfl

theorem checkPhase (hproject : P project) : Upholds I E (e.checkPhase project) := by
  intro s hs
  rw [checkPhase_eq]
  exact (h.fire (by decide) _).bind (fun _ => (h.scanning hproject).checkAnnounced hs) s hs

theorem reportCanceled (context : Context) : Upholds I E (e.reportCanceled context) :=
  .inspect fun _ _ => .ite (fun _ => .pure ()) fun _ =>
    Upholds.bind (.modify h.reported) fun _ => h.submit _

theorem checkProject (hproject : P project) : Upholds I E (e.checkProject project) :=
  (h.checkPhase hproject).bind fun _ => .inspect fun _ _ =>
    .ite (fun _ => h.reportCanceled _) fun _ => .pure ()

/-! ## Planning -/

theorem instantiateAll (classes : List (DetectorClass × ScopeSet)) :
    Upholds I E (e.instantiateAll classes) := by
  have hone : ∀ name, Upholds I E (e.instantiate name) := by
    refine fun name => .inspect fun s hs => ?_
    cases hconstruct : e.host.construct name s.host with
    | error fault => exact .throw (h.construct hs hconstruct)
    | ok _ => exact Upholds.bind (fun _ _ => .ok (h.serials _ hs)) fun _ => .pure _
  induction classes with
  | nil => exact .pure []
  | cons entry rest ih => exact (hone entry.1).bind fun _ => ih.bind fun _ => .pure _

theorem checkSelection (selection : Selection) : Upholds I E (e.checkSelection selection) := by
  refine .ite (fun hassertions => ?_) fun _ => .pure ()
  cases hmisplaced : e.misplaced? selection with
  | none => exact .pure ()
  | some fault => exact .throw (h.misplaced hassertions hmisplaced)

theorem reschedule (change : Schedule → Schedule) : Upholds I E (ownSlot.change change) :=
  .modify (h.schedule _)

theorem choose (selection : Selection) : Upholds I E (ownSlot.choose selection) :=
  (h.reschedule _).bind fun _ => .inspect fun _ _ => .modify (h.write rfl rfl)

theorem plan (project : ProjectRef) (scope : ScopeSet) :
    Upholds I E (e.plan ownSlot (e.configuration project) scope) := by
  refine (h.reschedule _).bind fun _ => (h.configuration project).bind fun config => ?_
  refine Upholds.bind ?_ fun selection => (h.choose selection).bind fun _ =>
    (h.checkSelection selection).bind fun _ => .pure _
  exact .inspect fun s _ => (h.instantiateAll _).bind fun members =>
    (h.note rfl).bind fun _ => .pure _

theorem replan (project : ProjectRef) :
    Upholds I E (e.replan ownSlot (e.configuration project)) := by
  refine .inspect fun s _ => (h.reschedule _).bind fun _ => (h.configuration project).bind
    fun config => .inspect fun t _ => ?_
  exact (h.choose _).bind fun _ => .inspect fun u _ => (h.note rfl).bind fun _ =>
    (h.checkSelection _).bind fun _ => .pure _

/-! ## All phases of all projects -/

theorem forget : Upholds I E (forgetVisitor : Run σ Unit) :=
  .modify (h.memo _)

theorem extraPhases (hproject : P project) (fuel : Nat) :
    Upholds I E (e.extraPhases project fuel) := by
  induction fuel with
  | zero => exact .pure ()
  | succ fuel ih =>
    have hgoOn : ∀ detectors, Upholds I E (e.goOn project fuel detectors) :=
      fun detectors => .inspect fun s _ => .ite (fun _ => .pure ()) fun _ => ih
    have hlater : Upholds I E (e.laterPhases project fuel) := by
      refine .inspect fun s _ => .ite (fun _ => .pure ()) fun _ => ?_
      refine (h.replan project).bind fun detectors => h.forget.bind fun _ => ?_
      cases detectors with
      | nil => exact hgoOn []
      | cons detector rest => exact (h.checkProject hproject).bind fun _ => hgoOn _
    intro s hs
    cases hadvance : (ownSlot.schedule s).advance? with
    | none =>
      rw [extraPhases_of_none _ _ _ hadvance]
      exact .ok hs
    | some advanced =>
      rw [extraPhases_of_some _ _ _ hadvance]
      exact ((h.fire (by decide) _).bind fun _ =>
        Upholds.bind (.modify h.narrowed) fun _ => hlater) _ (h.schedule _ hs)

theorem repeatPhases (hproject : P project) : Upholds I E (e.repeatPhases project) :=
  .inspect fun _ _ => .ite (fun _ => (h.extraPhases hproject _).keepingScope h.restored)
    fun _ => .pure ()

theorem checkRoot (hproject : P project) : Upholds I E (e.checkRoot project) := by
  refine .inspect fun s _ => (h.plan project _).bind fun detectors => h.forget.bind fun _ => ?_
  cases detectors with
  | nil => exact h.note rfl
  | cons detector rest => exact (h.checkProject hproject).bind fun _ =>
    (h.repeatPhases hproject).unlessCanceled

theorem checkRoots (current : ProjectRef) {roots : List ProjectRef}
    (hroots : ∀ root ∈ roots, P root) : Upholds I E (e.checkRoots current roots) := by
  induction roots generalizing current with
  | nil => exact .pure current
  | cons root rest ih =>
    obtain ⟨hroot, hrest⟩ := List.forall_mem_cons.1 hroots
    exact .inspect fun s _ => .ite (fun _ => .pure current) fun _ =>
      (h.checkRoot hroot).bind fun _ => ih root hrest

theorem finish (current : ProjectRef) (elapsed : Int) : Upholds I E (e.finish current elapsed) := by
  have hconclude : Upholds I E (e.conclude elapsed) := by
    intro s hs
    refine h.fire ?_ none _ (h.write rfl rfl hs)
    cases s.canceled <;> decide
  intro s hs
  cases hcanceled : s.canceled with
  | true =>
    rw [finish_of_canceled _ _ _ hcanceled]
    exact ((h.reportCanceled _).bind fun _ => hconclude) s hs
  | false =>
    rw [finish_of_not_canceled _ _ _ hcanceled]
    exact hconclude s hs

theorem checkAll {first : ProjectRef} {rest : List ProjectRef}
    (hroots : ∀ root ∈ first :: rest, P root) (elapsed : Int) {s : State σ}
    (hs : I (s.entered (rest.length + 1))) : Ends I E (e.checkAll first rest elapsed s) := by
  rw [checkAll_eq]
  exact ((h.fire (by decide) none).bind fun _ => (h.checkRoots first hroots).bind fun current =>
    h.finish current elapsed) _ hs

end Custody

/-! ## Properties that survive all entries -/

/-- A property that survives the check of projects, whatever is called or written down beside the
scans of files. -/
structure Upkeep (e : Engine σ) (I : State σ → Prop) (E : Fault → Prop) (C : Context → Prop) :
    Prop extends Tending e I E C where
  call : ∀ {call}, call.isRisky = false → Upholds I E (e.invoke call)
  risky : ∀ call, Upholds I (fun _ => True) (e.invoke call)
  write : ∀ {entry s}, entry.scan? = none → I s → I (s.write entry)
  changed : ∀ index {change : Project → Project} {s},
    (∀ p, (change p).subset = p.subset ∧ (change p).filing = p.filing) → I s →
    I (s.changed index change)
  libraries : ∀ ref, Upholds I E (e.libraries ref)

namespace Upkeep

variable (h : Upkeep e I E C)

include h

theorem configuration (ref : ProjectRef) : Upholds I E (e.configuration ref) := by
  have hnoted : ∀ made : Configuration × List Log.Entry, Upholds I E (noted made) := fun made =>
    (Upholds.each made.2 fun _ _ => .modify (h.write rfl)).bind fun _ => .pure _
  refine .inspect fun s _ => ?_
  cases (s.project ref).configuration with
  | some config => exact .pure config
  | none =>
    refine Upholds.bind ?_ fun config =>
      Upholds.bind (.modify (h.changed _ fun _ => ⟨rfl, rfl⟩)) fun _ => .pure config
    exact (h.call rfl).bind fun _ => .inspect fun _ _ => hnoted _

theorem log (error : Option String) (message : String) (context : Option Context) :
    Upholds I E (e.log error message context) :=
  .ite (fun _ => .modify (h.write rfl)) fun _ => h.call rfl

theorem submit (author : Author) (report : Report) : Upholds I E (e.submit author report) := by
  refine Upholds.bind (.modify (h.write rfl)) fun _ => (h.configuration _).bind fun config =>
    .inspect fun s _ => ?_
  cases verdict config s.files.cwd report with
  | disabled => exact .ite (fun _ => .pure ()) fun _ => h.log none _ none
  | ignored => exact .pure ()
  | silenced => exact .pure ()
  | delivered => exact h.call rfl

theorem custody : Custody e I E C fun _ => True :=
  { h with
    call := fun hcall _ => h.call hcall
    risky := fun _ => h.risky _
    write := fun hentry _ => h.write hentry
    read := fun _ document _ hs => h.changed _ (fun p => p.readManifest_keeps document) hs
    configuration := h.configuration
    submit := h.submit .engine
    libraries := fun _ => h.libraries _ }

theorem checkAll (first : ProjectRef) (rest : List ProjectRef) (elapsed : Int) {s : State σ}
    (hs : I (s.entered (rest.length + 1))) : Ends I E (e.checkAll first rest elapsed s) :=
  h.custody.checkAll (fun _ _ => trivial) elapsed hs

end Upkeep
end Engine
end ProjectLint
