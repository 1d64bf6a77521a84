/-
Stages that remember the visitor of resource files beside stages that make one for every folder and
file. From state to state the two runs are `Twins`: all that tells them apart is what is remembered
and the questions that were asked.
-/
import ProjectLint.Proofs.Reuse
import ProjectLint.Proofs.Rerun.Callbacks

namespace ProjectLint
namespace Reuse

open Run Engine Journal
open List (Forall₂)

/-! ## Twins -/

theorem heeds_any (script : Script σ) : script.Heeds (fun _ => True) Eq fun _ => True := by
  induction script with
  | done => trivial
  | fail fault => trivial
  | update change next ih => exact ⟨fun _ _ => trivial, fun memory _ => ih memory⟩
  | act action next ih =>
    refine ⟨trivial, ?_⟩
    rintro reply _ rfl
    exact ⟨rfl, ih reply⟩

/-- A state without its journal and the visitor remembered. -/
def bare (s : State σ) : State σ :=
  { s with memo := none, journal := #[] }

/-- All that was written but questions for a visitor. -/
def told (s : State σ) : List Entry :=
  s.written.filter fun entry => !entry.isVisitorQuestion

/-- Two states that differ in what they remember of visitors, and in the questions asked so far.
What the first remembers has a property. -/
structure Twins (M : VisitorMemo → Prop) (s t : State σ) : Prop where
  bare : bare s = bare t
  told : told s = told t
  memo : ∀ memo, s.memo = some memo → M memo

namespace Twins

variable {M : VisitorMemo → Prop} {s t : State σ}

theorem view (h : Twins M s t) (read : State σ → α) (hread : ∀ u, read (Reuse.bare u) = read u) :
    read s = read t := by
  rw [← hread s, h.bare, hread t]

theorem moment (h : Twins M s t) : s.moment = t.moment :=
  h.view State.moment fun _ => rfl

theorem files (h : Twins M s t) : s.files = t.files :=
  h.view State.files fun _ => rfl

theorem host (h : Twins M s t) : s.host = t.host :=
  h.view State.host fun _ => rfl

theorem canceled (h : Twins M s t) : s.canceled = t.canceled :=
  h.view State.canceled fun _ => rfl

theorem write (h : Twins M s t) (entry : Entry) : Twins M (s.write entry) (t.write entry) := by
  refine ⟨h.bare, ?_, h.memo⟩
  rw [Reuse.told, Reuse.told, State.written_write, State.written_write, List.filter_append,
    List.filter_append]
  exact congrArg (· ++ _) h.told

theorem change (h : Twins M s t) (f : State σ → State σ) (hjournal : ∀ u, (f u).journal = u.journal)
    (hmemo : ∀ u, (f u).memo = u.memo)
    (hbare : ∀ u, Reuse.bare (f u) = Reuse.bare (f (Reuse.bare u))) : Twins M (f s) (f t) := by
  refine ⟨?_, ?_, ?_⟩
  · rw [hbare s, hbare t, h.bare]
  · rw [Reuse.told, Reuse.told, State.written, State.written, hjournal, hjournal]
    exact h.told
  · rw [hmemo]
    exact h.memo

theorem bonds : Rerun.Bonds (fun _ => True) (Twins (σ := σ) M) where
  akin := fun h =>
    { host := h.host
      files := h.files
      registry := h.view State.registry fun _ => rfl
      cache := h.view State.cache fun _ => rfl
      serials := h.view State.serials fun _ => rfl
      listeners := h.view State.listeners fun _ => rfl
      projects := h.view (fun u => u.projects.map Project.resetSubset) fun _ => rfl }
  memory := fun _ => trivial
  logged := fun _ _ _ h => h.write _
  submitted := fun _ _ _ _ h => h.write _
  suppressed := fun _ _ _ _ h => h.write _
  configured := fun index config _ _ h => h.change
    (fun u => u.changed index ({ · with configuration := some config }))
    (fun _ => rfl) (fun _ => rfl) fun _ => rfl
  updated := fun change _ _ _ h => h.change (fun u => { u with host := change u.host })
    (fun _ => rfl) (fun _ => rfl) fun _ => rfl
  refiled := fun change _ _ h => h.change (fun u => { u with files := change u.files })
    (fun _ => rfl) (fun _ => rfl) fun _ => rfl
  listening := fun change _ _ h => h.change (fun u => { u with listeners := change u.listeners })
    (fun _ => rfl) (fun _ => rfl) fun _ => rfl
  search := fun h => h.change (fun u => { u with searchCanceled := true })
    (fun _ => rfl) (fun _ => rfl) fun _ => rfl

theorem requestRepeat (detector : Detector) (scope : Option ScopeSet) :
    Respects (Twins (σ := σ) M) (Run.requestRepeat detector scope) :=
  bonds.requestRepeat (fun h => h.view State.schedule fun _ => rfl) fun schedule _ _ h =>
    (h.write _).change ({ · with schedule }) (fun _ => rfl) (fun _ => rfl) fun _ => rfl

theorem perform {e : Engine σ} (he : ∀ call, Rerun.Answers e e (Twins M) call)
    (action : Action) : Respects (Twins M) (e.perform action) := by
  have hleads := (Action.leads_client action).imp fun {call} _ => he call
  have hplain : action.isPlain = true → Respects (Twins M) (e.perform action) :=
    fun hplain => (bonds.perform (bonds.attuned (.refl e)) hplain
      (fun change _ => bonds.refiled change) hleads).imp fun _ _ hreply => hreply.1
  cases action with
  | requestRepeat detector scope =>
    exact (requestRepeat detector scope).bind fun _ _ _ => .pure rfl
  | cancel =>
    refine Mirrors.andThen (.modify fun h => ?_) fun _ => .pure rfl
    exact h.change (fun u => { u with canceled := true }) (fun _ => rfl) (fun _ => rfl) fun _ => rfl
  | observe context issue scope project =>
    have hobserve : Respects (Twins M) (e.observe context issue scope project) := by
      refine bonds.observe (bonds.attuned (.refl e)) hleads (fun hst => ?_)
        fun hst huv shown _ enabled => ?_
      · rw [hst.moment]
      · rw [hst.moment, huv.view State.scope fun _ => rfl, huv.view State.project fun _ => rfl]
    refine hobserve.bind ?_
    rintro seen _ rfl
    exact Mirrors.bind (R := Eq) (.modify fun h => h.write _) fun _ _ _ => .pure rfl
  | _ => exact hplain rfl

theorem echoes (host : Host σ) :
    Rerun.Echoes host (fun _ => True) (Twins M) (fun _ => True) (fun _ => True) Eq where
  toBonds := bonds
  reacts := fun _ hst => by rw [hst.moment, hst.host]
  heeds := fun _ _ => heeds_any _
  called := fun _ hst => by
    rw [hst.moment]
    exact hst.write _
  performs := fun _ he action _ => perform (fun _ => he trivial) action

variable {host : Host σ} {opts : Options}

theorem answers (call : Call) :
    Rerun.Answers (host.engine opts) (host.engine opts) (Twins M) call :=
  (echoes host).invoke opts Host.nestingLimit trivial

theorem log (error : Option String) (message : String) :
    Respects (Twins M) ((host.engine opts).log error message) :=
  bonds.log (bonds.attuned (.refl _)) (answers _)

theorem fire (event : Event) (context : Option Context) :
    Respects (Twins M) ((host.engine opts).fire event context) :=
  bonds.fire (fun _ => answers _) fun hst => by
    rw [hst.moment]
    exact hst.write _

theorem visits : Visits (host.engine opts) (host.engine opts)
    (Naming.alone (fun _ => True) (fun _ => True)) (Twins M) where
  file := fun ⟨hc, _⟩ => congrArg Context.file hc
  elementNames := fun ⟨hd, _⟩ hst => by rw [hd, hst.host]
  attributeNames := fun ⟨hd, _⟩ hst => by rw [hd, hst.host]
  nodeTypes := fun ⟨hd, _⟩ hst => by rw [hd, hst.host]
  appliesToFile := fun _ ⟨hd, _⟩ ⟨hc, _⟩ hst => by rw [hd, hc, hst.host]
  ask := by
    rintro d _ hook hook' ⟨rfl, -⟩ hhook
    obtain ⟨rfl, -⟩ := Naming.alone_fileHooks hhook
    exact answers _
  parseMarkup := by
    rintro c _ ⟨rfl, -⟩
    exact bonds.parseMarkup (.refl _) (answers _)
  parseSource := by
    rintro c _ ⟨rfl, -⟩
    exact bonds.parseSource (.refl _) (answers _)

theorem paces : Paces (host.engine opts) (host.engine opts)
    (Naming.alone (fun _ => True) (fun _ => True)) (Twins M) where
  toVisits := visits
  files := fun hst => hst.files
  readClass := fun _ => bonds.readClass (.refl _) (answers _)
  log := log
  fire := by
    rintro c _ ⟨rfl, -⟩
    exact fire _ _

theorem samePass (pass : Pass) :
    SamePass (Naming.alone (fun _ => True) (fun _ => True)) (Twins (σ := σ) M) pass pass where
  context := fun _ _ => ⟨rfl, trivial⟩
  dir := rfl
  own := Iff.rfl
  outline := fun hst => by rw [hst.view State.project fun _ => rfl]
  read := fun document _ _ hst => hst.change (fun u => u.changed pass.project.index
    (·.readManifest document))
    (fun _ => rfl) (fun _ => rfl) fun _ => rfl

theorem checkResourcesBy {source source' : VisitorSource σ}
    (hsource : ∀ folder, Mirrors (Twins M) Eq (source folder) (source' folder)) (pass : Pass) :
    Mirrors (Twins M) Eq ((host.engine opts).checkResourcesBy pass source)
      ((host.engine opts).checkResourcesBy pass source') := by
  refine (Paces.checkResourcesBy (fun _ : Unit => paces) (halting_never fun hst => hst.canceled)
    (fun _ => samePass pass) fun _ folder => (hsource folder).imp ?_).mirrors
  rintro visitor _ rfl
  cases visitor with
  | none => exact .none
  | some visitor => exact .some (Naming.visitor_alone visitor fun _ => trivial)

end Twins

/-! ## Stages in turn -/

structure Asked (s t : State σ) : Prop where
  bare : bare t = bare s
  told : told t = told s

/-- A detector that is asked for a visitor does nothing else. -/
def PlainQuestions (host : Host σ) : Prop :=
  ∀ detector hook moment memory, hook.isVisitorQuestion = true →
    host.react (.detector detector hook) moment memory = .done

theorem inquires_asked {host : Host σ} (hplain : PlainQuestions host) (opts : Options) :
    Inquires (host.engine opts) Asked where
  refl := fun _ => ⟨rfl, rfl⟩
  trans := fun h h' => ⟨h'.bare.trans h.bare, h'.told.trans h.told⟩
  ask := fun detector hook hhook s => by
    refine ⟨s.write (.called (.detector detector hook) s.moment), ?_, rfl, ?_⟩
    · show host.invoke opts (1999 + 1) (.detector detector hook) s = _
      rw [Host.invoke, get_bind, hplain detector hook _ _ hhook]
      rfl
    · have hquestion : (Entry.called (.detector detector hook) s.moment).isVisitorQuestion = true :=
        hhook
      rw [told, State.written_write, List.filter_append,
        List.filter_cons_of_neg (by simp [hquestion])]
      exact List.append_nil _

/-- A stage, a new plan, or the visitor is forgotten. -/
inductive Turn
  | stage (pass : Pass)
  | plan (schedule : Schedule) (scope : ScopeSet)
  | forget

/-- Turns one after the other. -/
def inTurn (stage : Pass → Run σ Unit) : List Turn → Run σ Unit
  | [] => pure ()
  | .stage pass :: rest => do
      stage pass
      inTurn stage rest
  | .plan schedule scope :: rest => do
      modify fun s => { s with schedule := some schedule, scope }
      inTurn stage rest
  | .forget :: rest => do
      forgetVisitor
      inTurn stage rest

/-- The stage of resources with a visitor made for each folder and file. -/
def freshResources (e : Engine σ) (pass : Pass) : Run σ Unit :=
  e.stage [.resourceFile, .allResourceFiles] (·.merged .resourceFile .allResourceFiles) .markup
    "No XML parser provided to lint: not running resource checks" fun checks =>
      e.checkResourcesBy pass (freshVisitor e checks)

section Turns

variable {host : Host σ} {applies : Detector → FolderType → Bool}
  {elements attributes : Detector → NameFilter} (hhost : host.Constant applies elements attributes)
  (hplain : PlainQuestions host)

include hhost hplain

theorem mirrors_folderVisitor (opts : Options) (checks : List Detector) (folder : FolderType) :
    Mirrors (Twins (Current applies elements attributes checks)) Eq
      ((host.engine opts).folderVisitor checks folder)
      (freshVisitor (host.engine opts) checks folder) := by
  intro s t hst
  have hasked := inquires_asked hplain opts
  obtain ⟨s', memo, hkept, hs', hcurrent⟩ := folderVisitor_eq hasked hhost hst.memo folder
  obtain ⟨t', hfresh, ht'⟩ := freshVisitor_eq hasked hhost checks folder t
  rw [hkept, hfresh]
  refine .ok rfl ⟨?_, ?_, fun _ hsome => Option.some.inj hsome ▸ hcurrent⟩
  · exact hs'.bare.trans (hst.bare.trans ht'.bare.symm)
  · exact hs'.told.trans (hst.told.trans ht'.told.symm)

theorem mirrors_checkResources (opts : Options) (pass : Pass) :
    Mirrors (Twins (Sound elements attributes)) Eq ((host.engine opts).checkResources pass)
      (freshResources (host.engine opts) pass) := by
  refine Mirrors.bind (R := Eq) (.read fun s t hst => ?_) ?_
  · rw [hst.view State.scope fun _ => rfl]
    exact .pure rfl
  rintro within _ rfl
  refine .ite Iff.rfl (.read fun s t hst => ?_) (.pure rfl)
  rw [hst.view State.selection fun _ => rfl]
  cases (host.engine opts).scanners (t.selection.merged .resourceFile .allResourceFiles)
      .markup with
  | nil => exact .pure rfl
  | cons first rest =>
    refine .read fun s t hst => ?_
    rw [hst.host]
    refine .ite Iff.rfl (fun s t hst => ?_) (Twins.log none _)
    -- what is remembered is current for the pass as soon as it has begun
    have hstarted : Twins (Current applies elements attributes (first :: rest))
        { s with memo := s.memo.map fun memo => { memo with folder := none } } t :=
      ⟨hst.bare, hst.told, Current.of_started hst.memo _⟩
    have hsource := mirrors_folderVisitor hhost hplain opts (first :: rest)
    exact (Twins.checkResourcesBy hsource pass _ _ hstarted).mono fun h =>
      ⟨h.bare, h.told, fun memo hmemo => (h.memo memo hmemo).sound⟩

theorem mirrors_inTurn (opts : Options) (turns : List Turn) :
    Mirrors (Twins (Sound elements attributes)) Eq
      (inTurn (host.engine opts).checkResources turns)
      (inTurn (freshResources (host.engine opts)) turns) := by
  induction turns with
  | nil => exact .pure rfl
  | cons turn rest ih =>
    cases turn with
    | stage pass => exact (mirrors_checkResources hhost hplain opts pass).bind fun _ _ _ => ih
    | plan schedule scope =>
      refine Mirrors.bind (.modify fun h => ?_) fun _ _ _ => ih
      exact h.change (fun u => { u with schedule := some schedule, scope }) (fun _ => rfl)
        (fun _ => rfl) fun _ => rfl
    | forget =>
      refine Mirrors.bind (.modify fun h => ?_) fun _ _ _ => ih
      exact ⟨h.bare, h.told, fun _ hnone => by cases hnone⟩

end Turns

/-! ## Main statement -/

theorem inquires_returning {host : Host σ} {opts : Options}
    (hreturns : ∀ detector hook, hook.isVisitorQuestion = true → ∀ s,
      ∃ s', (host.engine opts).ask detector hook s = .ok () s') :
    Inquires (host.engine opts) fun _ _ => True where
  refl := fun _ => trivial
  trans := fun _ _ => trivial
  ask := fun detector hook hhook s => (hreturns detector hook hhook s).imp fun _ hs' =>
    ⟨hs', trivial⟩

/-- Whatever passes begin and whatever is forgotten meanwhile, a request for a visitor is answered
as if the visitor were made for it; and stages that remember a visitor differ from stages that make
one for every folder and file in nothing but the questions that they ask. -/
theorem folderVisitor_transparent (host : Host σ) (opts : Options)
    {applies : Detector → FolderType → Bool} {elements attributes : Detector → NameFilter}
    (hhost : host.Constant applies elements attributes) {s : State σ} (hmemo : s.memo = none) :
    ((∀ detector hook, hook.isVisitorQuestion = true → ∀ s,
        ∃ s', (host.engine opts).ask detector hook s = .ok () s') →
      ∀ checks steps, ∃ found s', visitors (host.engine opts) checks steps s = .ok found s' ∧
        Forall₂ (Suits applies elements attributes) (requests checks steps) found) ∧
    (PlainQuestions host → ∀ turns,
      Matches (fun s' t' => bare s' = bare t' ∧ told s' = told t') Eq
        (inTurn (host.engine opts).checkResources turns s)
        (inTurn (freshResources (host.engine opts)) turns s)) := by
  refine ⟨fun hreturns checks steps => ?_, fun hplain turns => ?_⟩
  · obtain ⟨s', hfound⟩ := visitors_eq (inquires_returning hreturns) hhost steps checks s
      (by rw [hmemo]; exact fun _ hnone => by cases hnone)
    refine ⟨_, s', hfound, ?_⟩
    rw [List.forall₂_map_right_iff]
    exact List.forall₂_same.2 fun request _ => suits_visitorFor applies elements attributes request
  · have hstart : Twins (Sound elements attributes) s s :=
      ⟨rfl, rfl, by rw [hmemo]; exact fun _ hnone => by cases hnone⟩
    exact (mirrors_inTurn hhost hplain opts turns s s hstart).mono fun h => ⟨h.bare, h.told⟩

def plainHost : Host Scripted.Memory :=
  { idleHost with
    react := fun _ _ _ => .done
    scans := fun _ _ => true
    appliesToFolder := fun detector folder _ => match folder with
      | .layout | .menu => true
      | .values => detector.className == "words"
      | _ => false
    elementNames := fun _ _ => .everything
    attributeNames := fun _ _ => .nothing
    parseMarkup := fun _ _ _ => .ok (some ⟨some (.node "a" [] [])⟩) }

theorem plainHost_constant :
    plainHost.Constant (plainHost.appliesToFolder · · {}) (plainHost.elementNames · {})
      (plainHost.attributeNames · {}) :=
  ⟨fun _ _ _ => rfl, fun _ _ => rfl, fun _ _ => rfl⟩

def foldersState : State Scripted.Memory :=
  let resources := ["layout", "layout-land", "menu", "raw", "values"].map fun name =>
    .folder name true [.file "a.xml" (.bytes []), .file "b.xml" (.bytes [])]
  { fresh {} ⟨.folder "" true [.folder "w" true [.folder "res" true resources]], "/w"⟩ with
    projects := #[{ dir := "/w", reference := "/w", resources := ["/w/res"] }] }

def foldersSteps : List Step :=
  let words : Detector := ⟨"words", 0⟩
  let shapes : Detector := ⟨"shapes", 0⟩
  [.begin [words, shapes], .request .layout, .request .layout, .request .menu, .request .values,
    .request .raw, .request .xml, .begin [shapes], .request .values, .request .layout, .forget,
    .request .menu]

def foldersTurns : List Turn :=
  let plan (names : List String) : Schedule :=
    { selection := ⟨names.map fun name => (⟨name, 0⟩, .all)⟩ }
  let pass : Pass := ⟨⟨0, "/w"⟩, ⟨0, "/w"⟩⟩
  [.plan (plan ["words", "shapes"]) .all, .stage pass, .stage pass, .forget,
    .plan (plan ["shapes"]) .all, .stage pass]

def remembering : Outcome Scripted.Memory Unit :=
  inTurn (plainHost.engine ⟨false⟩).checkResources foldersTurns foldersState

def making : Outcome Scripted.Memory Unit :=
  inTurn (freshResources (plainHost.engine ⟨false⟩)) foldersTurns foldersState

/-- Both ways to use a visitor again, and both ways to have none; the stages that remember ask
little more than half as much. -/
theorem folderVisitor_transparent_folders :
    (∃ found s',
      visitors (plainHost.engine ⟨false⟩) [] foldersSteps foldersState = .ok found s' ∧
      found.map (Option.map fun visitor => visitor.detectors.map Detector.className) =
        [some ["words", "shapes"], some ["words", "shapes"], some ["words", "shapes"],
          some ["words"], none, none, none, some ["shapes"], some ["shapes"]] ∧
      Forall₂ (Suits (plainHost.appliesToFolder · · {}) (plainHost.elementNames · {})
        (plainHost.attributeNames · {})) (requests [] foldersSteps) found) ∧
    told (endState remembering) = told (endState making) ∧
    (told (endState making)).length = 180 ∧
    (endState remembering).written.countP Entry.isVisitorQuestion = 34 ∧
    (endState making).written.countP Entry.isVisitorQuestion = 59 := by
  obtain ⟨hvisitors, hturns⟩ := folderVisitor_transparent plainHost ⟨false⟩ plainHost_constant
    (s := foldersState) rfl
  obtain ⟨found, s', hrun, hsuits⟩ := hvisitors (fun _ _ _ _ => ⟨_, rfl⟩) [] foldersSteps
  have hclasses : (result? (visitors (plainHost.engine ⟨false⟩) [] foldersSteps foldersState)).map
      (List.map (Option.map fun visitor => visitor.detectors.map Detector.className)) =
        some [some ["words", "shapes"], some ["words", "shapes"], some ["words", "shapes"],
          some ["words"], none, none, none, some ["shapes"], some ["shapes"]] := by
    decide +kernel
  rw [hrun] at hclasses
  have hsame := (hturns (fun _ _ _ _ _ => rfl) foldersTurns).endState
  exact ⟨⟨found, s', hrun, Option.some.inj hclasses, hsuits⟩, hsame.2, by decide +kernel⟩

end Reuse
end ProjectLint
