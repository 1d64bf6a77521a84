/-
The visitor of resource files is kept from folder to folder. It is used again for the type of folder
that it was made for, as long as the pass goes on, and for any other type to which the same
detectors apply. What is remembered is always what would be made anew: `Sound` says so of the
visitor, and `Current` of its detectors as long as a pass goes on.
-/
import ProjectLint.Proofs.Dispatch.Markup

namespace ProjectLint

/-- What a detector is asked for a visitor. -/
def Hook.isVisitorQuestion : Hook → Bool
  | .appliesToFolder .. | .elementNames | .attributeNames => true
  | _ => false

def Journal.Entry.isVisitorQuestion : Journal.Entry → Bool
  | .called (.detector _ hook) _ => hook.isVisitorQuestion
  | _ => false

/-- Detectors always give the same answers. -/
structure Host.Constant (host : Host σ) (applies : Detector → FolderType → Bool)
    (elements attributes : Detector → NameFilter) : Prop where
  applies : ∀ detector folder memory,
    host.appliesToFolder detector folder memory = applies detector folder
  elements : ∀ detector memory, host.elementNames detector memory = elements detector
  attributes : ∀ detector memory, host.attributeNames detector memory = attributes detector

namespace Reuse

open Run Engine Journal

variable {applies : Detector → FolderType → Bool} {elements attributes : Detector → NameFilter}

/-! ## Questions -/

structure Inquires (e : Engine σ) (R : State σ → State σ → Prop) : Prop where
  refl : ∀ s, R s s
  trans : ∀ {s t u}, R s t → R t u → R s u
  ask : ∀ detector hook, hook.isVisitorQuestion = true → ∀ s,
    ∃ s', e.ask detector hook s = .ok () s' ∧ R s s'

def visitorFor (elements attributes : Detector → NameFilter) : List Detector → Option MarkupVisitor
  | [] => none
  | detectors => some (Dispatch.markupVisitor elements attributes detectors)

def freshVisitor (e : Engine σ) (checks : List Detector) (folder : FolderType) :
    Run σ (Option MarkupVisitor) := do
  match ← e.applicable folder checks with
  | [] => return none
  | detectors => some <$> e.markupVisitor detectors

def Sound (elements attributes : Detector → NameFilter) (memo : VisitorMemo) : Prop :=
  memo.visitor = visitorFor elements attributes memo.detectors

structure Current (applies : Detector → FolderType → Bool)
    (elements attributes : Detector → NameFilter) (checks : List Detector) (memo : VisitorMemo) :
    Prop where
  sound : Sound elements attributes memo
  folder : ∀ folder, memo.folder = some folder → memo.detectors = checks.filter (applies · folder)

section Visitors

variable {host : Host σ} {opts : Options} {R : State σ → State σ → Prop}
  {applies : Detector → FolderType → Bool} {elements attributes : Detector → NameFilter}
  (h : Inquires (host.engine opts) R) (hhost : host.Constant applies elements attributes)

include h hhost

theorem applicable_eq (folder : FolderType) (checks : List Detector) (s : State σ) :
    ∃ s', (host.engine opts).applicable folder checks s =
      .ok (checks.filter (applies · folder)) s' ∧ R s s' := by
  induction checks generalizing s with
  | nil => exact ⟨s, rfl, h.refl s⟩
  | cons detector rest ih =>
    obtain ⟨s₁, hask, hs₁⟩ := h.ask detector
      (.appliesToFolder folder (host.appliesToFolder detector folder s.host)) rfl s
    obtain ⟨s₂, hrest, hs₂⟩ := ih s₁
    have hanswer : (host.engine opts).appliesToFolder detector folder s =
        .ok (applies detector folder) s₁ := by
      rw [Engine.appliesToFolder, get_bind]
      refine (bind_of_ok hask).trans ?_
      rw [← hhost.applies detector folder s.host]
      rfl
    refine ⟨s₂, ?_, h.trans hs₁ hs₂⟩
    rw [Engine.applicable, bind_of_ok hanswer, bind_of_ok hrest, List.filter_cons]
    rfl

theorem markupVisitor_eq_ok (detectors : List Detector) (s : State σ) :
    ∃ s', (host.engine opts).markupVisitor detectors s =
      .ok (Dispatch.markupVisitor elements attributes detectors) s' ∧ R s s' := by
  have hfill : ∀ visitor s, ∃ made s',
      (host.engine opts).fillMarkupVisitor visitor detectors s = .ok made s' ∧ R s s' := by
    induction detectors with
    | nil => exact fun visitor s => ⟨visitor, s, rfl, h.refl s⟩
    | cons detector rest ih =>
      intro visitor s
      obtain ⟨s₁, helements, hs₁⟩ := h.ask detector .elementNames rfl s
      obtain ⟨s₂, hattributes, hs₂⟩ := h.ask detector .attributeNames rfl s₁
      obtain ⟨made, s₃, hrest, hs₃⟩ := ih
        ((visitor.addElements detector (host.elementNames detector s.host)).addAttributes detector
          (host.attributeNames detector s₁.host)) s₂
      refine ⟨made, s₃, ?_, h.trans hs₁ (h.trans hs₂ hs₃)⟩
      have helements' : (host.engine opts).elementNames detector s =
          .ok (host.elementNames detector s.host) s₁ :=
        bind_of_ok helements
      have hattributes' : (host.engine opts).attributeNames detector s₁ =
          .ok (host.attributeNames detector s₁.host) s₂ :=
        bind_of_ok hattributes
      rw [fillMarkupVisitor, bind_of_ok helements', bind_of_ok hattributes']
      exact hrest
  obtain ⟨made, s', hmade, hs'⟩ := hfill { detectors } s
  have hfilters : host.Filters elements attributes detectors :=
    ⟨fun detector _ => hhost.elements detector, fun detector _ => hhost.attributes detector⟩
  rw [Dispatch.fillMarkupVisitor_eq hfilters hmade] at hmade
  exact ⟨s', hmade, hs'⟩

theorem freshVisitor_eq (checks : List Detector) (folder : FolderType) (s : State σ) :
    ∃ s', freshVisitor (host.engine opts) checks folder s =
      .ok (visitorFor elements attributes (checks.filter (applies · folder))) s' ∧ R s s' := by
  obtain ⟨s₁, hasked, hs₁⟩ := applicable_eq h hhost folder checks s
  rw [freshVisitor, bind_of_ok hasked]
  cases checks.filter (applies · folder) with
  | nil => exact ⟨s₁, rfl, hs₁⟩
  | cons detector rest =>
    obtain ⟨s₂, hmade, hs₂⟩ := markupVisitor_eq_ok h hhost (detector :: rest) s₁
    exact ⟨s₂, bind_of_ok hmade, h.trans hs₁ hs₂⟩

theorem newVisitor_eq (folder : FolderType) (detectors : List Detector) (s : State σ) :
    ∃ s', (host.engine opts).newVisitor folder detectors s =
      .ok (visitorFor elements attributes detectors)
        { s' with
          memo := some ⟨some folder, detectors, visitorFor elements attributes detectors⟩ } ∧
      R s s' := by
  cases detectors with
  | nil => exact ⟨s, rfl, h.refl s⟩
  | cons detector rest =>
    obtain ⟨s', hmade, hs'⟩ := markupVisitor_eq_ok h hhost (detector :: rest) s
    have hsome : (some <$> (host.engine opts).markupVisitor (detector :: rest)) s =
        .ok (visitorFor elements attributes (detector :: rest)) s' := bind_of_ok hmade
    exact ⟨s', bind_of_ok hsome, hs'⟩

theorem folderVisitor_eq {checks : List Detector} {s : State σ}
    (hmemo : ∀ memo, s.memo = some memo → Current applies elements attributes checks memo)
    (folder : FolderType) :
    ∃ s' memo, (host.engine opts).folderVisitor checks folder s =
      .ok (visitorFor elements attributes (checks.filter (applies · folder)))
        { s' with memo := some memo } ∧
      R s s' ∧ Current applies elements attributes checks memo := by
  obtain ⟨s₁, hasked, hs₁⟩ := applicable_eq h hhost folder checks s
  obtain ⟨s₂, hnew, hs₂⟩ := newVisitor_eq h hhost folder (checks.filter (applies · folder)) s₁
  have hcurrent : Current applies elements attributes checks
      ⟨some folder, checks.filter (applies · folder),
        visitorFor elements attributes (checks.filter (applies · folder))⟩ :=
    ⟨rfl, by rintro _ ⟨⟩; rfl⟩
  rw [folderVisitor, get_bind]
  cases hs : s.memo with
  | none => exact ⟨s₂, _, (bind_of_ok hasked).trans hnew, h.trans hs₁ hs₂, hcurrent⟩
  | some memo =>
    have hkept := hmemo memo hs
    dsimp only
    by_cases hfolder : memo.folder = some folder
    · rw [if_pos hfolder, ← hkept.folder folder hfolder, ← hkept.sound]
      refine ⟨s, memo, ?_, h.refl s, hkept⟩
      rw [← hs]
      rfl
    · rw [if_neg hfolder, bind_of_ok hasked]
      by_cases hdetectors : memo.detectors = checks.filter (applies · folder)
      · rw [if_pos hdetectors, ← hdetectors, ← hkept.sound]
        refine ⟨s₁, { memo with folder := some folder }, rfl, hs₁, hkept.sound, ?_⟩
        rintro _ ⟨⟩
        exact hdetectors
      · rw [if_neg hdetectors]
        exact ⟨s₂, _, hnew, h.trans hs₁ hs₂, hcurrent⟩

end Visitors

theorem Current.of_started {memo : Option VisitorMemo}
    (hsound : ∀ kept, memo = some kept → Sound elements attributes kept) (checks : List Detector)
    (kept : VisitorMemo) (hkept : (memo.map fun memo => { memo with folder := none }) = some kept) :
    Current applies elements attributes checks kept := by
  obtain ⟨before, hbefore, rfl⟩ := Option.map_eq_some_iff.1 hkept
  exact ⟨hsound before hbefore, fun _ hfolder => by cases hfolder⟩

/-! ## Requests -/

/-- What visitors are remembered for: a pass begins with its detectors, a visitor is asked for, and
all is forgotten. -/
inductive Step
  | begin (checks : List Detector)
  | request (folder : FolderType)
  | forget

/-- The visitors that are handed out. -/
def visitors (e : Engine σ) : List Detector → List Step → Run σ (List (Option MarkupVisitor))
  | _, [] => return []
  | _, .begin checks :: rest => do
      startPass
      visitors e checks rest
  | checks, .forget :: rest => do
      forgetVisitor
      visitors e checks rest
  | checks, .request folder :: rest => do
      let visitor ← e.folderVisitor checks folder
      let others ← visitors e checks rest
      return visitor :: others

/-- The requests for a visitor, each with the detectors of its pass. -/
def requests : List Detector → List Step → List (List Detector × FolderType)
  | _, [] => []
  | _, .begin checks :: rest => requests checks rest
  | checks, .forget :: rest => requests checks rest
  | checks, .request folder :: rest => (checks, folder) :: requests checks rest

/-- A visitor as it would be made for these detectors and this folder, none if no detector
applies. -/
structure Suits (applies : Detector → FolderType → Bool)
    (elements attributes : Detector → NameFilter) (request : List Detector × FolderType)
    (visitor : Option MarkupVisitor) : Prop where
  none_iff : visitor = none ↔ ∀ detector ∈ request.1, applies detector request.2 = false
  some_eq : ∀ made, visitor = some made →
    made.detectors = request.1.filter (applies · request.2) ∧
      made = Dispatch.markupVisitor elements attributes made.detectors

theorem suits_visitorFor (applies : Detector → FolderType → Bool)
    (elements attributes : Detector → NameFilter) (request : List Detector × FolderType) :
    Suits applies elements attributes request
      (visitorFor elements attributes (request.1.filter (applies · request.2))) := by
  have hnone : visitorFor elements attributes (request.1.filter (applies · request.2)) = none ↔
      request.1.filter (applies · request.2) = [] := by
    cases request.1.filter (applies · request.2) with
    | nil => exact iff_of_true rfl rfl
    | cons => exact iff_of_false (fun h => by cases h) (List.cons_ne_nil _ _)
  refine ⟨hnone.trans ?_, fun made hmade => ?_⟩
  · rw [List.filter_eq_nil_iff]
    exact forall₂_congr fun _ _ => Bool.not_eq_true _ ▸ Iff.rfl
  · generalize request.1.filter (applies · request.2) = chosen at hmade
    cases chosen with
    | nil => cases hmade
    | cons =>
      cases hmade
      exact ⟨rfl, rfl⟩

theorem visitors_eq {host : Host σ} {opts : Options} {R : State σ → State σ → Prop}
    (h : Inquires (host.engine opts) R) (hhost : host.Constant applies elements attributes)
    (steps : List Step) (checks : List Detector) (s : State σ)
    (hmemo : ∀ memo, s.memo = some memo → Current applies elements attributes checks memo) :
    ∃ s', visitors (host.engine opts) checks steps s =
      .ok ((requests checks steps).map fun request =>
        visitorFor elements attributes (request.1.filter (applies · request.2))) s' := by
  induction steps generalizing checks s with
  | nil => exact ⟨s, rfl⟩
  | cons step rest ih =>
    cases step with
    | begin started =>
      have hsound := fun kept hkept => (hmemo kept hkept).sound
      exact ih started _ fun memo => .of_started hsound started memo
    | forget => exact ih checks { s with memo := none } fun memo hnone => by cases hnone
    | request folder =>
      obtain ⟨s₁, memo, hgiven, -, hcurrent⟩ := folderVisitor_eq h hhost hmemo folder
      obtain ⟨s₂, hrest⟩ := ih checks { s₁ with memo := some memo } fun _ hsome =>
        Option.some.inj hsome ▸ hcurrent
      refine ⟨s₂, ?_⟩
      rw [visitors, bind_of_ok hgiven, bind_of_ok hrest]
      rfl

end Reuse
end ProjectLint
