/-
The detectors that a configuration and a scope select. A registry is what its registrations and
removals have left: each id stands where it was first registered since it was last removed, with the
issue that was registered under it last. Of each class with an enabled and admitted issue there is
one new detector, in the order of the first such issue, and it serves the categories of all of them.
-/
import ProjectLint.Proofs.Planning

namespace ProjectLint

/-! ## What a registry holds -/

namespace Registry

/-- An issue is registered or taken back. -/
inductive Change
  | register (issue : Issue)
  | unregister (id : String)
  deriving DecidableEq

def apply (registry : Registry) : Change → Registry
  | .register issue => registry.register issue
  | .unregister id => registry.unregister id

/-- The registry after some changes. -/
def after (changes : List Change) : Registry :=
  changes.foldl apply {}

/-- The registrations that were not taken back later. -/
def standing : List Change → List Issue
  | [] => []
  | .register issue :: rest =>
    if .unregister issue.id ∈ rest then standing rest else issue :: standing rest
  | .unregister _ :: rest => standing rest

def latest? (issues : List Issue) (id : String) : Option Issue :=
  issues.reverse.find? (·.id == id)

/-- Issues by their ids, the latest of each. -/
def known (issues : List Issue) : List Issue :=
  (distinct (issues.map (·.id))).filterMap (latest? issues)

variable {issues : List Issue} {issue : Issue} {id : String}

theorem standing_register (changes : List Change) (issue : Issue) :
    standing (changes ++ [.register issue]) = standing changes ++ [issue] := by
  induction changes with
  | nil => rfl
  | cons change rest ih =>
    cases change with
    | unregister id => exact ih
    | register first =>
      rw [List.cons_append, standing, standing, ih]
      by_cases hundone : Change.unregister first.id ∈ rest <;> simp [hundone]

theorem standing_unregister (changes : List Change) (id : String) :
    standing (changes ++ [.unregister id]) = (standing changes).filter (·.id != id) := by
  induction changes with
  | nil => rfl
  | cons change rest ih =>
    cases change with
    | unregister other => exact ih
    | register first =>
      rw [List.cons_append, standing, standing, ih]
      by_cases hundone : Change.unregister first.id ∈ rest
      · simp [hundone]
      · by_cases hid : first.id = id
        · subst hid
          simp [hundone]
        · simp [hundone, hid]

theorem latest?_concat :
    latest? (issues ++ [issue]) id = if issue.id = id then some issue else latest? issues id := by
  rw [latest?, List.reverse_append, List.reverse_singleton, List.singleton_append]
  by_cases hid : issue.id = id
  · rw [if_pos hid]
    exact List.find?_cons_of_pos (beq_iff_eq.2 hid)
  · rw [if_neg hid]
    exact List.find?_cons_of_neg (mt beq_iff_eq.1 hid)

theorem latest?_filter {other : String} (hother : other ≠ id) :
    latest? (issues.filter (·.id != id)) other = latest? issues other := by
  rw [latest?, latest?, ← List.filter_reverse, List.find?_filter]
  congr
  funext issue
  by_cases hissue : issue.id = other <;> simp [hissue, hother]

theorem id_of_latest? (h : latest? issues id = some issue) : issue.id = id := by
  simpa using List.find?_some h

theorem latest?_isSome (h : id ∈ issues.map (·.id)) : ∃ issue, latest? issues id = some issue := by
  obtain ⟨issue, hissue, rfl⟩ := List.mem_map.1 h
  refine Option.isSome_iff_exists.1 (List.find?_isSome.2 ⟨issue, List.mem_reverse.2 hissue, ?_⟩)
  exact beq_self_eq_true _

theorem any_known : (known issues).any (·.id == id) = true ↔ id ∈ issues.map (·.id) := by
  rw [List.any_eq_true]
  constructor
  · rintro ⟨issue, hissue, hid⟩
    obtain ⟨other, hother, hlatest⟩ := List.mem_filterMap.1 hissue
    rw [← beq_iff_eq.1 hid, id_of_latest? hlatest]
    exact mem_distinct.1 hother
  · intro hid
    obtain ⟨issue, hlatest⟩ := latest?_isSome hid
    exact ⟨issue, List.mem_filterMap.2 ⟨id, mem_distinct.2 hid, hlatest⟩,
      beq_iff_eq.2 (id_of_latest? hlatest)⟩

theorem register_known (issues : List Issue) (issue : Issue) :
    register ⟨known issues⟩ issue = ⟨known (issues ++ [issue])⟩ := by
  have hids : distinct ((issues ++ [issue]).map (·.id)) =
      if issue.id ∈ issues.map (·.id) then distinct (issues.map (·.id))
      else distinct (issues.map (·.id)) ++ [issue.id] := by
    rw [List.map_append, List.map_singleton, distinct_concat]
  rw [register, known.eq_1 (issues ++ [issue]), hids]
  by_cases hknown : issue.id ∈ issues.map (·.id)
  · rw [if_pos hknown, if_pos (any_known.2 hknown), known, List.map_filterMap]
    refine congrArg Registry.mk (List.filterMap_congr fun id hid => ?_)
    obtain ⟨last, hlast⟩ := latest?_isSome (mem_distinct.1 hid)
    rw [latest?_concat, hlast, Option.map_some, id_of_latest? hlast]
    by_cases hsame : issue.id = id
    · rw [if_pos hsame, if_pos (beq_iff_eq.2 hsame.symm)]
    · rw [if_neg hsame, if_neg (mt beq_iff_eq.1 (Ne.symm hsame))]
  · rw [if_neg hknown, if_neg (mt any_known.1 hknown), known, List.filterMap_append]
    have hlast : [issue.id].filterMap (latest? (issues ++ [issue])) = [issue] :=
      List.filterMap_cons_some (by rw [latest?_concat, if_pos rfl])
    rw [hlast]
    refine congrArg (fun found => Registry.mk (found ++ [issue]))
      (List.filterMap_congr fun id hid => ?_)
    have hother : issue.id ≠ id := fun hsame => hknown (hsame ▸ mem_distinct.1 hid)
    rw [latest?_concat, if_neg hother]

theorem unregister_known (issues : List Issue) (id : String) :
    unregister ⟨known issues⟩ id = ⟨known (issues.filter (·.id != id))⟩ := by
  have hids : distinct ((issues.filter (·.id != id)).map (·.id)) =
      (distinct (issues.map (·.id))).filter (· != id) := by
    rw [← distinct_filter, List.filter_map]
    rfl
  rw [unregister, known, known, hids, List.filter_filterMap, List.filterMap_filter]
  refine congrArg Registry.mk (List.filterMap_congr fun other _ => ?_)
  by_cases hother : other = id
  · rw [if_neg (by simpa using hother), hother]
    refine Option.filter_eq_none_iff.2 fun issue hissue => ?_
    simpa using id_of_latest? hissue
  · rw [if_pos (bne_iff_ne.2 hother), latest?_filter hother]
    cases hlatest : latest? issues other with
    | none => rfl
    | some issue =>
      rw [Option.filter_some, id_of_latest? hlatest, if_pos (bne_iff_ne.2 hother)]

theorem after_eq (changes : List Change) : after changes = ⟨known (standing changes)⟩ := by
  induction changes using List.reverseRecOn with
  | nil => rfl
  | append_singleton changes change ih =>
    rw [after, List.foldl_append, ← after, ih]
    cases change with
    | register issue => rw [standing_register]; exact register_known _ issue
    | unregister id => rw [standing_unregister]; exact unregister_known _ id

/-! ## The classes with an issue to look for -/

/-- The issues that are enabled and in scope. -/
def chosen (config : Configuration) (scope : ScopeSet) (issues : List Issue) : List Issue :=
  issues.filter fun issue => config.isEnabled issue && scope.admits issue.scope

def categories (issues : List Issue) : ScopeSet :=
  issues.foldl (fun scope issue => scope.union issue.scope) .empty

theorem contains_categories (issues : List Issue) (category : Scope) :
    (categories issues).contains category = issues.any (·.scope.contains category) := by
  induction issues using List.reverseRecOn with
  | nil => rfl
  | append_singleton issues issue ih =>
    rw [categories, List.foldl_append, ← categories, List.any_append, ← ih]
    simp

def ofClass (issues : List Issue) (name : DetectorClass) : List Issue :=
  issues.filter (·.detector == some name)

def classes (issues : List Issue) : List (DetectorClass × ScopeSet) :=
  (distinct (issues.filterMap (·.detector))).map fun name =>
    (name, categories (ofClass issues name))

theorem classes_concat_none (issues : List Issue) (h : issue.detector = none) :
    classes (issues ++ [issue]) = classes issues := by
  have hclass : ∀ name, ofClass (issues ++ [issue]) name = ofClass issues name := fun name => by
    rw [ofClass, ofClass, List.filter_append, List.filter_singleton, h]
    exact List.append_nil _
  simp only [classes, hclass, List.filterMap_append, List.filterMap_cons, h, List.filterMap_nil,
    List.append_nil]

theorem classes_concat_some (issues : List Issue) {name : DetectorClass}
    (h : issue.detector = some name) :
    classes (issues ++ [issue]) = addScope (classes issues) name issue.scope := by
  have hsame : categories (ofClass (issues ++ [issue]) name) =
      (categories (ofClass issues name)).union issue.scope := by
    rw [ofClass, List.filter_append, List.filter_singleton, h, beq_self_eq_true, categories,
      List.foldl_append]
    rfl
  have hother : ∀ other, other ≠ name →
      ofClass (issues ++ [issue]) other = ofClass issues other := by
    intro other hother
    rw [ofClass, List.filter_append, List.filter_singleton, h,
      beq_eq_false_iff_ne.2 fun heq => hother (Option.some.inj heq).symm]
    exact List.append_nil _
  have hknown : (classes issues).any (·.1 == name) = true ↔
      name ∈ issues.filterMap (·.detector) := by
    rw [classes, List.any_map, List.any_eq_true, ← mem_distinct]
    simp
  have hnames : distinct ((issues ++ [issue]).filterMap (·.detector)) =
      if name ∈ issues.filterMap (·.detector) then distinct (issues.filterMap (·.detector))
      else distinct (issues.filterMap (·.detector)) ++ [name] := by
    rw [List.filterMap_append, List.filterMap_cons_some h, List.filterMap_nil, distinct_concat]
  rw [addScope, classes.eq_1 (issues ++ [issue]), hnames]
  by_cases hmem : name ∈ issues.filterMap (·.detector)
  · rw [if_pos hmem, if_pos (hknown.2 hmem), classes, List.map_map]
    refine List.map_congr_left fun other _ => ?_
    by_cases heq : other = name
    · rw [Function.comp_apply, if_pos (beq_iff_eq.2 heq), heq, hsame]
    · rw [Function.comp_apply, if_neg (mt beq_iff_eq.1 heq), hother other heq]
  · have hnone : ofClass issues name = [] := by
      refine List.filter_eq_nil_iff.2 fun first hfirst hclass => hmem ?_
      exact List.mem_filterMap.2 ⟨first, hfirst, beq_iff_eq.1 hclass⟩
    rw [if_neg hmem, if_neg (mt hknown.1 hmem), classes, List.map_append, List.map_singleton, hsame,
      hnone]
    refine congrArg (· ++ [(name, issue.scope)]) (List.map_congr_left fun other hmem' => ?_)
    have hne : other ≠ name := fun heq => hmem (heq ▸ mem_distinct.1 hmem')
    rw [hother other hne]

theorem selectedClasses_eq_classes (registry : Registry) (config : Configuration)
    (scope : ScopeSet) :
    registry.selectedClasses config scope = classes (chosen config scope registry.issues) := by
  rw [selectedClasses]
  induction registry.issues using List.reverseRecOn with
  | nil => rfl
  | append_singleton issues issue ih =>
    have hlast : chosen config scope (issues ++ [issue]) = chosen config scope issues ++
        bif config.isEnabled issue && scope.admits issue.scope then [issue] else [] := by
      rw [chosen, List.filter_append, List.filter_singleton, ← chosen]
    rw [List.foldl_append, ih, List.foldl_cons, List.foldl_nil, hlast, selectedClass?]
    cases hdetector : issue.detector with
    | none =>
      cases config.isEnabled issue && scope.admits issue.scope with
      | false => exact (congrArg classes (List.append_nil _)).symm
      | true => exact (classes_concat_none _ hdetector).symm
    | some name =>
      cases config.isEnabled issue && scope.admits issue.scope with
      | false => exact (congrArg classes (List.append_nil _)).symm
      | true => exact (classes_concat_some _ hdetector).symm

theorem nodup_selectedClasses (registry : Registry) (config : Configuration) (scope : ScopeSet) :
    ((registry.selectedClasses config scope).map Prod.fst).Nodup := by
  rw [selectedClasses_eq_classes, classes, List.map_map]
  exact (List.map_id _).symm ▸ nodup_distinct _

end Registry

/-! ## The detectors of a selection -/

open Registry

/-- What a selection is, given the issues it is made for: one detector for each class, made between
two states, and the categories that it serves. -/
structure Selection.Exact (issues : List Issue) (s s' : State σ) (selection : Selection) :
    Prop where
  classes : selection.detectors.map Detector.className = distinct (issues.filterMap (·.detector))
  newborn : ∀ detector ∈ selection.detectors, Engine.Newborn s s' detector
  bucket : ∀ category, selection.bucket category = selection.detectors.filter fun detector =>
    issues.any fun issue =>
      issue.detector == some detector.className && issue.scope.contains category

namespace Selection

variable {issues : List Issue} {s s' : State σ} {selection : Selection}

theorem Exact.of_members (hnewborn : ∀ member ∈ selection.members, Engine.Newborn s s' member.1)
    (h : selection.members.map (fun member => (member.1.className, member.2)) =
      Registry.classes issues) : selection.Exact issues s s' where
  classes := by
    have hnames := congrArg (List.map Prod.fst) h
    rw [List.map_map, Registry.classes, List.map_map] at hnames
    rw [detectors, List.map_map]
    exact hnames.trans (List.map_id _)
  newborn detector hdetector := by
    obtain ⟨member, hmember, rfl⟩ := List.mem_map.1 hdetector
    exact hnewborn member hmember
  bucket category := by
    rw [Selection.bucket, detectors, List.filter_map]
    refine congrArg (List.map Prod.fst) (List.filter_congr fun member hmember => ?_)
    have hclass : (member.1.className, member.2) ∈ Registry.classes issues :=
      h ▸ List.mem_map_of_mem (f := fun member => (member.1.className, member.2)) hmember
    obtain ⟨name, -, heq⟩ := List.mem_map.1 hclass
    obtain ⟨rfl, hscope⟩ := Prod.mk.inj heq
    rw [← hscope, contains_categories, ofClass, List.any_filter]
    rfl

theorem Exact.nodup (h : selection.Exact issues s s') : selection.detectors.Nodup :=
  .of_map Detector.className (h.classes ▸ nodup_distinct _)

theorem Exact.bucket_ne_nil (h : selection.Exact issues s s') (category : Scope) :
    selection.bucket category ≠ [] ↔
      ∃ issue ∈ issues, issue.detector.isSome = true ∧ issue.scope.contains category = true := by
  rw [h.bucket, ne_eq, List.filter_eq_nil_iff]
  push Not
  constructor
  · rintro ⟨detector, -, hany⟩
    obtain ⟨issue, hissue, hclass⟩ := List.any_eq_true.1 hany
    obtain ⟨hdetector, hcategory⟩ := Bool.and_eq_true_iff.1 hclass
    exact ⟨issue, hissue, by rw [beq_iff_eq.1 hdetector]; rfl, hcategory⟩
  · rintro ⟨issue, hissue, hsome, hcategory⟩
    obtain ⟨name, hname⟩ := Option.isSome_iff_exists.1 hsome
    have hmem := mem_distinct.2 (List.mem_filterMap.2 ⟨issue, hissue, hname⟩)
    rw [← h.classes] at hmem
    obtain ⟨detector, hdetector, hclass⟩ := List.mem_map.1 hmem
    refine ⟨detector, hdetector, List.any_eq_true.2 ⟨issue, hissue, ?_⟩⟩
    rw [hname, hclass, beq_self_eq_true, hcategory]
    rfl

theorem mem_buckets {category : Scope} {detectors : List Detector} :
    (category, detectors) ∈ selection.buckets ↔
      detectors = selection.bucket category ∧ detectors ≠ [] := by
  rw [buckets, List.mem_filter, List.mem_map]
  constructor
  · rintro ⟨⟨scope, -, heq⟩, hne⟩
    cases heq
    exact ⟨rfl, by simpa using hne⟩
  · rintro ⟨rfl, hne⟩
    exact ⟨⟨category, Scope.mem_all category, rfl⟩, by simpa using hne⟩

end Selection

namespace Engine

open Run

variable {s : State σ}

theorem instantiateAll_returns (e : Engine σ) {classes : List (DetectorClass × ScopeSet)}
    (h : ∀ entry ∈ classes, e.host.construct entry.1 s.host = .ok ()) :
    ∃ members s', e.instantiateAll classes s = .ok members s' := by
  induction classes generalizing s with
  | nil => exact ⟨[], s, rfl⟩
  | cons entry rest ih =>
    have hfirst : ∃ detector serials,
        e.instantiate entry.1 s = .ok detector { s with serials } := by
      rw [instantiate, get_bind, h entry List.mem_cons_self]
      exact ⟨_, _, rfl⟩
    obtain ⟨detector, serials, hfirst⟩ := hfirst
    obtain ⟨members, s', hrest⟩ := ih (s := { s with serials }) fun other hother =>
      h other (List.mem_cons_of_mem _ hother)
    refine ⟨(detector, entry.2) :: members, s', ?_⟩
    rw [instantiateAll, bind_of_ok hfirst, bind_of_ok hrest]
    rfl

/-- Whatever was registered and removed before, the selection has one new detector for each class
with an enabled and admitted issue, in the order of the first such issue, and lists it under the
categories of these issues. A category is listed exactly if one of these issues names it, and two
categories together have the detectors of both, each once. -/
theorem select_exact (host : Host σ) (opts : Options) (changes : List Change)
    (config : Configuration) (scope : ScopeSet) (hregistry : s.registry = .after changes)
    (hconstruct : ∀ issue ∈ chosen config scope (known (standing changes)), ∀ name,
      issue.detector = some name → host.construct name s.host = .ok ()) :
    ∃ selection s', (host.engine opts).select config scope s = .ok selection s' ∧
      selection.Exact (chosen config scope (known (standing changes))) s s' ∧
      selection.detectors.Nodup ∧
      (∀ category, selection.bucket category ≠ [] ↔
        ∃ issue ∈ chosen config scope (known (standing changes)),
          issue.detector.isSome = true ∧ issue.scope.contains category = true) ∧
      (∀ category detectors, (category, detectors) ∈ selection.buckets ↔
        detectors = selection.bucket category ∧ detectors ≠ []) ∧
      ∀ first second, (selection.merged first second).Nodup ∧
        ∀ detector, detector ∈ selection.merged first second ↔
          detector ∈ selection.bucket first ∨ detector ∈ selection.bucket second := by
  have hclasses : s.registry.selectedClasses config scope =
      Registry.classes (chosen config scope (known (standing changes))) := by
    rw [selectedClasses_eq_classes, hregistry, after_eq]
  have hmade : ∀ entry ∈ s.registry.selectedClasses config scope,
      (host.engine opts).host.construct entry.1 s.host = .ok () := by
    intro entry hentry
    rw [hclasses] at hentry
    obtain ⟨name, hname, rfl⟩ := List.mem_map.1 hentry
    obtain ⟨issue, hissue, hdetector⟩ := List.mem_filterMap.1 (mem_distinct.1 hname)
    exact hconstruct issue hissue name hdetector
  obtain ⟨members, s₁, hmembers⟩ := instantiateAll_returns _ hmade
  obtain ⟨hsame, hnewborn⟩ := (instantiateAll_spec _ _ _).2 members s₁ hmembers
  have hexact : (Selection.mk members).Exact
      (chosen config scope (known (standing changes))) s s₁ :=
    .of_members hnewborn (hsame.trans hclasses)
  have hselect : ∃ journal, (host.engine opts).select config scope s =
      .ok ⟨members⟩ { s₁ with journal } := by
    rw [select, get_bind, bind_of_ok hmembers]
    exact ⟨_, rfl⟩
  obtain ⟨journal, hselect⟩ := hselect
  exact ⟨⟨members⟩, _, hselect, ⟨hexact.classes, hexact.newborn, hexact.bucket⟩, hexact.nodup,
    hexact.bucket_ne_nil, fun _ _ => Selection.mem_buckets, fun first second => ⟨nodup_distinct _,
      fun _ => mem_distinct.trans List.mem_append⟩⟩

def lookedFor (id : String) (detector : DetectorClass) (categories : List Scope) : Issue :=
  { manifestIssue with id, detector := some detector, scope := .ofList categories }

def revised : List Change :=
  [.register { lookedFor "off" "Late" [.manifest] with enabled := false },
    .register (lookedFor "moved" "Early" [.manifest]),
    .register (lookedFor "kept" "Late" [.javaFile, .manifest]),
    .register (lookedFor "wide" "Wide" [.manifest, .classFile]),
    .register (lookedFor "fixed" "First" [.manifest]),
    .unregister "moved",
    .register (lookedFor "fixed" "Late" [.allJavaFiles]),
    .register (lookedFor "moved" "Early" [.javaFile])]

/-- The class that is first met through a disabled issue comes first through another one, and the
class of the removed issue comes last. One class has no admitted issue and one has no issue left. -/
theorem select_exact_revised :
    ∃ selection s', (idleHost.engine ⟨false⟩).select .defaults (.ofList [.manifest, .allJavaFiles])
        (fresh {} (sideBySide []) (.after revised)) = .ok selection s' ∧
      selection.detectors.map Detector.className = ["Late", "Early"] ∧
      (selection.bucket .manifest).map Detector.className = ["Late"] ∧
      (selection.bucket .javaFile).map Detector.className = ["Late", "Early"] ∧
      selection.bucket .classFile = [] := by
  obtain ⟨selection, s', hselect, hexact, -, hnonempty, -, -⟩ :=
    select_exact idleHost ⟨false⟩ revised .defaults (.ofList [.manifest, .allJavaFiles])
      (s := fresh {} (sideBySide []) (.after revised)) rfl fun _ _ _ _ => rfl
  have hclasses : selection.detectors.map Detector.className = ["Late", "Early"] :=
    hexact.classes.trans (by decide +kernel)
  have hbucket : ∀ category, (selection.bucket category).map Detector.className =
      ["Late", "Early"].filter fun name =>
        (chosen .defaults (.ofList [.manifest, .allJavaFiles]) (known (standing revised))).any
          fun issue => issue.detector == some name && issue.scope.contains category := by
    intro category
    rw [hexact.bucket, ← hclasses, List.filter_map]
    rfl
  refine ⟨selection, s', hselect, hclasses, (hbucket _).trans (by decide +kernel),
    (hbucket _).trans (by decide +kernel), List.map_eq_nil_iff.1 ((hbucket _).trans ?_)⟩
  decide +kernel

end Engine
end ProjectLint
