/-
The visit of a file of source code. A detector lists the types of nodes that it asks for, and is
called for a node as often as its list has the type. A file that does not parse is nobody's.
-/
import ProjectLint.Proofs.Dispatch

namespace ProjectLint

namespace Dispatch

open Journal Run Engine Brackets

variable {visitor : SourceVisitor} {s : State σ}

/-! ## Visitors -/

def sourceVisitor (types : Detector → List String) (detectors : List Detector) : SourceVisitor where
  detectors
  byType := .ofNames types detectors

section Source

variable {types : Detector → List String} {detectors : List Detector}

theorem fillSourceVisitor_eq {host : Host σ} {opts : Options}
    (hhost : ∀ detector ∈ detectors, ∀ memory, host.nodeTypes detector memory = types detector)
    {made : SourceVisitor} {s' : State σ}
    (h : (host.engine opts).fillSourceVisitor visitor detectors s = .ok made s') :
    made = { visitor with byType := visitor.byType ++ .ofNames types detectors } := by
  induction detectors generalizing visitor s with
  | nil =>
    cases h
    simp [NameTable.ofNames]
  | cons detector rest ih =>
    rw [fillSourceVisitor] at h
    obtain ⟨chosen, s₁, hchosen, h⟩ := bind_eq_ok h
    rw [nodeTypes, get_bind] at hchosen
    obtain ⟨htypes, hrest⟩ := List.forall_mem_cons.1 hhost
    have hanswer : chosen = types detector := (eq_of_asked hchosen).trans (htypes s.host)
    rw [ih hrest h, hanswer]
    simp [NameTable.ofNames]

theorem sourceVisitor_eq {host : Host σ} {opts : Options}
    (hhost : ∀ detector ∈ detectors, ∀ memory, host.nodeTypes detector memory = types detector)
    {s' : State σ}
    (h : (host.engine opts).sourceVisitor detectors s = .ok visitor s') :
    visitor = sourceVisitor types detectors :=
  fillSourceVisitor_eq hhost h

end Source

section Walks

variable (types : Detector → List String) (detectors : List Detector) (context : Context)

def nodeMarks (node : Source.Label × List Source.Label) : List Mark :=
  Brackets.all (named types detectors node.1.type) (.node context node.1 node.2)

/-- The hooks for a compilation unit, with the detectors that each of them calls. -/
def unitMarks (unit : Source.CompilationUnit) : List Mark :=
  fileMarks detectors context (.compilationUnit context unit)
    ((unit.root.preorder []).flatMap (nodeMarks types detectors context))

/-- The hooks for a compilation unit, node by node, if these types are asked for. -/
def unitHooks (types : List String) (context : Context) (unit : Source.CompilationUnit) :
    List Hook :=
  .beforeFile context :: .compilationUnit context unit ::
    ((unit.root.preorder []).flatMap fun (label, above) =>
      List.replicate (types.count label.type) (.node context label above)) ++ [.afterFile context]

variable {detectors}

theorem heard_unitMarks (hnodup : detectors.Nodup) {detector : Detector}
    (hmem : detector ∈ detectors) (unit : Source.CompilationUnit) :
    heard detector (unitMarks types detectors context unit) =
      unitHooks (types detector) context unit := by
  have hnode : ∀ node, heard detector (nodeMarks types detectors context node) =
      List.replicate ((types detector).count node.1.type) (.node context node.1 node.2) := by
    intro node
    rw [nodeMarks, heard_all, count_named hnodup hmem]
  rw [unitMarks, heard_fileMarks hnodup hmem, heard_flatMap, unitHooks]
  simp only [hnode]

end Walks

section Visits

variable {types : Detector → List String} {detectors : List Detector}
  (host : Host σ) (opts : Options) (context : Context)

theorem makes_visitUnit (unit : Source.CompilationUnit) :
    Makes (host.engine opts) (unitMarks types detectors context unit)
      ((host.engine opts).visitUnit (sourceVisitor types detectors) context unit) := by
  rw [visitUnit_eq]
  refine makes_showFile host opts detectors context _ ?_
  rw [List.flatMap_map]
  refine congrArg (unit.root.preorder []).flatMap (funext fun node => ?_)
  rw [nodeMarks, named, ← NameTable.lookup_ofNames]
  rfl

end Visits

/-- A visit of a compilation unit that returned, and what it wrote. -/
def UnitVisited (e : Engine σ) (visitor : SourceVisitor) (context : Context)
    (unit : Source.CompilationUnit) (new : List Entry) : Prop :=
  ∃ s s₁ found s', e.parseSource context s = .ok (some unit) s₁ ∧
    e.visitSource visitor context s = .ok found s' ∧ s'.written = s.written ++ new

section Files

variable {host : Host σ} {opts : Options} {types : Detector → List String}
  {detectors : List Detector}
  (hhost : ∀ detector ∈ detectors, ∀ memory, host.nodeTypes detector memory = types detector)
  {visitor : SourceVisitor} {t t' : State σ}
  (hvisitor : (host.engine opts).sourceVisitor detectors t = .ok visitor t')
  {context : Context}

theorem still_parseSource (host : Host σ) (opts : Options) (context : Context) (s : State σ) :
    Still s (endState ((host.engine opts).parseSource context s)) :=
  (finds_still host s).parseSource opts context s (.refl s)

theorem still_visitSource
    (h : ∀ unit s₁, (host.engine opts).parseSource context s ≠ .ok (some unit) s₁) :
    Still s (endState ((host.engine opts).visitSource visitor context s)) := by
  have hstill := still_parseSource host opts context s
  rw [visitSource]
  cases hparse : (host.engine opts).parseSource context s with
  | ok found s₁ =>
    cases found with
    | some unit => exact absurd hparse (h unit s₁)
    | none =>
      rw [hparse] at hstill
      rw [bind_of_ok hparse]
      exact hstill
  | error fault s₁ =>
    rw [hparse] at hstill
    rw [bind_of_error hparse]
    exact hstill

include hhost hvisitor

theorem made_visitSource {unit : Source.CompilationUnit} {s₁ : State σ}
    (hunit : (host.engine opts).parseSource context s = .ok (some unit) s₁) :
    Made (host.engine opts) (unitMarks types detectors context unit) s
      ((host.engine opts).visitSource visitor context s) := by
  have hvisit : Makes (host.engine opts) (unitMarks types detectors context unit) (do
      (host.engine opts).visitUnit visitor context unit
      return some unit) := by
    rw [← List.append_nil (unitMarks ..), sourceVisitor_eq hhost hvisitor]
    exact (makes_visitUnit host opts context unit).bind fun _ => .pure _
  have hstill := still_parseSource host opts context s
  rw [hunit] at hstill
  rw [visitSource, bind_of_ok hunit]
  exact .of_still hstill (hvisit s₁)

theorem marks_of_unitVisited {unit : Source.CompilationUnit} {new : List Entry}
    (h : UnitVisited (host.engine opts) visitor context unit new) :
    marks new = unitMarks types detectors context unit := by
  obtain ⟨s, s₁, found, s', hunit, hvisit, hnew⟩ := h
  have hmade := made_visitSource hhost hvisitor hunit
  rw [hvisit] at hmade
  exact hmade.marks_eq hnew

end Files

/-- A file of source code is visited by the walk of its tree, in which every detector is called as
often as it asked for; what one detector hears is the same without the others, and of a file that
does not parse nobody hears. -/
theorem visitSource_dispatches (host : Host σ) (opts : Options)
    {types : Detector → List String} {detectors : List Detector} (hnodup : detectors.Nodup)
    (hhost : ∀ detector ∈ detectors, ∀ memory, host.nodeTypes detector memory = types detector)
    {visitor : SourceVisitor} {t t' : State σ}
    (hvisitor : (host.engine opts).sourceVisitor detectors t = .ok visitor t')
    (context : Context) :
    (∀ unit,
      (∀ {s s₁}, (host.engine opts).parseSource context s = .ok (some unit) s₁ →
        Made (host.engine opts) (unitMarks types detectors context unit) s
          ((host.engine opts).visitSource visitor context s)) ∧
      ∀ detector ∈ detectors,
        heard detector (unitMarks types detectors context unit) =
          unitHooks (types detector) context unit ∧
        ∀ {lone u u'}, (host.engine opts).sourceVisitor [detector] u = .ok lone u' →
          ∀ {new others}, UnitVisited (host.engine opts) visitor context unit others →
            UnitVisited (host.engine opts) lone context unit new →
            heard detector (marks others) = heard detector (marks new)) ∧
    ∀ s, (∀ unit s₁, (host.engine opts).parseSource context s ≠ .ok (some unit) s₁) →
      ∃ new, (endState ((host.engine opts).visitSource visitor context s)).written =
        s.written ++ new ∧ marks new = [] := by
  refine ⟨fun unit => ⟨made_visitSource hhost hvisitor, fun detector hmem =>
    ⟨heard_unitMarks types context hnodup hmem unit, fun hlone _ _ hothers hnew => ?_⟩⟩,
    fun s hnone => (still_visitSource hnone).wrote⟩
  have halone : ∀ other ∈ [detector], ∀ memory, host.nodeTypes other memory = types other :=
    List.forall_mem_singleton.2 (hhost detector hmem)
  rw [marks_of_unitVisited hhost hvisitor hothers, marks_of_unitVisited halone hlone hnew,
    heard_unitMarks types context hnodup hmem,
    heard_unitMarks types context (List.nodup_singleton detector)
      (List.mem_singleton_self detector)]

def callsUnit : Source.CompilationUnit :=
  ⟨none, .node { type := "Unit" } [.node { type := "Class" }
    [.node { type := "Call" } [.node { type := "Name" } []]], .node { type := "Call" } []]⟩

def typingHost : Host Scripted.Memory :=
  { idleHost with
    nodeTypes := fun detector _ => match detector.className with
      | "twice" => ["Call", "Class", "Call"]
      | "once" => ["Call"]
      | _ => []
    parseSource := fun context _ _ =>
      .ok (if context.file = "/w/Broken.java" then none else some callsUnit) }

def typing : List Detector :=
  [⟨"never", 0⟩, ⟨"once", 0⟩, ⟨"twice", 0⟩]

def sourceFile (file : String) : Context :=
  { project := ⟨0, "/w"⟩, main := none, file }

theorem parseSource_sourceFile (file : String) (s : State Scripted.Memory) :
    ∃ s₁, (typingHost.engine ⟨false⟩).parseSource (sourceFile file) s =
      .ok (if file = "/w/Broken.java" then none else some callsUnit) s₁ :=
  ⟨_, rfl⟩

def typingRun : Outcome Scripted.Memory (Option Source.CompilationUnit) :=
  ((typingHost.engine ⟨false⟩).sourceVisitor typing >>= fun visitor =>
    (typingHost.engine ⟨false⟩).visitSource visitor (sourceFile "/w/A.java"))
    (fresh {} (sideBySide []))

/-- Of two files one is walked, with two calls for a type that is listed twice, and of the other
nobody hears. -/
theorem visitSource_dispatches_mixed :
    ∃ visitor t' found s' new,
      (typingHost.engine ⟨false⟩).sourceVisitor typing (fresh {} (sideBySide [])) = .ok visitor t' ∧
      (typingHost.engine ⟨false⟩).visitSource visitor (sourceFile "/w/A.java") t' = .ok found s' ∧
      s'.written = t'.written ++ new ∧
      (marks new).filterMap called? =
        [("never", "beforeCheckFile"), ("once", "beforeCheckFile"), ("twice", "beforeCheckFile"),
          ("never", "visitCompilationUnit"), ("once", "visitCompilationUnit"),
          ("twice", "visitCompilationUnit"), ("twice", "visitNode"), ("once", "visitNode"),
          ("twice", "visitNode"), ("twice", "visitNode"), ("once", "visitNode"),
          ("twice", "visitNode"), ("twice", "visitNode"), ("never", "afterCheckFile"),
          ("once", "afterCheckFile"), ("twice", "afterCheckFile")] ∧
      ∃ more, (endState ((typingHost.engine ⟨false⟩).visitSource visitor
          (sourceFile "/w/Broken.java") s')).written = s'.written ++ more ∧ marks more = [] := by
  have hreturns : (result? typingRun).isSome = true := by decide +kernel
  obtain ⟨found, hfound⟩ := Option.isSome_iff_exists.1 hreturns
  obtain ⟨visitor, t', hvisitor, hvisit⟩ := bind_eq_ok (eq_ok_of_result? hfound)
  have hdispatches := visitSource_dispatches typingHost ⟨false⟩
    (by decide +kernel : typing.Nodup)
    (fun _ _ _ => rfl) hvisitor
  obtain ⟨_, hunit⟩ := parseSource_sourceFile "/w/A.java" t'
  have hmade := ((hdispatches (sourceFile "/w/A.java")).1 callsUnit).1 hunit
  rw [hvisit] at hmade
  cases hmade with
  | all new hwritten hmarks =>
    refine ⟨visitor, t', _, _, new, hvisitor, hvisit, hwritten, ?_,
      (hdispatches (sourceFile "/w/Broken.java")).2 _ fun unit s₁ hparse => ?_⟩
    · rw [hmarks]
      decide +kernel
    · obtain ⟨_, hnone⟩ := parseSource_sourceFile "/w/Broken.java" (endState typingRun)
      cases hnone.symm.trans hparse

end Dispatch
end ProjectLint
