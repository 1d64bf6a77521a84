/-
The visit of a file of markup. The tables of its visitor come from filters: a detector takes no
element, every one, or those of a list, and attributes likewise by their local names. At an element
those that list its tag are called before those that take every element; its attributes follow, and
then its children.
-/
import ProjectLint.Proofs.Dispatch

namespace ProjectLint

def NameFilter.times : NameFilter → String → Nat
  | .nothing, _ => 0
  | .everything, _ => 1
  | .names chosen, name => chosen.count name

/-- Detectors always name the same elements and attributes. -/
structure Host.Filters (host : Host σ) (elements attributes : Detector → NameFilter)
    (detectors : List Detector) : Prop where
  elements : ∀ detector ∈ detectors, ∀ memory, host.elementNames detector memory = elements detector
  attributes : ∀ detector ∈ detectors, ∀ memory,
    host.attributeNames detector memory = attributes detector

namespace Dispatch

open Journal Run Engine Brackets

def callees (filter : Detector → NameFilter) (detectors : List Detector) (name : String) :
    List Detector :=
  named (fun detector => (filter detector).listed) detectors name ++
    detectors.filter fun detector => filter detector = .everything

section Counts

variable {detector : Detector} {detectors : List Detector} (hnodup : detectors.Nodup)
  (hmem : detector ∈ detectors)

include hnodup hmem

theorem count_filter (p : Detector → Bool) :
    (detectors.filter p).count detector = if p detector then 1 else 0 := by
  cases hp : p detector with
  | true =>
    rw [List.count_filter hp, List.count_eq_one_of_mem hnodup hmem]
    rfl
  | false =>
    refine List.count_eq_zero_of_not_mem fun hkept => ?_
    rw [List.mem_filter, hp] at hkept
    cases hkept.2

theorem count_callees (filter : Detector → NameFilter) (name : String) :
    (callees filter detectors name).count detector = (filter detector).times name := by
  rw [callees, List.count_append, count_named hnodup hmem, count_filter hnodup hmem]
  cases filter detector with
  | nothing => rfl
  | everything => rfl
  | names chosen => rfl

end Counts

/-! ## Visitors -/

def extended (elements attributes : Detector → NameFilter) (visitor : MarkupVisitor)
    (detectors : List Detector) : MarkupVisitor :=
  { visitor with
    byElement := visitor.byElement ++
      .ofNames (fun detector => (elements detector).listed) detectors
    byAttribute := visitor.byAttribute ++
      .ofNames (fun detector => (attributes detector).listed) detectors
    everyElement := visitor.everyElement ++
      detectors.filter fun detector => elements detector = .everything
    everyAttribute := visitor.everyAttribute ++
      detectors.filter fun detector => attributes detector = .everything }

def markupVisitor (elements attributes : Detector → NameFilter) (detectors : List Detector) :
    MarkupVisitor :=
  extended elements attributes { detectors } detectors

section Markup

variable {elements attributes : Detector → NameFilter} {detectors : List Detector}

theorem extended_cons (visitor : MarkupVisitor) (detector : Detector) (rest : List Detector) :
    extended elements attributes visitor (detector :: rest) =
      extended elements attributes
        ((visitor.addElements detector (elements detector)).addAttributes detector
          (attributes detector)) rest := by
  cases helements : elements detector <;> cases hattributes : attributes detector <;>
    simp [extended, NameTable.ofNames, MarkupVisitor.addElements, MarkupVisitor.addAttributes,
      NameFilter.listed, helements, hattributes]

theorem fillMarkupVisitor_eq {host : Host σ} {opts : Options}
    (hhost : host.Filters elements attributes detectors) {visitor made : MarkupVisitor}
    {s s' : State σ}
    (h : (host.engine opts).fillMarkupVisitor visitor detectors s = .ok made s') :
    made = extended elements attributes visitor detectors := by
  induction detectors generalizing visitor s with
  | nil =>
    cases h
    simp [extended, NameTable.ofNames]
  | cons detector rest ih =>
    rw [fillMarkupVisitor] at h
    obtain ⟨chosen, s₁, hchosen, h⟩ := bind_eq_ok h
    obtain ⟨others, s₂, hothers, h⟩ := bind_eq_ok h
    rw [elementNames, get_bind] at hchosen
    rw [attributeNames, get_bind] at hothers
    obtain ⟨helements, helements'⟩ := List.forall_mem_cons.1 hhost.elements
    obtain ⟨hattributes, hattributes'⟩ := List.forall_mem_cons.1 hhost.attributes
    rw [extended_cons, ih ⟨helements', hattributes'⟩ h, eq_of_asked hchosen,
      eq_of_asked hothers, ← helements s.host, ← hattributes s₁.host]
    rfl

theorem markupVisitor_eq {host : Host σ} {opts : Options}
    (hhost : host.Filters elements attributes detectors) {visitor : MarkupVisitor}
    {s s' : State σ} (h : (host.engine opts).markupVisitor detectors s = .ok visitor s') :
    visitor = markupVisitor elements attributes detectors :=
  fillMarkupVisitor_eq hhost h

theorem forElement_markupVisitor (tag : String) :
    (markupVisitor elements attributes detectors).forElement tag =
      callees elements detectors tag := by
  rw [MarkupVisitor.forElement, callees, named, ← NameTable.lookup_ofNames]
  rfl

theorem forAttribute_markupVisitor (name : String) :
    (markupVisitor elements attributes detectors).forAttribute name =
      callees attributes detectors name := by
  rw [MarkupVisitor.forAttribute, callees, named, ← NameTable.lookup_ofNames]
  rfl

end Markup

/-! ## Walks -/

section Walks

variable (elements attributes : Detector → NameFilter) (detectors : List Detector)
  (context : Context)

def elementMarks (element : Markup.Element) : List Mark :=
  Brackets.all (callees elements detectors element.tag) (.element context element) ++
    element.attributes.flatMap fun item =>
      Brackets.all (callees attributes detectors (Markup.localName item.name))
        (.elementAttribute context element item)

/-- The hooks for a document, with the detectors that each of them calls. -/
def documentMarks (document : Markup.Document) : List Mark :=
  fileMarks detectors context (.document context document)
    (document.elements.flatMap (elementMarks elements attributes detectors context))

/-- The hooks for a document, element by element, if these names are asked for. -/
def documentHooks (elements attributes : NameFilter) (context : Context)
    (document : Markup.Document) : List Hook :=
  .beforeFile context :: .document context document ::
    (document.elements.flatMap fun element =>
      List.replicate (elements.times element.tag) (.element context element) ++
        element.attributes.flatMap fun item =>
          List.replicate (attributes.times (Markup.localName item.name))
            (.elementAttribute context element item)) ++
      [.afterFile context]

variable {detectors}

theorem heard_documentMarks (hnodup : detectors.Nodup) {detector : Detector}
    (hmem : detector ∈ detectors) (document : Markup.Document) :
    heard detector (documentMarks elements attributes detectors context document) =
      documentHooks (elements detector) (attributes detector) context document := by
  have helement : ∀ element,
      heard detector (elementMarks elements attributes detectors context element) =
        List.replicate ((elements detector).times element.tag) (.element context element) ++
          element.attributes.flatMap fun item =>
            List.replicate ((attributes detector).times (Markup.localName item.name))
              (.elementAttribute context element item) := by
    intro element
    rw [elementMarks, heard_append, heard_flatMap, heard_all, count_callees hnodup hmem]
    simp only [heard_all, count_callees hnodup hmem]
  rw [documentMarks, heard_fileMarks hnodup hmem, heard_flatMap, documentHooks]
  simp only [helement]

end Walks

section Visits

variable {elements attributes : Detector → NameFilter} {detectors : List Detector}
  (host : Host σ) (opts : Options) (context : Context)

theorem makes_visitDocument (document : Markup.Document) :
    Makes (host.engine opts) (documentMarks elements attributes detectors context document)
      ((host.engine opts).visitDocument (markupVisitor elements attributes detectors) context
        document) := by
  rw [visitDocument_eq]
  refine makes_showFile host opts detectors context _ ?_
  rw [List.flatMap_assoc]
  refine congrArg document.elements.flatMap (funext fun element => ?_)
  rw [MarkupVisitor.onElement, List.flatMap_cons, List.flatMap_map, forElement_markupVisitor]
  simp only [forAttribute_markupVisitor, elementMarks]

end Visits

/-- A document was parsed before, or it is parsed now. -/
inductive Obtains (e : Engine σ) (context : Context) (s : State σ) :
    Option Markup.Document → Markup.Document → State σ → Prop
  | before (document : Markup.Document) : Obtains e context s (some document) document s
  | now {document : Markup.Document} {s₁ : State σ} :
      e.parseMarkup context s = .ok (some document) s₁ → Obtains e context s none document s₁

/-- A visit of a document that returned, and what it wrote. -/
def Visited (e : Engine σ) (visitor : MarkupVisitor) (context : Context)
    (document : Markup.Document) (new : List Entry) : Prop :=
  ∃ s parsed s₁ found s', Obtains e context s parsed document s₁ ∧
    e.visitMarkup visitor context parsed s = .ok found s' ∧ s'.written = s.written ++ new

section Files

variable {host : Host σ} {opts : Options} {elements attributes : Detector → NameFilter}
  {detectors : List Detector} (hhost : host.Filters elements attributes detectors)
  {visitor : MarkupVisitor} {t t' : State σ}
  (hvisitor : (host.engine opts).markupVisitor detectors t = .ok visitor t')
  {context : Context} {document : Markup.Document}

include hhost hvisitor

theorem made_visitMarkup {parsed : Option Markup.Document} {s s₁ : State σ}
    (hdocument : Obtains (host.engine opts) context s parsed document s₁) :
    Made (host.engine opts) (documentMarks elements attributes detectors context document) s
      ((host.engine opts).visitMarkup visitor context parsed s) := by
  have hvisit : Makes (host.engine opts)
      (documentMarks elements attributes detectors context document) (do
        (host.engine opts).visitDocument visitor context document
        return some document) := by
    rw [← List.append_nil (documentMarks ..), markupVisitor_eq hhost hvisitor]
    exact (makes_visitDocument host opts context document).bind fun _ => .pure _
  cases hdocument with
  | before => exact hvisit s
  | now hparse =>
    have hstill : Still s s₁ :=
      ((finds_still host s).parseMarkup opts context).ok (.refl s) hparse
    rw [visitMarkup, bind_of_ok hparse]
    exact .of_still hstill (hvisit s₁)

theorem marks_of_visited {new : List Entry}
    (h : Visited (host.engine opts) visitor context document new) :
    marks new = documentMarks elements attributes detectors context document := by
  obtain ⟨s, parsed, s₁, found, s', hdocument, hvisit, hnew⟩ := h
  have hmade := made_visitMarkup hhost hvisitor hdocument
  rw [hvisit] at hmade
  exact hmade.marks_eq hnew

end Files

/-- A file of markup is visited by the walk of its tree, in which every detector is called as often
as it asked for; what one detector hears is the same without the others, and to walk the tree for
nobody changes nothing. -/
theorem visitMarkup_dispatches (host : Host σ) (opts : Options)
    {elements attributes : Detector → NameFilter} {detectors : List Detector}
    (hnodup : detectors.Nodup) (hhost : host.Filters elements attributes detectors)
    {visitor : MarkupVisitor} {t t' : State σ}
    (hvisitor : (host.engine opts).markupVisitor detectors t = .ok visitor t')
    (context : Context) (document : Markup.Document) :
    (∀ {parsed s s₁}, Obtains (host.engine opts) context s parsed document s₁ →
      Made (host.engine opts) (documentMarks elements attributes detectors context document) s
        ((host.engine opts).visitMarkup visitor context parsed s)) ∧
    (∀ detector ∈ detectors,
      heard detector (documentMarks elements attributes detectors context document) =
        documentHooks (elements detector) (attributes detector) context document ∧
      ∀ {lone u u'}, (host.engine opts).markupVisitor [detector] u = .ok lone u' →
        ∀ {new others}, Visited (host.engine opts) visitor context document others →
          Visited (host.engine opts) lone context document new →
          heard detector (marks others) = heard detector (marks new)) ∧
    ∀ root, (host.engine opts).visitRoot visitor context (some root) =
      (host.engine opts).visitElement visitor context root := by
  refine ⟨made_visitMarkup hhost hvisitor,
    fun detector hmem => ⟨?_, fun hlone _ _ hothers hnew => ?_⟩, visitRoot_some visitor context⟩
  · exact heard_documentMarks elements attributes context hnodup hmem document
  · have halone : host.Filters elements attributes [detector] :=
      ⟨List.forall_mem_singleton.2 (hhost.elements detector hmem),
        List.forall_mem_singleton.2 (hhost.attributes detector hmem)⟩
    rw [marks_of_visited hhost hvisitor hothers, marks_of_visited halone hlone hnew,
      heard_documentMarks elements attributes context hnodup hmem,
      heard_documentMarks elements attributes context (List.nodup_singleton detector)
        (List.mem_singleton_self detector)]

def filteringHost : Host Scripted.Memory :=
  { idleHost with
    elementNames := fun detector _ => match detector.className with
      | "listing" => .names ["b", "a", "b"]
      | "taking" => .everything
      | _ => .nothing
    attributeNames := fun detector _ => match detector.className with
      | "listing" => .nothing
      | "taking" => .names ["id"]
      | _ => .everything }

def filtering : List Detector :=
  [⟨"taking", 0⟩, ⟨"listing", 0⟩, ⟨"reading", 0⟩]

theorem filteringHost_filters (memory : Scripted.Memory) (detectors : List Detector) :
    filteringHost.Filters (filteringHost.elementNames · memory)
      (filteringHost.attributeNames · memory) detectors :=
  ⟨fun _ _ _ => rfl, fun _ _ _ => rfl⟩

def page : Context where
  project := ⟨0, "/w"⟩
  main := none
  file := "/w/res/layout/page.xml"

def pageDocument : Markup.Document :=
  ⟨some (.node "a" [⟨"android:id", "x"⟩]
    [.node "b" [⟨"name", "y"⟩] [.node "c" [] []], .node "c" [] []])⟩

def filteringRun : Outcome Scripted.Memory (Option Markup.Document) :=
  ((filteringHost.engine ⟨false⟩).markupVisitor filtering >>= fun visitor =>
    (filteringHost.engine ⟨false⟩).visitMarkup visitor page (some pageDocument))
    (fresh {} (sideBySide []))

/-- One that lists a tag twice is called twice, and before one that takes every element. -/
theorem visitMarkup_dispatches_mixed :
    ∃ visitor t' found s' new,
      (filteringHost.engine ⟨false⟩).markupVisitor filtering (fresh {} (sideBySide [])) =
        .ok visitor t' ∧
      (filteringHost.engine ⟨false⟩).visitMarkup visitor page (some pageDocument) t' =
        .ok found s' ∧
      s'.written = t'.written ++ new ∧
      (marks new).filterMap called? =
        [("taking", "beforeCheckFile"), ("listing", "beforeCheckFile"),
          ("reading", "beforeCheckFile"), ("taking", "visitDocument"),
          ("listing", "visitDocument"), ("reading", "visitDocument"),
          ("listing", "visitElement"), ("taking", "visitElement"),
          ("taking", "visitAttribute"), ("reading", "visitAttribute"),
          ("listing", "visitElement"), ("listing", "visitElement"), ("taking", "visitElement"),
          ("reading", "visitAttribute"), ("taking", "visitElement"), ("taking", "visitElement"),
          ("taking", "afterCheckFile"), ("listing", "afterCheckFile"),
          ("reading", "afterCheckFile")] ∧
      heard ⟨"reading", 0⟩ (marks new) = documentHooks .nothing .everything page pageDocument := by
  have hreturns : (result? filteringRun).isSome = true := by decide +kernel
  obtain ⟨found, hfound⟩ := Option.isSome_iff_exists.1 hreturns
  obtain ⟨visitor, t', hvisitor, hvisit⟩ := bind_eq_ok (eq_ok_of_result? hfound)
  obtain ⟨hvisits, hheard, -⟩ := visitMarkup_dispatches filteringHost ⟨false⟩
    (by decide +kernel : filtering.Nodup) (filteringHost_filters {} filtering) hvisitor page
    pageDocument
  have hmade := hvisits (.before (s := t') pageDocument)
  rw [hvisit] at hmade
  cases hmade with
  | all new hwritten hmarks =>
    refine ⟨visitor, t', _, _, new, hvisitor, hvisit, hwritten, ?_, ?_⟩
    · rw [hmarks]
      decide +kernel
    · rw [hmarks, (hheard ⟨"reading", 0⟩ (by decide +kernel)).1]
      rfl

end Dispatch
end ProjectLint
