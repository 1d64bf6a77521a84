/-
Two runs side by side, in which detectors and projects may go by different names. The operations of
a visit are followed in both runs at once: as long as calls keep the states related, visits do, and
what they give is the same up to the names.

With equal states and names that stand for themselves this says of a single run which calls it
makes: a name that stands for nothing is not called.
-/
import ProjectLint.Proofs.Agenda
import ProjectLint.Proofs.Lockstep

namespace ProjectLint

open List (Forall₂)

variable {elements : List α} {hook hook' : Hook}

structure Naming where
  detector : Detector → Detector → Prop
  context : Context → Context → Prop

namespace Naming

variable (n : Naming)
variable {detector detector' : Detector} {R : α → β → Prop} {elements' : List β}

inductive FileHooks : Hook → Hook → Prop
  | beforeFile {c c'} : n.context c c' → FileHooks (.beforeFile c) (.beforeFile c')
  | afterFile {c c'} : n.context c c' → FileHooks (.afterFile c) (.afterFile c')
  | appliesToFolder (folder answer) :
      FileHooks (.appliesToFolder folder answer) (.appliesToFolder folder answer)
  | appliesToFile {c c'} (file answer) : n.context c c' →
      FileHooks (.appliesToFile c file answer) (.appliesToFile c' file answer)
  | elementNames : FileHooks .elementNames .elementNames
  | attributeNames : FileHooks .attributeNames .attributeNames
  | nodeTypes : FileHooks .nodeTypes .nodeTypes
  | document {c c'} (document) : n.context c c' →
      FileHooks (.document c document) (.document c' document)
  | element {c c'} (element) : n.context c c' → FileHooks (.element c element) (.element c' element)
  | elementAttribute {c c'} (element item) : n.context c c' →
      FileHooks (.elementAttribute c element item) (.elementAttribute c' element item)
  | compilationUnit {c c'} (unit) : n.context c c' →
      FileHooks (.compilationUnit c unit) (.compilationUnit c' unit)
  | node {c c'} (label above) : n.context c c' →
      FileHooks (.node c label above) (.node c' label above)
  | classFile {c c'} (file) : n.context c c' → FileHooks (.classFile c file) (.classFile c' file)
  | run {c c'} : n.context c c' → FileHooks (.run c) (.run c')

inductive LevelHooks : Hook → Hook → Prop
  | beforeProject {c c'} : n.context c c' → LevelHooks (.beforeProject c) (.beforeProject c')
  | afterProject {c c'} : n.context c c' → LevelHooks (.afterProject c) (.afterProject c')
  | beforeLibrary {c c'} : n.context c c' → LevelHooks (.beforeLibrary c) (.beforeLibrary c')
  | afterLibrary {c c'} : n.context c c' → LevelHooks (.afterLibrary c) (.afterLibrary c')

def Listed (entry entry' : String × Detector) : Prop :=
  entry.1 = entry'.1 ∧ n.detector entry.2 entry'.2

def Members (member member' : Detector × ScopeSet) : Prop :=
  n.detector member.1 member'.1 ∧ member.2 = member'.2

structure MarkupVisitors (visitor visitor' : MarkupVisitor) : Prop where
  detectors : Forall₂ n.detector visitor.detectors visitor'.detectors
  byElement : Forall₂ n.Listed visitor.byElement visitor'.byElement
  byAttribute : Forall₂ n.Listed visitor.byAttribute visitor'.byAttribute
  everyElement : Forall₂ n.detector visitor.everyElement visitor'.everyElement
  everyAttribute : Forall₂ n.detector visitor.everyAttribute visitor'.everyAttribute

structure SourceVisitors (visitor visitor' : SourceVisitor) : Prop where
  detectors : Forall₂ n.detector visitor.detectors visitor'.detectors
  byType : Forall₂ n.Listed visitor.byType visitor'.byType

def Agendas (agenda agenda' : Agenda) : Prop :=
  Forall₂ (fun item item' => Forall₂ n.detector item.1 item'.1 ∧ n.FileHooks item.2 item'.2)
    agenda agenda'

structure Memos (memo memo' : VisitorMemo) : Prop where
  folder : memo.folder = memo'.folder
  detectors : Forall₂ n.detector memo.detectors memo'.detectors
  visitor : Option.Rel n.MarkupVisitors memo.visitor memo'.visitor

variable {n}

theorem lookup {table table' : NameTable} (h : Forall₂ n.Listed table table') (name : String) :
    Forall₂ n.detector (table.lookup name) (table'.lookup name) := by
  refine List.rel_map (fun _ _ hentry => hentry.2) (List.rel_filter ?_ h)
  intro entry entry' hentry
  show (entry.1 == name) = true ↔ (entry'.1 == name) = true
  rw [hentry.1]

theorem listed (h : n.detector detector detector') (names : List String) :
    Forall₂ n.Listed (names.map fun name => (name, detector))
      (names.map fun name => (name, detector')) := by
  rw [List.forall₂_map_left_iff, List.forall₂_map_right_iff, List.forall₂_same]
  exact fun _ _ => ⟨rfl, h⟩

theorem isEmpty_eq (h : Forall₂ R elements elements') : elements.isEmpty = elements'.isEmpty := by
  cases h <;> rfl

namespace MarkupVisitors

variable {visitor visitor' : MarkupVisitor} (h : n.MarkupVisitors visitor visitor')

include h

theorem addElements (hd : n.detector detector detector') (names : NameFilter) :
    n.MarkupVisitors (visitor.addElements detector names)
      (visitor'.addElements detector' names) := by
  cases names with
  | nothing => exact h
  | everything => exact { h with everyElement := List.rel_append h.everyElement (.cons hd .nil) }
  | names names => exact { h with byElement := List.rel_append h.byElement (listed hd names) }

theorem addAttributes (hd : n.detector detector detector') (names : NameFilter) :
    n.MarkupVisitors (visitor.addAttributes detector names)
      (visitor'.addAttributes detector' names) := by
  cases names with
  | nothing => exact h
  | everything =>
    exact { h with everyAttribute := List.rel_append h.everyAttribute (.cons hd .nil) }
  | names names => exact { h with byAttribute := List.rel_append h.byAttribute (listed hd names) }

theorem forElement (tag : String) :
    Forall₂ n.detector (visitor.forElement tag) (visitor'.forElement tag) :=
  List.rel_append (lookup h.byElement tag) h.everyElement

theorem forAttribute (name : String) :
    Forall₂ n.detector (visitor.forAttribute name) (visitor'.forAttribute name) :=
  List.rel_append (lookup h.byAttribute name) h.everyAttribute

theorem agenda {c c' : Context} (hc : n.context c c') (document : Markup.Document) :
    n.Agendas (visitor.agenda c document) (visitor'.agenda c' document) := by
  refine .cons ⟨h.detectors, .document _ hc⟩ ?_
  refine List.rel_flatMap (R := Eq) (List.forall₂_same.2 fun _ _ => rfl) ?_
  rintro element _ rfl
  refine .cons ⟨h.forElement _, .element _ hc⟩ ?_
  rw [List.forall₂_map_left_iff, List.forall₂_map_right_iff, List.forall₂_same]
  exact fun item _ => ⟨h.forAttribute _, .elementAttribute _ item hc⟩

end MarkupVisitors

theorem SourceVisitors.agenda {visitor visitor' : SourceVisitor}
    (h : n.SourceVisitors visitor visitor') {c c' : Context} (hc : n.context c c')
    (unit : Source.CompilationUnit) :
    n.Agendas (visitor.agenda c unit) (visitor'.agenda c' unit) := by
  refine .cons ⟨h.detectors, .compilationUnit _ hc⟩ ?_
  rw [List.forall₂_map_left_iff, List.forall₂_map_right_iff, List.forall₂_same]
  exact fun node _ => ⟨lookup h.byType _, .node _ _ hc⟩

theorem detectors {members members' : List (Detector × ScopeSet)}
    (h : Forall₂ n.Members members members') :
    Forall₂ n.detector (members.map Prod.fst) (members'.map Prod.fst) :=
  List.rel_map (fun _ _ hmember => hmember.1) h

theorem bucket {selection selection' : Selection}
    (h : Forall₂ n.Members selection.members selection'.members) (scope : Scope) :
    Forall₂ n.detector (selection.bucket scope) (selection'.bucket scope) := by
  refine detectors (List.rel_filter ?_ h)
  intro member member' hmember
  show member.2.contains scope = true ↔ member'.2.contains scope = true
  rw [hmember.2]

theorem filter_ne [DecidableEq α] [DecidableEq β] (hR : Relator.BiUnique R)
    {a : α} {b : β} (hab : R a b) (h : Forall₂ R elements elements') :
    Forall₂ R (elements.filter (· != a)) (elements'.filter (· != b)) := by
  refine List.rel_filter ?_ h
  intro c d hcd
  show (c != a) = true ↔ (d != b) = true
  rw [bne_iff_ne, bne_iff_ne]
  exact not_congr (Relator.rel_eq hR hcd hab)

theorem distinct [DecidableEq α] [DecidableEq β] (hR : Relator.BiUnique R)
    (h : Forall₂ R elements elements') :
    Forall₂ R (distinct elements) (distinct elements') := by
  induction h with
  | nil => exact .nil
  | cons hab _ ih => exact .cons hab (filter_ne hR hab ih)

theorem merged {selection selection' : Selection} (hn : Relator.BiUnique n.detector)
    (h : Forall₂ n.Members selection.members selection'.members) (first second : Scope) :
    Forall₂ n.detector (selection.merged first second) (selection'.merged first second) :=
  distinct hn (List.rel_append (bucket h first) (bucket h second))

end Naming

/-! ## Names that stand for themselves -/

namespace Hook

/-- A hook around a whole project or library. -/
def isLevel : Hook → Bool
  | .beforeProject _ | .afterProject _ | .beforeLibrary _ | .afterLibrary _ => true
  | _ => false

end Hook

namespace Naming

def alone (D : Detector → Prop) (C : Context → Prop) : Naming where
  detector := fun d d' => d = d' ∧ D d
  context := fun c c' => c = c' ∧ C c

section Alone

variable {D : Detector → Prop} {C : Context → Prop}

theorem alone_unique : Relator.BiUnique (alone D C).detector :=
  ⟨fun _ _ _ h h' => h.1.trans h'.1.symm, fun _ _ _ h h' => h.1.symm.trans h'.1⟩

theorem forall₂_alone {R : α → α → Prop} (hR : ∀ a b, R a b → a = b) {elements' : List α}
    (h : Forall₂ R elements elements') : elements = elements' := by
  induction h with
  | nil => rfl
  | cons hab _ ih => rw [hR _ _ hab, ih]

theorem alone_detectors {detectors : List Detector} (h : ∀ d ∈ detectors, D d) :
    Forall₂ (alone D C).detector detectors detectors :=
  List.forall₂_same.2 fun d hd => ⟨rfl, h d hd⟩

theorem alone_fileHooks (h : (alone D C).FileHooks hook hook') :
    hook = hook' ∧ hook.isLevel = false ∧ ∀ c, hook.context? = some c → C c := by
  cases h with
  | appliesToFolder folder answer => exact ⟨rfl, rfl, fun _ hc => nomatch hc⟩
  | elementNames => exact ⟨rfl, rfl, fun _ hc => nomatch hc⟩
  | attributeNames => exact ⟨rfl, rfl, fun _ hc => nomatch hc⟩
  | nodeTypes => exact ⟨rfl, rfl, fun _ hc => nomatch hc⟩
  | _ =>
    rename_i hc
    obtain ⟨rfl, hC⟩ := hc
    exact ⟨rfl, rfl, fun _ hc => Option.some.inj hc ▸ hC⟩

theorem alone_levelHooks (h : (alone D C).LevelHooks hook hook') :
    hook = hook' ∧ ∀ c, hook.context? = some c → C c := by
  cases h with
  | _ =>
    rename_i hc
    obtain ⟨rfl, hC⟩ := hc
    exact ⟨rfl, fun _ hc => Option.some.inj hc ▸ hC⟩

theorem alone_listed {table table' : NameTable} (h : Forall₂ (alone D C).Listed table table') :
    table = table' :=
  forall₂_alone (fun _ _ hentry => Prod.ext hentry.1 hentry.2.1) h

theorem alone_visitor {visitor visitor' : MarkupVisitor}
    (h : (alone D C).MarkupVisitors visitor visitor') : visitor = visitor' := by
  have hdetector : ∀ d d', (alone D C).detector d d' → d = d' := fun _ _ hd => hd.1
  cases visitor
  cases visitor'
  rw [MarkupVisitor.mk.injEq]
  exact ⟨forall₂_alone hdetector h.detectors, alone_listed h.byElement, alone_listed h.byAttribute,
    forall₂_alone hdetector h.everyElement, forall₂_alone hdetector h.everyAttribute⟩

theorem alone_memo {memo memo' : Option VisitorMemo}
    (h : Option.Rel (alone D C).Memos memo memo') : memo = memo' := by
  cases h with
  | none => rfl
  | @some memo memo' h =>
    obtain ⟨folder, detectors, visitor⟩ := memo
    obtain ⟨folder', detectors', visitor'⟩ := memo'
    obtain ⟨rfl, hdetectors, hvisitor⟩ := h
    have hsame : detectors = detectors' := forall₂_alone (fun _ _ hd => hd.1) hdetectors
    subst hsame
    cases hvisitor with
    | none => rfl
    | some hvisitor => rw [alone_visitor hvisitor]

theorem visitor_alone (visitor : MarkupVisitor) (hD : ∀ d, D d) :
    (alone D C).MarkupVisitors visitor visitor := by
  have hdetectors : ∀ detectors : List Detector, Forall₂ (alone D C).detector detectors detectors :=
    fun _ => alone_detectors fun d _ => hD d
  have htable : ∀ table : NameTable, Forall₂ (alone D C).Listed table table :=
    fun _ => List.forall₂_same.2 fun entry _ => ⟨rfl, rfl, hD entry.2⟩
  exact ⟨hdetectors _, htable _, htable _, hdetectors _, hdetectors _⟩

theorem sourceVisitor_alone (visitor : SourceVisitor) (hD : ∀ d, D d) :
    (alone D C).SourceVisitors visitor visitor :=
  ⟨alone_detectors fun d _ => hD d, List.forall₂_same.2 fun entry _ => ⟨rfl, rfl, hD entry.2⟩⟩

theorem memo_alone (memo : Option VisitorMemo) (hD : ∀ d, D d) :
    Option.Rel (alone D C).Memos memo memo := by
  cases memo with
  | none => exact .none
  | some memo =>
    refine .some ⟨rfl, alone_detectors fun d _ => hD d, ?_⟩
    cases memo.visitor with
    | none => exact .none
    | some visitor => exact .some (visitor_alone visitor hD)

end Alone
end Naming

namespace Engine

open Run

structure Kin (e e' : Engine σ) : Prop where
  host : ∀ react, { e'.host with react } = { e.host with react }
  options : e'.options = e.options

theorem Kin.refl (e : Engine σ) : Kin e e :=
  ⟨fun _ => rfl, rfl⟩

theorem Kin.answer {e e' : Engine σ} (h : Kin e e') (question : Host σ → α)
    (hreact : ∀ host react, question { host with react } = question host) :
    question e'.host = question e.host := by
  have hhost := congrArg question (h.host e.host.react)
  rwa [hreact, hreact] at hhost

/-- A relation that visits cannot break: detectors that stand for each other give the same answers,
and calls that are the same up to the names keep it. -/
structure Visits (e e' : Engine σ) (n : Naming) (ρ : State σ → State σ → Prop) : Prop where
  file : ∀ {c c'}, n.context c c' → c.file = c'.file
  elementNames : ∀ {d d' s t}, n.detector d d' → ρ s t →
    e.host.elementNames d s.host = e'.host.elementNames d' t.host
  attributeNames : ∀ {d d' s t}, n.detector d d' → ρ s t →
    e.host.attributeNames d s.host = e'.host.attributeNames d' t.host
  nodeTypes : ∀ {d d' s t}, n.detector d d' → ρ s t →
    e.host.nodeTypes d s.host = e'.host.nodeTypes d' t.host
  appliesToFile : ∀ {d d' c c' s t} file, n.detector d d' → n.context c c' → ρ s t →
    e.host.appliesToFile d c file s.host = e'.host.appliesToFile d' c' file t.host
  ask : ∀ {d d' hook hook'}, n.detector d d' → n.FileHooks hook hook' →
    Mirrors ρ Eq (e.ask d hook) (e'.ask d' hook')
  parseMarkup : ∀ {c c'}, n.context c c' → Mirrors ρ Eq (e.parseMarkup c) (e'.parseMarkup c')
  parseSource : ∀ {c c'}, n.context c c' → Mirrors ρ Eq (e.parseSource c) (e'.parseSource c')

namespace Visits

variable {e e' : Engine σ} {n : Naming} {ρ : State σ → State σ → Prop}
variable {detectors' : List Detector}

theorem tell (h : Visits e e' n ρ) {detectors : List Detector}
    (hdetectors : Forall₂ n.detector detectors detectors') (hhook : n.FileHooks hook hook') :
    Mirrors ρ Eq (e.tell detectors hook) (e'.tell detectors' hook') :=
  .each hdetectors fun _ _ hd => h.ask hd hhook

theorem markupVisitor (h : Visits e e' n ρ) {detectors : List Detector}
    (hdetectors : Forall₂ n.detector detectors detectors') :
    Mirrors ρ n.MarkupVisitors (e.markupVisitor detectors) (e'.markupVisitor detectors') := by
  suffices hfill : ∀ {visitor visitor'}, n.MarkupVisitors visitor visitor' →
      Mirrors ρ n.MarkupVisitors (e.fillMarkupVisitor visitor detectors)
        (e'.fillMarkupVisitor visitor' detectors') from
    hfill ⟨hdetectors, .nil, .nil, .nil, .nil⟩
  induction hdetectors with
  | nil => exact fun hvisitor => .pure hvisitor
  | cons hd _ ih =>
    intro visitor visitor' hvisitor
    rw [fillMarkupVisitor, fillMarkupVisitor]
    refine Mirrors.andThen
      (.question (h.elementNames hd) fun _ => h.ask hd .elementNames) fun names => ?_
    refine Mirrors.andThen
      (.question (h.attributeNames hd) fun _ => h.ask hd .attributeNames) fun others => ?_
    exact ih ((hvisitor.addElements hd names).addAttributes hd others)

theorem sourceVisitor (h : Visits e e' n ρ) {detectors : List Detector}
    (hdetectors : Forall₂ n.detector detectors detectors') :
    Mirrors ρ n.SourceVisitors (e.sourceVisitor detectors) (e'.sourceVisitor detectors') := by
  suffices hfill : ∀ {visitor visitor'}, n.SourceVisitors visitor visitor' →
      Mirrors ρ n.SourceVisitors (e.fillSourceVisitor visitor detectors)
        (e'.fillSourceVisitor visitor' detectors') from hfill ⟨hdetectors, .nil⟩
  induction hdetectors with
  | nil => exact fun hvisitor => .pure hvisitor
  | cons hd _ ih =>
    intro visitor visitor' hvisitor
    rw [fillSourceVisitor, fillSourceVisitor]
    refine Mirrors.andThen (.question (h.nodeTypes hd) fun _ => h.ask hd .nodeTypes) fun types => ?_
    exact ih { hvisitor with byType := List.rel_append hvisitor.byType (Naming.listed hd types) }

variable {c c' : Context}

theorem showFile (h : Visits e e' n ρ) {detectors : List Detector}
    (hdetectors : Forall₂ n.detector detectors detectors') (hc : n.context c c')
    {agenda agenda' : Agenda} (hagenda : n.Agendas agenda agenda') :
    Mirrors ρ Eq (e.showFile detectors c agenda) (e'.showFile detectors' c' agenda') := by
  refine (h.tell hdetectors (.beforeFile hc)).andThen fun _ => ?_
  refine Mirrors.andThen (.each hagenda fun item item' hitem => ?_) fun _ =>
    h.tell hdetectors (.afterFile hc)
  exact h.tell hitem.1 hitem.2

theorem visitMarkup (h : Visits e e' n ρ) {visitor visitor' : MarkupVisitor}
    (hvisitor : n.MarkupVisitors visitor visitor') (hc : n.context c c')
    (parsed : Option Markup.Document) :
    Mirrors ρ Eq (e.visitMarkup visitor c parsed) (e'.visitMarkup visitor' c' parsed) := by
  have hvisit : ∀ document, Mirrors ρ Eq
      (do e.visitDocument visitor c document; return some document)
      (do e'.visitDocument visitor' c' document; return some document) := by
    refine fun document => Mirrors.andThen ?_ fun _ => .pure rfl
    rw [visitDocument_eq, visitDocument_eq]
    exact h.showFile hvisitor.detectors hc (hvisitor.agenda hc document)
  cases parsed with
  | some document => exact hvisit document
  | none =>
    refine (h.parseMarkup hc).andThen fun document => ?_
    cases document with
    | none => exact .pure rfl
    | some document => exact hvisit document

theorem visitSource (h : Visits e e' n ρ) {visitor visitor' : SourceVisitor}
    (hvisitor : n.SourceVisitors visitor visitor') (hc : n.context c c') :
    Mirrors ρ Eq (e.visitSource visitor c) (e'.visitSource visitor' c') := by
  refine (h.parseSource hc).andThen fun parsed => ?_
  cases parsed with
  | none => exact .pure rfl
  | some unit =>
    refine Mirrors.andThen ?_ fun _ => .pure rfl
    rw [visitUnit_eq, visitUnit_eq]
    exact h.showFile hvisitor.detectors hc (hvisitor.agenda hc unit)

theorem checkWith (h : Visits e e' n ρ) {c c' : Context} {d d' : Detector}
    (hc : n.context c c') (hhook : n.FileHooks hook hook') (hd : n.detector d d') :
    Mirrors ρ Eq (e.checkWith c hook d) (e'.checkWith c' hook' d') := by
  refine Mirrors.andThen (x := e.appliesToFile d c) (y := e'.appliesToFile d' c') ?_
    fun applies => ?_
  · rw [Engine.appliesToFile, Engine.appliesToFile, h.file hc]
    exact Mirrors.question (h.appliesToFile c'.file hd hc) fun answer =>
      h.ask hd (.appliesToFile c'.file answer hc)
  · refine .ite Iff.rfl ((h.ask hd (.beforeFile hc)).andThen fun _ => ?_) (.pure rfl)
    exact (h.ask hd hhook).andThen fun _ => h.ask hd (.afterFile hc)

end Visits
end Engine
end ProjectLint
