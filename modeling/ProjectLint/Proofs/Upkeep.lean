/-
What the check of files keeps up, and the faults it can end with. A property of the state survives
the visit of a file if it survives calls and entries of the log; and a visit brings up no faults but
those of calls and of answers that cannot be given.

Whom a visit calls is part of it: a detector is called about a file only if it minds a category of
files of that kind. So the property has to survive the calls of such detectors only.
-/
import ProjectLint.Proofs.Agenda
import ProjectLint.Proofs.Conduct

namespace ProjectLint

variable {visitor : SourceVisitor} {message : String}

namespace Project

def filing (project : Project) : String × Option (List ProjectRef) × List String :=
  (project.dir, project.libraries, project.libraryDirs)

theorem readManifest_keeps (project : Project) (document : Markup.Document) :
    (project.readManifest document).subset = project.subset ∧
      (project.readManifest document).filing = project.filing := by
  rw [Project.readManifest]
  repeat' split
  all_goals exact ⟨rfl, rfl⟩

end Project

/-! ## Categories -/

/-- What a file of such a kind is scanned for. -/
def Context.Kind.categories : Context.Kind → List Scope
  | .plain => [.proguardFile]
  | .markup none => [.manifest]
  | .markup (some _) => [.resourceFile, .allResourceFiles]
  | .source => [.javaFile, .allJavaFiles]
  | .bytecode .. => [.classFile]

theorem Context.Kind.categories_ne_nil (kind : Context.Kind) : kind.categories ≠ [] := by
  cases kind with
  | markup folder => cases folder <;> exact List.cons_ne_nil _ _
  | _ => exact List.cons_ne_nil _ _

/-- What a detector must look at to be called so; nothing for a level hook. -/
def Hook.categories : Hook → List Scope
  | .beforeProject _ | .afterProject _ | .beforeLibrary _ | .afterLibrary _ => []
  | .appliesToFolder _ _ => [.resourceFile, .allResourceFiles]
  | .elementNames | .attributeNames => [.manifest, .resourceFile, .allResourceFiles]
  | .nodeTypes => [.javaFile, .allJavaFiles]
  | .beforeFile context | .afterFile context | .appliesToFile context _ _ | .document context _
  | .element context _ | .elementAttribute context _ _ | .compilationUnit context _
  | .node context _ _ | .classFile context _ | .run context => context.kind.categories

theorem Hook.categories_of_visited {hook : Hook} {context : Context}
    (h : hook.visited? = some context) : context.kind.categories ⊆ hook.categories := by
  cases hook <;> cases h <;> exact List.Subset.refl _

theorem markup_categories_subset (folder : Option FolderType) :
    (Context.Kind.markup folder).categories ⊆ Hook.elementNames.categories := by
  cases folder <;> simp [Context.Kind.categories, Hook.categories]

def Minds (D : Scope → Detector → Prop) (categories : List Scope) (detector : Detector) : Prop :=
  ∃ category ∈ categories, D category detector

/-! ## Whom a visitor calls -/

namespace MarkupVisitor

structure Calls (P : Detector → Prop) (visitor : MarkupVisitor) : Prop where
  detectors : ∀ detector ∈ visitor.detectors, P detector
  byElement : ∀ entry ∈ visitor.byElement, P entry.2
  byAttribute : ∀ entry ∈ visitor.byAttribute, P entry.2
  everyElement : ∀ detector ∈ visitor.everyElement, P detector
  everyAttribute : ∀ detector ∈ visitor.everyAttribute, P detector

namespace Calls

variable {P : Detector → Prop} {visitor : MarkupVisitor} {detector : Detector}

theorem imp {Q : Detector → Prop} (h : visitor.Calls P) (hQ : ∀ detector, P detector → Q detector) :
    visitor.Calls Q :=
  ⟨fun _ hmem => hQ _ (h.detectors _ hmem), fun _ hmem => hQ _ (h.byElement _ hmem),
    fun _ hmem => hQ _ (h.byAttribute _ hmem), fun _ hmem => hQ _ (h.everyElement _ hmem),
    fun _ hmem => hQ _ (h.everyAttribute _ hmem)⟩

theorem addElements (h : visitor.Calls P) (hdetector : P detector) (filter : NameFilter) :
    (visitor.addElements detector filter).Calls P := by
  cases filter with
  | nothing => exact h
  | everything =>
    refine { h with everyElement := List.forall_mem_append.2 ⟨h.everyElement, ?_⟩ }
    exact List.forall_mem_singleton.2 hdetector
  | names names =>
    refine { h with byElement := List.forall_mem_append.2 ⟨h.byElement, ?_⟩ }
    exact List.forall_mem_map.2 fun _ _ => hdetector

theorem addAttributes (h : visitor.Calls P) (hdetector : P detector) (filter : NameFilter) :
    (visitor.addAttributes detector filter).Calls P := by
  cases filter with
  | nothing => exact h
  | everything =>
    refine { h with everyAttribute := List.forall_mem_append.2 ⟨h.everyAttribute, ?_⟩ }
    exact List.forall_mem_singleton.2 hdetector
  | names names =>
    refine { h with byAttribute := List.forall_mem_append.2 ⟨h.byAttribute, ?_⟩ }
    exact List.forall_mem_map.2 fun _ _ => hdetector

end Calls
end MarkupVisitor

namespace NameTable

theorem forall_mem_lookup {P : Detector → Prop} {table : NameTable}
    (h : ∀ entry ∈ table, P entry.2) (name : String) :
    ∀ detector ∈ table.lookup name, P detector := by
  refine List.forall_mem_map.2 fun entry hentry => ?_
  exact h entry (List.mem_filter.1 hentry).1

end NameTable

namespace MarkupVisitor.Calls

variable {P : Detector → Prop} {visitor : MarkupVisitor}

theorem forElement (h : visitor.Calls P) (tag : String) :
    ∀ detector ∈ visitor.forElement tag, P detector :=
  List.forall_mem_append.2 ⟨NameTable.forall_mem_lookup h.byElement tag, h.everyElement⟩

theorem forAttribute (h : visitor.Calls P) (name : String) :
    ∀ detector ∈ visitor.forAttribute name, P detector :=
  List.forall_mem_append.2 ⟨NameTable.forall_mem_lookup h.byAttribute name, h.everyAttribute⟩

theorem shows (h : visitor.Calls P) (context : Context) (document : Markup.Document) :
    (visitor.agenda context document).Shows context P := by
  refine List.forall_mem_cons.2 ⟨⟨rfl, h.detectors⟩, List.forall_mem_flatMap.2 fun element _ => ?_⟩
  refine List.forall_mem_cons.2 ⟨⟨rfl, h.forElement _⟩, List.forall_mem_map.2 fun item _ => ?_⟩
  exact ⟨rfl, h.forAttribute _⟩

end MarkupVisitor.Calls

structure SourceVisitor.Calls (P : Detector → Prop) (visitor : SourceVisitor) : Prop where
  detectors : ∀ detector ∈ visitor.detectors, P detector
  byType : ∀ entry ∈ visitor.byType, P entry.2

theorem SourceVisitor.Calls.imp {P Q : Detector → Prop}
    (h : visitor.Calls P) (hQ : ∀ detector, P detector → Q detector) : visitor.Calls Q :=
  ⟨fun _ hmem => hQ _ (h.detectors _ hmem), fun _ hmem => hQ _ (h.byType _ hmem)⟩

theorem SourceVisitor.Calls.shows {P : Detector → Prop} (h : visitor.Calls P) (context : Context)
    (unit : Source.CompilationUnit) : (visitor.agenda context unit).Shows context P :=
  List.forall_mem_cons.2 ⟨⟨rfl, h.detectors⟩, List.forall_mem_map.2 fun _ _ =>
    ⟨rfl, NameTable.forall_mem_lookup h.byType _⟩⟩

namespace Run

variable {I : State σ → Prop} {r : Outcome σ α} {x : Run σ α} {f : α → Run σ β}

/-! ## Operations that uphold a property -/

inductive Ends (I : State σ → Prop) (E : Fault → Prop) : Outcome σ α → Prop
  | ok {a : α} {s : State σ} : I s → Ends I E (.ok a s)
  | error {fault : Fault} {s : State σ} : E fault → I s → Ends I E (.error fault s)

def Upholds (I : State σ → Prop) (E : Fault → Prop) (x : Run σ α) : Prop :=
  ∀ s, I s → Ends I E (x s)

theorem Ends.endState {E : Fault → Prop} (h : Ends I E r) : I (endState r) := by
  cases h with
  | ok h => exact h
  | error _ h => exact h

theorem Ends.returns (h : Ends I (fun _ => False) r) : ∃ a s, r = .ok a s ∧ I s := by
  cases h with
  | ok h => exact ⟨_, _, rfl, h⟩
  | error hfault _ => exact hfault.elim

namespace Upholds

variable {I : State σ → Prop} {E : Fault → Prop}

theorem of_keeps (h : Keeps I x) : Upholds I (fun _ => True) x := by
  intro s hs
  have hend := h s hs
  cases hr : x s with
  | ok a s' =>
    rw [hr] at hend
    exact .ok hend
  | error fault s' =>
    rw [hr] at hend
    exact .error trivial hend

theorem keeps (h : Upholds I E x) : Keeps I x :=
  fun s hs => (h s hs).endState

theorem pure (a : α) : Upholds I E (pure a : Run σ α) :=
  fun _ hs => .ok hs

theorem throw {fault : Fault} (h : E fault) : Upholds I E (throw fault : Run σ α) :=
  fun _ hs => .error h hs

theorem bind (hx : Upholds I E x) (hf : ∀ a, Upholds I E (f a)) : Upholds I E (x >>= f) := by
  intro s hs
  have hends := hx s hs
  cases hr : x s with
  | ok a s' =>
    rw [hr] at hends
    cases hends with
    | ok h =>
      rw [bind_of_ok hr]
      exact hf a s' h
  | error fault s' =>
    rw [hr] at hends
    cases hends with
    | error hfault h =>
      rw [bind_of_error hr]
      exact .error hfault h

theorem modify {f : State σ → State σ} (h : ∀ {s}, I s → I (f s)) :
    Upholds I E (modify f : Run σ Unit) :=
  fun _ hs => .ok (h hs)

theorem inspect {k : State σ → Run σ α} (h : ∀ s, I s → Upholds I E (k s)) :
    Upholds I E (get >>= k) :=
  fun s hs => h s hs s hs

theorem attempt (h : Upholds I (fun _ => True) x) : Upholds I E (attempt x) := by
  intro s hs
  have hends := h s hs
  rw [Run.attempt]
  cases hr : x s with
  | ok a s' =>
    rw [hr] at hends
    exact .ok hends.endState
  | error fault s' =>
    rw [hr] at hends
    exact .ok hends.endState

theorem ite {y : Run σ α} {c : Prop} [Decidable c] (hx : c → Upholds I E x)
    (hy : ¬ c → Upholds I E y) : Upholds I E (if c then x else y) :=
  iteInduction hx hy

theorem each {f : α → Run σ Unit} (elements : List α) (h : ∀ a ∈ elements, Upholds I E (f a)) :
    Upholds I E (each elements f) := by
  induction elements with
  | nil => exact pure ()
  | cons element rest ih =>
    obtain ⟨hfirst, hrest⟩ := List.forall_mem_cons.1 h
    exact hfirst.bind fun _ => ih hrest

theorem unlessCanceled {x : Run σ Unit} (h : Upholds I E x) : Upholds I E (unlessCanceled x) :=
  inspect fun _ _ => ite (fun _ => pure ()) fun _ => h

theorem eachUntilCanceled {f : α → Run σ Unit} (elements : List α)
    (h : ∀ a ∈ elements, Upholds I E (f a)) : Upholds I E (eachUntilCanceled elements f) := by
  induction elements with
  | nil => exact pure ()
  | cons element rest ih =>
    obtain ⟨hfirst, hrest⟩ := List.forall_mem_cons.1 h
    exact hfirst.bind fun _ => (ih hrest).unlessCanceled

theorem keepingScope (hx : Upholds I E x)
    (h : ∀ {s₀ s}, I s₀ → I s → I { s with scope := s₀.scope }) :
    Upholds I E (keepingScope x) := by
  intro s hs
  have hends := hx s hs
  rw [Run.keepingScope]
  cases hr : x s with
  | ok a s' =>
    rw [hr] at hends
    cases hends with
    | ok hend => exact .ok (h hs hend)
  | error fault s' =>
    rw [hr] at hends
    cases hends with
    | error hfault hend => exact .error hfault (h hs hend)

end Upholds

def Gives (I : State σ → Prop) (E : Fault → Prop) (x : Run σ α) (Q : α → Prop) : Prop :=
  ∀ s, I s → Ends I E (x s) ∧ ∀ a t, x s = .ok a t → Q a

def Shown (I P : State σ → Prop) : Prop :=
  ∃ s, I s ∧ P s

theorem Upholds.gives {E : Fault → Prop} (h : Upholds I E x) : Gives I E x fun _ => True :=
  fun s hs => ⟨h s hs, fun _ _ _ => trivial⟩

namespace Gives

variable {I : State σ → Prop} {E : Fault → Prop} {Q : α → Prop}

theorem upholds (h : Gives I E x Q) : Upholds I E x :=
  fun s hs => (h s hs).1

theorem keeps (h : Gives I E x Q) : Keeps I x :=
  h.upholds.keeps

theorem pure {a : α} (h : Q a) : Gives I E (pure a) Q :=
  fun _ hs => ⟨.ok hs, fun _ _ heq => by cases heq; exact h⟩

theorem throw {fault : Fault} (h : E fault) : Gives I E (throw fault) Q :=
  fun _ hs => ⟨.error h hs, fun _ _ heq => by cases heq⟩

theorem inspect {k : State σ → Run σ α} (h : ∀ s, I s → Gives I E (k s) Q) :
    Gives I E (get >>= k) Q :=
  fun s hs => h s hs s hs

theorem ite {y : Run σ α} {c : Prop} [Decidable c] (hx : c → Gives I E x Q)
    (hy : ¬ c → Gives I E y Q) : Gives I E (if c then x else y) Q :=
  iteInduction (motive := (Gives I E · Q)) hx hy

theorem shown (h : Upholds I E x) : Gives I E x fun a => Shown I fun s => ∃ t, x s = .ok a t :=
  fun s hs => ⟨h s hs, fun _ t heq => ⟨s, hs, t, heq⟩⟩

theorem andThen {R : β → Prop} (hx : Gives I E x Q)
    (hf : ∀ a, Q a → Gives I E (f a) R) : Gives I E (x >>= f) R := by
  intro s hs
  obtain ⟨hends, hresult⟩ := hx s hs
  cases hr : x s with
  | ok a s' =>
    rw [hr] at hends
    rw [bind_of_ok hr]
    exact hf a (hresult a s' hr) s' hends.endState
  | error fault s' =>
    rw [hr] at hends
    rw [bind_of_error hr]
    cases hends with
    | error hfault hend => exact ⟨.error hfault hend, fun _ _ heq => by cases heq⟩

theorem consult {e : Engine σ} {call : Call} {answer : Workspace → σ → Except Fault α}
    (hcall : Upholds I E (e.invoke call))
    (hfault : ∀ {s fault}, I s → answer s.files s.host = .error fault → E fault) :
    Gives I E (e.consult call answer) fun a => Shown I fun s => answer s.files s.host = .ok a := by
  refine (shown hcall).andThen fun _ _ => .inspect fun s hs => ?_
  cases hanswer : answer s.files s.host with
  | ok a => exact .pure ⟨s, hs, hanswer⟩
  | error fault => exact .throw (hfault hs hanswer)

theorem bind (hx : Gives I E x Q) (hf : ∀ a, Q a → Upholds I E (f a)) : Upholds I E (x >>= f) :=
  (hx.andThen (R := fun _ => True) fun a ha s hs => ⟨hf a ha s hs, fun _ _ _ => trivial⟩).upholds

end Gives

end Run

def Call.isRisky : Call → Bool
  | .listener .. | .readClass .. => true
  | _ => false

/-! ## What concerns a report -/

namespace Log

def complaintStart : String := "Incorrect detector reported disabled issue "

def complains (error : Option String) (message : String) : Bool :=
  error.isNone && Text.startsWith message complaintStart

def Entry.isComplaint (entry : Entry) : Bool :=
  entry.level == .warn && Text.startsWith entry.message complaintStart

def startsElse (message : String) : Bool :=
  message.toList.head?.any (· != 'I')

theorem startsElse_append {first : String} (h : startsElse first = true) (rest : String) :
    startsElse (first ++ rest) = true := by
  rw [startsElse] at h ⊢
  rw [String.toList_append]
  cases hfirst : first.toList with
  | nil => rw [hfirst] at h; cases h
  | cons c cs => rwa [hfirst] at h

theorem startsWith_of_startsElse (h : startsElse message = true) :
    Text.startsWith message complaintStart = false := by
  rw [startsElse] at h
  have hstart : complaintStart.toList = 'I' :: complaintStart.toList.tail := rfl
  rw [Text.startsWith, hstart]
  cases hmessage : message.toList with
  | nil => rfl
  | cons c cs =>
    rw [hmessage, List.head?_cons, Option.any_some, bne_iff_ne] at h
    rw [List.isPrefixOf_cons_cons, beq_false_of_ne h.symm, Bool.false_and]

theorem complains_of_startsElse (h : startsElse message = true)
    (error : Option String) : complains error message = false := by
  rw [complains, startsWith_of_startsElse h, Bool.and_false]

end Log

theorem Engine.isComplaint_plainEntry (error : Option String) (message : String)
    (context : Option Context) :
    (Engine.plainEntry error message context).isComplaint = Log.complains error message := by
  cases error <;> rfl

def Call.concernsReport : Call → Bool
  | .report _ => true
  | .log error message _ => Log.complains error message
  | _ => false

def Journal.Entry.concernsReport : Journal.Entry → Bool
  | .submitted .. => true
  | .called call _ => call.concernsReport
  | .logged entry => entry.isComplaint
  | _ => false

namespace Engine

open Run Journal

/-! ## Calls -/

/-- A property that survives what the client is asked and told, as far as it does not concern
reports, and the faults that such a call may end with. -/
structure Serving (e : Engine σ) (I : State σ → Prop) (E : Fault → Prop) : Prop where
  call : ∀ {call}, call.isBookkeeping = true → call.concernsReport = false →
    Upholds I E (e.invoke call)
  logged : ∀ {entry s}, entry.isComplaint = false → I s → I (s.write (.logged entry))

namespace Serving

variable {e : Engine σ} {I : State σ → Prop} {E : Fault → Prop} (h : Serving e I E)

include h

theorem log {error : Option String}
    (hmessage : Log.complains error message = false) (context : Option Context) :
    Upholds I E (e.log error message context) :=
  .ite (fun _ => .modify (h.logged ((isComplaint_plainEntry ..).trans hmessage)))
    fun _ => h.call rfl hmessage

theorem note {level : Log.Level} {details : List (String × Data.Value)}
    (hentry : Log.Entry.isComplaint ⟨level, message, details⟩ = false) :
    Upholds I E (Run.note level message details) :=
  .modify (h.logged hentry)

end Serving

/-- A property that survives the visit of files by detectors that mind their categories, and the
faults that a visit may end with. -/
structure Visiting (e : Engine σ) (I : State σ → Prop) (E : Fault → Prop)
    (D : Scope → Detector → Prop) : Prop extends Serving e I E where
  parsing : ∀ context, Upholds I E (e.invoke (.parseMarkup context))
  reading : ∀ context, Upholds I E (e.invoke (.parseSource context))
  risky : ∀ {call}, call.isRisky = true → Upholds I (fun _ => True) (e.invoke call)
  asked : ∀ {category detector hook}, D category detector → category ∈ hook.categories →
    Upholds I E (e.ask detector hook)
  parseMarkup : ∀ {context s fault}, I s →
    e.host.parseMarkup context s.files s.host = .error fault → E fault
  parseSource : ∀ {context s fault}, I s →
    e.host.parseSource context s.files s.host = .error fault → E fault

namespace Visiting

variable {e : Engine σ} {I : State σ → Prop} {E : Fault → Prop} {D : Scope → Detector → Prop}
  {categories : List Scope} {context : Context}

section Calls

variable (h : Visiting e I E D)

include h

theorem ask {detector : Detector} (hdetector : Minds D categories detector) {hook : Hook}
    (hhook : categories ⊆ hook.categories) : Upholds I E (e.ask detector hook) := by
  obtain ⟨category, hcategory, hminds⟩ := hdetector
  exact h.asked hminds (hhook hcategory)

theorem tell {detectors : List Detector}
    (hdetectors : ∀ detector ∈ detectors, Minds D categories detector) {hook : Hook}
    (hhook : categories ⊆ hook.categories) : Upholds I E (e.tell detectors hook) :=
  .each detectors fun detector hdetector => h.ask (hdetectors detector hdetector) hhook

theorem notifyAll (listeners : List Listener) (event : Event) (context : Option Context) :
    Upholds I E (e.notifyAll listeners event context) := by
  refine .each listeners fun listener _ => (h.risky rfl).attempt.bind fun outcome => ?_
  cases outcome with
  | ok _ => exact .pure ()
  | error fault =>
    exact h.note (Log.startsWith_of_startsElse <| Log.startsElse_append
      (Log.startsElse_append (Log.startsElse_append rfl _) _) _)

theorem fire {event : Event} {context : Option Context}
    (hfired : ∀ {s}, I s → I (s.write (.fired event context s.moment))) :
    Upholds I E (e.fire event context) :=
  fun s hs => h.notifyAll s.listeners event context _ (hfired hs)

/-! ## Visits of files -/

theorem parse (context : Context) :
    Gives I E (e.parseMarkup context) fun document =>
      Shown I fun s => e.host.parseMarkup context s.files s.host = .ok document :=
  .consult (h.parsing context) h.parseMarkup

end Calls

theorem showFile (h : Visiting e I E D) {detectors : List Detector}
    (hdetectors : ∀ detector ∈ detectors, Minds D context.kind.categories detector)
    {agenda : Agenda} (hagenda : agenda.Shows context (Minds D context.kind.categories)) :
    Upholds I E (e.showFile detectors context agenda) := by
  refine (h.tell hdetectors (List.Subset.refl _)).bind fun _ => ?_
  refine (Upholds.each agenda fun item hitem => ?_).bind fun _ =>
    h.tell hdetectors (List.Subset.refl _)
  obtain ⟨hvisited, hcalled⟩ := hagenda item hitem
  exact h.tell hcalled (Hook.categories_of_visited hvisited)

theorem visitMarkup (h : Visiting e I E D) {visitor : MarkupVisitor}
    (hvisitor : visitor.Calls (Minds D context.kind.categories))
    (parsed : Option Markup.Document) : Upholds I E (e.visitMarkup visitor context parsed) := by
  have hvisit : ∀ document, Upholds I E
      (do e.visitDocument visitor context document; return some document) := by
    refine fun document => Upholds.bind ?_ fun _ => .pure _
    rw [visitDocument_eq]
    exact h.showFile hvisitor.detectors (hvisitor.shows context document)
  cases parsed with
  | some document => exact hvisit document
  | none =>
    refine (h.parse context).bind fun document _ => ?_
    cases document with
    | none => exact .pure none
    | some document => exact hvisit document

theorem visitSource (h : Visiting e I E D)
    (hvisitor : visitor.Calls (Minds D context.kind.categories)) :
    Upholds I E (e.visitSource visitor context) := by
  refine (Gives.consult (h.reading context) h.parseSource).bind fun unit _ => ?_
  cases unit with
  | none => exact .pure none
  | some unit =>
    refine Upholds.bind ?_ fun _ => .pure _
    rw [visitUnit_eq]
    exact h.showFile hvisitor.detectors (hvisitor.shows context unit)

/-! ## One detector on a file -/

theorem checkWith (h : Visiting e I E D) {hook : Hook}
    (hhook : context.kind.categories ⊆ hook.categories) {detector : Detector}
    (hdetector : Minds D context.kind.categories detector) :
    Upholds I E (e.checkWith context hook detector) := by
  have hask : ∀ hook : Hook, context.kind.categories ⊆ hook.categories →
      Upholds I E (e.ask detector hook) := fun _ => h.ask hdetector
  refine Upholds.bind (.inspect fun s _ => (hask _ (List.Subset.refl _)).bind fun _ => .pure _)
    fun applies => .ite (fun _ => ?_) fun _ => .pure ()
  exact (hask _ (List.Subset.refl _)).bind fun _ => (hask _ hhook).bind fun _ =>
    hask _ (List.Subset.refl _)

end Visiting
end Engine
end ProjectLint
