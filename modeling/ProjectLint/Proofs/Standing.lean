/-
What stands while a run checks the projects that it has found. Code that leaves the files alone
cannot change which files a project has: a manifest adds what it says of the project, a
configuration is looked up, and all else is as the search has left it. So the course of a phase can
be told by the state in which it begins and by what it writes.
-/
import ProjectLint.Proofs.Charts
import ProjectLint.Proofs.Rounds

namespace ProjectLint

def Project.fixed (project : Project) : Project :=
  { project.outline with libraries := project.libraries }

theorem Project.fixed_readManifest (project : Project) (document : Markup.Document) :
    (project.readManifest document).fixed = project.fixed := by
  rw [Project.readManifest]
  repeat' split
  all_goals rfl

namespace State

structure Stands (b s : State σ) : Prop where
  files : s.files = b.files
  registry : s.registry = b.registry
  projects : ∀ i : Nat, s.projects[i]?.map Project.fixed = b.projects[i]?.map Project.fixed

namespace Stands

variable {b s t : State σ}

theorem refl (s : State σ) : Stands s s :=
  ⟨rfl, rfl, fun _ => rfl⟩

theorem trans (h : Stands b s) (h' : Stands s t) : Stands b t :=
  ⟨h'.files.trans h.files, h'.registry.trans h.registry,
    fun i => (h'.projects i).trans (h.projects i)⟩

theorem changed (h : Stands b s) (index : Nat) {change : Project → Project}
    (hchange : ∀ project, (change project).fixed = project.fixed) :
    Stands b (s.changed index change) :=
  ⟨h.files, h.registry, fun i =>
    (map_getElem?_modify s.projects index i hchange).trans (h.projects i)⟩

theorem project (h : Stands b s) (f : Project → α) (hf : ∀ project, f project.fixed = f project)
    (ref : ProjectRef) : f (s.project ref) = f (b.project ref) := by
  have hsame : (s.project ref).fixed = (b.project ref).fixed :=
    project_congr _ (h.projects ref.index)
  rw [← hf, hsame, hf]

end Stands
end State

namespace Engine

open Run Journal

variable {host : Host σ} {t : State σ} {W : State σ → Prop} {D : Scope → Detector → Prop}
  {A : FolderType → Prop}

def Unmoved (W : State σ → Prop) : Prop :=
  ∀ s t more, t.written = s.written ++ more → (∀ entry ∈ more, entry.isIncidental = true) →
    t.memo = s.memo → W s → W t

structure Course (t : State σ) (W : State σ → Prop) (s : State σ) : Prop where
  stands : t.Stands s
  scope : s.scope = t.scope
  selection : s.selection = t.selection
  wrote : W s

namespace Course

variable {s : State σ}

theorem start (h : W s) : Course s W s :=
  ⟨.refl s, rfl, rfl, h⟩

theorem announce (hs : Course t W s) (entry : Entry) {V : State σ → Prop} (h : V (s.write entry)) :
    Course t V (s.write entry) :=
  { hs with stands := { hs.stands with }, wrote := h }

theorem write (hW : Unmoved W) (hs : Course t W s) {entry : Entry}
    (hentry : entry.isIncidental = true) : Course t W (s.write entry) :=
  hs.announce entry <| hW s _ [entry] (State.written_write s entry)
    (List.forall_mem_singleton.2 hentry) rfl hs.wrote

theorem unwritten (hW : Unmoved W) (hs : Course t W s) {u : State σ} (hstands : t.Stands u)
    (hscope : u.scope = s.scope) (hselection : u.selection = s.selection)
    (hwritten : u.written = s.written) (hmemo : u.memo = s.memo) : Course t W u :=
  ⟨hstands, hscope.trans hs.scope, hselection.trans hs.selection,
    hW s u [] (hwritten.trans (List.append_nil _).symm) (List.forall_mem_nil _) hmemo hs.wrote⟩

theorem changed (hW : Unmoved W) (hs : Course t W s) (index : Nat) {change : Project → Project}
    (hchange : ∀ project, (change project).fixed = project.fixed) :
    Course t W (s.changed index change) :=
  hs.unwritten hW (hs.stands.changed index hchange) rfl rfl rfl rfl

theorem requested (hW : Unmoved W) (hs : Course t W s) {schedule : Schedule}
    (hschedule : s.schedule = some schedule) (detector : Detector) (scope : Option ScopeSet) :
    Course t W { s with schedule := some (schedule.request detector scope) } := by
  refine hs.unwritten hW { hs.stands with } rfl ?_ rfl rfl
  rw [State.selection, State.selection, hschedule]
  rfl

section Stages

variable (hhost : host.KeepsTo Action.KeepsFiles) (hW : Unmoved W)

include hhost hW

theorem hears : Hears host (Course t W) Action.KeepsFiles fun _ => True where
  called := fun _ hs => hs.write hW rfl
  logged := fun _ _ hs => hs.write hW rfl
  observed := fun _ _ hs => hs.write hW rfl
  submitted := fun _ _ _ hs => hs.write hW rfl
  requested := fun detector scope schedule s _ hschedule hs => by
    have hwritten : Course t W (s.write (.requested detector scope)) := hs.write hW rfl
    exact hwritten.requested hW hschedule detector scope
  configured := fun _ _ _ _ _ _ hs => hs.changed hW _ fun _ => rfl
  updated := fun _ _ _ hs => hs.unwritten hW { hs.stands with } rfl rfl rfl rfl
  files := fun change _ hmay hs => hs.unwritten hW
    { hs.stands with files := (hmay change rfl _).trans hs.stands.files } rfl rfl rfl rfl
  listeners := fun _ _ hs => hs.unwritten hW { hs.stands with } rfl rfl rfl rfl
  canceled := fun _ hs => hs.unwritten hW { hs.stands with } rfl rfl rfl rfl
  search := fun hs => hs.unwritten hW { hs.stands with } rfl rfl rfl rfl
  heard := fun hs => hs.write hW rfl

theorem works (hD : ∀ {category detector}, t.Serving category detector → D category detector) :
    Works host (Course t W) Action.KeepsFiles (fun _ => True) D where
  toHears := hears hhost hW
  asked := fun _ _ hs => hs.write hW rfl
  serves := fun hs hcovers hs' _ hdetector =>
    hD ⟨hs'.selection ▸ hdetector, hs.scope ▸ hcovers⟩
  read := fun _ document _ hs => hs.changed hW _ fun project => project.fixed_readManifest document

theorem log (opts : Options) (error : Option String) (message : String) (context : Option Context) :
    Keeps (Course t W) ((host.engine opts).log error message context) :=
  Bears.log (hears hhost hW).toBears ((hears hhost hW).serves opts) error message context

theorem tell (opts : Options) (detectors : List Detector) (hook : Hook) :
    Keeps (Course t W) ((host.engine opts).tellUntilCanceled detectors hook) :=
  .eachUntilCanceled detectors fun _ _ _ hs =>
    (hears hhost hW).ask opts (hhost _ _ _) (hs.write hW rfl)

theorem fire (opts : Options) {event : Event} {context : Option Context} {s : State σ}
    {V : State σ → Prop} (hs : Course t V s)
    (h : W (s.write (.fired event context s.moment))) :
    Course t W (endState ((host.engine opts).fire event context s)) :=
  (hears hhost hW).fire opts (hs.announce _ h)

end Stages

theorem libraries (opts : Options) {root : ProjectRef} {refs : List ProjectRef}
    (hrefs : (t.project root).libraries = some refs) (hs : Course t W s) :
    (host.engine opts).libraries root s = .ok refs s := by
  have hknown : (s.project root).libraries = some refs :=
    (hs.stands.project Project.libraries (fun _ => rfl) root).trans hrefs
  rw [Engine.libraries, bind_of_ok (x := getProject root) rfl, hknown]
  rfl

end Course

theorem settles_stands (hhost : host.KeepsTo Action.KeepsFiles) (b : State σ) :
    Settles host b.Stands Action.KeepsFiles fun _ => True where
  configured := fun _ _ _ _ _ _ hs => hs.changed _ fun _ => rfl
  files := fun change _ hmay hs => { hs with files := (hmay change rfl _).trans hs.files }

end Engine
end ProjectLint
