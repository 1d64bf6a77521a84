/-
What looking a project up can do. While the client leaves the files alone, the project of a
directory is the one that is kept for it or a new one, which is what the directory says but for
where it was reached from. So a property that survives calls survives a search if it survives these.
-/
import ProjectLint.Proofs.Links
import ProjectLint.Proofs.References

namespace ProjectLint

/-- An action that changes no file. -/
def Action.KeepsFiles (action : Action) : Prop :=
  ∀ change, action = .changeFiles change → ∀ ws, change ws = ws

/-! ## What a directory says -/

def Project.propertiesOf (ws : Workspace) (dir : String) : Properties :=
  if ws.isFile (Path.join dir Layout.properties) then
    match ws.readText (Path.join dir Layout.properties) with
    | .ok text => Properties.parse text
    | .error _ => []
  else []

/-- The library folders that a project names and that exist. -/
def Workspace.libraryDirs (ws : Workspace) (dir : String) : List String :=
  ((Project.libraryDirsOf dir (Project.propertiesOf ws dir)).filter ws.isFolder).map ws.canonical

def Host.shape (host : Host σ) (ws : Workspace) (dir : String) : Project :=
  (host.overrides dir).apply
    ((Project.ofFolder ws dir "").withProperties (Project.propertiesOf ws dir))

def Project.shownFrom (project : Project) (reference : String) : Project :=
  { project with reference }

theorem Host.shape_dir (host : Host σ) (ws : Workspace) (dir reference : String) :
    ((host.shape ws (ws.canonical dir)).shownFrom reference).dir = ws.canonical dir :=
  Workspace.canonical_canonical ws dir

def Project.core (project : Project) : Project :=
  { project with package := none, minSdk := none, targetSdk := none, configuration := none }

theorem Project.core_congr (f : Project → α) (hf : ∀ project, f project.core = f project)
    {project other : Project} (h : project.core = other.core) : f project = f other :=
  (hf project).symm.trans ((congrArg f h).trans (hf other))

theorem mem_of_lookup [BEq α] [LawfulBEq α] {entries : List (α × β)} {key : α} {value : β}
    (h : entries.lookup key = some value) : (key, value) ∈ entries := by
  obtain ⟨before, after, rfl, -⟩ := List.lookup_eq_some_iff.1 h
  exact List.mem_append_right _ List.mem_cons_self

theorem modify_push (xs : Array α) (a : α) (f : α → α) :
    (xs.push a).modify xs.size f = xs.push (f a) := by
  refine Array.ext_getElem? fun i => ?_
  rw [Array.getElem?_modify, Array.getElem?_push, Array.getElem?_push]
  by_cases hi : xs.size = i
  · rw [if_pos hi, if_pos hi.symm, if_pos hi.symm]
    rfl
  · rw [if_neg hi, if_neg (Ne.symm hi), if_neg (Ne.symm hi)]

namespace State

def SameCore (s s' : State σ) : Prop :=
  ∀ i : Nat, s'.projects[i]?.map Project.core = s.projects[i]?.map Project.core

variable {s s' s'' : State σ} {ref : ProjectRef}

theorem SameCore.getElem? (h : SameCore s s') {i : Nat} {project : Project}
    (hproject : s.projects[i]? = some project) :
    ∃ later, s'.projects[i]? = some later ∧ later.core = project.core := by
  have hi := h i
  rw [hproject, Option.map_some] at hi
  exact Option.map_eq_some_iff.1 hi

theorem SameCore.symm (h : SameCore s s') : SameCore s' s :=
  fun i => (h i).symm

theorem SameCore.made (h : SameCore s s') (hs : s.Made ref) : s'.Made ref := by
  obtain ⟨project, hproject, hdir⟩ := hs
  obtain ⟨later, hlater, hcore⟩ := h.getElem? hproject
  exact ⟨later, hlater, (Project.core_congr Project.dir (fun _ => rfl) hcore).trans hdir⟩

theorem SameCore.project (h : SameCore s s') (ref : ProjectRef) :
    (s'.project ref).core = (s.project ref).core :=
  project_congr _ (h ref.index)

theorem sameCore_changed (s : State σ) (index : Nat) {change : Project → Project}
    (h : ∀ project, (change project).core = project.core) :
    SameCore s (s.changed index change) :=
  fun i => map_getElem?_modify s.projects index i h

structure Spared (s t : State σ) : Prop where
  files : t.files = s.files
  cache : t.cache = s.cache
  projects : s.SameCore t

theorem Spared.refl (s : State σ) : Spared s s :=
  ⟨rfl, rfl, fun _ => rfl⟩

theorem Spared.trans (h : Spared s s') (h' : Spared s' s'') : Spared s s'' :=
  ⟨h'.files.trans h.files, h'.cache.trans h.cache, fun i => (h'.projects i).trans (h.projects i)⟩

end State

/-- The only way in which an operation on these files does not come back. -/
def Workspace.Stalls (ws : Workspace) (fault : Fault) : Prop :=
  fault = .endless ∧ ¬ ws.LinksEnd

theorem Workspace.Stalls.of_endless {ws : Workspace} {path : String}
    (h : ws.linksEnd path = false) : ws.Stalls .endless :=
  ⟨rfl, fun hlinks => Bool.false_ne_true (h.symm.trans (hlinks path))⟩

namespace Run

/-- An operation keeps to an invariant and returns what is asked of it, or ends in a fault of a kind
that is allowed. -/
def Ensures (E : Fault → Prop) (I : State σ → Prop) (Q : α → State σ → Prop) : Outcome σ α → Prop
  | .ok a s => I s ∧ Q a s
  | .error fault s => E fault ∧ I s

namespace Ensures

variable {E : Fault → Prop} {I : State σ → Prop} {Q : α → State σ → Prop} {R : β → State σ → Prop}
  {s : State σ}
variable {r : Outcome σ α}

theorem keeps (h : Ensures E I Q r) : I (endState r) := by
  cases r with
  | ok a t => exact h.1
  | error fault t => exact h.2

theorem of_keeps {x : Run σ α} (h : Keeps I x) (hs : I s) :
    Ensures (fun _ => True) I (fun _ _ => True) (x s) := by
  have hend := h s hs
  cases hx : x s with
  | ok a t =>
    rw [hx] at hend
    exact ⟨hend, trivial⟩
  | error fault t =>
    rw [hx] at hend
    exact ⟨trivial, hend⟩

theorem bind {x : Run σ α} {f : α → Run σ β} {J : State σ → Prop} (hx : Ensures E I Q (x s))
    (herror : ∀ t, I t → J t) (hf : ∀ a t, x s = .ok a t → I t → Q a t → Ensures E J R (f a t)) :
    Ensures E J R ((x >>= f) s) := by
  cases hrun : x s with
  | ok a t =>
    rw [hrun] at hx
    rw [bind_of_ok hrun]
    exact hf a t hrun hx.1 hx.2
  | error fault t =>
    rw [hrun] at hx
    rw [bind_of_error hrun]
    exact ⟨hx.1, herror t hx.2⟩

theorem and {E' : Fault → Prop} {I' : State σ → Prop} {Q' : α → State σ → Prop}
    (h : Ensures E I Q r) (h' : Ensures E' I' Q' r) :
    Ensures (fun fault => E fault ∧ E' fault) (fun s => I s ∧ I' s)
      (fun a s => Q a s ∧ Q' a s) r := by
  cases r with
  | ok a t => exact ⟨⟨h.1, h'.1⟩, h.2, h'.2⟩
  | error fault t => exact ⟨⟨h.1, h'.1⟩, h.2, h'.2⟩

theorem mono {E' : Fault → Prop} {I' : State σ → Prop} {Q' : α → State σ → Prop}
    (h : Ensures E I Q r) (hE : ∀ fault, E fault → E' fault)
    (hI : ∀ s, I s → I' s) (hQ : ∀ a s, Q a s → Q' a s) : Ensures E' I' Q' r := by
  cases r with
  | ok a t => exact ⟨hI t h.1, hQ a t h.2⟩
  | error fault t => exact ⟨hE fault h.1, hI t h.2⟩

theorem returns (h : Ensures (fun _ => False) I Q r) : ∃ a t, r = .ok a t ∧ I t ∧ Q a t := by
  cases r with
  | ok a t => exact ⟨a, t, rfl, h⟩
  | error fault t => exact h.1.elim

theorem returns_of_linksEnd {ws : Workspace} (h : Ensures ws.Stalls I Q r) (hlinks : ws.LinksEnd) :
    ∃ a t, r = .ok a t ∧ I t ∧ Q a t :=
  (h.mono (fun _ hstalls => hstalls.2 hlinks) (fun _ => id) fun _ _ => id).returns

theorem returns_or_stalls {ws : Workspace} (h : Ensures ws.Stalls I (fun _ _ => True) r) :
    (∃ a t, r = .ok a t ∧ I t) ∨ ¬ ws.LinksEnd ∧ ∃ t, r = .error .endless t := by
  cases r with
  | ok a t => exact .inl ⟨a, t, rfl, h.1⟩
  | error fault t =>
    obtain ⟨⟨rfl, hendless⟩, -⟩ := h
    exact .inr ⟨hendless, t, rfl⟩

end Ensures
end Run

namespace Engine

open Run State

variable {host : Host σ} {opts : Options} {ws : Workspace} {E : Fault → Prop} {s : State σ}
variable {A : State σ → State σ → Prop} {I : State σ → Prop}

/-! ## Calls -/

/-- What a search asks the client and tells it leaves files and projects as they are, and fails only
with faults of a certain kind. -/
structure Careful (host : Host σ) (opts : Options) (ws : Workspace) (E : Fault → Prop)
    (A : State σ → State σ → Prop) : Prop where
  refl : ∀ s, A s s
  trans : ∀ {s t u}, A s t → A t u → A s u
  spared : ∀ {s t}, A s t → Spared s t
  noted : ∀ entry s, A s (s.write (.logged entry))
  asked : ∀ dir reference {s}, s.files = ws → Ensures E (A s) (fun _ _ => True)
    ((host.engine opts).invoke (.getProject dir reference) s)
  told : ∀ error message {s}, s.files = ws → Ensures E (A s) (fun _ _ => True)
    ((host.engine opts).invoke (.log error message none) s)

theorem bears_files (hhost : host.KeepsTo Action.KeepsFiles) (ws : Workspace) :
    Bears host (·.files = ws) Action.KeepsFiles fun _ => True where
  files := fun change _ hmay h => (hmay change rfl _).trans h

theorem bears_sameCore (host : Host σ) (s : State σ) :
    Bears host (fun t => t.cache = s.cache ∧ s.SameCore t) (fun _ => True) fun _ => True where
  configured := fun ref _ _ t _ _ h =>
    ⟨h.1, fun i => (sameCore_changed t ref.index (fun _ => by rfl) i).trans (h.2 i)⟩

theorem spared_call {call : Call} (hcall : call.isClient = true) (hs : s.files = ws)
    (h : Ensures E (·.files = ws) (fun _ _ => True) ((host.engine opts).invoke call s)) :
    Ensures E (Spared s) (fun _ _ => True) ((host.engine opts).invoke call s) := by
  have hkept : Ensures (fun _ => True) (fun t => t.cache = s.cache ∧ s.SameCore t) (fun _ _ => True)
      ((host.engine opts).invoke call s) :=
    .of_keeps ((bears_sameCore host s).serves opts hcall) ⟨rfl, fun _ => rfl⟩
  exact (h.and hkept).mono (fun _ => And.left) (fun t ht => ⟨ht.1.trans hs.symm, ht.2.1, ht.2.2⟩)
    fun _ _ _ => trivial

theorem Careful.of_files
    (hasked : ∀ dir reference {s : State σ}, s.files = ws → Ensures E (·.files = ws)
      (fun _ _ => True) ((host.engine opts).invoke (.getProject dir reference) s))
    (htold : ∀ error message {s : State σ}, s.files = ws → Ensures E (·.files = ws)
      (fun _ _ => True) ((host.engine opts).invoke (.log error message none) s)) :
    Careful host opts ws E Spared where
  refl := .refl
  trans := .trans
  spared := id
  noted := fun _ s => { Spared.refl s with }
  asked := fun dir reference _ hs => spared_call rfl hs (hasked dir reference hs)
  told := fun error message _ hs => spared_call rfl hs (htold error message hs)

theorem Careful.of_within (hhost : host.KeepsTo Action.KeepsFiles)
    (opts : Options) (ws : Workspace) : Careful host opts ws (fun _ => True) Spared :=
  .of_files (fun _ _ => .of_keeps ((bears_files hhost ws).serves opts rfl))
    fun _ _ => .of_keeps ((bears_files hhost ws).serves opts rfl)

theorem Careful.lenient (h : Careful host opts ws E A) : Careful host opts ws (fun _ => True) A :=
  { h with
    asked := fun dir reference _ hs =>
      (h.asked dir reference hs).mono (fun _ _ => trivial) (fun _ => id) fun _ _ => id
    told := fun error message _ hs =>
      (h.told error message hs).mono (fun _ _ => trivial) (fun _ => id) fun _ _ => id }

section Search

variable {A : State σ → State σ → Prop} (hhost : Careful host opts ws E A) (hs : s.files = ws)

include hhost hs

theorem Careful.log (error : Option String) (message : String) :
    Ensures E (A s) (fun _ _ => True) ((host.engine opts).log error message none s) := by
  rw [Engine.log]
  by_cases hplain : (host.engine opts).host.logsPlainly = true
  · rw [if_pos hplain]
    exact ⟨hhost.noted _ s, trivial⟩
  · rw [if_neg hplain]
    exact hhost.told error message hs

theorem Careful.readProperties (dir : String) :
    Ensures E (A s) (fun properties _ => properties = Project.propertiesOf ws dir)
      ((host.engine opts).readProperties dir s) := by
  rw [Engine.readProperties, get_bind, Project.propertiesOf, hs]
  cases ws.isFile (Path.join dir Layout.properties) with
  | false => exact ⟨hhost.refl s, rfl⟩
  | true =>
    rw [if_pos rfl, if_pos rfl]
    cases ws.readText (Path.join dir Layout.properties) with
    | ok text => exact ⟨hhost.refl s, rfl⟩
    | error fault =>
      exact (hhost.log hs _ _).bind (fun _ => id) fun _ _ _ ht _ => ⟨ht, rfl⟩

/-! ## Projects of directories -/

theorem Careful.makeProject {dir : String} (hends : ws.linksEnd dir = true) (reference : String) :
    (∃ t, A s t ∧ (host.engine opts).makeProject dir reference s =
      .ok ⟨t.projects.size, ws.canonical dir⟩ (t.extended
        ((Project.ofFolder ws (ws.canonical dir) reference).withProperties
          (Project.propertiesOf ws (ws.canonical dir))))) ∨
    ∃ fault t, E fault ∧ A s t ∧
      (host.engine opts).makeProject dir reference s = .error fault t := by
  have hfolder : Project.ofFolder ws (ws.canonical dir) reference =
      Project.ofFolder ws dir reference := by
    simp only [Project.ofFolder, Workspace.canonical_canonical]
  have hmake : (host.engine opts).makeProject dir reference s =
      ((host.engine opts).readProperties (ws.canonical dir) >>= fun properties =>
        addProject ((Project.ofFolder ws dir reference).withProperties properties)) s := by
    rw [Engine.makeProject, bind_of_ok (followLinks_of_end (hs ▸ hends)), get_bind, hs]
    rfl
  have hread := hhost.readProperties hs (ws.canonical dir)
  rw [hmake, hfolder]
  cases hrun : (host.engine opts).readProperties (ws.canonical dir) s with
  | ok properties t =>
    rw [hrun] at hread
    obtain ⟨ht, rfl⟩ := hread
    exact .inl ⟨t, ht, by rw [bind_of_ok hrun]; rfl⟩
  | error fault t =>
    rw [hrun] at hread
    exact .inr ⟨fault, t, hread.1, hread.2, bind_of_error hrun⟩

end Search

inductive Provided (host : Host σ) (ws : Workspace) (dir : String) (s : State σ) :
    ProjectRef → State σ → Prop
  | known {ref : ProjectRef} : s.cache.lookup (ws.canonical dir) = some ref →
    Provided host ws dir s ref (s.changed ref.index (host.overrides ref.dir).apply)
  | kept (reference : String) : s.cache.lookup (ws.canonical dir) = none →
    Provided host ws dir s ⟨s.projects.size, ws.canonical dir⟩
      { s with
        projects := s.projects.push ((host.shape ws (ws.canonical dir)).shownFrom reference)
        cache := s.cache ++ [(ws.canonical dir, ⟨s.projects.size, ws.canonical dir⟩)] }
  | lent (reference : String) : host.keepsProjects = false →
    Provided host ws dir s ⟨s.projects.size, ws.canonical dir⟩
      (s.extended ((host.shape ws (ws.canonical dir)).shownFrom reference))

/-- Looking a project up ends in a fault of the client, or never, where links do not end. -/
theorem Careful.projectAt (hhost : Careful host opts ws E A)
    (hs : s.files = ws) {dir : String} {Q : ProjectRef → State σ → Prop}
    (hendless : ws.linksEnd dir = false → E .endless) (hspared : ∀ t, A s t → I t)
    (hprovided : ∀ t ref t', A s t → Provided host ws dir t ref t' → I t' ∧ Q ref t')
    (reference : String) : Ensures E I Q ((host.engine opts).projectAt dir reference s) := by
  have hput : ∀ t : State σ,
      t.projects.push ((host.shape ws (ws.canonical dir)).shownFrom reference) =
        (t.projects.push ((Project.ofFolder ws (ws.canonical dir) reference).withProperties
            (Project.propertiesOf ws (ws.canonical dir)))).modify t.projects.size
          (host.overrides (ws.canonical dir)).apply := by
    intro t
    rw [modify_push]
    rfl
  rw [Engine.projectAt]
  refine (hhost.asked dir reference hs).bind hspared fun _ t _ ht _ => ?_
  have hfiles := (hhost.spared ht).files.trans hs
  cases hends : ws.linksEnd dir with
  | false =>
    have hstop : followLinks dir t = .error .endless t :=
      followLinks_of_endless (by rw [hfiles, hends])
    by_cases hkeeps : (host.engine opts).host.keepsProjects = true
    · rw [if_pos hkeeps, get_bind, bind_of_error (x := Engine.cachedProject _ _ _ _)
        (bind_of_error hstop)]
      exact ⟨hendless hends, hspared t ht⟩
    · rw [if_neg hkeeps, bind_of_error (x := Engine.makeProject _ _ _) (bind_of_error hstop)]
      exact ⟨hendless hends, hspared t ht⟩
  | true =>
    cases hkeeps : (host.engine opts).host.keepsProjects with
    | false =>
      rw [if_neg Bool.false_ne_true]
      rcases hhost.makeProject hfiles hends reference with
        ⟨u, hu, hmake⟩ | ⟨fault, u, hE, hu, hmake⟩
      · have hnew := hprovided u _ _ (hhost.trans ht hu) (.lent reference hkeeps)
        rw [State.extended, hput] at hnew
        rw [bind_of_ok hmake]
        exact hnew
      · rw [bind_of_error hmake]
        exact ⟨hE, hspared u (hhost.trans ht hu)⟩
    | true =>
      rw [if_pos rfl, get_bind]
      have hfollow : t.files.linksEnd dir = true := by rw [hfiles, hends]
      cases hkey : t.cache.lookup (t.files.canonical dir) with
      | some known =>
        rw [bind_of_ok (cachedProject_of_kept _ reference hfollow hkey)]
        rw [hfiles] at hkey
        exact hprovided t known _ ht (.known hkey)
      | none =>
        have hmake := hhost.makeProject hfiles ((ws.linksEnd_canonical dir).trans hends) reference
        rw [Workspace.canonical_canonical] at hmake
        rcases hmake with ⟨u, hu, hmake⟩ | ⟨fault, u, hE, hu, hmake⟩
        · have hlookup : u.cache.lookup (ws.canonical dir) = none := by
            rw [(hhost.spared hu).cache, ← hfiles, hkey]
          have hnew := hprovided u _ _ (hhost.trans ht hu) (.kept reference hlookup)
          rw [hput, (hhost.spared hu).cache] at hnew
          rw [← hfiles] at hmake
          rw [bind_of_ok (cachedProject_of_none hfollow hkey hmake), hfiles]
          exact hnew
        · have hcached : (host.engine opts).cachedProject t.cache dir reference t =
              .error fault u := by
            rw [cachedProject, bind_of_ok (followLinks_of_end hfollow), get_bind, hkey, hfiles]
            exact bind_of_error hmake
          rw [bind_of_error hcached]
          exact ⟨hE, hspared u (hhost.trans ht hu)⟩

theorem Careful.lookUpLibraries (hhost : Careful host opts ws E A) {P : String → ProjectRef → Prop}
    (hfiles : ∀ {t}, I t → t.files = ws) (hspared : ∀ {t u}, I t → A t u → I u) (dir : String)
    {dirs : List String} (hat : ∀ library ∈ dirs, ws.isFolder library = true → ∀ {t}, I t →
      Ensures E I (fun ref u => P library ref ∧ u.Made ref)
        ((host.engine opts).projectAt library library t)) (hs : I s) :
    Ensures E I (fun refs t => List.Forall₂ P (dirs.filter ws.isFolder) refs ∧
        ∀ ref ∈ refs, t.Made ref) ((host.engine opts).lookUpLibraries dir dirs s) := by
  induction dirs generalizing s with
  | nil => exact ⟨hs, .nil, List.forall_mem_nil _⟩
  | cons library rest ih =>
    obtain ⟨hfirst, hrest⟩ := List.forall_mem_cons.1 hat
    rw [Engine.lookUpLibraries, get_bind, hfiles hs]
    cases hfolder : ws.isFolder library with
    | true =>
      rw [if_pos rfl, List.filter_cons_of_pos hfolder]
      refine (hfirst hfolder hs).bind (fun _ => id) fun ref t _ ht href => ?_
      refine (ih hrest ht).bind (fun _ => id) fun refs u hrun hu hrefs => ?_
      have hlater := (frames_of_finds host fun h =>
        ((h.searches opts).lookUpLibraries dir rest).keeps).ok hrun
      exact ⟨hu, .cons href.1 hrefs.1, List.forall_mem_cons.2 ⟨href.2.later hlater, hrefs.2⟩⟩
    | false =>
      rw [if_neg Bool.false_ne_true, List.filter_cons_of_neg (by simp [hfolder])]
      exact (hhost.log (hfiles hs) none _).bind (fun _ => hspared hs)
        fun _ t _ ht _ => ih hrest (hspared hs ht)

theorem Careful.libraries (hhost : Careful host opts ws E A) {P : String → ProjectRef → Prop}
    (hfiles : ∀ {t}, I t → t.files = ws)
    (hspared : ∀ {t u}, I t → A t u → I u)
    (hat : ∀ library {t}, I t → Ensures E I (fun ref u => P library ref ∧ u.Made ref)
      ((host.engine opts).projectAt library library t)) (ref : ProjectRef) (hs : I s)
    (hlinked : ∀ refs t, I t → List.Forall₂ P ((s.project ref).libraryDirs.filter
      ws.isFolder) refs →
      (∀ other ∈ refs, t.Made other) → (host.engine opts).lookUpLibraries (s.project ref).dir
        (s.project ref).libraryDirs s = .ok refs t →
      I (t.changed ref.index ({ · with libraries := some refs }))) :
    I (endState ((host.engine opts).libraries ref s)) := by
  rw [Engine.libraries, bind_of_ok (x := getProject ref) rfl]
  cases (s.project ref).libraries with
  | some known => exact hs
  | none =>
    have hlook := hhost.lookUpLibraries hfiles hspared (s.project ref).dir
      (fun library (_ : library ∈ (s.project ref).libraryDirs) _ _ => hat library) hs
    refine Ensures.keeps (hlook.bind (R := fun _ _ => True) (fun _ => id)
      fun refs t hrun ht hrefs => ⟨?_, trivial⟩)
    exact hlinked refs t ht hrefs.1 hrefs.2 hrun

end Engine
end ProjectLint
