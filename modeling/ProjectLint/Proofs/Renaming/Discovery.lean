/-
The search for projects, followed in two runs at once. The runs may differ in the files that earlier
runs pointed at: the search looks at directories and references only, and forgets what was pointed
at before it points anew. It looks at a stop before each folder and after each path; a run that
stops there finds nothing and leaves all else undone.
-/
import ProjectLint.Proofs.Renaming

namespace ProjectLint

variable {stopped : State σ → Bool}

theorem Project.eq_of_resetSubset (f : Project → α) (hf : ∀ p, f p.resetSubset = f p)
    {p q : Project} (h : p.resetSubset = q.resetSubset) : f p = f q :=
  (hf p).symm.trans ((congrArg f h).trans (hf q))

namespace Discovery

open Run

def settle (e : Engine σ) (paths : List String) (found : Found) : Run σ (List ProjectRef) := do
  let projects := distinct (found.map Prod.snd)
  resetSubsets e projects
  pointAt found
  let libraries ← librariesOf e projects
  let roots := projects.filter fun ref => !libraries.contains ref
  checkDistinct e roots
  note .debug ("[ProjectResolver] Resolved " ++ toString roots.length ++ " root projects")
    [("paths", .ofNat paths.length), ("discovered", .ofNat projects.length)]
  return roots

/-- The search of the given paths has found these projects. -/
abbrev Gathers (e : Engine σ) (stopped : State σ → Bool) (paths : List String) (s : State σ)
    (found : Found) (t : State σ) : Prop :=
  addPaths e stopped (paths.map (Path.resolve s.files.cwd))
    (paths.map (Path.resolve s.files.cwd)) [] s = .ok (some found) t

theorem resolve_of_found {e : Engine σ} {paths : List String} {found : Found} {s t : State σ}
    (h : Gathers e stopped paths s found t) :
    resolve e stopped paths s = settle e paths found t := by
  rw [resolve, get_bind, bind_of_ok h]
  rfl

theorem carry_searchBelow_of_stopped (e : Engine σ) (reference : String)
    (fuel : Nat) (dirs : List String) (found : Found) {s : State σ} (hs : stopped s = true) :
    carry dirs found (searchBelow e stopped reference (fuel + 1)) s = .ok found s := by
  induction dirs with
  | nil => rfl
  | cons dir rest ih =>
    have hdir : searchBelow e stopped reference (fuel + 1) dir found s = .ok found s := by
      rw [searchBelow, get_bind, if_pos hs]
      rfl
    rw [carry, bind_of_ok hdir]
    exact ih

end Discovery

namespace Engine

open Run

variable {e e' : Engine σ}

theorem followLinks_of_end {path : String} {s : State σ} (h : s.files.linksEnd path = true) :
    followLinks path s = .ok () s := by
  rw [followLinks, get_bind, if_pos h]
  rfl

theorem followLinks_of_endless {path : String} {s : State σ} (h : s.files.linksEnd path = false) :
    followLinks path s = .error .endless s := by
  rw [followLinks, get_bind, h]
  rfl

theorem followLinks_bind_eq_ok {path : String} {f : Unit → Run σ α} {s t : State σ} {a : α}
    (h : (followLinks path >>= f) s = .ok a t) :
    s.files.linksEnd path = true ∧ f () s = .ok a t := by
  cases hends : s.files.linksEnd path with
  | false =>
    rw [bind_of_error (followLinks_of_endless hends)] at h
    cases h
  | true =>
    rw [bind_of_ok (followLinks_of_end hends)] at h
    exact ⟨rfl, h⟩

theorem respects_followLinks {ρ : State σ → State σ → Prop}
    (hfiles : ∀ {s t}, ρ s t → s.files = t.files) (path : String) :
    Respects ρ (followLinks path) := by
  refine .read fun s t hst => ?_
  rw [hfiles hst]
  exact .ite Iff.rfl (.pure rfl) (.throw .endless)

/-! ## The projects of given paths -/

structure Probes (e e' : Engine σ) (ρ : State σ → State σ → Prop) : Prop where
  options : e'.options = e.options
  files : ∀ {s t}, ρ s t → s.files = t.files
  depth : ∀ {s t}, ρ s t → e.referenceDepth s = e'.referenceDepth t
  noted : ∀ {entry : Log.Entry} {s t}, entry.level = .debug → ρ s t →
    ρ (s.write (.logged entry)) (t.write (.logged entry))
  projectAt : ∀ dir reference, Mirrors ρ Eq (e.projectAt dir reference) (e'.projectAt dir reference)
  libraries : ∀ ref, Mirrors ρ Eq (e.libraries ref) (e'.libraries ref)
  reset : ∀ index {s t}, ρ s t →
    ρ (s.changed index Project.resetSubset) (t.changed index Project.resetSubset)

structure Resolves (e e' : Engine σ) (ρ : State σ → State σ → Prop) : Prop
    extends Probes e e' ρ where
  pointed : ∀ index path {s t}, ρ s t →
    ρ (s.changed index (·.addFile path)) (t.changed index (·.addFile path))

namespace Probes

section Alone

variable {ρ : State σ → State σ → Prop} (h : Probes e e' ρ)

include h

theorem closeOver (fuel : Nat) : ∀ (ref : ProjectRef) (seen : List ProjectRef),
    Mirrors ρ Eq (e.closeOver fuel ref seen) (e'.closeOver fuel ref seen) := by
  induction fuel with
  | zero => exact fun _ _ => .throw _
  | succ fuel ih =>
    intro ref seen
    refine (h.libraries ref).andThen fun refs => .carry_same refs seen fun library seen => ?_
    exact .ite Iff.rfl (.pure rfl) (ih library _)

theorem allLibraries (ref : ProjectRef) :
    Mirrors ρ Eq (e.allLibraries ref) (e'.allLibraries ref) := by
  refine .read fun s t hst => ?_
  rw [h.depth hst]
  exact (h.closeOver _ ref [ref]).andThen fun seen => .pure rfl

theorem resetSubsets (refs : List ProjectRef) :
    Mirrors ρ Eq (Discovery.resetSubsets e refs) (Discovery.resetSubsets e' refs) := by
  refine .each_same refs fun ref => Mirrors.andThen (.modify (h.reset _)) fun _ => ?_
  exact (h.allLibraries ref).andThen fun libraries =>
    .each_same libraries fun library => .modify (h.reset _)

theorem register (found : Discovery.Found) (path dir reference : String) :
    Mirrors ρ Eq (Discovery.register e found path dir reference)
      (Discovery.register e' found path dir reference) :=
  (h.projectAt dir reference).andThen fun _ => .pure rfl

theorem addFile (path : String) (found : Discovery.Found) :
    Mirrors ρ Eq (Discovery.addFile e path found) (Discovery.addFile e' path found) := by
  refine .read fun s t hst => ?_
  rw [h.files hst]
  cases Discovery.projectAmong? t.files (Discovery.ancestors path) with
  | some above => exact h.register found path above above
  | none => exact Mirrors.andThen (.modify (h.noted rfl)) fun _ => .pure rfl

theorem librariesOf (refs : List ProjectRef) :
    Mirrors ρ Eq (Discovery.librariesOf e refs) (Discovery.librariesOf e' refs) := by
  induction refs with
  | nil => exact .pure rfl
  | cons ref rest ih =>
    rw [Discovery.librariesOf, Discovery.librariesOf]
    exact (h.allLibraries ref).andThen fun libraries => ih.andThen fun others => .pure rfl

theorem withLibraries (refs : List ProjectRef) :
    Mirrors ρ Eq (Discovery.withLibraries e refs) (Discovery.withLibraries e' refs) := by
  induction refs with
  | nil => exact .pure rfl
  | cons ref rest ih =>
    rw [Discovery.withLibraries, Discovery.withLibraries]
    exact (h.allLibraries ref).andThen fun libraries => ih.andThen fun others => .pure rfl

theorem checkDistinct (roots : List ProjectRef) :
    Mirrors ρ Eq (Discovery.checkDistinct e roots) (Discovery.checkDistinct e' roots) := by
  rw [Discovery.checkDistinct, Discovery.checkDistinct, h.options]
  refine .ite Iff.rfl ((h.withLibraries roots).andThen fun refs => ?_) (.pure rfl)
  cases Discovery.clash? refs with
  | some ref => exact .throw _
  | none => exact .pure rfl

end Alone

section Stopping

variable {ι : Type} {ρ κ : ι → State σ → State σ → Prop} {stopped : State σ → Bool}
  (h : ∀ i, Probes e e' (ρ i)) (hκ : Halting ρ κ stopped)

include h hκ

theorem searchBelow (reference : String) (fuel : Nat) : ∀ dir found,
    Cuts ρ κ (fun _ => True) (Discovery.searchBelow e stopped reference fuel dir found)
      (Discovery.searchBelow e' stopped reference fuel dir found) := by
  induction fuel with
  | zero => exact fun _ _ => Mirrors.cuts fun _ => .throw _
  | succ fuel ih =>
    -- The folders of a folder: without fuel both searches fail at the first one.
    have hcarry : ∀ dirs found, Cuts ρ κ (fun _ => True)
        (carry dirs found (Discovery.searchBelow e stopped reference fuel))
        (carry dirs found (Discovery.searchBelow e' stopped reference fuel)) := by
      intro dirs
      cases fuel with
      | zero =>
        exact fun found => Mirrors.cuts fun _ => .carry_same dirs found fun _ _ => .throw _
      | succ fuel =>
        induction dirs with
        | nil => exact fun found => .pure found
        | cons dir rest hrest =>
          intro found
          rw [carry, carry]
          refine (ih dir found).bind hκ hrest fun found' s _ hs => ⟨found', ?_, trivial⟩
          exact Discovery.carry_searchBelow_of_stopped e reference fuel rest found' hs
    intro dir found
    rw [Discovery.searchBelow, Discovery.searchBelow]
    refine .unlessStopped hκ trivial (.read fun i s t hst => ?_)
    rw [(h i).files hst]
    refine .ite Iff.rfl (Mirrors.cuts fun i => ?_) (hcarry _ found)
    exact (h i).register found dir dir reference

theorem addFolder (dir reference : String) (found : Discovery.Found) :
    Cuts ρ κ (fun _ => True) (Discovery.addFolder e stopped dir reference found)
      (Discovery.addFolder e' stopped dir reference found) := by
  refine .read fun i s t hst => ?_
  rw [(h i).files hst]
  refine .ite Iff.rfl (Mirrors.cuts fun i => (h i).register found dir dir reference) ?_
  cases Discovery.projectAmong? t.files ((Discovery.ancestors dir).take 2) with
  | some above => exact Mirrors.cuts fun i => (h i).register found dir above above
  | none =>
    refine .read fun i u v huv => ?_
    rw [Discovery.searchDepth, Discovery.searchDepth, (h i).files huv]
    exact searchBelow h hκ reference _ dir found

theorem addPaths (all paths : List String) : ∀ found,
    Cuts ρ κ (· = none) (Discovery.addPaths e stopped all paths found)
      (Discovery.addPaths e' stopped all paths found) := by
  induction paths with
  | nil => exact fun found => .pure _
  | cons path rest ih =>
    intro found
    have hnext : ∀ found : Discovery.Found, Cuts ρ κ (· = none)
        (get >>= fun s => if stopped s then pure none
          else Discovery.addPaths e stopped all rest found)
        (get >>= fun s => if stopped s then pure none
          else Discovery.addPaths e' stopped all rest found) :=
      fun found => .unlessStopped hκ rfl (ih found)
    have hidle : ∀ (found : Discovery.Found) s, True → stopped s = true →
        ∃ b, (get >>= fun s => if stopped s then pure none
          else Discovery.addPaths e stopped all rest found) s = .ok b s ∧ b = none := by
      intro found s _ hs
      refine ⟨none, ?_, rfl⟩
      rw [get_bind, if_pos hs]
      rfl
    rw [Discovery.addPaths, Discovery.addPaths]
    refine .read fun i s t hst => ?_
    rw [(h i).files hst]
    refine .ite Iff.rfl ((addFolder h hκ path _ found).bind hκ hnext hidle) ?_
    refine Mirrors.bind_cuts (fun i => (h i).addFile path found) ?_
    rintro found _ rfl
    exact hnext found

end Stopping
end Probes

namespace Resolves

theorem pointAt {ρ : State σ → State σ → Prop} (h : Resolves e e' ρ) (found : Discovery.Found) :
    Respects ρ (Discovery.pointAt found) := by
  refine .each_same found fun entry => ?_
  have hfollow : Respects ρ (Discovery.followFolder entry.1 entry.2) := by
    refine .read fun s t hst => ?_
    rw [h.files hst]
    exact .ite Iff.rfl (respects_followLinks h.files _) (.pure rfl)
  refine Mirrors.andThen hfollow fun _ => .read fun s t hst => ?_
  rw [h.files hst]
  exact .ite Iff.rfl (.pure rfl) (.modify (h.pointed _ _))

theorem settle {ρ : State σ → State σ → Prop} (h : Resolves e e' ρ) (paths : List String)
    (found : Discovery.Found) :
    Mirrors ρ Eq (Discovery.settle e paths found) (Discovery.settle e' paths found) := by
  refine (h.resetSubsets _).andThen fun _ => (h.pointAt found).andThen fun _ => ?_
  refine (h.librariesOf _).andThen fun libraries => (h.checkDistinct _).andThen fun _ => ?_
  exact Mirrors.andThen (.modify (h.noted rfl)) fun _ => .pure rfl

theorem resolve {ι : Type} {ρ κ : ι → State σ → State σ → Prop}
    (h : ∀ i, Resolves e e' (ρ i)) (hκ : Halting ρ κ stopped) (paths : List String) :
    Cuts ρ κ (· = []) (Discovery.resolve e stopped paths) (Discovery.resolve e' stopped paths) := by
  refine .read fun i s t hst => ?_
  rw [(h i).files hst]
  refine (Probes.addPaths (fun i => (h i).toProbes) hκ _ _ []).bind hκ (fun found => ?_) ?_
  · cases found with
    | none => exact .pure []
    | some found => exact Mirrors.cuts fun i => (h i).settle paths found
  · rintro _ s rfl _
    exact ⟨[], rfl, rfl⟩

end Resolves

/-! ## Looking projects up -/

/-- A relation that looking projects up cannot break. The libraries of a project are written down
once: an earlier moment of the run knew none. -/
structure Searches (e e' : Engine σ) (ρ : State σ → State σ → Prop) : Prop
    extends Kin e e' where
  files : ∀ {s t}, ρ s t → s.files = t.files
  cache : ∀ {s t}, ρ s t → s.cache = t.cache
  size : ∀ {s t}, ρ s t → s.projects.size = t.projects.size
  project : ∀ ref {s t}, ρ s t → (s.project ref).resetSubset = (t.project ref).resetSubset
  noted : ∀ entry {s t}, ρ s t → ρ (s.write (.logged entry)) (t.write (.logged entry))
  getProject : ∀ dir reference,
    Mirrors ρ Eq (e.invoke (.getProject dir reference)) (e'.invoke (.getProject dir reference))
  unreadable : ∀ (fault : Files.ReadFault) path,
    Mirrors ρ Eq (e.log (some (fault.message path)) ("Could not read " ++ path))
      (e'.log (some (fault.message path)) ("Could not read " ++ path))
  missing : ∀ library dir,
    Mirrors ρ Eq
      (e.log none ("Library project " ++ library ++ " referenced from " ++ dir ++
        " does not exist"))
      (e'.log none
        ("Library project " ++ library ++ " referenced from " ++ dir ++ " does not exist"))
  added : ∀ project {s t}, project.subset = none → project.libraries = none → ρ s t →
    ρ (s.extended project) (t.extended project)
  cached : ∀ cache {s t}, ρ s t → ρ { s with cache } { t with cache }
  overridden : ∀ index (overrides : FolderOverrides) {s t}, ρ s t →
    ρ (s.changed index overrides.apply) (t.changed index overrides.apply)
  linked : ∀ (ref : ProjectRef) refs {s₀ t₀ s t}, ρ s₀ t₀ → (t₀.project ref).libraries = none →
    ρ s t →
    ρ (s.changed ref.index ({ · with libraries := some refs }))
      (t.changed ref.index ({ · with libraries := some refs }))
  reset : ∀ index {s t}, ρ s t →
    ρ (s.changed index Project.resetSubset) (t.changed index Project.resetSubset)

namespace Searches

variable {ρ : State σ → State σ → Prop} (h : Searches e e' ρ)

include h

theorem readProperties (dir : String) :
    Mirrors ρ Eq (e.readProperties dir) (e'.readProperties dir) := by
  refine .read fun s t hst => ?_
  rw [h.files hst]
  refine .ite Iff.rfl ?_ (.pure rfl)
  cases t.files.readText (Path.join dir Layout.properties) with
  | ok text => exact .pure rfl
  | error fault => exact (h.unreadable fault _).andThen fun _ => .pure rfl

theorem makeProject (dir reference : String) :
    Mirrors ρ Eq (e.makeProject dir reference) (e'.makeProject dir reference) := by
  refine Mirrors.andThen (respects_followLinks h.files dir) fun _ => .read fun s t hst => ?_
  rw [h.files hst]
  refine (h.readProperties _).andThen fun properties => .read fun u v huv => ?_
  rw [h.size huv]
  exact fun _ _ _ => .ok rfl (h.added _ rfl rfl huv)

theorem cachedProject (cache : List (String × ProjectRef)) (dir reference : String) :
    Mirrors ρ Eq (e.cachedProject cache dir reference) (e'.cachedProject cache dir reference) := by
  refine Mirrors.andThen (respects_followLinks h.files dir) fun _ => .read fun s t hst => ?_
  rw [h.files hst]
  dsimp only
  cases cache.lookup (t.files.canonical dir) with
  | some ref => exact .pure rfl
  | none => exact (h.makeProject _ reference).andThen fun ref => .pure rfl

theorem projectAt (dir reference : String) :
    Mirrors ρ Eq (e.projectAt dir reference) (e'.projectAt dir reference) := by
  have hfinish : ∀ ref : ProjectRef, Respects ρ
    (do changeProject ref (e.host.overrides ref.dir).apply; return ref : Run σ ProjectRef) :=
    fun ref => Mirrors.andThen (.modify (h.overridden _ _)) fun _ => .pure rfl
  rw [Engine.projectAt, Engine.projectAt, h.answer Host.keepsProjects fun _ _ => rfl,
    h.answer Host.overrides fun _ _ => rfl]
  refine (h.getProject dir reference).andThen fun _ => .ite Iff.rfl (.read fun s t hst => ?_) ?_
  · rw [h.cache hst]
    refine (h.cachedProject _ dir reference).andThen fun found => ?_
    exact Mirrors.andThen (.modify (h.cached found.2)) fun _ => hfinish found.1
  · exact (h.makeProject dir reference).andThen hfinish

theorem lookUpLibraries (dir : String) (dirs : List String) :
    Mirrors ρ Eq (e.lookUpLibraries dir dirs) (e'.lookUpLibraries dir dirs) := by
  induction dirs with
  | nil => exact .pure rfl
  | cons library rest ih =>
    rw [Engine.lookUpLibraries, Engine.lookUpLibraries]
    refine .read fun s t hst => ?_
    rw [h.files hst]
    refine .ite Iff.rfl ?_ ((h.missing library dir).andThen fun _ => ih)
    exact (h.projectAt library library).andThen fun ref => ih.andThen fun refs => .pure rfl

theorem libraries (ref : ProjectRef) : Mirrors ρ Eq (e.libraries ref) (e'.libraries ref) := by
  intro s t hst
  have hproject := h.project ref hst
  rw [Engine.libraries, Engine.libraries, bind_of_ok (x := Run.getProject ref) rfl,
    bind_of_ok (x := Run.getProject ref) rfl,
    Project.eq_of_resetSubset Project.libraries (fun _ => rfl) hproject,
    Project.eq_of_resetSubset Project.dir (fun _ => rfl) hproject,
    Project.eq_of_resetSubset Project.libraryDirs (fun _ => rfl) hproject]
  cases hlinks : (t.project ref).libraries with
  | some refs => exact .ok rfl hst
  | none =>
    refine Mirrors.andThen (h.lookUpLibraries _ _) (fun refs => ?_) s t hst
    exact Mirrors.andThen (.modify (h.linked ref refs hst hlinks)) fun _ => .pure rfl

theorem probes : Probes e e' ρ where
  options := h.options
  files := h.files
  depth := fun hst => by
    rw [referenceDepth, referenceDepth, h.files hst, h.size hst,
      h.answer Host.keepsProjects fun _ _ => rfl]
  noted := fun _ => h.noted _
  projectAt := h.projectAt
  libraries := h.libraries
  reset := h.reset

end Searches
end Engine
end ProjectLint
