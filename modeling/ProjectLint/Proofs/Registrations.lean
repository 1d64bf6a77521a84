/-
What a search registers. While the files stay as they are, each given path leads to certain
directories, whatever was found before, and the search comes to their projects one after the other;
a path that is registered again keeps its place. A search that is stopped says so.
-/
import ProjectLint.Proofs.Provisions
import ProjectLint.Proofs.Roots
import ProjectLint.Proofs.Ways

namespace ProjectLint

namespace Discovery

open Run Engine Files

variable {host : Host σ} {opts : Options} {ws : Workspace} {s t : State σ} {found : Found}
  {stopped : State σ → Bool}
variable {names : List String} {dir : String}

/-! ## Folders with room below them -/

theorem mem_folders (hproper : ws.Proper) (hnames : ∀ name ∈ names, Path.IsName name)
    (hdir : dir ∈ ws.folders (Path.ofParts names)) :
    ∃ name, Path.IsName name ∧ dir = Path.ofParts (names ++ [name]) ∧
      ∃ entry child, ws.entry? (Path.ofParts names) = some entry ∧ ws.entry? dir = some child ∧
        child.depth < entry.depth ∧ 0 < child.depth := by
  obtain ⟨own, entries, child, hentry, hmem, hfolder, rfl⟩ := Workspace.mem_folders hdir
  have hname := ((Entry.isProper_folder.1 (hproper.entry hentry)).2 child hmem).1
  refine ⟨child.name, hname, Path.join_ofParts hnames hname, _, child, hentry, ?_,
    Entry.depth_of_mem hmem, ?_⟩
  · refine (Workspace.Direct.of_spells ⟨hnames, rfl⟩).entry?_join hproper hentry hmem
      fun name target heq => ?_
    rw [heq] at hfolder
    cases hfolder
  · cases child with
    | file | link => cases hfolder
    | folder name listable below => simp [Entry.depth]

structure Room (ws : Workspace) (fuel : Nat) (dir : String) : Prop where
  proper : ws.Proper
  spelled : ∃ names, Path.Spells names dir
  some : 0 < fuel
  deep : ∀ entry, ws.entry? dir = .some entry → entry.depth < fuel

theorem Room.inner {fuel : Nat} {inner : String} (h : Room ws (fuel + 1) dir)
    (hinner : inner ∈ ws.folders dir) : Room ws fuel inner := by
  obtain ⟨names, hnames, rfl⟩ := h.spelled
  obtain ⟨name, hname, rfl, entry, child, hentry, hchild, hbelow, hpos⟩ :=
    mem_folders h.proper hnames hinner
  have hfuel := h.deep entry hentry
  refine ⟨h.proper, ⟨_, ?_, rfl⟩, by omega, fun other hother => ?_⟩
  · exact List.forall_mem_append.2 ⟨hnames, List.forall_mem_singleton.2 hname⟩
  · cases hchild.symm.trans hother
    omega

def levels (ws : Workspace) : Nat :=
  ws.root.depth + Run.growth

theorem room_levels (hproper : ws.Proper)
    (h : Path.Spells names dir) : Room ws (levels ws) dir := by
  refine ⟨hproper, ⟨names, h⟩, by rw [levels, Run.growth]; omega, fun entry hentry => ?_⟩
  obtain ⟨there, -, hdescend⟩ := Option.bind_eq_some_iff.1 hentry
  have := Entry.length_add_depth hdescend
  rw [levels, Run.growth]
  omega

/-! ## Registered paths -/

def below (ws : Workspace) : Nat → String → List String
  | 0, _ => []
  | fuel + 1, dir =>
    if Project.isProjectDir ws dir then [dir] else (ws.folders dir).flatMap (below ws fuel)

theorem isFolder_of_mem_below (hproper : ws.Proper) {fuel : Nat} {inner : String}
    (hdir : ∃ names, Path.Spells names dir) (hfolder : ws.isFolder dir = true)
    (h : inner ∈ below ws fuel dir) : ws.isFolder inner = true := by
  induction fuel generalizing dir with
  | zero => cases h
  | succ fuel ih =>
    rw [below] at h
    by_cases hproject : Project.isProjectDir ws dir = true
    · rw [if_pos hproject] at h
      rwa [List.mem_singleton.1 h]
    · rw [if_neg hproject] at h
      obtain ⟨next, hnext, hinner⟩ := List.mem_flatMap.1 h
      obtain ⟨names, hnames, rfl⟩ := hdir
      obtain ⟨name, hname, rfl, _, child, -, hchild, -, hdepth⟩ := mem_folders hproper hnames hnext
      refine ih ⟨_, List.forall_mem_append.2 ⟨hnames, List.forall_mem_singleton.2 hname⟩, rfl⟩ ?_
        hinner
      rw [Workspace.isFolder, hchild]
      cases child with
      | file | link => cases hdepth
      | folder => rfl

/-- A path that was given and the folder of the project for it. -/
abbrev Site := String × String

def sitesBelow (ws : Workspace) (fuel : Nat) (dir : String) : List Site :=
  (below ws fuel dir).map fun dir => (dir, dir)

def sites (ws : Workspace) (path : String) : List Site :=
  if ws.isFolder path then
    if Project.isProjectDir ws path then [(path, path)]
    else
      match projectAmong? ws ((ancestors path).take 2) with
      | some above => [(path, above)]
      | none => sitesBelow ws (levels ws) path
  else
    match projectAmong? ws (ancestors path) with
    | some above => [(path, above)]
    | none => []

/-- The found projects are those of the registered paths, each path where it was first
registered. -/
structure Found.Notes (P : String → ProjectRef → Prop) (done : List Site) (found : Found)
    (s : State σ) : Prop where
  paths : found.map Prod.fst = distinct (done.map Prod.fst)
  refs : ∀ entry ∈ found, s.Made entry.2 ∧ ∃ dir, (entry.1, dir) ∈ done ∧ P dir entry.2

theorem Found.Notes.nil {P : String → ProjectRef → Prop} : Found.Notes P [] [] s :=
  ⟨rfl, fun _ hentry => by cases hentry⟩

theorem spelled_resolve (cwd : String) (paths : List String) :
    ∀ path ∈ paths.map (Path.resolve cwd), ∃ names, Path.Spells names path := by
  intro path hpath
  obtain ⟨given, -, rfl⟩ := List.mem_map.1 hpath
  exact ⟨_, .resolve cwd given⟩

/-- How the project of a directory is come by while the files stay as they are: with a property that
is kept, and with projects of a certain kind. -/
structure Seeking (host : Host σ) (opts : Options) (ws : Workspace) (E : Fault → Prop)
    (I : State σ → Prop) (P : String → ProjectRef → Prop) : Prop where
  files : ∀ {s}, I s → s.files = ws
  noted : ∀ entry {s}, I s → I (s.write (.logged entry))
  projectAt : ∀ dir reference {s}, I s →
    Ensures E I (fun ref t => P dir ref ∧ t.Made ref) ((host.engine opts).projectAt dir reference s)

namespace Seeking

variable {E : Fault → Prop} {I : State σ → Prop} {P : String → ProjectRef → Prop} {done : List Site}
  (hseek : Seeking host opts ws E I P)

include hseek

theorem register (hs : I s) (hfound : found.Notes P done s) (path dir reference : String) :
    Ensures E I (fun found' t => found'.Notes P (done ++ [(path, dir)]) t)
      (register (host.engine opts) found path dir reference s) := by
  refine (hseek.projectAt dir reference hs).bind (fun _ => id) fun ref t hrun ht href =>
    ⟨ht, ?_, ?_⟩
  · rw [Found.set, ← put, map_fst_put, hfound.paths, List.map_append, List.map_singleton,
      distinct_concat]
    simp only [mem_distinct]
  · intro entry hentry
    rcases mem_put.1 hentry with ⟨hold, -⟩ | rfl
    · obtain ⟨hmade, other, hother, hP⟩ := hfound.refs entry hold
      have hlater := (frames_of_finds host fun h => h.projectAt opts dir reference).ok hrun
      exact ⟨hmade.later hlater, other, List.mem_append_left _ hother, hP⟩
    · exact ⟨href.2, dir, List.mem_append_right _ (List.mem_singleton_self _), href.1⟩

theorem searchBelow (reference : String) (fuel : Nat) :
    ∀ {dir : String} {done : List Site} {found : Found} {s : State σ}, E .tooDeep ∨
      Room ws fuel dir →
      I s → stopped s = true ∨ found.Notes P done s →
      Ensures E I (fun found' t => stopped t = true ∨ found'.Notes P
        (done ++ sitesBelow ws fuel dir) t)
        (searchBelow (host.engine opts) stopped reference fuel dir found s) := by
  induction fuel with
  | zero =>
    intro dir done found s hroom hs _
    exact ⟨hroom.resolve_right fun h => absurd h.some (Nat.lt_irrefl 0), hs⟩
  | succ fuel ih =>
    intro dir done found s hroom hs hfound
    rw [Discovery.searchBelow, get_bind]
    by_cases hstopped : stopped s = true
    · rw [if_pos hstopped]
      exact ⟨hs, .inl hstopped⟩
    · replace hfound := hfound.resolve_left hstopped
      rw [if_neg hstopped, hseek.files hs, sitesBelow, below]
      by_cases hproject : Project.isProjectDir ws dir = true
      · rw [if_pos hproject, if_pos hproject]
        exact (hseek.register hs hfound dir dir reference).mono (fun _ => id) (fun _ => id)
          fun _ _ => .inr
      · rw [if_neg hproject, if_neg hproject]
        have hinner : ∀ inner ∈ ws.folders dir, E .tooDeep ∨ Room ws fuel inner :=
          fun inner hinner => hroom.imp id fun h => h.inner hinner
        replace hfound : stopped s = true ∨ found.Notes P done s := .inr hfound
        clear hroom hproject hstopped
        generalize ws.folders dir = dirs at hinner ⊢
        induction dirs generalizing done found s with
        | nil => exact ⟨hs, by simpa using hfound⟩
        | cons first rest ihrest =>
          obtain ⟨hfirst, hrest⟩ := List.forall_mem_cons.1 hinner
          refine (ih hfirst hs hfound).bind (fun _ => id) fun found' t _ ht hfound' => ?_
          rw [List.flatMap_cons, List.map_append, ← List.append_assoc]
          exact ihrest ht hfound' hrest

theorem addFolder (hproper : E .tooDeep ∨ ws.Proper) {path : String}
    (hpath : Path.Spells names path) (hfolder : ws.isFolder path = true) (reference : String)
    (hs : I s) (hfound : found.Notes P done s) :
    Ensures E I (fun found' t => stopped t = true ∨ found'.Notes P (done ++ sites ws path) t)
      (addFolder (host.engine opts) stopped path reference found s) := by
  rw [Discovery.addFolder, get_bind, hseek.files hs, sites, if_pos hfolder]
  by_cases hproject : Project.isProjectDir ws path = true
  · rw [if_pos hproject, if_pos hproject]
    exact (hseek.register hs hfound path path reference).mono (fun _ => id) (fun _ => id)
      fun _ _ => .inr
  · rw [if_neg hproject, if_neg hproject]
    cases projectAmong? ws ((ancestors path).take 2) with
    | some above =>
      exact (hseek.register hs hfound path above above).mono (fun _ => id) (fun _ => id)
        fun _ _ => .inr
    | none =>
      have hdepth : searchDepth s = levels ws := by rw [searchDepth, hseek.files hs, levels]
      dsimp only
      rw [get_bind, hdepth]
      exact hseek.searchBelow reference _ (hproper.imp id fun h => room_levels h hpath) hs
        (.inr hfound)

theorem addFile {path : String} (hfolder : ¬ ws.isFolder path = true) (hs : I s)
    (hfound : found.Notes P done s) :
    Ensures E I (fun found' t => found'.Notes P (done ++ sites ws path) t)
      (addFile (host.engine opts) path found s) := by
  rw [Discovery.addFile, get_bind, hseek.files hs, sites, if_neg hfolder]
  cases projectAmong? ws (ancestors path) with
  | some above => exact hseek.register hs hfound path above above
  | none => exact ⟨hseek.noted _ hs, by rw [List.append_nil]; exact { hfound with }⟩

theorem addPaths (stopped : State σ → Bool) (hproper : E .tooDeep ∨ ws.Proper) (all : List String)
    {paths : List String} (hpaths : ∀ path ∈ paths, ∃ names, Path.Spells names path) (hs : I s)
    (hfound : found.Notes P done s) :
    Ensures E I (fun outcome t => (outcome = none → stopped t = true) ∧ ∀ found',
        outcome = some found' →
        found'.Notes P (done ++ paths.flatMap (sites ws)) t)
      (addPaths (host.engine opts) stopped all paths found s) := by
  induction paths generalizing done found s with
  | nil =>
    refine ⟨hs, fun hnone => (by cases hnone), fun found' heq => ?_⟩
    cases heq
    simpa using hfound
  | cons path rest ih =>
    obtain ⟨⟨names, hnames⟩, hrest⟩ := List.forall_mem_cons.1 hpaths
    rw [Discovery.addPaths, get_bind, hseek.files hs]
    have hnext : ∀ (found' : Found) t, I t →
        stopped t = true ∨ found'.Notes P (done ++ sites ws path) t →
        Ensures E I (fun outcome t => (outcome = none → stopped t = true) ∧
            ∀ found', outcome = some found' →
              found'.Notes P (done ++ (path :: rest).flatMap (sites ws)) t)
          ((get >>= fun s => if stopped s then return none
            else Discovery.addPaths (host.engine opts) stopped all rest found') t) := by
      intro found' t ht hfound'
      rw [get_bind]
      by_cases hstopped : stopped t = true
      · rw [if_pos hstopped]
        exact ⟨ht, fun _ => hstopped, fun _ heq => by cases heq⟩
      · rw [if_neg hstopped, List.flatMap_cons, ← List.append_assoc]
        exact ih hrest ht (hfound'.resolve_left hstopped)
    by_cases hfolder : ws.isFolder path = true
    · rw [if_pos hfolder]
      exact (hseek.addFolder hproper hnames hfolder _ hs hfound).bind (fun _ => id)
        fun found' t _ => hnext found' t
    · rw [if_neg hfolder]
      exact (hseek.addFile hfolder hs hfound).bind (fun _ => id) fun found' t _ ht h =>
        hnext found' t ht (.inr h)

end Seeking
end Discovery
end ProjectLint
