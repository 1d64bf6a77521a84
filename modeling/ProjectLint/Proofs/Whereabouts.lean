/-
Where the projects of given paths lie. A path that is no folder belongs to the nearest directory
above it that holds a manifest. A folder belongs to itself, to its parent or to the folder above
that one; failing these it stands for the projects below it, and then the search comes to every
directory with a manifest that has none other between, through folders that can be listed and not
through links, in the order in which names are listed.
-/
import ProjectLint.Proofs.Ancestry
import ProjectLint.Proofs.Listings
import ProjectLint.Proofs.Uniqueness

namespace ProjectLint

open Path (Above Spells)

variable {names : List String} {path dir : String} {ws : Workspace} {fuel : Nat}

/-! ## The way up -/

namespace Path

theorem above_succ : Above dir path ↔ dir = path ∨ Above dir (parent path) := by
  constructor
  · rintro ⟨steps, rfl⟩
    cases steps with
    | zero => exact .inl rfl
    | succ steps => exact .inr ⟨steps, rfl⟩
  · rintro (rfl | ⟨steps, rfl⟩)
    · exact ⟨0, rfl⟩
    · exact ⟨steps + 1, rfl⟩

theorem Spells.parent_root (h : Spells [] path) : Path.parent path = path := by
  rw [h.2]
  decide

theorem Above.ne_of_parent {name : String} (hpath : Spells (names ++ [name]) path)
    (h : Above dir (Path.parent path)) : dir ≠ path := by
  rintro rfl
  obtain ⟨start, hstart, hdir⟩ := (above_iff hpath.parent).1 h
  have hsame := hpath.unique ⟨fun other hother => hpath.parent.1 other (hstart.subset hother), hdir⟩
  have hlength := hstart.length_le
  rw [← hsame, List.length_append, List.length_singleton] at hlength
  omega

theorem length_le_parts (h : Spells names path) : names.length ≤ (parts path).length := by
  rw [h.2, ofParts, parts_cons]
  by_cases hne : names = []
  · simp [hne]
  · rw [parts_joined h.1 hne]
    simp

end Path

namespace Discovery

theorem above_root (h : Spells [] path) (fuel : Nat) : ancestors.above fuel path = [] := by
  cases fuel with
  | zero => rfl
  | succ fuel => rw [ancestors.above, Path.parent?, if_pos h.parent_root]

theorem above_concat {name : String} (h : Spells (names ++ [name]) path) (fuel : Nat) :
    ancestors.above (fuel + 1) path =
      Path.parent path :: ancestors.above fuel (Path.parent path) := by
  have hne : Path.parent path ≠ path := Path.Above.ne_of_parent h ⟨0, rfl⟩
  rw [ancestors.above, Path.parent?, if_neg hne]

structure Nearest (ws : Workspace) (path dir : String) : Prop where
  above : Above dir path
  ne : dir ≠ path
  holds : Project.isProjectDir ws dir = true
  first : ∀ other, Above other path → other ≠ path → Project.isProjectDir ws other = true →
    Above other dir

theorem projectAmong?_above (h : Spells names path) (hfuel : names.length ≤ fuel) :
    (∀ dir, projectAmong? ws (ancestors.above fuel path) = some dir → Nearest ws path dir) ∧
      (projectAmong? ws (ancestors.above fuel path) = none →
        ∀ dir, Above dir path → dir ≠ path → Project.isProjectDir ws dir = false) := by
  induction names using List.reverseRecOn generalizing path fuel with
  | nil =>
    rw [above_root h]
    refine ⟨fun dir hnone => (by cases hnone), fun _ dir hdir hne => ?_⟩
    obtain ⟨start, hstart, hroot⟩ := (Path.above_iff h).1 hdir
    rw [List.prefix_nil.1 hstart, ← h.2] at hroot
    exact absurd hroot hne
  | append_singleton front name ih =>
    obtain ⟨fuel, rfl⟩ : ∃ less, fuel = less + 1 := ⟨fuel - 1, by simp at hfuel; omega⟩
    have hup : ∀ {other}, Above other path → other ≠ path → Above other (Path.parent path) :=
      fun habove hne => (Path.above_succ.1 habove).resolve_left hne
    have hdown : ∀ {other}, Above other (Path.parent path) → Above other path ∧ other ≠ path :=
      fun habove => ⟨Path.above_succ.2 (.inr habove), habove.ne_of_parent h⟩
    rw [above_concat h, projectAmong?, List.find?_cons]
    cases hparent : Project.isProjectDir ws (Path.parent path) with
    | true =>
      refine ⟨fun dir hdir => ?_, fun hnone => by cases hnone⟩
      cases hdir
      obtain ⟨habove, hne⟩ := hdown ⟨0, rfl⟩
      exact ⟨habove, hne, hparent, fun other hother hne _ => hup hother hne⟩
    | false =>
      obtain ⟨hsome, hnone⟩ := ih h.parent (by simp at hfuel; omega)
      have hbeyond : ∀ {other}, Project.isProjectDir ws other = true → other ≠ Path.parent path :=
        fun hother heq => by rw [heq, hparent] at hother; cases hother
      refine ⟨fun dir hdir => ?_, fun hfind dir hdir hne => ?_⟩
      · have hnearest := hsome dir hdir
        obtain ⟨habove, hne⟩ := hdown hnearest.above
        exact ⟨habove, hne, hnearest.holds, fun other hother hne hholds =>
          hnearest.first other (hup hother hne) (hbeyond hholds) hholds⟩
      · by_cases heq : dir = Path.parent path
        · rw [heq, hparent]
        · exact hnone hfind dir (hup hdir hne) heq

theorem projectAmong?_take (h : Spells names path) (hfuel : names.length ≤ fuel)
    (hself : Project.isProjectDir ws path = false) :
    projectAmong? ws ((ancestors.above fuel path).take 2) =
      [Path.parent path, Path.parent (Path.parent path)].find? (Project.isProjectDir ws) := by
  rcases List.eq_nil_or_concat' names with rfl | ⟨front, name, rfl⟩
  · rw [above_root h, h.parent_root, h.parent_root]
    simp [projectAmong?, hself]
  · obtain ⟨fuel, rfl⟩ : ∃ less, fuel = less + 1 := ⟨fuel - 1, by simp at hfuel; omega⟩
    rw [above_concat h, List.take_succ_cons, projectAmong?, List.find?_cons, List.find?_cons]
    cases hparent : Project.isProjectDir ws (Path.parent path) with
    | true => rfl
    | false =>
      rcases List.eq_nil_or_concat' front with rfl | ⟨front, other, rfl⟩
      · rw [above_root h.parent, h.parent.parent_root]
        simp [hparent]
      · obtain ⟨fuel, rfl⟩ : ∃ less, fuel = less + 1 := ⟨fuel - 1, by simp at hfuel; omega⟩
        rw [above_concat h.parent]
        rfl

/-! ## The way down -/

end Discovery

inductive Files.Entry.Down : Entry → List String → Prop
  | here (entry : Entry) : Down entry []
  | deeper {own : String} {entries : List Entry} {child : Entry} {names : List String} :
      child ∈ entries → child.isFolder = true → Down child names →
      Down (.folder own true entries) (child.name :: names)

namespace Discovery

open Files

variable {own : String} {listable : Bool} {entries : List Entry}

structure Outermost (ws : Workspace) (dir : String) (names : List String) : Prop where
  down : ∃ entry, ws.entry? dir = some entry ∧ entry.Down names
  holds : Project.isProjectDir ws (names.foldl Path.join dir) = true
  first : ∀ start, start <+: names →
    Project.isProjectDir ws (start.foldl Path.join dir) = true → start = names

theorem outermost_self {entry : Entry} (hentry : ws.entry? dir = some entry)
    (h : Project.isProjectDir ws dir = true) (names : List String) :
    Outermost ws dir names ↔ names = [] := by
  constructor
  · exact fun hnames => (hnames.first [] List.nil_prefix h).symm
  · rintro rfl
    exact ⟨⟨entry, hentry, .here entry⟩, h, fun start hstart _ => List.prefix_nil.1 hstart⟩

theorem entry?_inner {child : Entry} (hproper : ws.Proper) (hdir : Spells names dir)
    (hentry : ws.entry? dir = some (.folder own listable entries)) (hchild : child ∈ entries)
    (hfolder : child.isFolder = true) : ws.entry? (Path.join dir child.name) = some child := by
  refine (Workspace.Direct.of_spells hdir).entry?_join hproper hentry hchild fun _ _ hlink => ?_
  rw [hlink] at hfolder
  cases hfolder

theorem outermost_deeper (hproper : ws.Proper) (hdir : Spells names dir)
    (hentry : ws.entry? dir = some (.folder own listable entries))
    (h : Project.isProjectDir ws dir = false) (more : List String) :
    Outermost ws dir more ↔ listable = true ∧ ∃ child ∈ entries, child.isFolder = true ∧
      ∃ rest, more = child.name :: rest ∧ Outermost ws (Path.join dir child.name) rest := by
  have hthere : ∀ child ∈ entries, child.isFolder = true →
      ws.entry? (Path.join dir child.name) = some child :=
    fun child => entry?_inner hproper hdir hentry
  constructor
  · rintro ⟨⟨entry, hsame, hdown⟩, hholds, hfirst⟩
    cases hentry.symm.trans hsame
    cases hdown with
    | here => exact absurd hholds (by rw [List.foldl_nil, h]; exact Bool.false_ne_true)
    | deeper hchild hfolder hrest =>
      refine ⟨rfl, _, hchild, hfolder, _, rfl, ⟨_, hthere _ hchild hfolder, hrest⟩, hholds, ?_⟩
      intro start hstart hlast
      exact List.cons.inj (hfirst (_ :: start) (List.cons_prefix_cons.2 ⟨rfl, hstart⟩) hlast) |>.2
  · rintro ⟨rfl, child, hchild, hfolder, rest, rfl, ⟨entry, hsame, hdown⟩, hholds, hfirst⟩
    cases (hthere child hchild hfolder).symm.trans hsame
    refine ⟨⟨_, hentry, .deeper hchild hfolder hdown⟩, hholds, fun start hstart hlast => ?_⟩
    cases start with
    | nil => rw [List.foldl_nil, h] at hlast; cases hlast
    | cons name start =>
      obtain ⟨rfl, hrest⟩ := List.cons_prefix_cons.1 hstart
      rw [hfirst start hrest hlast]

theorem walks_below (hroom : Room ws fuel dir) (hfolder : ws.isFolder dir = true) :
    Entry.Walks dir (Outermost ws dir) (below ws fuel dir) := by
  induction fuel generalizing dir with
  | zero => exact absurd hroom.some (Nat.lt_irrefl 0)
  | succ fuel ih =>
    obtain ⟨own, listable, entries, hentry⟩ : ∃ own listable entries,
        ws.entry? dir = some (.folder own listable entries) := by
      rw [Workspace.isFolder] at hfolder
      cases hentry : ws.entry? dir with
      | none => rw [hentry] at hfolder; cases hfolder
      | some entry =>
        rw [hentry] at hfolder
        cases entry with
        | file | link => cases hfolder
        | folder own listable entries => exact ⟨own, listable, entries, rfl⟩
    rw [below]
    cases hproject : Project.isProjectDir ws dir with
    | true =>
      rw [if_pos rfl]
      exact Entry.walks_singleton [] (outermost_self hentry hproject)
    | false =>
      obtain ⟨names, hnames⟩ := hroom.spelled
      have hdeeper := outermost_deeper hroom.proper hnames hentry hproject
      rw [if_neg Bool.false_ne_true]
      cases listable with
      | false =>
        have hnone : ws.folders dir = [] := by
          rw [Workspace.folders, Workspace.entries?, hentry]
          rfl
        rw [hnone]
        exact Entry.walks_nil fun more hmore => Bool.false_ne_true ((hdeeper more).1 hmore).1
      | true =>
        have hfolders : ws.folders dir = ((Entry.sorted entries).filter Entry.isFolder).map
            fun child => Path.join dir child.name := by
          rw [Workspace.folders, Workspace.entries?_of_folder hentry, Option.getD_some]
        obtain ⟨hnodup, -⟩ := Entry.isProper_folder.1 (hroom.proper.entry hentry)
        have hsorted := (Entry.precedes_sorted hnodup).sublist
          ((List.filter_sublist (p := Entry.isFolder)).map Entry.name)
        have hmem : ∀ {child}, child ∈ (Entry.sorted entries).filter Entry.isFolder ↔
            child ∈ entries ∧ child.isFolder = true := by
          intro child
          rw [List.mem_filter, Entry.mem_sorted]
        rw [hfolders, List.flatMap_map]
        refine (Entry.walks_flatMap (fun hroute => hroute.imp fun _ => And.left) hsorted
          fun child hchild => (ih (hroom.inner (hfolders ▸ List.mem_map_of_mem hchild))
            ?_).under).congr fun more => ?_
        · obtain ⟨hchild, hchildFolder⟩ := hmem.1 hchild
          rw [Workspace.isFolder, entry?_inner hroom.proper hnames hentry hchild hchildFolder]
          exact hchildFolder
        · simp only [hdeeper, hmem, and_assoc, true_and]

/-! ## Given paths -/

/-- The projects that a path leads to: its own, one above, or all below it. -/
inductive Leads (ws : Workspace) (path : String) : List Site → Prop
  | above {dir : String} : ws.isFolder path = false → Nearest ws path dir →
    Leads ws path [(path, dir)]
  | nowhere : ws.isFolder path = false →
      (∀ dir, Above dir path → dir ≠ path → Project.isProjectDir ws dir = false) → Leads ws path []
  | itself : ws.isFolder path = true → Project.isProjectDir ws path = true →
      Leads ws path [(path, path)]
  | parent : ws.isFolder path = true → Project.isProjectDir ws path = false →
      Project.isProjectDir ws (Path.parent path) = true → Leads ws path [(path, Path.parent path)]
  | grandparent : ws.isFolder path = true → Project.isProjectDir ws path = false →
      Project.isProjectDir ws (Path.parent path) = false →
      Project.isProjectDir ws (Path.parent (Path.parent path)) = true →
      Leads ws path [(path, Path.parent (Path.parent path))]
  | below {dirs : List String} : ws.isFolder path = true → Project.isProjectDir ws path = false →
      Project.isProjectDir ws (Path.parent path) = false →
      Project.isProjectDir ws (Path.parent (Path.parent path)) = false →
      Entry.Walks path (Outermost ws path) dirs → Leads ws path (dirs.map fun dir => (dir, dir))

theorem leads_sites (hproper : ws.Proper) (h : Spells names path) :
    Leads ws path (sites ws path) := by
  have hfuel := Path.length_le_parts h
  rw [sites, ancestors]
  cases hfolder : ws.isFolder path with
  | false =>
    obtain ⟨hsome, hnone⟩ := projectAmong?_above h hfuel
    rw [if_neg Bool.false_ne_true]
    cases hfind : projectAmong? ws (ancestors.above (Path.parts path).length path) with
    | some dir => exact .above hfolder (hsome dir hfind)
    | none => exact .nowhere hfolder (hnone hfind)
  | true =>
    rw [if_pos rfl]
    cases hself : Project.isProjectDir ws path with
    | true => exact .itself hfolder hself
    | false =>
      rw [if_neg Bool.false_ne_true, projectAmong?_take h hfuel hself, List.find?_cons,
        List.find?_cons]
      cases hparent : Project.isProjectDir ws (Path.parent path) with
      | true => exact .parent hfolder hself hparent
      | false =>
        cases hgrandparent : Project.isProjectDir ws (Path.parent (Path.parent path)) with
        | true => exact .grandparent hfolder hself hparent hgrandparent
        | false =>
          exact .below hfolder hself hparent hgrandparent
            (walks_below (room_levels hproper h) hfolder)

variable {host : Host σ} {opts : Options} {s : State σ}

/-- The search for the projects of given paths comes to an end if the links of the files can be
followed to an end. Unless it is stopped, it registers what each path leads to, one path after the
other, each place once and with the project of its directory. The roots are among the projects so
found, in the order in which these were first registered, and none is there twice. -/
theorem search_exact (hhost : host.Caching opts ws) (hproper : ws.Proper)
    (hs : Stocked host ws s) (stopped : State σ → Bool) (paths : List String) :
    let all := paths.map (Path.resolve ws.cwd)
    ∃ led : String → List Site, (∀ path ∈ all, Leads ws path (led path)) ∧
      (ws.LinksEnd → ∃ roots s', resolve (host.engine opts) stopped paths s = .ok roots s') ∧
      ∀ roots s', resolve (host.engine opts) stopped paths s = .ok roots s' →
        ∃ outcome t, addPaths (host.engine opts) stopped all all [] s = .ok outcome t ∧
          (outcome = none → stopped t = true) ∧
          ∀ found, outcome = some found →
            found.map Prod.fst = distinct ((all.flatMap led).map Prod.fst) ∧
            (∀ entry ∈ found, ∃ dir, (entry.1, dir) ∈ all.flatMap led ∧
              entry.2.dir = ws.canonical dir) ∧
            roots.Sublist (distinct (found.map Prod.snd)) ∧ roots.Nodup := by
  intro all
  have hspelled := spelled_resolve ws.cwd paths
  refine ⟨sites ws, fun path hpath => ?_, fun hlinks => ?_, fun roots s' hresolve => ?_⟩
  · obtain ⟨names, hnames⟩ := hspelled path hpath
    exact leads_sites hproper hnames
  · obtain ⟨roots, s', hresolve, -⟩ :=
      (resolve_stocked hhost hproper hs stopped paths).returns_of_linksEnd hlinks
    exact ⟨roots, s', hresolve⟩
  · have hrun := hresolve
    rw [resolve, Run.get_bind, hs.files] at hrun
    obtain ⟨outcome, t, hadd, -⟩ := Run.bind_eq_ok hrun
    have hseek := (seeking_charted (Engine.Careful.of_caching hhost) fun _ _ => trivial).addPaths
      (E := fun _ => True) stopped (.inr hproper) all hspelled hs.toCharted .nil
    rw [hadd] at hseek
    obtain ⟨-, hnone, hfound⟩ := hseek
    refine ⟨outcome, t, hadd, hnone, ?_⟩
    rintro found rfl
    have hnotes := hfound found rfl
    have hgathers : Gathers (host.engine opts) stopped paths s found t := by
      rw [Gathers, hs.files]
      exact hadd
    have hsublist := roots_sublist hgathers hresolve
    exact ⟨hnotes.paths, fun entry hentry => (hnotes.refs entry hentry).2, hsublist,
      hsublist.nodup (nodup_distinct _)⟩

def tangled : Workspace :=
  let project (name : String) (inner : List Entry) : Entry :=
    .folder name true (.file Layout.manifest (.bytes []) :: inner)
  { root := .folder "" true [.folder "w" true [
      .folder "b" true [project "y" []],
      project "app" [project "inner" [], .folder "src" true [.file "A.java" (.bytes [])]],
      .folder "B" true [project "x" [], .link "again" "/w"],
      .folder "locked" false [project "hidden" []],
      .folder "plain" true [.file "F.java" (.bytes [])]]]
    cwd := "/w" }

theorem search_exact_tangled :
    tangled.Proper ∧ tangled.LinksEnd ∧ ∃ found t roots s',
      addPaths (idleHost.engine ⟨true⟩) State.canceled
        (["/w", "app/src/A.java", "plain/F.java"].map (Path.resolve "/w"))
        (["/w", "app/src/A.java", "plain/F.java"].map (Path.resolve "/w")) [] (fresh {} tangled) =
          .ok (some found) t ∧
      resolve (idleHost.engine ⟨true⟩) State.canceled ["/w", "app/src/A.java", "plain/F.java"]
        (fresh {} tangled) = .ok roots s' ∧
      found.map (fun entry => (entry.1, entry.2.dir)) = [("/w/B/x", "/w/B/x"), ("/w/app", "/w/app"),
        ("/w/b/y", "/w/b/y"), ("/w/app/src/A.java", "/w/app")] ∧
      roots.Sublist (distinct (found.map Prod.snd)) ∧ roots.Nodup := by
  have hproper : tangled.Proper := by decide +kernel
  have hlinks : tangled.LinksEnd := Workspace.linksEnd_of_aims (by decide +kernel)
  have hrun : (Run.result? (addPaths (idleHost.engine ⟨true⟩) State.canceled
      (["/w", "app/src/A.java", "plain/F.java"].map (Path.resolve "/w"))
      (["/w", "app/src/A.java", "plain/F.java"].map (Path.resolve "/w")) []
      (fresh {} tangled))).map (·.map (·.map fun entry => (entry.1, entry.2.dir))) =
        some (some [("/w/B/x", "/w/B/x"), ("/w/app", "/w/app"), ("/w/b/y", "/w/b/y"),
          ("/w/app/src/A.java", "/w/app")]) := by
    decide +kernel
  obtain ⟨led, -, hends, hexact⟩ := search_exact (caching_idle ⟨true⟩ tangled) hproper
    (stocked_fresh idleHost {} tangled {}) State.canceled ["/w", "app/src/A.java", "plain/F.java"]
  obtain ⟨roots, s', hresolve⟩ := hends hlinks
  obtain ⟨outcome, t, hadd, -, hfound⟩ := hexact roots s' hresolve
  rw [show tangled.cwd = "/w" from rfl] at hadd
  rw [hadd, Run.result?, Option.map_some, Option.some_inj, Option.map_eq_some_iff] at hrun
  obtain ⟨found, rfl, hpaths⟩ := hrun
  obtain ⟨-, -, hsublist, hnodup⟩ := hfound found rfl
  exact ⟨hproper, hlinks, found, t, roots, s', hadd, hresolve, hpaths, hsublist, hnodup⟩

/-- The file system takes `x/..` to be the folder `p`, and so the link `l` for the project in it.
Read as text, the target of the link is the link itself. -/
def circling : Workspace :=
  { root := .folder "" true [.folder "w" true [
      .folder "p" true [.folder "q" true [], .folder "l" true [.file Layout.manifest (.bytes [])]],
      .link "x" "p/q", .link "l" "x/../l"]]
    cwd := "/w" }

def sidestepped : Workspace :=
  { root := .folder "" true [.folder "w" true [
      .folder "sub" true [.link "l" "../other/deep"],
      .folder "other" true [.file Layout.manifest (.bytes []), .folder "deep" true []]]]
    cwd := "/w" }

/-- A project whose directory is reached over a link that stands for itself: the search for it does
not end. And a project that is given by way of a link and `..`: the search looks elsewhere. -/
theorem search_misled_by_links :
    (circling.Proper ∧ Project.isProjectDir circling "/w/l" = true ∧
      (∀ outcome, ¬ circling.Lands [] (Path.absoluteParts circling.cwd "l") outcome) ∧
      ∀ roots t, resolve (idleHost.engine ⟨true⟩) State.canceled ["l"] (fresh {} circling) ≠
        .ok roots t) ∧
    sidestepped.Proper ∧ sidestepped.LinksEnd ∧ sidestepped.isFolder "sub/l/.." = true ∧
      sidestepped.isFile "sub/l/../AndroidManifest.xml" = true ∧
      ∃ t, resolve (idleHost.engine ⟨true⟩) State.canceled ["sub/l/.."] (fresh {} sidestepped) =
        .ok [] t := by
  have hnone : Run.result? (resolve (idleHost.engine ⟨true⟩) State.canceled ["l"]
      (fresh {} circling)) = none := by
    decide +kernel
  refine ⟨⟨by decide +kernel, by decide +kernel, Workspace.linksEnd_eq_false_iff.1
    (by decide +kernel),
    fun roots t hok => ?_⟩, by decide +kernel, Workspace.linksEnd_of_aims (by decide +kernel),
    by decide +kernel, by decide +kernel, _, Run.eq_ok_of_result? (by decide +kernel)⟩
  rw [hok] at hnone
  cases hnone

end Discovery
end ProjectLint
