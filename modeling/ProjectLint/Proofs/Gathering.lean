/-
Walks that gather files. A walk goes from folder to folder by path and adds what it finds to what
was found before. Each folder lies further down the tree, so a walk ends whatever the links are. A
direct path leads to the same place without its `.` and `..`, and from there every file is found
once, in the order of names. A path that leaves a folder entered through a link is another path as
soon as a name is joined to it: what it lists is then looked for elsewhere.
-/
import ProjectLint.Proofs.Listings

namespace ProjectLint
namespace Workspace

open Files Path

variable {ws : Workspace} {dir tail : String} {names : List String}

/-! ## From folder to folder -/

theorem direct_of_mem_folders (hproper : ws.Proper) {inner : String} (h : inner ∈ ws.folders dir) :
    ws.Direct inner := by
  obtain ⟨own, entries, child, hentry, hchild, -, rfl⟩ := mem_folders h
  exact direct_join ws dir ((Entry.isProper_folder.1 (hproper.entry hentry)).2 child hchild).1

theorem acc_of_direct (hproper : ws.Proper) (hdir : ws.Direct dir) :
    Acc (fun inner outer => inner ∈ ws.folders outer) dir := by
  induction hdepth : (ws.entry? dir).elim 0 Entry.depth using Nat.strongRecOn generalizing dir with
  | _ depth ih =>
  refine Acc.intro dir fun inner hinner => ?_
  have hdirect := direct_of_mem_folders hproper hinner
  obtain ⟨own, entries, child, hentry, hchild, hfolder, rfl⟩ := mem_folders hinner
  have hthere : ws.entry? (join dir child.name) = some child :=
    hdir.entry?_join hproper hentry hchild fun _ _ hlink => by rw [hlink] at hfolder; cases hfolder
  have hdeeper : child.depth < (Entry.folder own true entries).depth := Entry.depth_of_mem hchild
  refine ih _ ?_ hdirect rfl
  rw [← hdepth, hentry, hthere]
  exact hdeeper

/-- What one entry of a folder adds to the files found so far. -/
def visit (ws : Workspace) (dir tail : String) (found : List String) (entry : Entry) :
    List String :=
  if entry.isFile then
    if Text.endsWith entry.name tail then found ++ [join dir entry.name] else found
  else if entry.isFolder then ws.gatherInto (join dir entry.name) tail found
  else found

theorem gatherInto_eq_foldl (hproper : ws.Proper) (dir tail : String) (found : List String) :
    ws.gatherInto dir tail found = ((ws.entries? dir).getD []).foldl (ws.visit dir tail) found := by
  rw [gatherInto, gather, List.flatMap_def, ← List.foldl_append_eq_append]
  refine List.foldl_ext _ _ _ fun found entry hentry => ?_
  cases entry with
  | file name content =>
    simp only [visit, Entry.isFile, Entry.name, Entry.gather]
    by_cases htail : Text.endsWith name tail = true <;> simp [htail]
  | link name target => exact List.append_nil found
  | folder name listable inner =>
    have hdirect : ws.Direct (join dir name) := direct_of_mem_folders hproper
      (List.mem_map_of_mem (List.mem_filter.2 ⟨hentry, rfl⟩))
    refine congrArg (found ++ ·) ?_
    dsimp only [Entry.name]
    cases hentries : ws.entries? (join dir name) with
    | none =>
      rw [gather_of_not_listed hentries]
      rw [entries?] at hentries
      split
      · rename_i hthere
        rw [hthere] at hentries
        cases hentries
      · rfl
    | some sorted =>
      obtain ⟨own, entries, hfolder, -⟩ := entries?_eq_some hentries
      rw [gather_of_folder hproper hdirect hfolder, ← Entry.inNameOrder_gatherAll, hfolder]

/-! ## Files found -/

/-- The names lead down from a folder to a file with such a tail. -/
def Holds (ws : Workspace) (dir tail : String) (names : List String) : Prop :=
  ∃ own entries, ws.entry? dir = some (.folder own true entries) ∧
    ∃ child ∈ entries, Entry.Route tail child names

theorem isFile_of_route {own : String} {listable : Bool} {entries : List Entry} {child : Entry}
    (hproper : ws.Proper) (hdir : ws.Direct dir)
    (hentry : ws.entry? dir = some (.folder own listable entries)) (hchild : child ∈ entries)
    (h : Entry.Route tail child names) : ws.isFile (names.foldl join dir) = true := by
  induction h generalizing dir own listable entries with
  | @file name content =>
    have hthere := hdir.entry?_join hproper hentry hchild fun _ _ hlink => by cases hlink
    dsimp only [Entry.name] at hthere
    rw [isFile, List.foldl_cons, List.foldl_nil, hthere]
    rfl
  | deeper hinner _ ih =>
    have hname := ((Entry.isProper_folder.1 (hproper.entry hentry)).2 _ hchild).1
    have hthere := hdir.entry?_join hproper hentry hchild fun _ _ hlink => by cases hlink
    exact ih (direct_join ws dir hname) hthere hinner

/-- A walk ends from whatever path, goes on to the real folders that are listed, and keeps what was
found before. From a direct path it finds the files below whose names end in `tail`, reached through
folders that can be listed: each of them once, depth first and by the units of the names. -/
theorem gather_exact (hproper : ws.Proper) (dir tail : String) :
    Acc (fun inner outer => inner ∈ ws.folders outer) dir ∧
      (∀ found, ws.gatherInto dir tail found =
        ((ws.entries? dir).getD []).foldl (ws.visit dir tail) found) ∧
      ∃ paths, (∀ found, ws.gatherInto dir tail found = found ++ paths) ∧
        (ws.Direct dir → Entry.Walks dir (ws.Holds dir tail) paths ∧ paths.Nodup ∧
          ∀ file ∈ paths, ws.isFile file = true) := by
  refine ⟨Acc.intro dir fun _ h => acc_of_direct hproper (direct_of_mem_folders hproper h),
    gatherInto_eq_foldl hproper dir tail, ws.gather dir tail, fun _ => rfl, fun hdir => ?_⟩
  cases hentries : ws.entries? dir with
  | none =>
    rw [gather_of_not_listed hentries]
    refine ⟨Entry.walks_nil ?_, List.nodup_nil, List.forall_mem_nil _⟩
    rintro names ⟨own, entries, hfolder, -⟩
    rw [entries?_of_folder hfolder] at hentries
    cases hentries
  | some sorted =>
    obtain ⟨own, entries, hfolder, -⟩ := entries?_eq_some hentries
    have hwalks := walks_gather hproper hdir hfolder tail
    refine ⟨hwalks.congr fun names => ⟨fun h => ⟨own, entries, hfolder, h⟩, ?_⟩,
      hwalks.nodup (named_of_route hproper hfolder tail), fun file hfile => ?_⟩
    · rintro ⟨own', entries', hfolder', h⟩
      cases hfolder.symm.trans hfolder'
      exact h
    · obtain ⟨routes, hpaths, -, hroutes⟩ := hwalks
      obtain ⟨names, hnames, rfl⟩ := List.mem_map.1 (hpaths ▸ hfile)
      obtain ⟨child, hchild, hroute⟩ := (hroutes names).1 hnames
      exact isFile_of_route hproper hdir hfolder hchild hroute

def looped : Workspace :=
  let file (name : String) : Entry := .file name (.bytes [])
  { root := .folder "" true [.folder "w" true [.link "src" "real", .folder "real" true [
      file "～.java", file "😀.java", .link "l.java" "b/A.java",
      .folder "b" true [file "A.java", .link "again" "/w/real"],
      .folder "B" true [file "Z.java", file "notes.txt"],
      .folder "x.java" true [file "y.java"],
      .folder "locked" false [file "H.java"]]]]
    cwd := "/w" }

/-- The path goes through a link and back out of it; the links below are not followed. -/
theorem gather_exact_looped :
    looped.Proper ∧ looped.Direct "./src/../src/" ∧
      looped.gatherInto "./src/../src/" ".java" ["z"] = ["z", "src/B/Z.java", "src/b/A.java",
        "src/x.java/y.java", "src/😀.java", "src/～.java"] ∧
      ∃ paths, looped.gatherInto "./src/../src/" ".java" ["z"] = "z" :: paths ∧
        Entry.Walks "./src/../src/" (looped.Holds "./src/../src/" ".java") paths ∧ paths.Nodup := by
  have hproper : looped.Proper := by decide +kernel
  have hsame : looped.follow linkLimit (looped.start "./src/../src/") (steps "./src/../src/") =
      looped.locate? "./src/../src/" := by
    decide +kernel
  have hdirect : looped.Direct "./src/../src/" := fun there hthere => hsame.trans hthere
  obtain ⟨-, -, paths, hfound, hexact⟩ := gather_exact hproper "./src/../src/" ".java"
  obtain ⟨hwalks, hnodup, -⟩ := hexact hdirect
  exact ⟨hproper, hdirect, by decide +kernel, paths, hfound ["z"], hwalks, hnodup⟩

def crossed : Workspace :=
  { root := .folder "" true [.folder "w" true [.link "l" "other/deep", .folder "other" true [
      .folder "deep" true [], .folder "sub" true [.file "B.java" (.bytes [])]]]]
    cwd := "/w" }

/-- Beyond the link `l` lies `other`, and `sub` is listed in it but looked for beside `l`. -/
theorem gather_goes_astray :
    crossed.Proper ∧ crossed.isFile "l/../sub/B.java" = true ∧
      crossed.Holds "l/.." ".java" ["sub", "B.java"] ∧
      crossed.gatherInto "l/.." ".java" [] = [] := by
  have hthere : crossed.locate? "l/.." = some ["w", "other"] := by decide +kernel
  refine ⟨by decide +kernel, by decide +kernel,
    ⟨"other", _, by rw [Workspace.entry?, hthere]; rfl, ?_⟩,
    by decide +kernel⟩
  exact ⟨_, .tail _ (.head _), .deeper (.head _) (.file (by decide))⟩

end Workspace
end ProjectLint
