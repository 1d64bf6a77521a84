/-
Ways through a file tree. A name leads from a folder to something in it, one level further down; a
link leads elsewhere, and a query follows only so many of them. So a path that leads somewhere is
spelled with few of the names that there are, and there are not too many canonical paths of folders.
A folder that is listed in another one is found where the path says.
-/
import Mathlib.Data.List.Perm.Subperm
import Mathlib.Data.List.Nodup
import ProjectLint.Proofs.Links

namespace ProjectLint

variable {listable : Bool}

/-! ## Plain paths -/

namespace Path

def moves (parts : List String) : List String :=
  parts.filter fun part => part ≠ "" ∧ part ≠ "."

structure IsPlain (path : String) : Prop where
  absolute : isAbsolute path = true
  down : ".." ∉ parts path

theorem simplified_of_down {given : List String} (h : ".." ∉ given) :
    simplified true given = moves given := by
  suffices hfold : ∀ stack, given.foldl (push true) stack = (moves given).reverse ++ stack by
    simp [simplified, hfold]
  induction given with
  | nil => simp [moves]
  | cons part rest ih =>
    intro stack
    obtain ⟨hpart, hrest⟩ := not_or.1 (List.mem_cons.not.1 h)
    rw [List.foldl_cons, ih hrest]
    by_cases hidle : part = "" ∨ part = "."
    · have hstay : ¬ (part ≠ "" ∧ part ≠ ".") := by tauto
      simp [push, moves, hidle, hstay]
    · have hmove : part ≠ "" ∧ part ≠ "." := not_or.1 hidle
      simp [push, moves, hmove, Ne.symm hpart]

theorem IsPlain.absoluteParts (h : IsPlain path) (cwd : String) :
    absoluteParts cwd path = moves (parts path) := by
  rw [Path.absoluteParts, if_pos h.absolute, simplified_of_down h.down]

theorem isPlain_normal {path : String} (h : isAbsolute path = true) : IsPlain (normal path) := by
  have hnames : ∀ name ∈ simplified true (parts path), IsName name :=
    isName_simplified fun part hpart => slash_of_mem_parts hpart
  rw [normal, h]
  generalize simplified true (parts path) = names at hnames
  by_cases hbody : Text.joined "/" names = ""
  · simp only [hbody, if_true]
    exact ⟨by decide, by decide⟩
  · have hne : names ≠ [] := by
      rintro rfl
      exact hbody rfl
    simp only [hbody, if_true, if_false]
    rw [String.append_assoc]
    refine ⟨isAbsolute_cons _, ?_⟩
    rw [parts_cons]
    by_cases hslash : Text.endsWith path "/" = true
    · have hjoined : Text.joined "/" names ++ "/" = Text.joined "/" (names ++ [""]) := by
        rw [joined_concat hne, String.append_empty]
      have hwhole : ∀ part ∈ names ++ [""], ∀ c ∈ part.toList, isSlash c = false := by
        intro part hpart
        rcases List.mem_append.1 hpart with hname | hlast
        · exact (hnames part hname).whole
        · rw [List.mem_singleton.1 hlast]
          exact List.forall_mem_nil _
      rw [if_pos hslash, hjoined, parts_joined_of_whole hwhole (by simp)]
      simpa using fun hmem => (hnames ".." hmem).proper.2.2 rfl
    · rw [if_neg hslash, String.append_empty, parts_joined hnames hne]
      simpa using fun hmem => (hnames ".." hmem).proper.2.2 rfl

theorem isPlain_join {dir : String} (h : isAbsolute dir = true) (name : String) :
    IsPlain (join dir name) := by
  rw [join]
  by_cases hdir : dir = ""
  · rw [hdir] at h
    cases h
  · rw [if_neg hdir]
    by_cases hname : name = ""
    · rw [if_pos hname]
      exact isPlain_normal h
    · rw [if_neg hname, String.append_assoc]
      exact isPlain_normal (isAbsolute_append h _)

end Path

/-! ## Down a tree -/

namespace Files.Entry

variable {entry child found : Entry} {entries : List Entry} {names : List String}

theorem child?_of_mem {name : String}
    (h : (folder name listable entries).isProper = true) (hchild : child ∈ entries) :
    (folder name listable entries).child? child.name = some child := by
  rw [child?]
  cases hfind : entries.find? (·.name == child.name) with
  | none => simpa using List.find?_eq_none.1 hfind child hchild
  | some other =>
    have hname : other.name = child.name := by simpa using List.find?_some hfind
    have hnodup := (isProper_folder.1 h).1
    rw [List.inj_on_of_nodup_map hnodup (List.mem_of_find?_eq_some hfind) hchild hname]

theorem descend?_append (entry : Entry) (names more : List String) :
    entry.descend? (names ++ more) = (entry.descend? names).bind (·.descend? more) := by
  induction names generalizing entry with
  | nil => rfl
  | cons name rest ih =>
    simp only [List.cons_append, descend?]
    cases entry.child? name with
    | none => rfl
    | some child => exact ih child

theorem descend?_concat {name : String} :
    entry.descend? (names ++ [name]) = some child ↔
      ∃ own listable entries, entry.descend? names = some (.folder own listable entries) ∧
        (folder own listable entries).child? name = some child := by
  rw [descend?_append, Option.bind_eq_some_iff]
  constructor
  · rintro ⟨last, hlast, hchild⟩
    replace hchild : last.child? name = some child := by simpa [descend?] using hchild
    obtain ⟨own, listable, entries, rfl, -, -⟩ := child?_eq_some hchild
    exact ⟨own, listable, entries, hlast, hchild⟩
  · rintro ⟨own, listable, entries, hlast, hchild⟩
    exact ⟨_, hlast, by simp [descend?, hchild]⟩

theorem depth_le_depths (h : child ∈ entries) : child.depth ≤ depths entries := by
  induction entries with
  | nil => cases h
  | cons first rest ih =>
    rw [depths]
    rcases List.mem_cons.1 h with rfl | hrest
    · omega
    · have := ih hrest
      omega

theorem depth_of_mem {name : String} (h : child ∈ entries) :
    child.depth < (folder name listable entries).depth := by
  have := depth_le_depths h
  rw [depth]
  omega

theorem length_add_depth (h : entry.descend? names = some found) :
    names.length + found.depth ≤ entry.depth := by
  induction names generalizing entry with
  | nil =>
    cases h
    simp
  | cons name rest ih =>
    obtain ⟨child, hchild, hrest⟩ := Option.bind_eq_some_iff.1 h
    obtain ⟨own, listable, entries, rfl, hmem, -⟩ := child?_eq_some hchild
    have hlevel : child.depth < (folder own listable entries).depth := depth_of_mem hmem
    have hbelow := ih hrest
    rw [List.length_cons]
    omega

mutual

def namesBelow : Entry → List String
  | .folder _ _ entries => namesAmong entries
  | _ => []

def namesAmong : List Entry → List String
  | [] => []
  | entry :: rest => entry.name :: entry.namesBelow ++ namesAmong rest

end

mutual

theorem length_namesBelow : ∀ entry : Entry, entry.namesBelow.length = entry.entryCount
  | .file _ _ => rfl
  | .link _ _ => rfl
  | .folder _ _ entries => length_namesAmong entries

theorem length_namesAmong : ∀ entries, (namesAmong entries).length = entryCounts entries
  | [] => rfl
  | entry :: rest => by
      have hfirst := length_namesBelow entry
      have hrest := length_namesAmong rest
      simp only [namesAmong, entryCounts, List.length_append, List.length_cons]
      omega

end

theorem mem_namesAmong (h : child ∈ entries) :
    child.name ∈ namesAmong entries ∧ child.namesBelow ⊆ namesAmong entries := by
  induction entries with
  | nil => cases h
  | cons first rest ih =>
    rcases List.mem_cons.1 h with rfl | hrest
    · exact ⟨by simp [namesAmong], fun name hname => by simp [namesAmong, hname]⟩
    · obtain ⟨hname, hbelow⟩ := ih hrest
      refine ⟨by simp [namesAmong, hname], fun name hmem => ?_⟩
      have := hbelow hmem
      simp [namesAmong, this]

theorem mem_namesBelow (h : entry.descend? names = some found) :
    ∀ name ∈ names, name ∈ entry.namesBelow := by
  induction names generalizing entry with
  | nil => simp
  | cons name rest ih =>
    obtain ⟨child, hchild, hrest⟩ := Option.bind_eq_some_iff.1 h
    obtain ⟨own, listable, entries, rfl, hmem, rfl⟩ := child?_eq_some hchild
    obtain ⟨hname, hbelow⟩ := mem_namesAmong hmem
    rw [List.forall_mem_cons]
    exact ⟨hname, fun other hother => hbelow (ih hrest other hother)⟩

end Files.Entry

/-! ## Along links -/

namespace Workspace

open Files Path

variable {names : List String}

inductive Leads (ws : Workspace) : Nat → List String → List String → List String → Prop
  | arrived : Leads ws links here [] here
  | stay : ws.root.descend? here = some entry → entry.isFolder = true → part = "" ∨ part = "." →
      Leads ws links here rest there → Leads ws links here (part :: rest) there
  | up : ws.root.descend? here = some entry → entry.isFolder = true →
      Leads ws links here.dropLast rest there → Leads ws links here (".." :: rest) there
  | down : part ≠ "" ∧ part ≠ "." ∧ part ≠ ".." →
      ws.root.descend? (here ++ [part]) = some child → (∀ name target, child ≠ .link name target) →
      Leads ws links (here ++ [part]) rest there → Leads ws links here (part :: rest) there
  | link : part ≠ "" ∧ part ≠ "." ∧ part ≠ ".." →
      ws.root.descend? (here ++ [part]) = some (.link name target) →
      Leads ws links (if isAbsolute target then [] else here) (parts target ++ rest) there →
      Leads ws (links + 1) here (part :: rest) there

variable {ws : Workspace} {links : Nat} {here there todo rest : List String} {dir : String}

theorem leads_of_walk {onLink : List String → List String → Option (List String)}
    (hlink : ∀ base todo, onLink base todo = some there →
      ∃ fewer, links = fewer + 1 ∧ Leads ws fewer base todo there) :
    ∀ {todo here}, ws.walk onLink here todo = some there → Leads ws links here todo there := by
  intro todo
  induction todo with
  | nil =>
    intro here h
    cases h
    exact .arrived
  | cons part rest ih =>
    intro here h
    rw [walk] at h
    cases hhere : ws.root.descend? here with
    | none => simp [hhere] at h
    | some entry =>
      cases entry with
      | file | link => simp [hhere] at h
      | folder own listable entries =>
        simp only [hhere] at h
        by_cases hidle : part = "" ∨ part = "."
        · rw [if_pos hidle] at h
          exact .stay hhere rfl hidle (ih h)
        · rw [if_neg hidle] at h
          by_cases hdots : part = ".."
          · rw [if_pos hdots] at h
            subst hdots
            exact .up hhere rfl (ih h)
          · rw [if_neg hdots] at h
            have hpart : part ≠ "" ∧ part ≠ "." ∧ part ≠ ".." := by tauto
            cases hfound : (Entry.folder own listable entries).child? part with
            | none => simp [hfound] at h
            | some child =>
              have hchild : ws.root.descend? (here ++ [part]) = some child :=
                Entry.descend?_concat.2 ⟨own, listable, entries, hhere, hfound⟩
              rw [hfound] at h
              cases child with
              | link name target =>
                obtain ⟨fewer, rfl, hleads⟩ := hlink _ _ h
                exact .link hpart hchild hleads
              | file name content =>
                exact .down hpart hchild (fun _ _ heq => by cases heq) (ih h)
              | folder name listed inner =>
                exact .down hpart hchild (fun _ _ heq => by cases heq) (ih h)

theorem leads_of_follow (h : ws.follow links here todo = some there) :
    Leads ws links here todo there := by
  induction links generalizing here todo with
  | zero => exact leads_of_walk (fun _ _ hnone => by cases hnone) h
  | succ fewer ih => exact leads_of_walk (fun _ _ hlink => ⟨fewer, rfl, ih hlink⟩) h

theorem Leads.follow (h : Leads ws links here todo there) :
    ws.follow links here todo = some there := by
  induction h with
  | @arrived links here => cases links <;> rfl
  | @stay here entry part links rest there hhere hfolder hidle _ ih =>
    cases entry with
    | file | link => cases hfolder
    | folder own listable entries =>
      cases links <;> simpa [Workspace.follow, walk, hhere, hidle] using ih
  | @up here entry links rest there hhere hfolder _ ih =>
    cases entry with
    | file | link => cases hfolder
    | folder own listable entries =>
      cases links <;> simpa [Workspace.follow, walk, hhere] using ih
  | @down part here child links rest there hpart hchild hplain _ ih =>
    obtain ⟨own, listable, entries, hhere, hfound⟩ := Entry.descend?_concat.1 hchild
    cases child with
    | link name target => exact absurd rfl (hplain name target)
    | file | folder =>
      cases links <;> simpa [Workspace.follow, walk, hhere, hfound, hpart] using ih
  | @link part here name target links rest there hpart hchild _ ih =>
    obtain ⟨own, listable, entries, hhere, hfound⟩ := Entry.descend?_concat.1 hchild
    simpa [Workspace.follow, walk, hhere, hfound, hpart] using ih

theorem Leads.after_idle {part : String} (h : Leads ws links here (part :: rest) there)
    (hidle : part = "" ∨ part = ".") : Leads ws links here rest there := by
  cases h with
  | stay _ _ _ hrest => exact hrest
  | up => simp at hidle
  | down hpart | link hpart => tauto

theorem Leads.concat (h : Leads ws links here todo there) {name : String} {child : Entry}
    (hname : name ≠ "" ∧ name ≠ "." ∧ name ≠ "..")
    (hchild : ws.root.descend? (there ++ [name]) = some child)
    (hplain : ∀ own target, child ≠ .link own target) :
    Leads ws links here (todo ++ [name]) (there ++ [name]) := by
  induction h with
  | arrived => exact .down hname hchild hplain .arrived
  | stay hhere hfolder hidle _ ih => exact .stay hhere hfolder hidle (ih hchild)
  | up hhere hfolder _ ih => exact .up hhere hfolder (ih hchild)
  | down hpart hfound hdown _ ih => exact .down hpart hfound hdown (ih hchild)
  | link hpart hfound _ ih =>
    have hrest := ih hchild
    rw [List.append_assoc] at hrest
    exact .link hpart hfound hrest

def start (ws : Workspace) (path : String) : List String :=
  if isAbsolute path then [] else absoluteParts "/" ws.cwd

theorem locate?_eq_some {path : String} : ws.locate? path = some there ↔
    path ≠ "" ∧ Leads ws linkLimit (ws.start path) (parts path) there := by
  rw [locate?]
  by_cases hpath : path = ""
  · simp [hpath]
  · rw [if_neg hpath]
    exact ⟨fun h => ⟨hpath, leads_of_follow h⟩, fun h => h.2.follow⟩

/-- The steps that are left of a path, without `.` and `..`, lead where the path leads. A path is
not direct where it leaves a folder that it came to through a link. -/
def Direct (ws : Workspace) (dir : String) : Prop :=
  ∀ there, ws.locate? dir = some there → ws.follow linkLimit (ws.start dir) (steps dir) = some there

theorem direct_join (ws : Workspace) (dir : String) {name : String} (hname : IsName name) :
    ws.Direct (join dir name) := by
  intro there hthere
  rw [steps_join dir hname, ← parts_join dir hname]
  exact (locate?_eq_some.1 hthere).2.follow

theorem Direct.entry?_join (hdirect : ws.Direct dir) (hproper : ws.Proper) {own : String}
    {entries : List Entry} (hfolder : ws.entry? dir = some (.folder own listable entries))
    {child : Entry} (hchild : child ∈ entries) (hplain : ∀ own target, child ≠ .link own target) :
    ws.entry? (join dir child.name) = some child := by
  have hname : IsName child.name :=
    ((Entry.isProper_folder.1 (hproper.entry hfolder)).2 child hchild).1
  obtain ⟨there, hthere, hdescend⟩ := Option.bind_eq_some_iff.1 hfolder
  have hbelow : ws.root.descend? (there ++ [child.name]) = some child :=
    Entry.descend?_concat.2 ⟨own, listable, entries, hdescend,
      Entry.child?_of_mem (hproper.entry hfolder) hchild⟩
  have hleads := (leads_of_follow (hdirect there hthere)).concat hname.proper hbelow hplain
  have hparts := parts_join dir hname
  have hne : join dir child.name ≠ "" := fun hempty => by
    rw [hempty, show parts "" = [""] from rfl] at hparts
    exact hname.proper.1 (by simpa using (congrArg List.getLast? hparts).symm)
  rw [start, ← isAbsolute_join dir hname, ← hparts] at hleads
  rw [Workspace.entry?, locate?_eq_some.2 ⟨hne, hleads⟩]
  exact hbelow

theorem Direct.of_spells (h : Spells names dir) : ws.Direct dir := by
  rcases List.eq_nil_or_concat' names with rfl | ⟨front, name, rfl⟩
  · intro there hthere
    -- the path of the root has two empty parts
    rw [h.2] at hthere ⊢
    exact ((locate?_eq_some.1 hthere).2.after_idle (.inl rfl)).follow
  · have hdir := h.parent.join (h.1 name (by simp))
    rw [h.2, ← hdir.2]
    exact direct_join _ _ (h.1 name (by simp))

theorem isAbsolute_canonical (ws : Workspace) (path : String) :
    isAbsolute (ws.canonical path) = true := by
  obtain ⟨names, hnames⟩ := ws.spells_canonical path
  exact hnames.isAbsolute

/-! ## How many paths there are -/

structure Spelled (ws : Workspace) (bound : Nat) (names : List String) : Prop where
  length : names.length ≤ bound
  known : ∀ name ∈ names, name ∈ ws.root.namesBelow

theorem spelled_of_descend {entry : Entry}
    (h : ws.root.descend? names = some entry) : Spelled ws ws.root.depth names := by
  have := Entry.length_add_depth h
  exact ⟨by omega, Entry.mem_namesBelow h⟩

theorem Spelled.mono {bound more : Nat} (h : Spelled ws bound names)
    (hmore : bound ≤ more) : Spelled ws more names :=
  ⟨Nat.le_trans h.length hmore, h.known⟩

theorem moves_cons {part : String} (hpart : part ≠ "" ∧ part ≠ ".") :
    moves (part :: rest) = part :: moves rest := by
  simp [moves, hpart]

theorem moves_cons_idle {part : String} (hpart : part = "" ∨ part = ".") :
    moves (part :: rest) = moves rest := by
  have hstay : ¬ (part ≠ "" ∧ part ≠ ".") := by tauto
  simp [moves, hstay]

theorem Leads.spelled (h : Leads ws links here todo there) :
    ∀ before rest, todo = before ++ rest → ".." ∉ rest →
      Spelled ws (links * (ws.root.depth + 1) + ws.root.depth) (moves rest) ∧
        (before = [] → moves rest ≠ [] → (moves rest).length + here.length ≤
          links * (ws.root.depth + 1) + ws.root.depth) := by
  induction h with
  | arrived =>
    intro before rest htodo _
    obtain ⟨-, rfl⟩ := List.append_eq_nil_iff.1 htodo.symm
    exact ⟨⟨by simp [moves], by simp [moves]⟩, fun _ hne => absurd rfl hne⟩
  | stay _ _ hidle _ ih =>
    intro before rest htodo hrest
    cases before with
    | nil =>
      subst htodo
      rw [moves_cons_idle hidle]
      exact ih [] _ rfl fun hmem => hrest (List.mem_cons_of_mem _ hmem)
    | cons first others =>
      obtain ⟨-, rfl⟩ := List.cons.inj htodo
      exact ⟨(ih others rest rfl hrest).1, fun hnil => by cases hnil⟩
  | up _ _ _ ih =>
    intro before rest htodo hrest
    cases before with
    | nil =>
      subst htodo
      exact absurd List.mem_cons_self hrest
    | cons first others =>
      obtain ⟨-, rfl⟩ := List.cons.inj htodo
      exact ⟨(ih others rest rfl hrest).1, fun hnil => by cases hnil⟩
  | @down part here child links more there hpart hchild hplain _ ih =>
    intro before rest htodo hrest
    cases before with
    | nil =>
      subst htodo
      have hlevel := Entry.length_add_depth hchild
      obtain ⟨hspelled, hlength⟩ := ih [] more rfl fun hmem => hrest (List.mem_cons_of_mem _ hmem)
      have hbelow : (moves more).length + 1 + here.length ≤
          links * (ws.root.depth + 1) + ws.root.depth := by
        rw [List.length_append, List.length_singleton] at hlevel hlength
        by_cases hne : moves more = []
        · rw [hne, List.length_nil]
          omega
        · have := hlength rfl hne
          omega
      rw [moves_cons ⟨hpart.1, hpart.2.1⟩, List.length_cons]
      refine ⟨⟨by rw [List.length_cons]; omega, List.forall_mem_cons.2 ⟨?_, hspelled.known⟩⟩,
        fun _ _ => hbelow⟩
      exact Entry.mem_namesBelow hchild part (by simp)
    | cons first others =>
      obtain ⟨-, rfl⟩ := List.cons.inj htodo
      exact ⟨(ih others rest rfl hrest).1, fun hnil => by cases hnil⟩
  | @link part here name target links more there hpart hchild _ ih =>
    intro before rest htodo hrest
    rw [Nat.succ_mul]
    cases before with
    | nil =>
      subst htodo
      have hlevel := Entry.length_add_depth hchild
      rw [List.length_append, List.length_singleton] at hlevel
      obtain ⟨hspelled, -⟩ :=
        ih (parts target) more rfl fun hmem => hrest (List.mem_cons_of_mem _ hmem)
      have := hspelled.length
      rw [moves_cons ⟨hpart.1, hpart.2.1⟩, List.length_cons]
      refine ⟨⟨by rw [List.length_cons]; omega, List.forall_mem_cons.2 ⟨?_, hspelled.known⟩⟩,
        fun _ _ => by omega⟩
      exact Entry.mem_namesBelow hchild part (by simp)
    | cons first others =>
      obtain ⟨-, rfl⟩ := List.cons.inj htodo
      obtain ⟨hspelled, -⟩ := ih (parts target ++ others) rest (List.append_assoc _ _ _).symm hrest
      exact ⟨hspelled.mono (by omega), fun hnil => by cases hnil⟩

theorem spelled_canonical {path : String} (hplain : IsPlain path)
    (hfolder : ws.isFolder path = true) :
    ∃ names, ws.canonical path = ofParts names ∧ (∀ name ∈ names, IsName name) ∧
      Spelled ws ((linkLimit + 1) * (ws.root.depth + 1)) names := by
  rw [Nat.succ_mul]
  rcases ws.canonical_cases path with ⟨real, -, hlinkless, hreal⟩ | hresolve
  · have hleads : ∃ entry, ws.root.descend? real = some entry := by
      by_cases hne : real = []
      · exact ⟨ws.root, by rw [hne]; rfl⟩
      · obtain ⟨entry, hentry, -⟩ := hlinkless.way real hne (List.prefix_refl _)
        exact ⟨entry, hentry⟩
    obtain ⟨entry, hentry⟩ := hleads
    exact ⟨real, hreal, hlinkless.named, (spelled_of_descend hentry).mono (by omega)⟩
  · refine ⟨absoluteParts ws.cwd path, hresolve, isName_absoluteParts _ _, ?_⟩
    obtain ⟨entry, hentry, -⟩ := (Option.any_eq_true _ _).1 hfolder
    obtain ⟨there, hthere, -⟩ := Option.bind_eq_some_iff.1 hentry
    have hleads := (locate?_eq_some.1 hthere).2
    rw [start, hplain.absolute] at hleads
    have hspelled := (hleads.spelled [] _ rfl hplain.down).1
    rw [hplain.absoluteParts]
    exact hspelled.mono (by omega)

def spellings (names : List String) : Nat → List (List String)
  | 0 => [[]]
  | length + 1 => [] :: names.flatMap fun name => (spellings names length).map (name :: ·)

theorem mem_spellings {known : List String} {bound : Nat} (hlength : names.length ≤ bound)
    (hknown : ∀ name ∈ names, name ∈ known) : names ∈ spellings known bound := by
  induction bound generalizing names with
  | zero =>
    obtain rfl : names = [] := List.length_eq_zero_iff.1 (by omega)
    simp [spellings]
  | succ bound ih =>
    cases names with
    | nil => simp [spellings]
    | cons name rest =>
      obtain ⟨hname, hrest⟩ := List.forall_mem_cons.1 hknown
      have := ih (by simpa using hlength) hrest
      simp [spellings, hname, this]

theorem length_spellings (names : List String) (bound : Nat) :
    (spellings names bound).length ≤ (names.length + 1).pow bound := by
  induction bound with
  | zero => simp [spellings]
  | succ bound ih =>
    have hpos : 1 ≤ (names.length + 1).pow bound := Nat.pow_pos (Nat.succ_pos _)
    have hmore := Nat.mul_le_mul_left names.length ih
    have hpow : (names.length + 1).pow (bound + 1) =
        names.length * (names.length + 1).pow bound + (names.length + 1).pow bound := by
      rw [Nat.pow_eq, Nat.pow_succ, Nat.mul_comm, Nat.succ_mul]
      rfl
    have hlength : (spellings names (bound + 1)).length =
        names.length * (spellings names bound).length + 1 := by
      simp [spellings, List.length_flatMap]
    omega

def IsFolderKey (ws : Workspace) (key : String) : Prop :=
  ∃ path, IsPlain path ∧ ws.isFolder path = true ∧ key = ws.canonical path

theorem length_le_folderRoom {keys : List String} (hnodup : keys.Nodup)
    (hkeys : ∀ key ∈ keys, ws.IsFolderKey key) : keys.length ≤ ws.folderRoom := by
  have hspelled : ∀ key ∈ keys, key = ofParts (absoluteParts "/" key) ∧
      Spelled ws ((linkLimit + 1) * (ws.root.depth + 1)) (absoluteParts "/" key) := by
    intro key hkey
    obtain ⟨path, hplain, hfolder, rfl⟩ := hkeys key hkey
    obtain ⟨names, hnames, hproper, hspelled⟩ := spelled_canonical hplain hfolder
    rw [hnames, absoluteParts_ofParts _ hproper]
    exact ⟨rfl, hspelled⟩
  have hwords : (keys.map (absoluteParts "/")).Nodup := by
    refine hnodup.map_on fun key hkey other hother heq => ?_
    rw [(hspelled key hkey).1, (hspelled other hother).1, heq]
  have hknown : keys.map (absoluteParts "/") ⊆
      spellings ws.root.namesBelow ((linkLimit + 1) * (ws.root.depth + 1)) := by
    intro names hmem
    obtain ⟨key, hkey, rfl⟩ := List.mem_map.1 hmem
    exact mem_spellings (hspelled key hkey).2.length (hspelled key hkey).2.known
  calc keys.length = (keys.map (absoluteParts "/")).length := (List.length_map _).symm
    _ ≤ _ := (hwords.subperm hknown).length_le
    _ ≤ _ := length_spellings _ _
    _ = ws.folderRoom := by rw [Entry.length_namesBelow, folderRoom]

end Workspace
end ProjectLint
