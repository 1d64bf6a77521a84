/-
The order in which files are found. A folder is listed by the UTF-16 units of the names in it, which
tell all names apart, so a listing is strictly ordered and has every entry once. A walk through a
folder follows the listings all the way down: it finds the files below in the lexicographic order of
the names that lead to them. Links are not followed, and what cannot be listed is passed by.
-/
import ProjectLint.Proofs.Ways

namespace ProjectLint

variable {names parts : List String}

/-! ## Sorting -/

section Sorting

variable {le : α → α → Bool} (total : ∀ a b, le a b = true ∨ le b a = true)
  (trans : ∀ {a b c}, le a b = true → le b c = true → le a c = true)

include total trans

theorem pairwise_insertBy {l : List α} (h : l.Pairwise fun a b => le a b = true) (a : α) :
    (insertBy le a l).Pairwise fun a b => le a b = true := by
  induction l with
  | nil => exact List.pairwise_singleton _ a
  | cons b rest ih =>
    obtain ⟨hfirst, hrest⟩ := List.pairwise_cons.1 h
    rw [insertBy]
    by_cases hle : le a b = true
    · rw [if_pos hle]
      refine List.pairwise_cons.2 ⟨List.forall_mem_cons.2 ⟨hle, fun c hc => ?_⟩, h⟩
      exact trans hle (hfirst c hc)
    · rw [if_neg hle]
      refine List.pairwise_cons.2 ⟨fun c hc => ?_, ih hrest⟩
      rcases List.mem_cons.1 ((perm_insertBy le a rest).mem_iff.1 hc) with rfl | hc
      · exact (total c b).resolve_left hle
      · exact hfirst c hc

theorem pairwise_sortBy (l : List α) : (sortBy le l).Pairwise fun a b => le a b = true := by
  induction l with
  | nil => exact .nil
  | cons a rest ih => exact pairwise_insertBy total trans ih a

end Sorting

theorem map_insertBy {f : α → β} {le : β → β → Bool} (a : α) (l : List α) :
    (insertBy (fun a b => le (f a) (f b)) a l).map f = insertBy le (f a) (l.map f) := by
  induction l with
  | nil => rfl
  | cons b rest ih =>
    rw [List.map_cons, insertBy, insertBy]
    by_cases hle : le (f a) (f b) = true
    · rw [if_pos hle, if_pos hle, List.map_cons, List.map_cons]
    · rw [if_neg hle, if_neg hle, List.map_cons, ih]

theorem map_sortBy {f : α → β} {le : β → β → Bool} (l : List α) :
    (sortBy (fun a b => le (f a) (f b)) l).map f = sortBy le (l.map f) := by
  induction l with
  | nil => rfl
  | cons a rest ih => rw [sortBy, map_insertBy, ih, List.map_cons, sortBy]

/-! ## The order of names -/

namespace Text

variable {a b : String}

def Precedes (a b : String) : Prop :=
  units a < units b

theorem unitsLe_iff : unitsLe a b = true ↔ ¬ units b < units a := by
  rw [unitsLe, Bool.not_eq_true', decide_eq_false_iff_not]

theorem unitsLe_total (a b : String) : unitsLe a b = true ∨ unitsLe b a = true := by
  rw [unitsLe_iff, unitsLe_iff]
  exact (List.le_total (units a) (units b)).imp List.not_lt.2 List.not_lt.2

theorem unitsLe_trans {c : String} (hab : unitsLe a b = true) (hbc : unitsLe b c = true) :
    unitsLe a c = true := by
  rw [unitsLe_iff] at hab hbc ⊢
  exact List.not_lt.2 (List.le_trans (List.not_lt.1 hab) (List.not_lt.1 hbc))

theorem charUnits_append_inj {c d : Char} {rest others : List Nat}
    (h : charUnits c ++ rest = charUnits d ++ others) : c = d ∧ rest = others := by
  have hc : c.toNat < 0xD800 ∨ 0xDFFF < c.toNat ∧ c.toNat < 0x110000 := c.valid
  have hd : d.toNat < 0xD800 ∨ 0xDFFF < d.toNat ∧ d.toNat < 0x110000 := d.valid
  rw [charUnits, charUnits] at h
  by_cases hlow : c.toNat < 0x10000
  · rw [if_pos hlow] at h
    by_cases hlow' : d.toNat < 0x10000
    · rw [if_pos hlow'] at h
      obtain ⟨hsame, hrest⟩ := List.cons_eq_cons.1 h
      exact ⟨Char.toNat_inj.1 hsame, hrest⟩
    · rw [if_neg hlow'] at h
      have hsame := (List.cons_eq_cons.1 h).1
      omega
  · rw [if_neg hlow] at h
    by_cases hlow' : d.toNat < 0x10000
    · rw [if_pos hlow'] at h
      have hsame := (List.cons_eq_cons.1 h).1
      omega
    · rw [if_neg hlow'] at h
      obtain ⟨hfirst, h⟩ := List.cons_eq_cons.1 h
      obtain ⟨hsecond, hrest⟩ := List.cons_eq_cons.1 h
      exact ⟨Char.toNat_inj.1 (by omega), hrest⟩

theorem units_injective (h : units a = units b) : a = b := by
  suffices hchars : ∀ cs ds : List Char, cs.flatMap charUnits = ds.flatMap charUnits → cs = ds from
    String.toList_inj.1 (hchars _ _ h)
  intro cs
  induction cs with
  | nil =>
    intro ds h
    cases ds with
    | nil => rfl
    | cons d ds =>
      rw [List.flatMap_nil, List.flatMap_cons, charUnits] at h
      split at h <;> cases h
  | cons c cs ih =>
    intro ds h
    cases ds with
    | nil =>
      rw [List.flatMap_nil, List.flatMap_cons, charUnits] at h
      split at h <;> cases h
    | cons d ds =>
      rw [List.flatMap_cons, List.flatMap_cons] at h
      obtain ⟨rfl, hrest⟩ := charUnits_append_inj h
      rw [ih ds hrest]

theorem precedes_of_unitsLe (hle : unitsLe a b = true) (hne : a ≠ b) : Precedes a b := by
  by_contra hnot
  have hsame : units a = units b :=
    List.le_antisymm (List.not_lt.1 (unitsLe_iff.1 hle)) (List.not_lt.1 hnot)
  exact hne (units_injective hsame)

theorem not_lex_self (names : List String) : ¬ List.Lex Precedes names names := by
  induction names with
  | nil => exact List.not_lex_nil
  | cons name rest ih =>
    intro h
    cases h with
    | rel hself => exact List.lt_irrefl (units name) hself
    | cons hrest => exact ih hrest

theorem precedes_sortedByUnits (h : names.Nodup) : (sortedByUnits names).Pairwise Precedes := by
  have hordered : (sortedByUnits names).Pairwise fun a b => unitsLe a b = true :=
    pairwise_sortBy unitsLe_total unitsLe_trans names
  have hdistinct : (sortedByUnits names).Nodup := (perm_sortBy unitsLe names).nodup_iff.2 h
  exact (hordered.and hdistinct).imp fun ⟨hle, hne⟩ => precedes_of_unitsLe hle hne

end Text

/-! ## Walks -/

theorem Path.Spells.foldl_join {dir : String} (h : Spells parts dir)
    (hnames : ∀ name ∈ names, IsName name) :
    Spells (parts ++ names) (names.foldl Path.join dir) := by
  induction names generalizing parts dir with
  | nil => rwa [List.append_nil]
  | cons name rest ih =>
    obtain ⟨hname, hrest⟩ := List.forall_mem_cons.1 hnames
    have hdeeper := ih (h.join hname) hrest
    rwa [List.append_assoc] at hdeeper

namespace Files.Entry

def sorted (entries : List Entry) : List Entry :=
  sortBy (fun a b => Text.unitsLe a.name b.name) entries

theorem mem_sorted {entries : List Entry} {child : Entry} : child ∈ sorted entries ↔
    child ∈ entries :=
  (perm_sortBy _ entries).mem_iff

theorem precedes_sorted {entries : List Entry} (h : (entries.map Entry.name).Nodup) :
    ((sorted entries).map Entry.name).Pairwise Text.Precedes := by
  rw [sorted, map_sortBy]
  exact Text.precedes_sortedByUnits h

/-- What a walk through an entry finds: the names lead from it, through folders that let themselves
be listed, to a file whose name ends in `tail`. -/
inductive Route (tail : String) : Entry → List String → Prop
  | file {own : String} {content : Content} :
      Text.endsWith own tail = true → Route tail (.file own content) [own]
  | deeper {own : String} {entries : List Entry} {child : Entry} {names : List String} :
      child ∈ entries → Route tail child names →
      Route tail (.folder own true entries) (own :: names)

variable {tail dir : String} {children : List Entry}

theorem Route.head {entry : Entry} (h : Route tail entry names) :
    ∃ rest, names = entry.name :: rest := by
  cases h with
  | file => exact ⟨[], rfl⟩
  | deeper => exact ⟨_, rfl⟩

theorem Route.isName {entry : Entry} (h : Route tail entry names)
    (hname : Path.IsName entry.name) (hproper : entry.isProper = true) :
    ∀ name ∈ names, Path.IsName name := by
  induction h with
  | file => exact List.forall_mem_singleton.2 hname
  | deeper hchild _ ih =>
    obtain ⟨-, hall⟩ := isProper_folder.1 hproper
    exact List.forall_mem_cons.2 ⟨hname, ih (hall _ hchild).1 (hall _ hchild).2⟩

/-- The paths lead from a folder to all that has a property, in order. -/
def Walks (dir : String) (P : List String → Prop) (paths : List String) : Prop :=
  ∃ routes : List (List String), paths = routes.map (·.foldl Path.join dir) ∧
    routes.Pairwise (List.Lex Text.Precedes) ∧ ∀ names, names ∈ routes ↔ P names

theorem walks_nil {P : List String → Prop} (h : ∀ names, ¬ P names) : Walks dir P [] :=
  ⟨[], rfl, .nil, fun names => iff_of_false List.not_mem_nil (h names)⟩

theorem walks_singleton (names : List String) {P : List String → Prop}
    (h : ∀ more, P more ↔ more = names) :
    Walks dir P [names.foldl Path.join dir] :=
  ⟨[names], rfl, List.pairwise_singleton _ _, fun more => List.mem_singleton.trans (h more).symm⟩

theorem Walks.congr {P Q : List String → Prop} {paths : List String} (h : Walks dir P paths)
    (hPQ : ∀ names, P names ↔ Q names) : Walks dir Q paths := by
  obtain ⟨routes, hpaths, hordered, hroutes⟩ := h
  exact ⟨routes, hpaths, hordered, fun names => (hroutes names).trans (hPQ names)⟩

theorem Walks.under {name : String} {P : List String → Prop} {paths : List String}
    (h : Walks (Path.join dir name) P paths) :
    Walks dir (fun names => ∃ rest, names = name :: rest ∧ P rest) paths := by
  obtain ⟨routes, hpaths, hordered, hroutes⟩ := h
  refine ⟨routes.map (name :: ·), ?_, List.pairwise_map.2 (hordered.imp .cons), fun names => ?_⟩
  · rw [hpaths, List.map_map]
    rfl
  · simp only [List.mem_map, hroutes]
    exact exists_congr fun rest => and_comm.trans (and_congr_left fun _ => eq_comm)

theorem walks_flatMap {P : Entry → List String → Prop} {shares : Entry → List String}
    (hhead : ∀ {child names}, P child names → ∃ rest, names = child.name :: rest)
    (hsorted : (children.map Entry.name).Pairwise Text.Precedes)
    (h : ∀ child ∈ children, Walks dir (P child) (shares child)) :
    Walks dir (fun names => ∃ child ∈ children, P child names) (children.flatMap shares) := by
  induction children with
  | nil => exact walks_nil fun _ ⟨_, hchild, _⟩ => absurd hchild List.not_mem_nil
  | cons first rest ih =>
    rw [List.map_cons] at hsorted
    obtain ⟨hfirst, hrest⟩ := List.pairwise_cons.1 hsorted
    obtain ⟨routes, hpaths, hordered, hroutes⟩ := h first List.mem_cons_self
    obtain ⟨others, hpaths', hordered', hothers⟩ :=
      ih hrest fun child hchild => h child (List.mem_cons_of_mem _ hchild)
    refine ⟨routes ++ others, ?_, ?_, fun names => ?_⟩
    · rw [List.flatMap_cons, hpaths, hpaths', List.map_append]
    · refine List.pairwise_append.2 ⟨hordered, hordered', fun names hnames more hmore => ?_⟩
      obtain ⟨_, rfl⟩ := hhead ((hroutes names).1 hnames)
      obtain ⟨child, hchild, hroute⟩ := (hothers more).1 hmore
      obtain ⟨_, rfl⟩ := hhead hroute
      exact .rel (hfirst _ (List.mem_map_of_mem hchild))
    · rw [List.mem_append, hroutes, hothers]
      exact (List.exists_mem_cons_iff (P · names) first rest).symm

theorem Walks.nodup {P : List String → Prop} {paths : List String} (h : Walks dir P paths)
    (hnames : ∀ names, P names → names ≠ [] ∧ ∀ name ∈ names, Path.IsName name) : paths.Nodup := by
  obtain ⟨routes, rfl, hordered, hroutes⟩ := h
  refine List.Nodup.map_on (fun names hmem others hothers heq => ?_) ?_
  · obtain ⟨hne, hnamed⟩ := hnames names ((hroutes names).1 hmem)
    obtain ⟨hne', hnamed'⟩ := hnames others ((hroutes others).1 hothers)
    have hparts := congrArg Path.parts heq
    rw [Path.parts_foldl_join dir hne hnamed, Path.parts_foldl_join dir hne' hnamed'] at hparts
    exact List.append_cancel_left hparts
  · refine hordered.imp fun {names others} hlex heq => ?_
    exact Text.not_lex_self others (heq ▸ hlex)

theorem gatherAll_eq (tail dir : String) (entries : List Entry) :
    gatherAll tail dir entries = entries.map fun entry => (entry.name, entry.gather tail dir) := by
  induction entries with
  | nil => rfl
  | cons entry rest ih => rw [gatherAll, ih, List.map_cons]

theorem inNameOrder_gatherAll (tail dir : String) (entries : List Entry) :
    inNameOrder (gatherAll tail dir entries) = (sorted entries).flatMap (gather tail dir) := by
  rw [inNameOrder, gatherAll_eq, ← map_sortBy, List.flatMap_map]
  rfl

theorem walks_gather (entry : Entry) (h : entry.isProper = true) (tail dir : String) :
    Walks dir (Route tail entry) (entry.gather tail dir) := by
  -- Folders are walked through from the deepest ones up.
  induction hdepth : entry.depth using Nat.strongRecOn generalizing entry dir with
  | _ depth ih =>
  cases entry with
  | file name content =>
    rw [gather]
    by_cases htail : Text.endsWith name tail = true
    · rw [if_pos htail]
      refine walks_singleton [name] fun names => ⟨fun hroute => ?_, fun hnames => ?_⟩
      · cases hroute
        rfl
      · exact hnames ▸ .file htail
    · rw [if_neg htail]
      refine walks_nil fun names hroute => ?_
      cases hroute with
      | file hname => exact htail hname
  | link name target =>
    exact walks_nil fun names hroute => by cases hroute
  | folder name listable entries =>
    cases listable with
    | false => exact walks_nil fun names hroute => by cases hroute
    | true =>
      obtain ⟨hnodup, hall⟩ := isProper_folder.1 h
      have hinner : ∀ child ∈ sorted entries, Walks (Path.join dir name) (Route tail child)
          (child.gather tail (Path.join dir name)) := fun child hchild =>
        ih child.depth (hdepth ▸ depth_of_mem (mem_sorted.1 hchild)) child
          (hall child (mem_sorted.1 hchild)).2 (Path.join dir name) rfl
      rw [gather, if_pos rfl, inNameOrder_gatherAll]
      refine (walks_flatMap Route.head (precedes_sorted hnodup) hinner).under.congr fun names => ?_
      constructor
      · rintro ⟨more, rfl, child, hchild, hroute⟩
        exact .deeper (mem_sorted.1 hchild) hroute
      · intro hroute
        cases hroute with
        | deeper hchild hmore => exact ⟨_, rfl, _, mem_sorted.2 hchild, hmore⟩

end Files.Entry

namespace Workspace

open Files Path

variable {ws : Workspace} {dir own : String} {entries : List Entry}

theorem entries?_of_folder (h : ws.entry? dir = some (.folder own true entries)) :
    ws.entries? dir = some (Entry.sorted entries) := by
  rw [entries?, h]
  rfl

theorem list_of_folder (h : ws.entry? dir = some (.folder own true entries)) :
    ws.list dir = (Text.sortedByUnits (entries.map Entry.name)).map (Path.join dir) := by
  rw [list, entries?_of_folder h, Option.getD_some, Entry.sorted, Text.sortedByUnits,
    ← map_sortBy, List.map_map]
  rfl

theorem gather_of_folder (hproper : ws.Proper) (hdir : ws.Direct dir)
    (h : ws.entry? dir = some (.folder own true entries)) (tail : String) :
    ws.gather dir tail = (Entry.sorted entries).flatMap (Entry.gather tail dir) := by
  rw [gather, entries?_of_folder h, Option.getD_some]
  refine List.flatMap_congr fun child hchild => ?_
  cases child with
  | file | link => rfl
  | folder name listable inner =>
    have hthere := hdir.entry?_join hproper h (Entry.mem_sorted.1 hchild)
      fun _ _ hlink => by cases hlink
    dsimp only [Entry.name] at hthere ⊢
    rw [hthere, Entry.gather]
    cases listable <;> rfl

theorem walks_gather (hproper : ws.Proper) (hdir : ws.Direct dir)
    (h : ws.entry? dir = some (.folder own true entries)) (tail : String) :
    Entry.Walks dir (fun names => ∃ child ∈ entries, Entry.Route tail child names)
      (ws.gather dir tail) := by
  obtain ⟨hnodup, hall⟩ := Entry.isProper_folder.1 (hproper.entry h)
  rw [gather_of_folder hproper hdir h]
  refine (Entry.walks_flatMap Entry.Route.head (Entry.precedes_sorted hnodup) fun child hchild =>
    Entry.walks_gather child (hall child (Entry.mem_sorted.1 hchild)).2 tail dir).congr
      fun names => ?_
  exact exists_congr fun child => and_congr_left fun _ => Entry.mem_sorted

/-- Folders are listed and files gathered in the order of their names. -/
structure InOrder (ws : Workspace) : Prop where
  lists : ∀ {dir own entries}, ws.entry? dir = some (.folder own true entries) →
    ∃ names : List String, ws.list dir = names.map (Path.join dir) ∧
      names.Perm (entries.map Entry.name) ∧ names.Pairwise Text.Precedes
  walks : ∀ {dir own entries parts} tail, Spells parts dir →
    ws.entry? dir = some (.folder own true entries) →
    Entry.Walks dir (fun names => ∃ child ∈ entries, Entry.Route tail child names)
      (ws.gather dir tail)

theorem InOrder.of_proper (hproper : ws.Proper) : ws.InOrder where
  lists := fun {_ _ entries} h => by
    obtain ⟨hnodup, -⟩ := Entry.isProper_folder.1 (hproper.entry h)
    exact ⟨Text.sortedByUnits (entries.map Entry.name), list_of_folder h, perm_sortBy _ _,
      Text.precedes_sortedByUnits hnodup⟩
  walks := fun tail hdir h => walks_gather hproper (.of_spells hdir) h tail

theorem gather_of_not_listed (h : ws.entries? dir = none) (tail : String) :
    ws.gather dir tail = [] := by
  rw [gather, h, Option.getD_none, List.flatMap_nil]

theorem named_of_route (hproper : ws.Proper)
    (h : ws.entry? dir = some (.folder own true entries)) (tail : String) (names : List String)
    (hnames : ∃ child ∈ entries, Entry.Route tail child names) :
    names ≠ [] ∧ ∀ name ∈ names, IsName name := by
  obtain ⟨child, hchild, hroute⟩ := hnames
  obtain ⟨hname, hinner⟩ := (Entry.isProper_folder.1 (hproper.entry h)).2 child hchild
  obtain ⟨rest, hhead⟩ := hroute.head
  exact ⟨hhead ▸ List.cons_ne_nil _ _, hroute.isName hname hinner⟩

theorem gather_spec (hproper : ws.Proper) (hdir : Spells parts dir)
    (tail : String) : (ws.gather dir tail).Nodup ∧
      ∀ file ∈ ws.gather dir tail, ∃ more, Spells (parts ++ more) file := by
  cases hentries : ws.entries? dir with
  | none =>
    rw [gather_of_not_listed hentries]
    exact ⟨List.nodup_nil, List.forall_mem_nil _⟩
  | some sorted =>
    obtain ⟨own, entries, hfolder, -⟩ := entries?_eq_some hentries
    have hwalks := walks_gather hproper (.of_spells hdir) hfolder tail
    have hnamed := named_of_route hproper hfolder tail
    refine ⟨hwalks.nodup hnamed, fun file hfile => ?_⟩
    obtain ⟨routes, hpaths, -, hroutes⟩ := hwalks
    obtain ⟨names, hnames, rfl⟩ := List.mem_map.1 (hpaths ▸ hfile)
    exact ⟨names, hdir.foldl_join (hnamed names ((hroutes names).1 hnames)).2⟩

end Workspace
end ProjectLint
