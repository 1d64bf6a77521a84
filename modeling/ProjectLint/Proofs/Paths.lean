/-
Paths as text. The parts of an absolute path are names: not empty, without a slash, neither `.` nor
`..`. Names that are joined to a path and taken apart again are the same.
-/
import Mathlib.Data.List.Basic
import ProjectLint.Files.Workspace

namespace ProjectLint

/-! ## Pieces of a text -/

namespace Text

variable {isSeparator : Char → Bool} {piece : List Char}

theorem pieces_of_whole (h : ∀ c ∈ piece, isSeparator c = false) :
    pieces isSeparator piece = [piece] := by
  induction piece with
  | nil => rfl
  | cons c cs ih =>
    rw [pieces, if_neg (by rw [h c List.mem_cons_self]; exact Bool.false_ne_true),
      ih fun d hd => h d (List.mem_cons_of_mem _ hd)]

theorem pieces_append {separator : Char} (hseparator : isSeparator separator = true)
    (text rest : List Char) :
    pieces isSeparator (text ++ separator :: rest) =
      pieces isSeparator text ++ pieces isSeparator rest := by
  induction text with
  | nil =>
    rw [List.nil_append, pieces.eq_2, if_pos hseparator]
    rfl
  | cons c cs ih =>
    rw [List.cons_append, pieces, pieces, ih]
    by_cases hc : isSeparator c = true
    · rw [if_pos hc, if_pos hc, List.cons_append]
    · rw [if_neg hc, if_neg hc]
      cases hcs : pieces isSeparator cs with
      | nil =>
        rw [hcs] at ih
        cases cs with
        | nil => cases hcs
        | cons d ds =>
          rw [pieces] at hcs
          split at hcs
          · cases hcs
          · split at hcs <;> cases hcs
      | cons first others => rfl

theorem pieces_append_cons {separator : Char} (h : ∀ c ∈ piece, isSeparator c = false)
    (hseparator : isSeparator separator = true) (rest : List Char) :
    pieces isSeparator (piece ++ separator :: rest) = piece :: pieces isSeparator rest := by
  rw [pieces_append hseparator, pieces_of_whole h, List.singleton_append]

theorem separator_of_mem_pieces {text : List Char} (h : piece ∈ pieces isSeparator text) :
    ∀ c ∈ piece, isSeparator c = false := by
  induction text generalizing piece with
  | nil =>
    rw [List.mem_singleton.1 h]
    exact List.forall_mem_nil _
  | cons c cs ih =>
    rw [pieces] at h
    by_cases hc : isSeparator c = true
    · rw [if_pos hc] at h
      rcases List.mem_cons.1 h with rfl | h
      · exact List.forall_mem_nil _
      · exact ih h
    · rw [if_neg hc] at h
      have hc : isSeparator c = false := Bool.eq_false_iff.2 hc
      cases hrest : pieces isSeparator cs with
      | nil =>
        rw [hrest] at h
        rw [List.mem_singleton.1 h]
        exact List.forall_mem_singleton.2 hc
      | cons first rest =>
        rw [hrest] at h ih
        rcases List.mem_cons.1 h with rfl | h
        · exact List.forall_mem_cons.2 ⟨hc, ih List.mem_cons_self⟩
        · exact ih (List.mem_cons_of_mem _ h)

end Text

/-! ## Names -/

namespace Path

structure IsName (part : String) : Prop where
  proper : part ≠ "" ∧ part ≠ "." ∧ part ≠ ".."
  whole : ∀ c ∈ part.toList, isSlash c = false

variable {names : List String} {name : String} {absolute : Bool}

theorem parts_joined_of_whole (hwhole : ∀ part ∈ names, ∀ c ∈ part.toList, isSlash c = false)
    (hne : names ≠ []) : parts (Text.joined "/" names) = names := by
  induction names with
  | nil => exact absurd rfl hne
  | cons name rest ih =>
    have hname := hwhole name List.mem_cons_self
    cases rest with
    | nil =>
      rw [parts, Text.joined, Text.pieces_of_whole hname]
      simp
    | cons next others =>
      have hrest := ih (fun other hother => hwhole other (List.mem_cons_of_mem _ hother))
        (List.cons_ne_nil _ _)
      rw [parts] at hrest
      have hjoined : (Text.joined "/" (name :: next :: others)).toList =
          name.toList ++ '/' :: (Text.joined "/" (next :: others)).toList := by
        rw [Text.joined, String.toList_append, String.toList_append, List.append_assoc]
        · rfl
        · exact List.cons_ne_nil next others
      rw [parts, hjoined, Text.pieces_append_cons hname rfl, List.map_cons, hrest,
        String.ofList_toList]

theorem parts_joined (hnames : ∀ name ∈ names, IsName name) (hne : names ≠ []) :
    parts (Text.joined "/" names) = names :=
  parts_joined_of_whole (fun part hpart => (hnames part hpart).whole) hne

theorem foldl_push (hnames : ∀ name ∈ names, IsName name) (stack : List String) :
    names.foldl (push true) stack = names.reverse ++ stack := by
  induction names generalizing stack with
  | nil => rfl
  | cons name rest ih =>
    obtain ⟨hempty, hdot, hdots⟩ := (hnames name List.mem_cons_self).proper
    have hpush : push true stack name = name :: stack := by
      simp only [push, if_neg (not_or.2 ⟨hempty, hdot⟩), if_neg hdots]
    rw [List.foldl_cons, hpush, ih fun other hother => hnames other (List.mem_cons_of_mem _ hother)]
    simp

theorem isAbsolute_cons (rest : String) : isAbsolute ("/" ++ rest) = true := by
  rw [isAbsolute, Text.startsWith, String.toList_append]
  exact List.isPrefixOf_iff_prefix.2 (List.prefix_append _ _)

theorem isAbsolute_ofParts (names : List String) : isAbsolute (ofParts names) = true :=
  isAbsolute_cons _

theorem isAbsolute_append_of_ne {first : String} (h : first ≠ "") (more : String) :
    isAbsolute (first ++ more) = isAbsolute first := by
  rw [isAbsolute, isAbsolute, Text.startsWith, Text.startsWith, String.toList_append]
  cases hlist : first.toList with
  | nil => exact absurd (String.toList_injective hlist) h
  | cons c cs => rfl

theorem isAbsolute_append {path : String} (h : isAbsolute path = true) (more : String) :
    isAbsolute (path ++ more) = true := by
  rwa [isAbsolute_append_of_ne]
  rintro rfl
  cases h

theorem parts_cons (rest : String) : parts ("/" ++ rest) = "" :: parts rest := by
  rw [parts, String.toList_append]
  rfl

theorem parts_append (path more : String) :
    parts (path ++ "/" ++ more) = parts path ++ parts more := by
  have hlist : (path ++ "/" ++ more).toList = path.toList ++ '/' :: more.toList := by
    rw [String.toList_append, String.toList_append, List.append_assoc]
    rfl
  rw [parts, hlist, Text.pieces_append rfl, List.map_append]
  rfl

theorem absoluteParts_ofParts (cwd : String) (hnames : ∀ name ∈ names, IsName name) :
    absoluteParts cwd (ofParts names) = names := by
  have hsplit : parts (ofParts names) = "" :: parts (Text.joined "/" names) := parts_cons _
  rw [absoluteParts, ofParts, if_pos (isAbsolute_cons _), ← ofParts, simplified, hsplit]
  show (List.foldl (push true) [] (parts (Text.joined "/" names))).reverse = names
  cases names with
  | nil => rfl
  | cons name rest =>
    rw [parts_joined hnames (List.cons_ne_nil _ _), foldl_push hnames]
    simp

/-! A name joined to an absolute path is one more part of it. -/

theorem joined_cons (first : String) (hne : names ≠ []) :
    Text.joined "/" (first :: names) = first ++ "/" ++ Text.joined "/" names := by
  cases names with
  | nil => exact absurd rfl hne
  | cons second others => rfl

theorem joined_concat (hne : names ≠ []) (name : String) :
    Text.joined "/" (names ++ [name]) = Text.joined "/" names ++ "/" ++ name := by
  induction names with
  | nil => exact absurd rfl hne
  | cons first rest ih =>
    cases rest with
    | nil => rfl
    | cons second others =>
      rw [List.cons_append, joined_cons first (by simp), joined_cons first (List.cons_ne_nil _ _),
        ih (List.cons_ne_nil _ _)]
      simp only [String.append_assoc]

theorem endsWith_slash_of_isName (path : String) (h : IsName name) :
    Text.endsWith (path ++ name) "/" = false := by
  rw [Text.endsWith, String.toList_append, Bool.eq_false_iff]
  intro hsuffix
  obtain ⟨start, hstart⟩ : ['/'] <:+ path.toList ++ name.toList :=
    List.isSuffixOf_iff_suffix.1 hsuffix
  have hne : name.toList ≠ [] := fun hnil => h.proper.1 (String.toList_injective hnil)
  have hlast := congrArg List.getLast? hstart
  rw [List.getLast?_append_of_ne_nil _ (List.cons_ne_nil _ _),
    List.getLast?_append_of_ne_nil _ hne] at hlast
  have hslash := h.whole '/' (List.mem_of_getLast? hlast.symm)
  cases hslash

theorem forall_mem_simplified {P : String → Prop} {given : List String}
    (hgiven : ∀ part ∈ given, part ≠ "" ∧ part ≠ "." ∧ part ≠ ".." → P part)
    (hdots : absolute = false → P "..") : ∀ part ∈ simplified absolute given, P part := by
  suffices hfold : ∀ stack : List String, (∀ part ∈ stack, P part) →
      ∀ part ∈ given.foldl (push absolute) stack, P part by
    intro part hpart
    exact hfold [] (List.forall_mem_nil _) part (List.mem_reverse.1 hpart)
  induction given with
  | nil => exact fun _ hstack => hstack
  | cons first rest ih =>
    obtain ⟨hfirst, hrest⟩ := List.forall_mem_cons.1 hgiven
    intro stack hstack
    refine ih hrest _ ?_
    by_cases hidle : first = "" ∨ first = "."
    · simpa only [push, if_pos hidle] using hstack
    · by_cases hup : first = ".."
      · simp only [push, if_neg hidle, if_pos hup]
        cases stack with
        | nil =>
          dsimp only
          split
          · exact List.forall_mem_nil _
          · rename_i habsolute
            exact List.forall_mem_singleton.2 (hdots (Bool.eq_false_iff.2 habsolute))
        | cons top below =>
          obtain ⟨htop, hbelow⟩ := List.forall_mem_cons.1 hstack
          dsimp only
          split
          · rename_i hsame
            exact List.forall_mem_cons.2 ⟨hsame ▸ htop, hstack⟩
          · exact hbelow
      · simp only [push, if_neg hidle, if_neg hup]
        obtain ⟨hempty, hdot⟩ := not_or.1 hidle
        exact List.forall_mem_cons.2 ⟨hfirst ⟨hempty, hdot, hup⟩, hstack⟩

theorem isName_simplified {given : List String}
    (hgiven : ∀ part ∈ given, ∀ c ∈ part.toList, isSlash c = false) :
    ∀ part ∈ simplified true given, IsName part :=
  forall_mem_simplified (fun part hpart hproper => ⟨hproper, hgiven part hpart⟩) fun h => by cases h

theorem slash_of_mem_parts {path part : String} (h : part ∈ parts path) :
    ∀ c ∈ part.toList, isSlash c = false := by
  obtain ⟨piece, hpiece, rfl⟩ := List.mem_map.1 h
  rw [String.toList_ofList]
  exact Text.separator_of_mem_pieces hpiece

theorem exists_joined_eq (first : String) (rest : List String) :
    ∃ more, Text.joined "/" (first :: rest) = first ++ more := by
  cases rest with
  | nil => exact ⟨"", String.append_empty.symm⟩
  | cons second others => exact ⟨_, String.append_assoc⟩

theorem joined_ne_empty (hnames : "" ∉ names) (hne : names ≠ []) : Text.joined "/" names ≠ "" := by
  obtain ⟨first, rest, rfl⟩ := List.exists_cons_of_ne_nil hne
  obtain ⟨more, hmore⟩ := exists_joined_eq first rest
  rw [hmore]
  intro hempty
  exact hnames ((String.append_eq_empty_iff.1 hempty).1 ▸ List.mem_cons_self)

theorem isAbsolute_of_whole {part : String} (h : ∀ c ∈ part.toList, isSlash c = false) :
    isAbsolute part = false := by
  rw [isAbsolute, Text.startsWith, Bool.eq_false_iff]
  intro hprefix
  obtain ⟨rest, hrest⟩ := List.isPrefixOf_iff_prefix.1 hprefix
  have hslash := h '/' (hrest ▸ List.mem_cons_self)
  cases hslash

/-! What is left of a path when `.` and `..` are taken out of it is taken as it is a second time. -/

def Neat (absolute : Bool) : List String → Prop
  | [] => True
  | top :: below => push absolute below top = top :: below ∧ Neat absolute below

theorem push_cases (absolute : Bool) (stack : List String) (part : String) :
    push absolute stack part = stack ∨ push absolute stack part = part :: stack ∨
      ∃ top, stack = top :: push absolute stack part := by
  by_cases hidle : part = "" ∨ part = "."
  · exact .inl (by simp only [push, if_pos hidle])
  · by_cases hup : part = ".."
    · cases stack with
      | nil => cases absolute <;> simp [push, hup]
      | cons top below => by_cases htop : top = ".." <;> simp [push, hup, htop]
    · exact .inr (.inl (by simp only [push, if_neg hidle, if_neg hup]))

theorem neat_push {stack : List String} (h : Neat absolute stack) (part : String) :
    Neat absolute (push absolute stack part) := by
  rcases push_cases absolute stack part with hstays | hgrown | ⟨top, hback⟩
  · rwa [hstays]
  · rw [hgrown]
    exact ⟨hgrown, h⟩
  · rw [hback] at h
    exact h.2

theorem foldl_push_of_neat {stack : List String} (h : Neat absolute stack) :
    stack.reverse.foldl (push absolute) [] = stack := by
  induction stack with
  | nil => rfl
  | cons top below ih =>
    rw [List.reverse_cons, List.foldl_append, ih h.2]
    exact h.1

theorem simplified_simplified (absolute : Bool) (given : List String) :
    simplified absolute (simplified absolute given) = simplified absolute given := by
  have hneat : Neat absolute (given.foldl (push absolute) []) :=
    List.foldlRecOn given (push absolute) trivial fun _ h part _ => neat_push h part
  rw [simplified, simplified, foldl_push_of_neat hneat]

theorem simplified_concat (given : List String) (hname : IsName name) :
    simplified absolute (given ++ [name]) = simplified absolute given ++ [name] := by
  obtain ⟨hempty, hdot, hdots⟩ := hname.proper
  simp [simplified, push, hempty, hdot, hdots]

def lead (absolute : Bool) : List String :=
  if absolute then [""] else []

/-- The parts of a path, less `.` and `..`. -/
def steps (path : String) : List String :=
  lead (isAbsolute path) ++ simplified (isAbsolute path) (parts path)

theorem part_of_simplified (absolute : Bool) (path : String) :
    ∀ part ∈ simplified absolute (parts path), part ≠ "" ∧ ∀ c ∈ part.toList, isSlash c = false :=
  forall_mem_simplified (fun _ hpart hproper => ⟨hproper.1, slash_of_mem_parts hpart⟩)
    fun _ => by simp [isSlash]

theorem whole_of_steps {path part : String} (h : part ∈ steps path) :
    ∀ c ∈ part.toList, isSlash c = false := by
  rcases List.mem_append.1 h with hlead | hpart
  · cases habsolute : isAbsolute path <;> simp_all [lead]
  · exact (part_of_simplified _ path part hpart).2

theorem joined_lead (hne : names ≠ []) : Text.joined "/" (lead absolute ++ names) =
    if absolute then ofParts names else Text.joined "/" names := by
  obtain ⟨first, rest, rfl⟩ := List.exists_cons_of_ne_nil hne
  cases absolute with
  | true => exact congrArg (· ++ Text.joined "/" (first :: rest)) String.empty_append
  | false => rfl

theorem normal_eq {path : String} (hne : simplified (isAbsolute path) (parts path) ≠ [])
    (hslash : Text.endsWith path "/" = false) : normal path = Text.joined "/" (steps path) := by
  have hbody := joined_ne_empty (fun hmem => (part_of_simplified _ path "" hmem).1 rfl) hne
  rw [steps, joined_lead hne, normal]
  simp only [hslash, if_neg hbody, Bool.false_eq_true, if_false, String.append_empty]
  rfl

theorem join_eq (dir : String) (hname : IsName name) :
    join dir name = Text.joined "/" (steps dir ++ [name]) := by
  have hparts : parts name = [name] := by
    rw [parts, Text.pieces_of_whole hname.whole, List.map_singleton, String.ofList_toList]
  have hpath : ∃ path, join dir name = normal path ∧ Text.endsWith path "/" = false ∧
      isAbsolute path = isAbsolute dir ∧ simplified (isAbsolute dir) (parts path) =
        simplified (isAbsolute dir) (parts dir) ++ [name] := by
    rw [join]
    by_cases hdir : dir = ""
    · have hslash := endsWith_slash_of_isName "" hname
      rw [String.empty_append] at hslash
      rw [if_pos hdir, hdir]
      refine ⟨name, rfl, hslash, isAbsolute_of_whole hname.whole, ?_⟩
      rw [hparts]
      exact simplified_concat [] hname
    · refine ⟨_, by rw [if_neg hdir, if_neg hname.proper.1],
        endsWith_slash_of_isName _ hname, ?_, ?_⟩
      · rw [String.append_assoc, isAbsolute_append_of_ne hdir]
      · rw [parts_append, hparts, simplified_concat _ hname]
  obtain ⟨path, hjoin, hslash, habsolute, hsteps⟩ := hpath
  rw [hjoin, normal_eq (by simp [habsolute, hsteps]) hslash, steps, habsolute, hsteps,
    ← List.append_assoc, ← steps]

theorem parts_join (dir : String) (hname : IsName name) :
    parts (join dir name) = steps dir ++ [name] := by
  rw [join_eq dir hname]
  exact parts_joined_of_whole (List.forall_mem_append.2 ⟨fun _ => whole_of_steps,
    List.forall_mem_singleton.2 hname.whole⟩) (by simp)

theorem isAbsolute_join (dir : String) (hname : IsName name) :
    isAbsolute (join dir name) = isAbsolute dir := by
  rw [join_eq dir hname, steps, List.append_assoc, joined_lead (by simp)]
  cases isAbsolute dir with
  | true => exact isAbsolute_ofParts _
  | false =>
    have hfirst := List.forall_mem_append.2 ⟨part_of_simplified false dir,
      List.forall_mem_singleton.2 ⟨hname.proper.1, hname.whole⟩⟩
    obtain ⟨first, rest, hcons⟩ := List.exists_cons_of_ne_nil (List.append_ne_nil_of_right_ne_nil
      (simplified false (parts dir)) (List.cons_ne_nil name []))
    rw [hcons] at hfirst
    obtain ⟨more, hmore⟩ := exists_joined_eq first rest
    obtain ⟨hne, hwhole⟩ := hfirst first List.mem_cons_self
    rw [if_neg Bool.false_ne_true, hcons, hmore, isAbsolute_append_of_ne hne,
      isAbsolute_of_whole hwhole]

theorem steps_join (dir : String) (hname : IsName name) :
    steps (join dir name) = steps dir ++ [name] := by
  have hlead : ∀ given, simplified (isAbsolute dir) (lead (isAbsolute dir) ++ given) =
      simplified (isAbsolute dir) given := by
    cases isAbsolute dir <;> exact fun _ => rfl
  rw [steps, isAbsolute_join dir hname, parts_join dir hname, simplified_concat _ hname,
    steps, hlead,
    simplified_simplified, List.append_assoc]

theorem parts_foldl_join (dir : String) (hne : names ≠ []) (hnames : ∀ name ∈ names, IsName name) :
    parts (names.foldl join dir) = steps dir ++ names := by
  induction names generalizing dir with
  | nil => exact absurd rfl hne
  | cons name rest ih =>
    obtain ⟨hname, hrest⟩ := List.forall_mem_cons.1 hnames
    by_cases hlast : rest = []
    · rw [hlast]
      exact parts_join dir hname
    · rw [List.foldl_cons, ih _ hlast hrest, steps_join dir hname, List.append_assoc]
      rfl

theorem join_ofParts (hnames : ∀ name ∈ names, IsName name) (hname : IsName name) :
    join (ofParts names) name = ofParts (names ++ [name]) := by
  have hparts := absoluteParts_ofParts "/" hnames
  rw [absoluteParts, if_pos (isAbsolute_ofParts _)] at hparts
  rw [join_eq _ hname, steps, isAbsolute_ofParts, hparts, List.append_assoc, joined_lead (by simp)]
  rfl

/-! The last part of an absolute path is its name, and the parts before it lead to its parent. -/

theorem toList_ofParts_concat (names : List String) (name : String) :
    (ofParts (names ++ [name])).toList =
      (if names = [] then [] else (ofParts names).toList) ++ '/' :: name.toList := by
  by_cases hne : names = []
  · rw [if_pos hne, hne]
    show ("/" ++ name).toList = _
    rw [String.toList_append]
    rfl
  · rw [if_neg hne, ofParts, joined_concat hne, ofParts]
    simp only [String.toList_append, List.append_assoc]
    rfl

theorem reverse_ofParts_concat (hname : IsName name) (names : List String) :
    (ofParts (names ++ [name])).toList.reverse.dropWhile isSlash =
      name.toList.reverse ++ '/' :: (if names = [] then [] else
        (ofParts names).toList).reverse := by
  rw [toList_ofParts_concat, List.reverse_append, List.reverse_cons, List.append_assoc,
    List.singleton_append]
  have hne : name.toList.reverse ≠ [] := fun hnil =>
    hname.proper.1 (String.toList_injective (List.reverse_eq_nil_iff.1 hnil))
  have hwhole : ∀ c ∈ name.toList.reverse, isSlash c = false :=
    fun c hc => hname.whole c (List.mem_reverse.1 hc)
  cases hreverse : name.toList.reverse with
  | nil => exact absurd hreverse hne
  | cons c cs =>
    rw [hreverse] at hwhole
    rw [List.cons_append, List.dropWhile_cons_of_neg]
    rw [hwhole c List.mem_cons_self]
    exact Bool.false_ne_true

theorem parent_ofParts_concat (hnames : ∀ name ∈ names, IsName name) (hname : IsName name) :
    parent (ofParts (names ++ [name])) = ofParts names := by
  have hwhole : ∀ c ∈ name.toList.reverse, (!isSlash c) = true :=
    fun c hc => by rw [hname.whole c (List.mem_reverse.1 hc)]; rfl
  rw [parent, reverse_ofParts_concat hname, List.dropWhile_append_of_pos hwhole,
    List.dropWhile_cons_of_neg (by decide)]
  by_cases hne : names = []
  · rw [if_pos hne, hne]
    rfl
  · rw [if_neg hne]
    have hlist : (ofParts names).toList = '/' :: (Text.joined "/" names).toList := by
      rw [ofParts, String.toList_append]
      rfl
    have hjoined : (Text.joined "/" names).toList ≠ [] := fun hnil =>
      joined_ne_empty (fun hmem => (hnames "" hmem).proper.1 rfl) hne (String.toList_injective hnil)
    obtain ⟨c, cs, hreverse⟩ := List.exists_cons_of_ne_nil (List.reverse_ne_nil_iff.2 hjoined)
    have hback : (ofParts names).toList.reverse = c :: (cs ++ ['/']) := by
      rw [hlist, List.reverse_cons, hreverse, List.cons_append]
    rw [hback]
    split
    · rename_i h
      cases h
    · rename_i h
      cases h
    · rename_i h
      simp at h
    · rename_i h
      obtain ⟨-, rfl⟩ := List.cons.inj h
      rw [← hback, List.reverse_reverse, String.ofList_toList]

theorem isName_absoluteParts (cwd path : String) :
    ∀ part ∈ absoluteParts cwd path, IsName part := by
  rw [absoluteParts]
  by_cases habsolute : isAbsolute path = true
  · rw [if_pos habsolute]
    exact isName_simplified fun part hpart => slash_of_mem_parts hpart
  · rw [if_neg habsolute]
    refine isName_simplified fun part hpart => ?_
    exact (List.mem_append.1 hpart).elim slash_of_mem_parts slash_of_mem_parts

theorem absoluteParts_resolve (cwd path : String) :
    absoluteParts cwd (resolve cwd path) = absoluteParts cwd path :=
  absoluteParts_ofParts cwd (isName_absoluteParts cwd path)

def Spells (names : List String) (path : String) : Prop :=
  (∀ name ∈ names, IsName name) ∧ path = ofParts names

namespace Spells

variable {names others : List String} {path : String}

theorem resolve (cwd path : String) : Spells (absoluteParts cwd path) (Path.resolve cwd path) :=
  ⟨isName_absoluteParts cwd path, rfl⟩

theorem unique (h : Spells names path) (h' : Spells others path) : names = others := by
  rw [← absoluteParts_ofParts "/" h.1, ← h.2, h'.2, absoluteParts_ofParts "/" h'.1]

theorem join (h : Spells names path) {name : String} (hname : IsName name) :
    Spells (names ++ [name]) (Path.join path name) :=
  ⟨List.forall_mem_append.2 ⟨h.1, List.forall_mem_singleton.2 hname⟩, h.2 ▸ join_ofParts h.1 hname⟩

theorem of_join {dir name : String} (hdir : isAbsolute dir = true) (hname : IsName name) :
    Spells (simplified true (parts dir) ++ [name]) (Path.join dir name) := by
  rw [join_eq dir hname, steps, hdir, List.append_assoc, joined_lead (by simp)]
  exact ⟨List.forall_mem_append.2 ⟨isName_simplified fun _ hpart => slash_of_mem_parts hpart,
    List.forall_mem_singleton.2 hname⟩, rfl⟩

theorem isAbsolute (h : Spells names path) : Path.isAbsolute path = true :=
  h.2 ▸ isAbsolute_ofParts names

theorem parent {name : String} (h : Spells (names ++ [name]) path) :
    Spells names (Path.parent path) := by
  have hnames : ∀ other ∈ names, IsName other := fun other hother => h.1 other (by simp [hother])
  exact ⟨hnames, by rw [h.2, parent_ofParts_concat hnames (h.1 name (by simp))]⟩

end Spells
end Path

end ProjectLint
