/-
Properties files as they are written. A line sets a key or says nothing, white space may stand
around its parts, and lines end in one of two ways. Reading gives back what was set: each key once,
where it was set first, with the value that was set last.
-/
import Mathlib.Data.List.Induction
import Mathlib.Data.List.TakeWhile
import ProjectLint.Proofs.Distinct
import ProjectLint.Proofs.Paths
import ProjectLint.Properties

namespace ProjectLint

/-! ## White space -/

namespace Text

variable {before after : List Char}

def Blank (cs : List Char) : Prop :=
  ∀ c ∈ cs, isBlank c = true

theorem trimChars_margins (hbefore : Blank before) (hafter : Blank after) (core : List Char) :
    trimChars (before ++ core ++ after) = trimChars core := by
  have hback : Blank after.reverse := fun c hc => hafter c (List.mem_reverse.1 hc)
  rw [trimChars, trimChars, List.append_assoc, List.dropWhile_append_of_pos hbefore,
    List.dropWhile_append]
  by_cases hcore : (core.dropWhile isBlank).isEmpty = true
  · rw [if_pos hcore, List.dropWhile_eq_nil_iff.2 hafter, List.isEmpty_iff.1 hcore]
  · rw [if_neg hcore, List.reverse_append, List.dropWhile_append_of_pos hback]

theorem trimChars_append_cons {c : Char} (hc : isBlank c = false) {start : List Char}
    (hstart : start.dropWhile isBlank = start) (hne : start ≠ []) (rest : List Char) :
    ∃ rest', trimChars (start ++ c :: rest) = start ++ c :: rest' ∧
      trimChars rest' = trimChars rest := by
  refine ⟨(rest.reverse.dropWhile isBlank).reverse, ?_, ?_⟩
  · have hfirst : (start ++ c :: rest).dropWhile isBlank = start ++ c :: rest := by
      rw [List.dropWhile_append, hstart, if_neg (by simpa using hne)]
    have hcons : (c :: start.reverse).dropWhile isBlank = c :: start.reverse := by simp [hc]
    rw [trimChars, hfirst, List.reverse_append, List.reverse_cons, List.append_assoc,
      List.singleton_append, List.dropWhile_append]
    split
    · next hrest => rw [hcons, List.isEmpty_iff.1 hrest]; simp
    · simp
  · have hend : Blank (rest.reverse.takeWhile isBlank).reverse :=
      fun c hc => List.mem_takeWhile_imp (List.mem_reverse.1 hc)
    rw [← trimChars_margins (List.forall_mem_nil _) hend, List.nil_append, ← List.reverse_append,
      List.takeWhile_append_dropWhile, List.reverse_reverse]

theorem dropWhile_of_trimChars {cs : List Char} (h : trimChars cs = cs) :
    cs.dropWhile isBlank = cs := by
  refine (List.dropWhile_suffix isBlank).eq_of_length (Nat.le_antisymm
    (List.dropWhile_suffix isBlank).length_le ?_)
  calc cs.length
      = ((cs.dropWhile isBlank).reverse.dropWhile isBlank).length := by
        conv_lhs => rw [← h, trimChars, List.length_reverse]
    _ ≤ (cs.dropWhile isBlank).reverse.length := (List.dropWhile_suffix isBlank).length_le
    _ = (cs.dropWhile isBlank).length := List.length_reverse

theorem trimChars_toList {text : String} (h : trim text = text) :
    trimChars text.toList = text.toList := by
  conv_rhs => rw [← h, trim, String.toList_ofList]

theorem cutAt_append_cons {isSeparator : Char → Bool} {start : List Char} {separator : Char}
    (hstart : ∀ c ∈ start, isSeparator c = false) (hseparator : isSeparator separator = true)
    (rest : List Char) :
    cutAt isSeparator (start ++ separator :: rest) = some (start, rest) := by
  induction start with
  | nil => rw [List.nil_append, cutAt, if_pos hseparator]
  | cons c cs ih =>
    rw [List.cons_append, cutAt, if_neg (by simp [hstart c List.mem_cons_self]),
      ih fun d hd => hstart d (List.mem_cons_of_mem _ hd), Option.map_some]

end Text

namespace Properties

/-! ## Lines -/

/-- A line that sets a key, with white space before and behind the key, ahead of the value and after
it. -/
structure Setting where
  key : String
  value : String
  divider : Char
  before : List Char
  behind : List Char
  ahead : List Char
  after : List Char
  key_ne : key ≠ "" := by decide
  key_trim : Text.trim key = key := by decide
  key_plain : ∀ c ∈ key.toList, c ≠ '=' ∧ c ≠ ':' ∧ c ≠ '\n' := by simp
  key_first : ∀ c ∈ key.toList.head?, c ≠ '#' ∧ c ≠ '!' := by simp
  value_trim : Text.trim value = value := by decide
  value_plain : '\n' ∉ value.toList := by decide
  divides : divider = '=' ∨ divider = ':' := by decide
  margins : ∀ margin ∈ [before, behind, ahead, after], ∀ c ∈ margin,
    Text.isBlank c = true ∧ c ≠ '\n' := by simp [Text.isBlank, Text.blanks]

/-- A line sets a key, or it is blank or a comment. -/
inductive Line
  | setting (setting : Setting)
  | silent (text : List Char) (whole : '\n' ∉ text)
      (quiet : ∀ c ∈ (Text.trimChars text).head?, c = '#' ∨ c = '!')

/-- How a line ends. -/
inductive LineEnd
  | feed
  | returnFeed

def Line.chars : Line → List Char
  | .setting s =>
      s.before ++ (s.key.toList ++ s.behind ++ s.divider :: (s.ahead ++ s.value.toList)) ++ s.after
  | .silent text _ _ => text

/-- What a line sets. -/
def Line.entry? : Line → Option (String × String)
  | .setting s => some (s.key, s.value)
  | .silent _ _ _ => none

def LineEnd.chars : LineEnd → List Char
  | .feed => ['\n']
  | .returnFeed => ['\r', '\n']

/-- Lines as text. -/
def written (first : Line) : List (LineEnd × Line) → List Char
  | [] => first.chars
  | (ending, next) :: rest => first.chars ++ ending.chars ++ written next rest

theorem ofLine?_congr {line line' : List Char} (h : Text.trimChars line = Text.trimChars line') :
    ofLine? line = ofLine? line' := by
  rw [ofLine?, ofLine?, h]

namespace Setting

variable (s : Setting)

theorem isDivider_start : ∀ c ∈ s.key.toList ++ s.behind, isDivider c = false := by
  intro c hc
  rcases List.mem_append.1 hc with hkey | hbehind
  · obtain ⟨hequals, hcolon, -⟩ := s.key_plain c hkey
    simp [isDivider, hequals, hcolon]
  · have hblank := (s.margins s.behind (by simp) c hbehind).1
    rw [isDivider, Bool.or_eq_false_iff, beq_eq_false_iff_ne, beq_eq_false_iff_ne]
    constructor <;> rintro rfl <;> exact absurd hblank (by decide)

theorem blank {cs : List Char} (h : cs ∈ [s.before, s.behind, s.ahead, s.after]) : Text.Blank cs :=
  fun c hc => (s.margins cs h c hc).1

theorem key_cons : ∃ first others, s.key.toList = first :: others :=
  List.exists_cons_of_ne_nil fun h => s.key_ne (String.toList_eq_nil_iff.1 h)

theorem trimChars_name : Text.trimChars (s.key.toList ++ s.behind) = s.key.toList := by
  have hmargins := Text.trimChars_margins (List.forall_mem_nil _) (s.blank (by simp) :
    Text.Blank s.behind) s.key.toList
  rwa [List.nil_append, Text.trimChars_toList s.key_trim] at hmargins

theorem trimChars_setting : ∃ rest,
    Text.trimChars (Line.setting s).chars = s.key.toList ++ s.behind ++ s.divider :: rest ∧
      Text.trimChars rest = s.value.toList := by
  obtain ⟨first, others, hfirst⟩ := s.key_cons
  have hdivider : Text.isBlank s.divider = false := by
    rcases s.divides with h | h <;> rw [h] <;> decide
  have hstart : (s.key.toList ++ s.behind).dropWhile Text.isBlank = s.key.toList ++ s.behind := by
    rw [List.dropWhile_append, Text.dropWhile_of_trimChars (Text.trimChars_toList s.key_trim),
      if_neg (by simp [hfirst])]
  obtain ⟨rest, hline, hrest⟩ := Text.trimChars_append_cons hdivider hstart (by simp [hfirst])
    (s.ahead ++ s.value.toList)
  have hvalue := Text.trimChars_margins (s.blank (by simp) : Text.Blank s.ahead)
    (List.forall_mem_nil _) s.value.toList
  refine ⟨rest, ?_, ?_⟩
  · rw [Line.chars, Text.trimChars_margins (s.blank (by simp)) (s.blank (by simp)), hline]
  · rw [List.append_nil, Text.trimChars_toList s.value_trim] at hvalue
    rw [hrest, hvalue]

theorem ofLine?_eq : ofLine? (Line.setting s).chars = some (s.key, s.value) := by
  obtain ⟨rest, hline, hvalue⟩ := s.trimChars_setting
  obtain ⟨first, others, hfirst⟩ := s.key_cons
  have hdivider : isDivider s.divider = true := by
    rcases s.divides with h | h <;> rw [h] <;> decide
  have hcut := Text.cutAt_append_cons s.isDivider_start hdivider rest
  have hplain := s.key_first first (by simp [hfirst])
  rw [ofLine?, hline]
  simp only [hcut, s.trimChars_name, hvalue, String.ofList_toList]
  rw [hfirst]
  simp [hplain.1, hplain.2]

theorem whole : ∀ c ∈ (Line.setting s).chars, c ≠ '\n' := by
  have hdivider : s.divider ≠ '\n' := by rcases s.divides with h | h <;> rw [h] <;> decide
  intro c hc
  simp only [Line.chars, List.mem_append, List.mem_cons] at hc
  have hmargin := fun {cs} hcs h => (s.margins cs hcs c h).2
  have hkey := fun h => (s.key_plain c h).2.2
  have hvalue : c ∈ s.value.toList → c ≠ '\n' := fun h heq => s.value_plain (heq ▸ h)
  rcases hc with (h | (h | h) | rfl | h | h) | h
  all_goals first | exact hdivider | exact hkey h | exact hvalue h | exact hmargin (by simp) h

end Setting

namespace Line

theorem ofLine?_chars (line : Line) : ofLine? line.chars = line.entry? := by
  cases line with
  | setting s => exact s.ofLine?_eq
  | silent text whole quiet =>
    rw [chars, entry?, ofLine?]
    cases htext : Text.trimChars text with
    | nil => rfl
    | cons c cs => exact if_pos (quiet c (by rw [htext]; exact rfl))

theorem whole (line : Line) : ∀ c ∈ line.chars, (c == '\n') = false := by
  intro c hc
  rw [beq_eq_false_iff_ne]
  cases line with
  | setting s => exact s.whole c hc
  | silent text whole quiet => exact fun heq => whole (heq ▸ hc)

end Line

/-! ## Texts -/

theorem filterMap_pieces_written (first : Line) (rest : List (LineEnd × Line)) :
    (Text.pieces (· == '\n') (written first rest)).filterMap ofLine? =
      (first :: rest.map Prod.snd).filterMap Line.entry? := by
  induction rest generalizing first with
  | nil =>
    rw [written, Text.pieces_of_whole first.whole]
    simp only [List.filterMap_cons, first.ofLine?_chars, List.filterMap_nil, List.map_nil]
  | cons next rest ih =>
    obtain ⟨ending, next⟩ := next
    cases ending with
    | feed =>
      have hpieces := Text.pieces_append_cons first.whole (beq_self_eq_true '\n')
        (written next rest)
      rw [written, LineEnd.chars, List.append_assoc, List.singleton_append, hpieces,
        List.filterMap_cons, ih, first.ofLine?_chars]
      rfl
    | returnFeed =>
      -- The carriage return stays with its line and is trimmed there.
      have hwhole : ∀ c ∈ first.chars ++ ['\r'], (c == '\n') = false := by
        intro c hc
        rcases List.mem_append.1 hc with hc | hc
        · exact first.whole c hc
        · rw [List.mem_singleton.1 hc]; rfl
      have hpieces := Text.pieces_append_cons hwhole (beq_self_eq_true '\n') (written next rest)
      have hreturn : Text.Blank ['\r'] := by simp [Text.Blank, Text.isBlank, Text.blanks]
      have hline : ofLine? (first.chars ++ ['\r']) = first.entry? := by
        rw [← first.ofLine?_chars]
        exact ofLine?_congr (Text.trimChars_margins (List.forall_mem_nil _) hreturn _)
      rw [List.append_assoc, List.singleton_append] at hpieces
      rw [written, LineEnd.chars, List.append_assoc]
      rw [List.cons_append, List.singleton_append, hpieces, List.filterMap_cons, ih, hline]
      rfl

theorem map_fst_foldl_set (entries : List (String × String)) :
    (entries.foldl (fun properties entry => Properties.set properties entry.1 entry.2) []).map
        Prod.fst = distinct (entries.map Prod.fst) := by
  induction entries using List.reverseRecOn with
  | nil => rfl
  | append_singleton entries entry ih =>
    rw [List.foldl_concat, Properties.set, ← put, map_fst_put, ih, List.map_append,
      List.map_singleton, distinct_concat]
    simp only [mem_distinct]

theorem mem_foldl_set (entries : List (String × String)) (key value : String) :
    (key, value) ∈ entries.foldl (fun properties entry => Properties.set properties entry.1 entry.2)
      [] ↔ entries.reverse.lookup key = some value := by
  induction entries using List.reverseRecOn with
  | nil => simp
  | append_singleton entries entry ih =>
    obtain ⟨last, set⟩ := entry
    rw [List.foldl_concat, Properties.set, ← put, mem_put, ih, List.reverse_append,
      List.reverse_singleton, List.singleton_append, List.lookup_cons]
    by_cases hkey : key = last
    · subst hkey
      rw [beq_self_eq_true]
      constructor
      · rintro (⟨-, hother⟩ | hlast)
        · exact absurd rfl hother
        · exact congrArg (fun entry => some entry.2) hlast.symm
      · intro hvalue
        exact .inr (congrArg (Prod.mk key) (Option.some.inj hvalue).symm)
    · rw [beq_false_of_ne hkey]
      constructor
      · rintro (⟨hfound, -⟩ | hlast)
        · exact hfound
        · exact absurd (congrArg Prod.fst hlast) hkey
      · exact fun hfound => .inl ⟨hfound, hkey⟩

/-- Reading gives the keys in the order in which they were set first, each once, and with each the
value that was set last. -/
theorem parse_written (first : Line) (rest : List (LineEnd × Line)) :
    let entries := (first :: rest.map Prod.snd).filterMap Line.entry?
    let properties := parse (String.ofList (written first rest))
    properties.map Prod.fst = distinct (entries.map Prod.fst) ∧
      ∀ key value, (key, value) ∈ properties ↔ entries.reverse.lookup key = some value := by
  intro entries properties
  have hproperties : properties = entries.foldl
      (fun properties entry => Properties.set properties entry.1 entry.2) [] := by
    simp only [properties, entries, parse, String.toList_ofList, filterMap_pieces_written]
  rw [hproperties]
  exact ⟨map_fst_foldl_set entries, mem_foldl_set entries⟩

def targetSetting : Setting where
  key := "target"
  value := "android-19"
  divider := '='
  before := [' ']
  behind := ['\t']
  ahead := [' ', ' ']
  after := ['\u00a0']

def librarySetting : Setting where
  key := "library"
  value := "a: b"
  divider := ':'
  before := [' ']
  behind := []
  ahead := [' ', ' ']
  after := ['\u00a0']

def laterTarget : Setting :=
  { targetSetting with
    value := ""
    value_trim := by decide
    value_plain := by decide }

def retargeted : List (LineEnd × Line) :=
  [(.returnFeed, .silent " ! target=none".toList (by decide) (by rintro _ ⟨⟩; decide)),
    (.feed, .setting librarySetting), (.returnFeed, .silent [] (by decide) (by rintro _ ⟨⟩)),
    (.feed, .setting laterTarget)]

theorem parse_written_retargeted :
    let text := " target\t=  android-19\u00a0\r\n ! target=none\n" ++
      " library:  a: b\u00a0\r\n\n target\t=  \u00a0"
    String.ofList (written (.setting targetSetting) retargeted) = text ∧
      (parse text).map Prod.fst = ["target", "library"] ∧
      ("target", "") ∈ parse text ∧ ("library", "a: b") ∈ parse text := by
  intro text
  have htext : String.ofList (written (.setting targetSetting) retargeted) = text := by
    decide +kernel
  obtain ⟨hkeys, hvalues⟩ := parse_written (.setting targetSetting) retargeted
  rw [htext] at hkeys hvalues
  exact ⟨htext, hkeys, (hvalues _ _).2 rfl, (hvalues _ _).2 rfl⟩

end Properties
end ProjectLint
