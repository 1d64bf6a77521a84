/-
Loading settings is all or nothing. Each part of the check of a document accepts a value just where
it spells a setting, and gives this setting. So a document with anything wrong in it counts as if it
were empty, and one with nothing wrong is taken word for word.
-/
import Mathlib.Data.List.Forall2
import ProjectLint.Settings.Load

namespace ProjectLint

open List (Forall₂)
open Data (Value)

theorem Severity.ofName?_eq_some {text : String} {severity : Severity} :
    ofName? text = some severity ↔ text = severity.name := by
  constructor
  · intro h
    have hname := List.find?_some h
    exact (beq_iff_eq.1 hname).symm
  · rintro rfl
    cases severity <;> rfl

theorem Severity.name_injective : Function.Injective Severity.name := by
  intro first second h
  exact Option.some.inj ((ofName?_eq_some.2 rfl).symm.trans (ofName?_eq_some.2 h))

namespace Settings

variable {spell : α → Value} {given : Option Value} {place : List String}
  {fields : List (String × Value)} {entries : List (String × IssueSettings)} {document : Value}

/-! ## Documents in form -/

def severityValue (severity : Severity) : Value :=
  .text severity.name

def patternsValue (patterns : List String) : Value :=
  .list (patterns.map .text)

def ValidEntry (value : Value) : Prop :=
  ∃ fields, value = .record fields ∧
    (∀ given, Value.field? fields "severity" = some given → ∃ severity,
      given = severityValue severity) ∧
    ∀ given, Value.field? fields "ignore" = some given → ∃ patterns, given = patternsValue patterns

def Valid (document : Value) : Prop :=
  document = .null ∨ ∃ fields, document = .record fields ∧
    ∀ given, Value.field? fields "issues" = some given →
      ∃ entries, given = .record entries ∧ ∀ entry ∈ entries, ValidEntry entry.2

structure Reads (document : Value) (settings : Settings) : Prop where
  severity : ∀ id, id ≠ droppedKey → ∀ given,
    (settings.entry? id).bind IssueSettings.severity = some given ↔
      ((document.get "issues").get id).get "severity" = severityValue given
  ignore : ∀ id, id ≠ droppedKey → ∀ given,
    (settings.entry? id).bind IssueSettings.ignore = some given ↔
      ((document.get "issues").get id).get "ignore" = patternsValue given

theorem severityValue_injective : Function.Injective severityValue :=
  fun _ _ h => Severity.name_injective (Value.text.inj h)

theorem patternsValue_injective : Function.Injective patternsValue :=
  fun _ _ h => List.map_injective_iff.2 (fun _ _ => Value.text.inj) (Value.list.inj h)

/-! ## Parts of a check -/

theorem map_eq_ok {f : α → β} {x : Checked α} {b : β} :
    x.map f = .ok b ↔ ∃ a, x = .ok a ∧ f a = b := by
  cases x <;> simp [Except.map]

theorem map_both_eq_ok {f : α × β → γ} {x : Checked α} {y : Checked β} {c : γ} :
    (both x y).map f = .ok c ↔ ∃ a b, x = .ok a ∧ y = .ok b ∧ f (a, b) = c := by
  cases x <;> cases y <;> simp [both, Except.map]

theorem optional_eq_ok {check : Value → Checked α}
    (h : ∀ value a, check value = .ok a ↔ value = spell a) {a : Option α} :
    optional check given = .ok a ↔ given = a.map spell := by
  cases given with
  | none => cases a <;> simp [optional]
  | some value => cases a <;> simp [optional, map_eq_ok, h]

theorem checkSeverity_eq_ok (value : Value) (severity : Severity) :
    checkSeverity place value = .ok severity ↔ value = severityValue severity := by
  cases value with
  | text name =>
    rw [checkSeverity, severityValue, Value.text.injEq, ← Severity.ofName?_eq_some]
    cases Severity.ofName? name <;> simp
  | number amount => cases amount <;> simp [checkSeverity, severityValue]
  | _ => simp [checkSeverity, severityValue]

theorem checkTexts_eq_ok {i : Nat} {items : List Value} {texts : List String} :
    checkTexts place i items = .ok texts ↔ items = texts.map .text := by
  induction items generalizing i texts with
  | nil => cases texts <;> simp [checkTexts]
  | cons item rest ih =>
    cases item <;> cases texts <;> simp [checkTexts, map_both_eq_ok, ih, and_comm]

theorem checkIgnore_eq_ok (value : Value) (patterns : List String) :
    checkIgnore place value = .ok patterns ↔ value = patternsValue patterns := by
  cases value <;> simp [checkIgnore, checkTexts_eq_ok, patternsValue]

def Spells (value : Value) (entry : IssueSettings) : Prop :=
  ∃ fields, value = .record fields ∧
    Value.field? fields "severity" = entry.severity.map severityValue ∧
    Value.field? fields "ignore" = entry.ignore.map patternsValue

theorem checkIssue_eq_ok {value : Value} {entry : IssueSettings} :
    checkIssue place value = .ok entry ↔ Spells value entry := by
  cases value with
  | record fields =>
    simp only [checkIssue, map_both_eq_ok, optional_eq_ok checkSeverity_eq_ok,
      optional_eq_ok checkIgnore_eq_ok, Spells, Value.record.injEq, exists_eq_left']
    constructor
    · rintro ⟨severity, ignore, hseverity, hignore, rfl⟩
      exact ⟨hseverity, hignore⟩
    · rintro ⟨hseverity, hignore⟩
      exact ⟨entry.severity, entry.ignore, hseverity, hignore, rfl⟩
  | _ => simp [checkIssue, Spells]

theorem checkFields_eq_ok : checkFields place fields = .ok entries ↔
      Forall₂ (fun field entry => field.1 = entry.1 ∧ Spells field.2 entry.2) fields entries := by
  induction fields generalizing entries with
  | nil => simp [checkFields, eq_comm]
  | cons field rest ih =>
    obtain ⟨id, value⟩ := field
    simp only [checkFields, map_both_eq_ok, checkIssue_eq_ok, ih, List.forall₂_cons_left_iff]
    constructor
    · rintro ⟨entry, others, hfirst, hrest, rfl⟩
      exact ⟨(id, entry), others, ⟨rfl, hfirst⟩, hrest, rfl⟩
    · rintro ⟨⟨_, entry⟩, others, ⟨rfl, hfirst⟩, hrest, rfl⟩
      exact ⟨entry, others, hfirst, hrest, rfl⟩

theorem checkIssues_eq_ok {value : Value} :
    checkIssues place value = .ok entries ↔ ∃ fields all, value = .record fields ∧
      Forall₂ (fun field entry => field.1 = entry.1 ∧ Spells field.2 entry.2) fields all ∧
      all.filter (·.1 != droppedKey) = entries := by
  cases value <;> simp [checkIssues, map_eq_ok, checkFields_eq_ok]

/-! ## Whole documents -/

theorem exists_spelled_iff :
    (∃ a : Option α, given = a.map spell) ↔ ∀ value, given = some value → ∃ a, value = spell a := by
  constructor
  · rintro ⟨a, rfl⟩ value hvalue
    obtain ⟨a, -, rfl⟩ := Option.map_eq_some_iff.1 hvalue
    exact ⟨a, rfl⟩
  · intro h
    cases given with
    | none => exact ⟨none, rfl⟩
    | some value =>
      obtain ⟨a, rfl⟩ := h value rfl
      exact ⟨some a, rfl⟩

theorem exists_spells_iff {value : Value} : (∃ entry, Spells value entry) ↔ ValidEntry value := by
  constructor
  · rintro ⟨entry, fields, rfl, hseverity, hignore⟩
    exact ⟨fields, rfl, exists_spelled_iff.1 ⟨_, hseverity⟩, exists_spelled_iff.1 ⟨_, hignore⟩⟩
  · rintro ⟨fields, rfl, hseverity, hignore⟩
    obtain ⟨severity, hseverity⟩ := exists_spelled_iff.2 hseverity
    obtain ⟨ignore, hignore⟩ := exists_spelled_iff.2 hignore
    exact ⟨⟨severity, ignore⟩, fields, rfl, hseverity, hignore⟩

theorem exists_forall₂_iff : (∃ entries : List (String × IssueSettings),
      Forall₂ (fun field entry => field.1 = entry.1 ∧ Spells field.2 entry.2) fields entries) ↔
      ∀ field ∈ fields, ValidEntry field.2 := by
  induction fields with
  | nil => simp
  | cons field rest ih =>
    rw [List.forall_mem_cons, ← ih, ← exists_spells_iff]
    simp only [List.forall₂_cons_left_iff]
    constructor
    · rintro ⟨_, entry, others, ⟨-, hfirst⟩, hrest, -⟩
      exact ⟨⟨entry.2, hfirst⟩, others, hrest⟩
    · rintro ⟨⟨entry, hfirst⟩, others, hrest⟩
      exact ⟨_, (field.1, entry), others, ⟨rfl, hfirst⟩, hrest, rfl⟩

theorem exists_check_iff : (∃ settings, check document = .ok settings) ↔ Valid document := by
  cases document with
  | null => simp [check, Valid]
  | record fields =>
    simp only [check, Valid, map_eq_ok, reduceCtorEq, false_or, Value.record.injEq, exists_eq_left']
    cases Value.field? fields "issues" with
    | none => simp [optional]
    | some value =>
      simp only [optional, map_eq_ok, checkIssues_eq_ok, Option.some.injEq, forall_eq',
        ← exists_forall₂_iff]
      constructor
      · rintro ⟨-, -, ⟨-, ⟨fields, all, rfl, hall, -⟩, -⟩, -⟩
        exact ⟨fields, rfl, all, hall⟩
      · rintro ⟨fields, rfl, all, hall⟩
        exact ⟨_, _, ⟨_, ⟨fields, all, rfl, hall, rfl⟩, rfl⟩, rfl⟩
  | _ => simp [check, Valid]

theorem rel_entry
    (h : Forall₂ (fun field entry => field.1 = entry.1 ∧ Spells field.2 entry.2) fields entries)
    {id : String} (hid : id ≠ droppedKey) : Option.Rel Spells (Value.field? fields id)
      (Settings.entry? ⟨entries.filter (·.1 != droppedKey)⟩ id) := by
  induction h with
  | nil => exact .none
  | @cons field entry _ _ hfirst _ ih =>
    obtain ⟨hkey, hspells⟩ := hfirst
    rw [Settings.entry?, List.find?_filter] at ih ⊢
    rw [Value.field?, List.find?_cons, List.find?_cons, hkey]
    by_cases hown : entry.1 = id
    · rw [beq_iff_eq.2 hown, decide_eq_true ⟨bne_iff_ne.2 (hown ▸ hid), rfl⟩]
      exact .some hspells
    · rw [beq_eq_false_iff_ne.2 hown, decide_eq_false fun h => Bool.false_ne_true h.2]
      exact ih

theorem bind_eq_some_iff {entry : Option IssueSettings} {key : String}
    {read : IssueSettings → Option α} (hspell : Function.Injective spell)
    (hnull : ∀ a, spell a ≠ .null) (h : Option.Rel Spells given entry)
    (hkey : ∀ {fields entry}, Spells (.record fields) entry →
      Value.field? fields key = (read entry).map spell) (a : α) :
    entry.bind read = some a ↔ (given.getD .null).get key = spell a := by
  cases h with
  | none => exact iff_of_false (Option.some_ne_none a).symm (hnull a).symm
  | @some value entry hspells =>
    obtain ⟨fields, rfl, -⟩ := id hspells
    rw [Option.bind_some, Option.getD_some, Value.get, hkey hspells]
    cases read entry with
    | none => exact iff_of_false (Option.some_ne_none a).symm (hnull a).symm
    | some b => rw [Option.some_inj, Option.map_some, Option.getD_some, hspell.eq_iff]

theorem Reads.of_rel {settings : Settings}
    (h : ∀ id, id ≠ droppedKey → ∃ given, (document.get "issues").get id = given.getD .null ∧
      Option.Rel Spells given (settings.entry? id)) : Reads document settings := by
  constructor
  · intro id hid
    obtain ⟨given, hgiven, hrel⟩ := h id hid
    rw [hgiven]
    refine bind_eq_some_iff severityValue_injective (fun _ h => by cases h) hrel ?_
    rintro fields entry ⟨_, ⟨⟩, hseverity, -⟩
    exact hseverity
  · intro id hid
    obtain ⟨given, hgiven, hrel⟩ := h id hid
    rw [hgiven]
    refine bind_eq_some_iff patternsValue_injective (fun _ h => by cases h) hrel ?_
    rintro fields entry ⟨_, ⟨⟩, -, hignore⟩
    exact hignore

theorem reads_of_check {settings : Settings}
    (h : check document = .ok settings) : Reads document settings := by
  refine .of_rel fun id hid => ?_
  cases document with
  | null =>
    cases h
    exact ⟨none, rfl, .none⟩
  | record fields =>
    obtain ⟨issues, hissues, rfl⟩ := map_eq_ok.1 h
    cases hfield : Value.field? fields "issues" with
    | none =>
      rw [hfield] at hissues
      cases hissues
      exact ⟨none, by simp [Value.get, hfield], .none⟩
    | some value =>
      rw [hfield] at hissues
      obtain ⟨_, hentries, rfl⟩ := map_eq_ok.1 hissues
      obtain ⟨fields, all, rfl, hall, rfl⟩ := checkIssues_eq_ok.1 hentries
      exact ⟨Value.field? fields id, by simp [Value.get, hfield], rel_entry hall hid⟩
  | _ => cases h

/-! ## Files -/

def IsFirst (ws : Workspace) (dir path : String) : Prop :=
  ∃ before name after, fileNames = before ++ name :: after ∧ path = Path.join dir name ∧
    ws.exists? path = true ∧ ∀ other ∈ before, ws.exists? (Path.join dir other) = false

def document? (ws : Workspace) (path : String) : Option Value :=
  (ws.readText path).toOption.bind (parseText? path)

theorem isFirst_of_file? {ws : Workspace} {dir path : String} (h : file? ws dir = some path) :
    IsFirst ws dir path := by
  obtain ⟨hexists, before, after, hpaths, hbefore⟩ := List.find?_eq_some_iff_append.1 h
  obtain ⟨names, rest, hnames, rfl, hrest⟩ := List.map_eq_append_iff.1 hpaths
  obtain ⟨name, others, rfl, rfl, -⟩ := List.map_eq_cons_iff.1 hrest
  refine ⟨names, name, others, hnames, rfl, hexists, fun other hother => ?_⟩
  simpa using hbefore _ (List.mem_map_of_mem hother)

theorem ofFile_cases (ws : Workspace) (path : String) :
    (∃ fault, ofFile ws path = .error fault ∧
      ∀ document, document? ws path = some document → ¬ Valid document) ∨
    ∃ document settings, document? ws path = some document ∧ Valid document ∧
      Reads document settings ∧ ofFile ws path = .ok settings := by
  rw [ofFile, document?]
  cases ws.readText path with
  | error fault => exact .inl ⟨_, rfl, fun _ h => by cases h⟩
  | ok text =>
    dsimp only [Except.toOption, Option.bind_some]
    cases parseText? path text with
    | none => exact .inl ⟨_, rfl, fun _ h => by cases h⟩
    | some document =>
      dsimp only
      cases hcheck : check document with
      | ok settings =>
        exact .inr ⟨document, settings, rfl, exists_check_iff.1 ⟨settings, hcheck⟩,
          reads_of_check hcheck, rfl⟩
      | error problems =>
        refine .inl ⟨_, rfl, ?_⟩
        rintro _ ⟨⟩ hvalid
        obtain ⟨settings, hok⟩ := exists_check_iff.2 hvalid
        cases hcheck.symm.trans hok

theorem LoadFault.level_entry (path : String) (fault : LoadFault) :
    (fault.entry path).level = .error := by
  cases fault <;> rfl

end Settings

namespace Configuration

open Settings

structure Alike (first second : Configuration) : Prop where
  severity : ∀ issue, first.severity issue = second.severity issue
  enabled : ∀ issue, first.isEnabled issue = second.isEnabled issue
  ignored : ∀ cwd report, first.isIgnored cwd report = second.isIgnored cwd report

theorem alike_unset (dir : String) (parent : Configuration) :
    Alike (.layer ⟨dir, {}⟩ parent) parent :=
  ⟨fun _ => rfl, fun _ => rfl, fun _ _ => rfl⟩

/-- The outcomes of loading a configuration file. -/
inductive Loads (ws : Workspace) (dir : String) (parent : Configuration) :
    Configuration × List Log.Entry → Prop
  /-- There is no file. -/
  | missing {config : Configuration} :
      (∀ name ∈ fileNames, ws.exists? (Path.join dir name) = false) → config.Alike parent →
      Loads ws dir parent (config, [])
  /-- The file cannot be read, is not well formed, or has anything wrong in it. -/
  | refused {path : String} {config : Configuration} {entry : Log.Entry} :
      IsFirst ws dir path → (∀ document, document? ws path = some document → ¬ Valid document) →
      config.Alike (.layer ⟨dir, {}⟩ parent) → config.Alike parent → entry.level = .error →
      Loads ws dir parent (config, [entry])
  | read {path : String} {document : Value} {settings : Settings} {entries : List Log.Entry} :
      IsFirst ws dir path → document? ws path = some document → Valid document →
      Reads document settings → (∀ entry ∈ entries, entry.level ≠ .error) →
      Loads ws dir parent (.layer ⟨dir, settings⟩ parent, entries)

/-- Whatever a directory holds, its configuration takes all of the first settings file word for word
and logs no error, or takes nothing of it and logs one. YAML is read in the part of the language
that `Data.Yaml.read?` covers, and nothing is said about files that use more. -/
theorem load_all_or_nothing (ws : Workspace) (dir : String) (parent : Configuration) :
    Loads ws dir parent (load ws dir parent) := by
  rw [load, Settings.load]
  cases hfile : file? ws dir with
  | none =>
    refine .missing (fun name hname => ?_) (alike_unset dir parent)
    have hnone := List.find?_eq_none.1 hfile _ (List.mem_map_of_mem hname)
    simpa using hnone
  | some path =>
    have hfirst := isFirst_of_file? hfile
    rcases ofFile_cases ws path with
      ⟨fault, hfault, hinvalid⟩ | ⟨document, settings, hdocument, hvalid, hreads, hok⟩
    · simp only [hfault]
      exact .refused hfirst hinvalid ⟨fun _ => rfl, fun _ => rfl, fun _ _ => rfl⟩
        (alike_unset dir parent) (fault.level_entry path)
    · simp only [hok]
      refine .read hfirst hdocument hvalid hreads fun entry hentry => ?_
      cases List.mem_singleton.1 hentry
      exact Log.Level.noConfusion

end Configuration
end ProjectLint
