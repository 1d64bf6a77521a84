/-
Configurations that inherit. A chain of layers answers by what all its layers say, nearest first and
in each the entry of the issue before the one for every issue: the first severity that is given
counts, and every pattern that is given. An issue that a chain enables is never silenced by it.
-/
import Mathlib.Data.List.Basic
import ProjectLint.Run.Engine

namespace ProjectLint

namespace Layer

/-- What a layer says of an issue: by its own id, then of every issue. -/
def entries (layer : Layer) (issue : Issue) : List IssueSettings :=
  [issue.id, Settings.everyIssue].filterMap layer.settings.entry?

theorem severity?_eq_head? (layer : Layer) (issue : Issue) :
    layer.severity? issue = ((layer.entries issue).filterMap IssueSettings.severity).head? := by
  simp only [severity?, entries, List.filterMap_cons, List.filterMap_nil]
  cases layer.settings.entry? issue.id with
  | none => cases layer.settings.entry? Settings.everyIssue <;> simp [List.head?_filterMap]
  | some own =>
    cases hown : own.severity <;> cases layer.settings.entry? Settings.everyIssue <;>
      simp [List.head?_filterMap, hown]

theorem mem_patterns {layer : Layer} {issue : Issue} {pattern : String} :
    pattern ∈ layer.patterns issue ↔
      ∃ entry ∈ layer.entries issue, pattern ∈ entry.ignore.getD [] := by
  have hgetD : ∀ entry : Option IssueSettings, pattern ∈ (entry.bind IssueSettings.ignore).getD [] ↔
      ∃ given, entry = some given ∧ pattern ∈ given.ignore.getD [] := by
    intro entry
    cases entry <;> simp
  simp only [patterns, entries, List.mem_append, hgetD, List.mem_filterMap, List.mem_cons,
    List.not_mem_nil, or_false, or_and_right, exists_or, exists_eq_left]

theorem ignores_iff {layer : Layer} {cwd : String} {report : Report} :
    layer.ignores cwd report = true ↔ ∃ entry ∈ layer.entries report.issue,
      ∃ pattern ∈ entry.ignore.getD [], Settings.Pattern.isMatch
        (Path.relative cwd layer.dir (reportedPath report)) pattern = true := by
  rw [ignores, List.any_eq_true]
  constructor
  · rintro ⟨pattern, hpattern, hmatch⟩
    obtain ⟨entry, hentry, hignore⟩ := mem_patterns.1 hpattern
    exact ⟨entry, hentry, pattern, hignore, hmatch⟩
  · rintro ⟨entry, hentry, pattern, hignore, hmatch⟩
    exact ⟨pattern, mem_patterns.2 ⟨entry, hentry, hignore⟩, hmatch⟩

end Layer

namespace Configuration

/-- Layers over the defaults, the nearest first. -/
def chain (layers : List Layer) : Configuration :=
  layers.foldr .layer .defaults

/-- The severities that layers set for an issue, the one that counts first. -/
def severities (layers : List Layer) (issue : Issue) : List Severity :=
  layers.flatMap fun layer => (layer.entries issue).filterMap IssueSettings.severity

theorem severities_cons (layer : Layer) (rest : List Layer) (issue : Issue) :
    severities (layer :: rest) issue =
      (layer.entries issue).filterMap IssueSettings.severity ++ severities rest issue :=
  rfl

theorem severity_chain (layers : List Layer) (issue : Issue) :
    (chain layers).severity issue = (severities layers issue).headD issue.severity := by
  induction layers with
  | nil => rfl
  | cons layer rest ih =>
    rw [chain, List.foldr_cons, ← chain, severity, ih, layer.severity?_eq_head?, severities_cons]
    cases (layer.entries issue).filterMap IssueSettings.severity <;> rfl

theorem isEnabled_chain (layers : List Layer) (issue : Issue) :
    (chain layers).isEnabled issue = true ↔
      (chain layers).severity issue ≠ .ignore ∧
        (severities layers issue ≠ [] ∨ issue.enabled = true) := by
  induction layers with
  | nil =>
    show (issue.enabled && issue.severity != .ignore) = true ↔
      issue.severity ≠ .ignore ∧ (([] : List Severity) ≠ [] ∨ issue.enabled = true)
    rw [Bool.and_eq_true, bne_iff_ne]
    exact ⟨fun h => ⟨h.2, .inr h.1⟩, fun h => ⟨h.2.resolve_left fun hne => hne rfl, h.1⟩⟩
  | cons layer rest ih =>
    rw [chain, List.foldr_cons, ← chain, isEnabled, severity, layer.severity?_eq_head?,
      severities_cons]
    cases (layer.entries issue).filterMap IssueSettings.severity with
    | nil => exact ih
    | cons given others =>
      -- what the layer gives is not overruled by the layers after it
      show (given != .ignore) = true ↔ given ≠ .ignore ∧ (given :: (others ++ _) ≠ [] ∨ _)
      rw [bne_iff_ne]
      exact ⟨fun h => ⟨h, .inl (List.cons_ne_nil _ _)⟩, And.left⟩

theorem isIgnored_chain (cwd : String) (report : Report) (layers : List Layer) :
    (chain layers).isIgnored cwd report = true ↔
      ∃ layer ∈ layers, layer.ignores cwd report = true := by
  induction layers with
  | nil => simp [chain, isIgnored]
  | cons layer rest ih =>
    rw [chain, List.foldr_cons, ← chain, isIgnored, Bool.or_eq_true, ih, List.exists_mem_cons_iff]

/-- What a chain of layers says of an issue, and of a report. -/
theorem chain_inherits (layers : List Layer) :
    (∀ issue : Issue,
      (chain layers).severity issue = (severities layers issue).headD issue.severity ∧
      ((chain layers).isEnabled issue = true ↔
        (chain layers).severity issue ≠ .ignore ∧
          (severities layers issue ≠ [] ∨ issue.enabled = true))) ∧
    ∀ (cwd : String) (report : Report),
      ((chain layers).isIgnored cwd report = true ↔
        ∃ layer ∈ layers, ∃ entry ∈ layer.entries report.issue, ∃ pattern ∈ entry.ignore.getD [],
          Settings.Pattern.isMatch (Path.relative cwd layer.dir (Layer.reportedPath report))
            pattern = true) ∧
      Engine.verdict (chain layers) cwd report ≠ .silenced := by
  refine ⟨fun issue => ⟨severity_chain layers issue, isEnabled_chain layers issue⟩,
    fun cwd report => ⟨?_, ?_⟩⟩
  · simp only [isIgnored_chain, Layer.ignores_iff]
  · rw [Engine.verdict]
    cases henabled : (chain layers).isEnabled report.issue with
    | false => exact fun h => by cases h
    | true =>
      have hseverity := ((isEnabled_chain layers report.issue).1 henabled).1
      rw [if_neg hseverity]
      cases (chain layers).isIgnored cwd report <;> exact fun h => by cases h

end Configuration
end ProjectLint
