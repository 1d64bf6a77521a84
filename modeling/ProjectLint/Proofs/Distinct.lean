/-
The elements of a list in the order of their first occurrence: which they are, that none is named
twice, and how they go together when lists are put together, filtered or mapped. Entries under keys
that keep their places when they are set again are in that order.
-/
import Mathlib.Data.List.Nodup
import ProjectLint.Detector

namespace ProjectLint

variable [DecidableEq α]

theorem mem_distinct {a : α} {elements : List α} : a ∈ distinct elements ↔ a ∈ elements := by
  induction elements with
  | nil => exact Iff.rfl
  | cons b rest ih =>
    rw [distinct, List.mem_cons, List.mem_cons, List.mem_filter, ih, bne_iff_ne]
    by_cases hab : a = b <;> simp [hab]

theorem nodup_distinct (elements : List α) : (distinct elements).Nodup := by
  induction elements with
  | nil => exact List.nodup_nil
  | cons a rest ih =>
    rw [distinct, List.nodup_cons]
    exact ⟨by simp, ih.filter _⟩

theorem distinct_filter (p : α → Bool) (elements : List α) :
    distinct (elements.filter p) = (distinct elements).filter p := by
  induction elements with
  | nil => rfl
  | cons a rest ih =>
    by_cases ha : p a = true
    · rw [List.filter_cons_of_pos ha, distinct, ih, distinct, List.filter_cons_of_pos ha,
        List.filter_filter, List.filter_filter]
      simp only [Bool.and_comm]
    · have hskip : ∀ b ∈ distinct rest, (p b && (b != a)) = p b := by
        intro b _
        by_cases hb : b = a
        · rw [hb, Bool.eq_false_iff.2 ha, Bool.false_and]
        · rw [bne_iff_ne.2 hb, Bool.and_true]
      rw [List.filter_cons_of_neg ha, ih, distinct, List.filter_cons_of_neg ha, List.filter_filter,
        List.filter_congr hskip]

theorem distinct_append (elements more : List α) :
    distinct (elements ++ more) =
      distinct elements ++ (distinct more).filter fun a => decide (a ∉ elements) := by
  induction elements with
  | nil => simp [distinct]
  | cons b rest ih =>
    have hnew : ∀ a ∈ distinct more, ((a != b) && decide (a ∉ rest)) = decide (a ∉ b :: rest) := by
      intro a _
      by_cases hab : a = b <;> simp [hab]
    rw [List.cons_append, distinct, ih, distinct, List.filter_append, List.filter_filter,
      List.cons_append, List.filter_congr hnew]

theorem distinct_of_nodup {elements : List α} (h : elements.Nodup) :
    distinct elements = elements := by
  induction elements with
  | nil => rfl
  | cons a rest ih =>
    obtain ⟨ha, hrest⟩ := List.nodup_cons.1 h
    have hother : ∀ b ∈ rest, (b != a) = true := fun b hb => bne_iff_ne.2 fun hba => ha (hba ▸ hb)
    rw [distinct, ih hrest, List.filter_eq_self.2 hother]

theorem distinct_append_of_subset {elements more : List α} (h : more ⊆ elements) :
    distinct (elements ++ more) = distinct elements := by
  rw [distinct_append, List.filter_eq_nil_iff.2, List.append_nil]
  exact fun a ha => by simpa using h (mem_distinct.1 ha)

theorem distinct_distinct_append (elements more : List α) :
    distinct (distinct elements ++ more) = distinct (elements ++ more) := by
  rw [distinct_append, distinct_append, distinct_of_nodup (nodup_distinct elements)]
  simp only [mem_distinct]

theorem distinct_concat (elements : List α) (a : α) :
    distinct (elements ++ [a]) =
      if a ∈ elements then distinct elements else distinct elements ++ [a] := by
  rw [distinct_append]
  by_cases ha : a ∈ elements <;> simp [distinct, ha]

/-! ## Entries under keys -/

section Put

variable {β : Type} {entries : List (String × β)} {key : String} {value : β}

def put (entries : List (String × β)) (key : String) (value : β) : List (String × β) :=
  if entries.any (·.1 == key) then
    entries.map fun entry => if entry.1 == key then (key, value) else entry
  else entries ++ [(key, value)]

theorem map_fst_put : (put entries key value).map Prod.fst =
    if key ∈ entries.map Prod.fst then entries.map Prod.fst else entries.map Prod.fst ++ [key] := by
  have hknown : entries.any (·.1 == key) = true ↔ key ∈ entries.map Prod.fst := by simp
  rw [put]
  by_cases hkey : key ∈ entries.map Prod.fst
  · rw [if_pos (hknown.2 hkey), if_pos hkey, List.map_map]
    refine List.map_congr_left fun entry _ => ?_
    rw [Function.comp_apply]
    split
    · next heq => exact (beq_iff_eq.1 heq).symm
    · rfl
  · rw [if_neg (mt hknown.1 hkey), if_neg hkey, List.map_append, List.map_singleton]

theorem mem_put {entry : String × β} :
    entry ∈ put entries key value ↔ entry ∈ entries ∧ entry.1 ≠ key ∨ entry = (key, value) := by
  rw [put]
  by_cases hknown : entries.any (·.1 == key) = true
  · rw [if_pos hknown, List.mem_map]
    constructor
    · rintro ⟨old, hold, rfl⟩
      by_cases hkey : old.1 = key
      · exact .inr (if_pos (beq_iff_eq.2 hkey))
      · rw [if_neg (mt beq_iff_eq.1 hkey)]
        exact .inl ⟨hold, hkey⟩
    · rintro (⟨hold, hkey⟩ | rfl)
      · exact ⟨entry, hold, if_neg (mt beq_iff_eq.1 hkey)⟩
      · obtain ⟨old, hold, hkey⟩ := List.any_eq_true.1 hknown
        exact ⟨old, hold, if_pos hkey⟩
  · rw [if_neg hknown, List.mem_append, List.mem_singleton]
    refine or_congr_left ⟨fun hold => ⟨hold, fun hkey => hknown ?_⟩, And.left⟩
    exact List.any_eq_true.2 ⟨entry, hold, beq_iff_eq.2 hkey⟩

end Put

end ProjectLint
