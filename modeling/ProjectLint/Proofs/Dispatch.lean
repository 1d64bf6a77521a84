/-
Who is called for what in a file that is visited. A visitor keeps tables of the names that its
detectors asked for, yet its calls are those of a plain walk: at each node of the tree, in
pre-order, every detector is called as often as it asked for the name of the node. So what a
detector hears of a file depends on its own answers alone.

A call may fail, and then the visit ends there: `Made` says of an outcome that all calls were made,
or that the fault is that of the last one.
-/
import ProjectLint.Proofs.Brackets

namespace ProjectLint

namespace NameTable

def ofNames (names : Detector → List String) (detectors : List Detector) : NameTable :=
  detectors.flatMap fun detector => (names detector).map fun name => (name, detector)

theorem lookup_append (table more : NameTable) (name : String) :
    (table ++ more).lookup name = table.lookup name ++ more.lookup name := by
  rw [lookup, List.filter_append, List.map_append]
  rfl

theorem lookup_listed (names : List String) (detector : Detector) (name : String) :
    lookup (names.map fun name => (name, detector)) name =
      List.replicate (names.count name) detector := by
  rw [lookup, List.filter_map, List.map_map]
  refine List.eq_replicate_iff.2 ⟨?_, ?_⟩
  · rw [List.length_map, List.count, List.countP_eq_length_filter]
    rfl
  · intro called hcalled
    obtain ⟨_, -, rfl⟩ := List.mem_map.1 hcalled
    rfl

theorem lookup_ofNames (names : Detector → List String) (detectors : List Detector)
    (name : String) :
    (ofNames names detectors).lookup name =
      detectors.flatMap fun detector => List.replicate ((names detector).count name) detector := by
  induction detectors with
  | nil => rfl
  | cons detector rest ih =>
    rw [ofNames, List.flatMap_cons, lookup_append, lookup_listed, List.flatMap_cons]
    exact congrArg (_ ++ ·) ih

end NameTable

namespace Dispatch

open Journal Run Engine Brackets

/-! ## Calls that were made -/

/-- An operation that began in `s` has left a word of marks, or the beginning of it up to a call
that failed. -/
inductive Made (e : Engine σ) (word : List Mark) (s : State σ) :
    Outcome σ α → Prop
  | all {a : α} {s' : State σ} (new : List Entry) : s'.written = s.written ++ new →
      marks new = word → Made e word s (.ok a s')
  | upTo {fault : Fault} {s' u : State σ} (new : List Entry) (made rest : List Mark)
      {detector : Detector} {hook : Hook} : word = made ++ .hook detector hook :: rest →
      s'.written = s.written ++ new → marks new = made ++ [.hook detector hook] →
      e.ask detector hook u = .error fault s' → Made e word s (.error fault s')

def Makes (e : Engine σ) (word : List Mark) (x : Run σ α) : Prop :=
  ∀ s, Made e word s (x s)

variable {e : Engine σ} {word more : List Mark}

theorem Made.after {s s₁ : State σ} {new : List Entry} (hwritten : s₁.written = s.written ++ new)
    (hmarks : marks new = word) {r : Outcome σ α} (h : Made e more s₁ r) :
    Made e (word ++ more) s r := by
  cases h with
  | all later hlater hrest =>
    refine .all (new ++ later) ?_ ?_
    · rw [hlater, hwritten, List.append_assoc]
    · rw [marks_append, hmarks, hrest]
  | upTo later made rest hword hlater hrest hfault =>
    refine .upTo (new ++ later) (word ++ made) rest ?_ ?_ ?_ hfault
    · rw [hword, List.append_assoc]
    · rw [hlater, hwritten, List.append_assoc]
    · rw [marks_append, hmarks, hrest, List.append_assoc]

theorem Made.marks_eq {a : α} {s s' : State σ} {new : List Entry} (h : Made e word s (.ok a s'))
    (hnew : s'.written = s.written ++ new) : marks new = word := by
  cases h with
  | all other hother hmarks => rw [← hmarks, List.append_cancel_left (hnew.symm.trans hother)]

theorem Made.of_still {s s₁ : State σ} (hstill : Still s s₁)
    {r : Outcome σ α} (h : Made e word s₁ r) : Made e word s r := by
  obtain ⟨new, hwritten, hmarks⟩ := hstill.wrote
  exact h.after hwritten hmarks

theorem Makes.pure (a : α) : Makes e [] (pure a) :=
  fun _ => .all [] (List.append_nil _).symm rfl

theorem Makes.bind {x : Run σ α} {f : α → Run σ β} (hx : Makes e word x)
    (hf : ∀ a, Makes e more (f a)) : Makes e (word ++ more) (x >>= f) := by
  intro s
  have hmade := hx s
  cases hr : x s with
  | ok a s₁ =>
    rw [hr] at hmade
    cases hmade with
    | all new hwritten hmarks =>
      rw [bind_of_ok hr]
      exact (hf a s₁).after hwritten hmarks
  | error fault s₁ =>
    rw [hr] at hmade
    cases hmade with
    | upTo new made rest hword hwritten hmarks hfault =>
      rw [bind_of_error hr]
      refine .upTo new made (rest ++ more) ?_ hwritten hmarks hfault
      rw [hword, List.append_assoc, List.cons_append]

theorem Makes.each {f : α → Run σ Unit} {words : α → List Mark} (elements : List α)
    (h : ∀ a, Makes e (words a) (f a)) : Makes e (elements.flatMap words) (each elements f) := by
  induction elements with
  | nil => exact .pure ()
  | cons element rest ih => exact (h element).bind fun _ => ih

section Calls

variable {host : Host σ} {opts : Options}

theorem makes_ask (detector : Detector) (hook : Hook) :
    Makes (host.engine opts) [.hook detector hook] ((host.engine opts).ask detector hook) := by
  intro s
  have hstill : Still _ (endState ((host.engine opts).ask detector hook s)) :=
    (finds_still host (s.write (.called (.detector detector hook) s.moment))).ask opts
      (Script.within_true _) (.refl _)
  obtain ⟨new, hnew, hmarks⟩ := hstill.wrote
  have hwritten : (endState ((host.engine opts).ask detector hook s)).written =
      s.written ++ (.called (.detector detector hook) s.moment :: new) := by
    rw [hnew, State.written_write, List.append_assoc]
    rfl
  have hword : marks (.called (.detector detector hook) s.moment :: new) =
      [.hook detector hook] := congrArg (Mark.hook detector hook :: ·) hmarks
  cases hr : (host.engine opts).ask detector hook s with
  | ok a s' =>
    rw [hr] at hwritten
    exact .all _ hwritten hword
  | error fault s' =>
    rw [hr] at hwritten
    exact .upTo _ [] [] rfl hwritten hword hr

theorem makes_tell (detectors : List Detector) (hook : Hook) :
    Makes (host.engine opts) (Brackets.all detectors hook)
      ((host.engine opts).tell detectors hook) := by
  rw [Brackets.all, List.map_eq_flatMap]
  exact .each detectors fun detector => makes_ask detector hook

end Calls

theorem eq_of_asked {call : Run σ Unit} {answer a : α} {s s' : State σ}
    (h : (call >>= fun _ => pure answer) s = .ok a s') : a = answer := by
  obtain ⟨_, _, -, hreturn⟩ := bind_eq_ok h
  cases hreturn
  rfl

/-! ## What one detector hears -/

/-- The hooks that one detector was called with. -/
def heard (detector : Detector) (word : List Mark) : List Hook :=
  word.filterMap fun
    | .hook called hook => if called = detector then some hook else none
    | _ => none

def called? : Mark → Option (DetectorClass × String)
  | .hook detector hook => some (detector.className, hook.name)
  | _ => none

theorem heard_append (detector : Detector) (word more : List Mark) :
    heard detector (word ++ more) = heard detector word ++ heard detector more :=
  List.filterMap_append

theorem heard_flatMap (detector : Detector) (elements : List α) (words : α → List Mark) :
    heard detector (elements.flatMap words) =
      elements.flatMap fun element => heard detector (words element) :=
  List.filterMap_flatMap

theorem heard_all (detector : Detector) (detectors : List Detector) (hook : Hook) :
    heard detector (Brackets.all detectors hook) =
      List.replicate (detectors.count detector) hook := by
  induction detectors with
  | nil => rfl
  | cons first rest ih =>
    have hfirst : heard detector (Brackets.all (first :: rest) hook) =
        (if first = detector then [hook] else []) ++ heard detector (Brackets.all rest hook) := by
      by_cases hsame : first = detector
      · rw [if_pos hsame]
        exact List.filterMap_cons_some (if_pos hsame)
      · rw [if_neg hsame]
        exact List.filterMap_cons_none (if_neg hsame)
    rw [hfirst, ih, List.count_cons]
    by_cases hsame : first = detector
    · rw [if_pos hsame, if_pos (beq_iff_eq.2 hsame), List.replicate_succ]
      rfl
    · rw [if_neg hsame, if_neg fun h => hsame (beq_iff_eq.1 h)]
      rfl

/-! ## Whom a name calls -/

def named (names : Detector → List String) (detectors : List Detector) (name : String) :
    List Detector :=
  detectors.flatMap fun detector => List.replicate ((names detector).count name) detector

section Counts

variable {detector : Detector} {detectors : List Detector}

theorem count_named_of_not_mem (names : Detector → List String) (hnot : detector ∉ detectors)
    (name : String) : (named names detectors name).count detector = 0 := by
  refine List.count_eq_zero_of_not_mem fun hmem => ?_
  obtain ⟨other, hother, hsame⟩ := List.mem_flatMap.1 hmem
  exact hnot (List.eq_of_mem_replicate hsame ▸ hother)

variable (hnodup : detectors.Nodup) (hmem : detector ∈ detectors)

include hnodup hmem

theorem count_named (names : Detector → List String) (name : String) :
    (named names detectors name).count detector = (names detector).count name := by
  induction detectors with
  | nil => cases hmem
  | cons first rest ih =>
    obtain ⟨hfirst, hrest⟩ := List.nodup_cons.1 hnodup
    have hsplit : (named names (first :: rest) name).count detector =
        (List.replicate ((names first).count name) first).count detector +
          (named names rest name).count detector := by
      rw [named, List.flatMap_cons, List.count_append]
      rfl
    rw [hsplit]
    rcases List.mem_cons.1 hmem with rfl | hmem
    · rw [List.count_replicate_self, count_named_of_not_mem names hfirst, Nat.add_zero]
    · have hne : first ≠ detector := fun h => hfirst (h ▸ hmem)
      rw [List.count_replicate, if_neg fun h => hne (beq_iff_eq.1 h), Nat.zero_add, ih hrest hmem]

end Counts

/-! ## Files -/

def fileMarks (detectors : List Detector) (context : Context) (shown : Hook) (walk : List Mark) :
    List Mark :=
  Brackets.all detectors (.beforeFile context) ++
    (Brackets.all detectors shown ++ (walk ++ Brackets.all detectors (.afterFile context)))

theorem heard_fileMarks {detectors : List Detector} {detector : Detector}
    (hnodup : detectors.Nodup) (hmem : detector ∈ detectors) (context : Context) (shown : Hook)
    (walk : List Mark) :
    heard detector (fileMarks detectors context shown walk) =
      .beforeFile context :: shown :: heard detector walk ++ [.afterFile context] := by
  have hall : ∀ hook, heard detector (Brackets.all detectors hook) = [hook] := by
    intro hook
    rw [heard_all, List.count_eq_one_of_mem hnodup hmem]
    rfl
  rw [fileMarks, heard_append, heard_append, heard_append, hall, hall, hall]
  rfl

theorem makes_showFile (host : Host σ) (opts : Options) (detectors : List Detector)
    (context : Context) (shown : Hook) {walk : List Mark} {agenda : Agenda}
    (hwalk : agenda.flatMap (fun item => Brackets.all item.1 item.2) = walk) :
    Makes (host.engine opts) (fileMarks detectors context shown walk)
      ((host.engine opts).showFile detectors context ((detectors, shown) :: agenda)) := by
  have hagenda : Makes (host.engine opts) (Brackets.all detectors shown ++ walk)
      ((host.engine opts).tellAll ((detectors, shown) :: agenda)) := by
    rw [← hwalk]
    exact Makes.each ((detectors, shown) :: agenda) fun item => makes_tell item.1 item.2
  rw [fileMarks, ← List.append_assoc (Brackets.all detectors shown)]
  exact (makes_tell _ _).bind fun _ => hagenda.bind fun _ => makes_tell _ _

end Dispatch
end ProjectLint
