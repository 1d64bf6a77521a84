/-
The check of files leaves its marks in brackets. A visitor calls all its detectors for the beginning
and the end of a file and shows the file to some of them in between; a detector of classes or of
shrinker rules is called for the file alone. Either way the calls for a file follow its event, so
the stages of a pass only put such words together.
-/
import ProjectLint.Proofs.Brackets

namespace ProjectLint

namespace Brackets

open Journal Run Engine

variable {s s' : State σ} {pass : Pass} {context : Context}
variable {hook : Hook} {visitor : SourceVisitor}

theorem singleton_mul (v w : List Mark) : ({v} * {w} : Language Mark) ≤ {v ++ w} := by
  intro word hword
  obtain ⟨_, rfl, _, rfl, rfl⟩ := Language.mem_mul.1 hword
  rfl

theorem Still.after {entry : Entry} {mark : Mark} (hs : Fit s) (hmark : mark? entry = some mark)
    (h : Still (s.write entry) s') : Marked {[mark]} {[mark]} s s' := by
  obtain ⟨new, hnew, hmarks⟩ := h.wrote
  have hword : marks (entry :: new) = [mark] := by
    rw [marks, List.filterMap_cons_some hmark]
    exact congrArg (mark :: ·) hmarks
  refine ⟨⟨entry :: new, ?_, hword, fun _ => hword⟩, h.canceled, h.fit hs⟩
  rw [hnew, State.written_write, List.append_assoc]
  rfl

section Calls

variable {host : Host σ} {opts : Options}

theorem tells_ask (detector : Detector) (hook : Hook) :
    Adds {[.hook detector hook]} ((host.engine opts).ask detector hook) s := by
  intro hs a s' hask
  have hstill : Still _ (endState ((host.engine opts).ask detector hook s)) :=
    (finds_still host (s.write (.called (.detector detector hook) s.moment))).ask opts
      (Script.within_true _) (.refl _)
  rw [hask] at hstill
  exact ⟨hstill.after hs rfl, trivial⟩

theorem tells_fire (event : Event) (context : Option Context) :
    Adds {[.event event context]} ((host.engine opts).fire event context) s := by
  intro hs a s' hfire
  have hstill : Still _ (endState ((host.engine opts).fire event context s)) :=
    (hears_still host (s.write (.fired event context s.moment))).fire opts (.refl _)
  rw [hfire] at hstill
  exact ⟨hstill.after hs rfl, trivial⟩

theorem still_log (error : Option String) (message : String) (context : Option Context)
    (b : State σ) : Keeps (Still b) ((host.engine opts).log error message context) :=
  (finds_still host b).log opts error message context

theorem tells_tell (detectors : List Detector) (hook : Hook) :
    Adds {all detectors hook} ((host.engine opts).tell detectors hook) s := by
  induction detectors generalizing s with
  | nil => exact .pure trivial
  | cons detector rest ih =>
    refine ((tells_ask detector hook).bind fun _ _ _ => ih).mono ?_ ?_
    · exact singleton_mul _ _
    · exact singleton_mul _ _

theorem tells_question (detector : Detector) (hfile : hook.isOnFile = false)
    (hlevel : hook.isLevel = false) (hcontext : hook.context? = none) :
    Adds (files pass) ((host.engine opts).ask detector hook) s := by
  have hle : {[.hook detector hook]} ≤ files pass := by
    rintro _ rfl
    exact question_mem_files pass detector hfile hlevel hcontext
  exact (tells_ask detector hook).mono hle hle

theorem tells_scan (hcontext : Covers pass context) {x : Run σ α}
    (hx : ∀ s, Adds (onFile context) x s) :
    Adds (files pass) ((host.engine opts).fire .scanningFile (some context) >>= fun _ => x) s := by
  have hle : {[.event .scanningFile (some context)]} * onFile context ≤ files pass := by
    intro word hword
    obtain ⟨_, rfl, w, hw, rfl⟩ := Language.mem_mul.1 hword
    exact scan_mem_files hcontext hw
  exact ((tells_fire _ _).bind fun _ _ _ => hx _).mono hle hle

theorem tells_showFile {detectors : List Detector} (hdetectors : detectors.Nodup) {agenda : Agenda}
    (hagenda : agenda.Shows context (· ∈ detectors)) :
    Adds (onFile context) ((host.engine opts).showFile detectors context agenda) s := by
  have hclosed := closed_showing detectors context
  have hshown : ∀ s, Adds (showing detectors context) ((host.engine opts).tellAll agenda) s := by
    refine fun s => .each hclosed fun item hitem s => ?_
    have hle : {all item.1 item.2} ≤ showing detectors context := by
      rintro _ rfl mark hmark
      obtain ⟨d, hd, rfl⟩ := List.mem_map.1 hmark
      exact ⟨d, (hagenda item hitem).2 d hd, item.2, (hagenda item hitem).1, rfl⟩
    exact (tells_tell item.1 item.2).mono hle hle
  have hle : {all detectors (.beforeFile context)} *
      (showing detectors context * {all detectors (.afterFile context)}) ≤ onFile context := by
    intro word hword
    obtain ⟨_, rfl, _, hrest, rfl⟩ := Language.mem_mul.1 hword
    obtain ⟨inside, hinside, _, rfl, rfl⟩ := Language.mem_mul.1 hrest
    exact visit_mem_onFile hdetectors hinside
  refine Tells.mono (.bind (tells_tell _ _) fun _ s₁ _ => ?_) hle hle
  exact (hshown s₁).bind fun _ _ _ => tells_tell _ _

end Calls

/-! ## Visits -/

variable {host : Host σ} {opts : Options}

theorem tells_visitMarkup {visitor : MarkupVisitor} (hvisitor : Sound visitor)
    (parsed : Option Markup.Document) :
    Adds (onFile context) ((host.engine opts).visitMarkup visitor context parsed) s := by
  have hvisit : ∀ document s, Adds (onFile context) (do
      (host.engine opts).visitDocument visitor context document
      return some document : Run σ (Option Markup.Document)) s := by
    refine fun document s => .bind_pure (Q := fun _ => True) ?_ fun _ _ => trivial
    rw [visitDocument_eq]
    exact tells_showFile hvisitor.nodup (hvisitor.calls.shows context document)
  cases parsed with
  | some document => exact hvisit document s
  | none =>
    refine .still_bind (fun b => (finds_still host b).parseMarkup opts context)
      fun document s' => ?_
    cases document with
    | none => exact .give (closed_onFile context) trivial
    | some document => exact hvisit document s'

theorem tells_visitSource (hnodup : visitor.detectors.Nodup)
    (hvisitor : visitor.Calls (· ∈ visitor.detectors)) : Adds (onFile context)
      ((host.engine opts).visitSource visitor context) s := by
  refine .still_bind (fun b => (finds_still host b).parseSource opts context) fun unit s' => ?_
  cases unit with
  | none => exact .give (closed_onFile context) trivial
  | some unit =>
    refine .bind_pure (Q := fun _ => True) ?_ fun _ _ => trivial
    rw [visitUnit_eq]
    exact tells_showFile hnodup (hvisitor.shows context unit)

theorem tells_checkWith (hhook : hook.visited? = some context) (detector : Detector) :
    Adds (onFile context) ((host.engine opts).checkWith context hook detector) s := by
  have hclosed := closed_onFile context
  have hasked : ∀ answer, {[.hook detector (.appliesToFile context context.file answer)]} ≤
      onFile context := by
    rintro answer _ rfl
    refine ⟨fun _ => .aside trivial (fun _ => rfl) .nil, List.forall_mem_singleton.2 ⟨rfl, ?_⟩⟩
    exact fun _ hc => (Option.some.inj hc).symm
  have happlies : Adds (onFile context) ((host.engine opts).appliesToFile detector context) s :=
    .inspect (.bind_pure ((tells_ask _ _).mono (hasked _) (hasked _)) fun _ _ => trivial)
  refine .andThen hclosed happlies fun applies s₁ _ => .ite _ ?_ (.done hclosed)
  have hle : {[.hook detector (.beforeFile context)]} * ({[.hook detector hook]} *
      {[.hook detector (.afterFile context)]}) ≤ onFile context := by
    intro word hword
    obtain ⟨_, rfl, _, hrest, rfl⟩ := Language.mem_mul.1 hword
    obtain ⟨_, rfl, _, rfl, rfl⟩ := Language.mem_mul.1 hrest
    have hinside : [.hook detector hook] ∈ showing [detector] context :=
      List.forall_mem_singleton.2 ⟨detector, List.mem_singleton_self _, hook, hhook, rfl⟩
    exact visit_mem_onFile (List.nodup_singleton detector) hinside
  refine Tells.mono (.bind (tells_ask _ _) fun _ _ _ => ?_) hle hle
  exact .bind (tells_ask _ _) fun _ _ _ => tells_ask _ _

/-! ## The stages of a pass -/

theorem selection_eq (s : State σ) : s.selection = (ownSlot.schedule s).selection := by
  show _ = (s.schedule.getD {}).selection
  rw [State.selection]
  cases s.schedule <;> rfl

theorem nodup_bucket (hs : Fit s) (category : Scope) : (s.selection.bucket category).Nodup := by
  refine (selection_eq s ▸ hs.selected).sublist ?_
  rw [Selection.bucket, Selection.detectors]
  exact List.filter_sublist.map _

theorem Tells.of_still {L : Language Mark} (hclosed : Closed L) {x : Run σ α} {Q : α → Prop}
    (h : ∀ b, Keeps (Still b) x)
    (hQ : ∀ a s', Fit s → Fit s' → x s = .ok a s' → Q a) : Adds L x s Q := by
  intro hs a s' hx
  have hmarked := (Tells.of_silent hclosed (.still h) hs a s' hx).1
  exact ⟨hmarked, hQ a s' hs hmarked.fit hx⟩

def bracketing (pass : Pass) : Judgement σ where
  state := Fit
  minds := fun _ _ => True
  counts := fun _ => True
  kinds := fun _ => True
  checks := fun categories detectors => categories ≠ [] ∧ detectors.Nodup
  markup := fun _ => Sound
  source := fun visitor => visitor.detectors.Nodup ∧ visitor.Calls (· ∈ visitor.detectors)
  stage := fun x => ∀ s, Adds (files pass) x s
  yields := fun x Q => ∀ s, Adds (files pass) x s Q

theorem walk (pass : Pass) : ResourceWalk (host.engine opts) pass (bracketing pass) where
  give := fun ha s => .give (closed_files pass) ha
  bind := fun hx hf s => .andThen (closed_files pass) (hx s) fun a s' ha => hf a ha s'
  look := fun s hs a s' h => by
    cases h
    exact ⟨.refl hs (closed_files pass).nil fun _ => (closed_files pass).nil, hs⟩
  ask := fun {_ _ detector hook} _ _ _ hcontext s => by
    have hfile : hook.isOnFile = false ∧ hook.isLevel = false := by
      cases hook with
      | appliesToFolder | elementNames | attributeNames | nodeTypes => exact ⟨rfl, rfl⟩
      | _ => cases hcontext
    exact tells_question detector hfile.1 hfile.2 hcontext
  sublist := fun hchecks hsublist => ⟨hchecks.1, hchecks.2.sublist hsublist⟩
  mind := fun hchecks detector _ => ⟨_, List.head_mem hchecks.1, trivial⟩
  markup := fun hchecks hcalls => ⟨hchecks.2, hcalls⟩
  source := fun hchecks hcalls => ⟨hchecks.2, hcalls⟩
  applies := fun _ _ _ _ => trivial
  memo := fun hs hmemo => ⟨fun visitor => hs.remembered _ visitor hmemo, fun _ _ _ _ => trivial,
    fun _ _ _ _ => trivial⟩
  remember := fun {change} hchange s hs a s' h => by
    cases h
    refine ⟨⟨⟨[], (List.append_nil _).symm, (closed_files pass).nil, fun _ =>
      (closed_files pass).nil⟩, id, { hs with remembered := fun memo visitor hmemo => ?_ }⟩,
        trivial⟩
    exact (hchange s hs memo hmemo).calls visitor
  done := fun s => .done (closed_files pass)
  andThen := fun hx hf s => .andThen (closed_files pass) (hx s) fun a s' ha => hf a ha s'
  guarded := fun hx hy s => .andThen (closed_files pass) (hx s) fun _ s' _ =>
    .unlessCanceled (closed_files pass).nil (hy s')
  each := fun _ _ hall s => .eachUntilCanceled (closed_files pass) hall
  log := fun _ s => .of_silent (closed_files pass) (.still (still_log _ _ _))
  listed := fun _ _ _ s => .throw _
  read := fun document s hs a s' h => by
    cases h
    exact ⟨⟨⟨[], (List.append_nil _).symm, (closed_files pass).nil, fun _ =>
      (closed_files pass).nil⟩, id, hs⟩, trivial⟩
  parse := fun context s => .of_still (closed_files pass)
    (fun b => (finds_still host b).parseMarkup opts context)
    fun document t _ ht h => ⟨t, ht, parsed_of_eq_ok h⟩
  readClass := fun bytes s => .of_still (closed_files pass)
    (fun b => ((finds_still host b).readClass opts bytes).attempt)
    fun outcome t hs _ h parsed hparsed => ⟨s, hs, t, eq_ok_of_attempt (hparsed ▸ h)⟩
  bucket := fun _ _ ht => ⟨List.cons_ne_nil _ _, nodup_bucket ht _⟩
  merged := fun _ _ _ _ _ => ⟨List.cons_ne_nil _ _, nodup_distinct _⟩
  scanMarkup := fun parsed _ _ hvisitor s => tells_scan ⟨rfl, rfl⟩ fun _ =>
    .bind_pure (tells_visitMarkup hvisitor parsed) fun _ _ => trivial
  scanSource := fun _ _ hvisitor s => tells_scan ⟨rfl, rfl⟩ fun _ =>
    .bind_pure (tells_visitSource hvisitor.1 hvisitor.2) fun _ _ => trivial
  scanClass := fun _ _ _ s => tells_scan ⟨rfl, rfl⟩ fun _ =>
    .eachUntilCanceled (closed_onFile _) fun detector _ _ => tells_checkWith rfl detector
  scanRules := fun _ _ _ s => tells_scan ⟨rfl, rfl⟩ fun _ =>
    .each (closed_onFile _) fun detector _ _ => tells_checkWith rfl detector

theorem tells_checkFiles (pass : Pass) : Adds (files pass) ((host.engine opts).checkFiles pass) s :=
  (walk pass).checkFiles (fun _ => trivial) s

end Brackets
end ProjectLint
