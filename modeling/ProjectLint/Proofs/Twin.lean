/-
A run next to the run of the same embedding in which a cancellation does nothing. Both stay in step
until the first one stops, provided that the embedding does not look at the cancellation: what it
sees of the two runs then differs in nothing it acts on.

What a run has written is compared without the mark of a cancellation, which every call and every
event carries with its moment.
-/
import ProjectLint.Proofs.Frame
import ProjectLint.Proofs.Rerun.Callbacks
import ProjectLint.Scripted.Embedding

namespace ProjectLint

def Moment.masked (moment : Moment) : Moment :=
  { moment with canceled := false }

def Observation.masked : Observation → Observation
  | .state moment root enabled inScope project =>
    .state moment.masked root enabled inScope project
  | .suppressed issue answer => .suppressed issue answer

def Reply.masked : Reply → Reply
  | .done => .done
  | .observed observation => .observed observation.masked

def Journal.Entry.masked : Journal.Entry → Journal.Entry
  | .fired event context moment => .fired event context moment.masked
  | .called call moment => .called call moment.masked
  | .observed observation => .observed observation.masked
  | .submitted author report => .submitted author report
  | .requested detector scope => .requested detector scope
  | .planned phase detectors => .planned phase detectors
  | .logged entry => .logged entry

namespace State

/-- The journal with cancellation masked. -/
def trace (s : State σ) : List Journal.Entry :=
  s.written.map Journal.Entry.masked

theorem trace_write (s : State σ) (entry : Journal.Entry) :
    (s.write entry).trace = s.trace ++ [entry.masked] := by
  rw [trace, written_write, List.map_append]
  rfl

theorem trace_mono {s t : State σ} (h : s.written <+: t.written) : s.trace <+: t.trace :=
  h.map _

def Same (s t : State σ) : Prop :=
  ∃ canceled journal, s = { t with canceled, journal }

namespace Same

variable {s t : State σ}

theorem view (h : Same s t) (read : State σ → α)
    (hread : ∀ t canceled journal, read { t with canceled, journal } = read t) :
    read s = read t := by
  obtain ⟨canceled, journal, rfl⟩ := h
  exact hread t canceled journal

theorem scope (h : Same s t) : s.scope = t.scope :=
  h.view State.scope fun _ _ _ => rfl

theorem project (h : Same s t) : s.project = t.project :=
  h.view State.project fun _ _ _ => rfl

theorem moment (h : Same s t) : s.moment.masked = t.moment.masked :=
  h.view (fun s => s.moment.masked) fun _ _ _ => rfl

theorem akin (h : Same s t) : Akin s t := by
  obtain ⟨canceled, journal, rfl⟩ := h
  exact ⟨rfl, rfl, rfl, rfl, rfl, rfl, rfl⟩

end Same
end State

/-! ## Embeddings that do not look at the cancellation -/

namespace Script

/-- The script goes on in the same way whether the run is canceled or not. -/
def Blind : Script σ → Prop
  | .done => True
  | .fail _ => True
  | .update _ next => ∀ memory, (next memory).Blind
  | .act _ next => (∀ reply, next reply = next reply.masked) ∧ ∀ reply, (next reply).Blind

def withoutCancel : Script σ → Script σ
  | .done => .done
  | .fail fault => .fail fault
  | .update change next => .update change fun memory => (next memory).withoutCancel
  | .act .cancel next => (next .done).withoutCancel
  | .act action next => .act action fun reply => (next reply).withoutCancel

theorem withoutCancel_act {action : Action} (h : action ≠ .cancel) (next : Reply → Script σ) :
    (Script.act action next).withoutCancel =
      .act action fun reply => (next reply).withoutCancel := by
  cases action with
  | cancel => exact absurd rfl h
  | _ => rfl

end Script

namespace Host

/-- No code of the embedding heeds whether the run is canceled. -/
structure Blind (host : Host σ) : Prop where
  moment : ∀ call moment memory,
    host.react call moment memory = host.react call moment.masked memory
  script : ∀ call moment memory, (host.react call moment memory).Blind

/-- The embedding with all cancellations left out. -/
def withoutCancel (host : Host σ) : Host σ :=
  { host with react := fun call moment memory => (host.react call moment memory).withoutCancel }

end Host

namespace Scripted

theorem Command.blind_script (call : Call) (memory : Memory) {next : Script Memory}
    (h : next.Blind) (command : Command) : (command.script call memory next).Blind := by
  have hperform : ∀ action, (Script.perform action next).Blind :=
    fun _ => ⟨fun _ => rfl, fun _ => h⟩
  cases command with
  | report name location message data =>
    rw [script]
    split
    · exact hperform _
    · trivial
  | requestRepeat detector scope =>
    rw [script]
    split
    · exact hperform _
    · trivial
  | cancel => exact ⟨fun _ => rfl, fun _ => hperform _⟩
  | fail fault => trivial
  | addObserver listener => exact fun _ => h
  | removeObserver listener => exact fun _ => h
  | _ => exact hperform _

theorem Embedding.blind (embedding : Embedding) : embedding.host.Blind where
  moment := fun _ _ _ => rfl
  script := by
    intro call moment _ memory
    exact List.foldrRecOn (motive := Script.Blind) _ _ trivial
      fun _ h command _ => Command.blind_script call memory h command

end Scripted

/-! ## Twins -/

namespace State

variable {scope : ScopeSet} {reported : Bool} {s t s' t' : State σ}

/-- States that differ in the cancellation only, of which the second is not canceled; the scope and
the report of a cancellation are given. -/
structure Twin (scope : ScopeSet) (reported : Bool) (s t : State σ) : Prop where
  same : Same s t
  trace : s.trace = t.trace
  calm : t.canceled = false
  scope : t.scope = scope
  reported : t.cancelReported = reported

structure Behind (scope : ScopeSet) (reported : Bool) (s t : State σ) : Prop where
  alone : Twin scope reported t t
  trace : s.trace <+: t.trace
  canceled : s.canceled = true
  scope : s.scope = scope
  reported : s.cancelReported = reported

namespace Twin

variable (h : Twin scope reported s t)

include h

theorem own : Twin scope reported t t :=
  ⟨⟨t.canceled, t.journal, rfl⟩, rfl, h.calm, h.scope, h.reported⟩

theorem map (change : State σ → State σ) (hchange : ∀ t canceled journal scope cancelReported,
      change { t with canceled, journal, scope, cancelReported } =
        { change t with canceled, journal, scope, cancelReported }) :
    Twin scope reported (change s) (change t) := by
  obtain ⟨canceled, journal, rfl⟩ := h.same
  have hfixed : change t = { change t with
      canceled := t.canceled, journal := t.journal, scope := t.scope,
      cancelReported := t.cancelReported } := hchange t _ _ _ _
  have hother : change { t with canceled, journal } = { change t with canceled, journal } := by
    rw [hfixed]
    exact hchange t _ _ _ _
  refine ⟨⟨canceled, journal, hother⟩, ?_, ?_, ?_, ?_⟩
  · rw [hother, hfixed]
    exact h.trace
  · rw [hfixed]
    exact h.calm
  · rw [hfixed]
    exact h.scope
  · rw [hfixed]
    exact h.reported

theorem rescope (other : ScopeSet) :
    Twin other reported { s with scope := other } { t with scope := other } := by
  obtain ⟨canceled, journal, rfl⟩ := h.same
  exact ⟨⟨canceled, journal, rfl⟩, h.trace, h.calm, rfl, h.reported⟩

theorem unreported : s.cancelReported = reported :=
  (h.same.view State.cancelReported fun _ _ _ => rfl).trans h.reported

theorem write {entry entry' : Journal.Entry} (hentry : entry.masked = entry'.masked) :
    Twin scope reported (s.write entry) (t.write entry') := by
  refine ⟨?_, by rw [trace_write, trace_write, h.trace, hentry], h.calm, h.scope, h.reported⟩
  obtain ⟨canceled, journal, rfl⟩ := h.same
  exact ⟨canceled, journal.push entry, rfl⟩

theorem cancel : Twin scope reported { s with canceled := true } t := by
  obtain ⟨canceled, journal, rfl⟩ := h.same
  exact ⟨⟨true, journal, rfl⟩, h.trace, h.calm, h.scope, h.reported⟩

end Twin

def Abreast (scope : ScopeSet) (reported : Bool) (past : List Journal.Entry)
    (s t : State σ) : Prop :=
  Twin scope reported s t ∧ past <+: t.written

namespace Abreast

variable {past : List Journal.Entry}

variable (h : Abreast scope reported past s t)

include h

theorem same : Same s t :=
  h.1.same

theorem map (change : State σ → State σ) (hchange : ∀ t canceled journal scope cancelReported,
      change { t with canceled, journal, scope, cancelReported } =
        { change t with canceled, journal, scope, cancelReported }) :
    Abreast scope reported past (change s) (change t) := by
  have hfixed : change t = { change t with
      canceled := t.canceled, journal := t.journal, scope := t.scope,
      cancelReported := t.cancelReported } := hchange t _ _ _ _
  refine ⟨h.1.map change hchange, ?_⟩
  rw [hfixed]
  exact h.2

theorem write {entry entry' : Journal.Entry} (hentry : entry.masked = entry'.masked) :
    Abreast scope reported past (s.write entry) (t.write entry') := by
  refine ⟨h.1.write hentry, ?_⟩
  rw [written_write]
  exact h.2.trans (List.prefix_append _ _)

end Abreast
end State

namespace Run

open State

variable {scope : ScopeSet} {reported : Bool} {past : List Journal.Entry}

theorem halting_twin : Halting (@Abreast σ scope reported)
    (fun past s t => Behind scope reported s t ∧ past <+: t.written) State.canceled where
  behind := fun h _ => h.1.calm
  stop := fun h hs _ => ⟨⟨h.1.own, h.1.trace ▸ List.prefix_refl _, hs,
    h.1.same.scope.trans h.1.scope, h.1.unreported⟩, h.2⟩
  stopped := fun h => h.1.canceled
  onward := by
    rintro past s t ⟨h, hpast⟩
    refine ⟨t.written, ⟨h.alone, List.prefix_refl _⟩, fun {s' t'} hlater => ?_⟩
    obtain ⟨halone, hgrown⟩ : Twin scope reported t' t' ∧ t.written <+: t'.written :=
      hlater.elim (fun h => ⟨h.1.own, h.2⟩) fun h => ⟨h.1.alone, h.2⟩
    exact ⟨⟨halone, h.trace.trans (trace_mono hgrown), h.canceled, h.scope, h.reported⟩,
      hpast.trans hgrown⟩

theorem bonds_twin : Rerun.Bonds (fun _ => True) (@Abreast σ scope reported past) where
  akin := fun h => h.same.akin
  memory := fun _ => trivial
  logged := fun _ _ _ h => h.write rfl
  submitted := fun _ _ _ _ h => h.write rfl
  suppressed := fun _ _ _ _ h => h.write rfl
  configured := fun index config _ _ h => h.map (fun s =>
    (s.changed index ({ · with configuration := some config })))
    fun _ _ _ _ _ => rfl
  updated := fun change _ _ _ h =>
    h.map (fun s => { s with host := change s.host }) fun _ _ _ _ _ => rfl
  refiled := fun change _ _ h =>
    h.map (fun s => { s with files := change s.files }) fun _ _ _ _ _ => rfl
  listening := fun change _ _ h =>
    h.map (fun s => { s with listeners := change s.listeners }) fun _ _ _ _ _ => rfl
  search := fun h => h.map (fun s => { s with searchCanceled := true }) fun _ _ _ _ _ => rfl

theorem requestRepeat_twin (detector : Detector) (other : Option ScopeSet) :
    Respects (@Abreast σ scope reported past) (requestRepeat detector other) :=
  bonds_twin.requestRepeat (fun hst => hst.same.view State.schedule fun _ _ _ => rfl)
    fun schedule _ _ hst => (hst.write rfl).map ({ · with schedule }) fun _ _ _ _ _ => rfl

theorem Mirrors.twin {x y : Run σ α} (h : ∀ past, Mirrors (Abreast scope reported past) Eq x y)
    {s t : State σ} (hst : Twin scope reported s t) : Alike (Twin scope reported) (x s) (y t) :=
  ((h [] s t ⟨hst, List.nil_prefix⟩).mono And.left).alike

end Run

/-! ## The two engines -/

namespace Engine

open Run State

variable {scope : ScopeSet} {reported : Bool} {past : List Journal.Entry} {e e' : Engine σ}

structure Twinned (scope : ScopeSet) (reported : Bool) (e e' : Engine σ) : Prop
    extends Kin e e' where
  invoke : ∀ past call, Mirrors (Abreast scope reported past) Eq (e.invoke call) (e'.invoke call)

theorem script_twin (h : Twinned scope reported e e') (script : Script σ) (hblind : script.Blind) :
    Mirrors (Abreast scope reported past) Eq (script.run e.perform)
      (script.withoutCancel.run e'.perform) := by
  induction script with
  | done => exact .pure rfl
  | fail fault => exact .throw fault
  | update change next ih =>
    rw [Script.withoutCancel, Script.run, Script.run]
    refine Mirrors.andThen (.modify (bonds_twin.updated change fun _ => id)) fun _ => ?_
    refine .read fun s t hst => ?_
    rw [hst.same.akin.host]
    exact ih t.host (hblind t.host)
  | act action next ih =>
    obtain ⟨hreply, hnext⟩ := hblind
    have hleads := (Action.leads_client action).imp fun {call} _ => h.invoke past call
    have hsame : action ≠ .cancel → Mirrors (Abreast scope reported past) Eq (e.perform action)
        (e'.perform action) → Mirrors (Abreast scope reported past) Eq
          ((Script.act action next).run e.perform)
          ((Script.act action next).withoutCancel.run e'.perform) := by
      intro haction hperform
      rw [Script.withoutCancel_act haction, Script.run, Script.run]
      exact hperform.andThen fun reply => ih reply (hnext reply)
    cases action with
    | cancel =>
      -- Only the first run hears of it, and the states stay twins.
      intro s t hst
      exact ih .done (hnext .done) { s with canceled := true } t ⟨hst.1.cancel, hst.2⟩
    | requestRepeat detector other =>
      exact hsame (by rintro ⟨⟩) ((requestRepeat_twin detector other).andThen fun _ => .pure rfl)
    | observe context issue category project =>
      have hobserve : Mirrors (Abreast scope reported past)
          (fun seen seen' => seen.masked = seen'.masked)
          (e.observe context issue category project)
          (e'.observe context issue category project) := by
        refine bonds_twin.observe (bonds_twin.attuned h.toKin) hleads (fun hst => ?_)
          fun hst huv shown _ enabled => ?_
        · rw [Observation.masked, Observation.masked, hst.same.moment]
        · rw [Observation.masked, Observation.masked, hst.same.moment, huv.same.scope,
            huv.same.project]
      rw [Script.withoutCancel_act (by rintro ⟨⟩), Script.run, Script.run, perform, perform,
        bind_assoc, bind_assoc]
      refine hobserve.bind fun seen seen' hseen => ?_
      have hsame : next (.observed seen') = next (.observed seen) := by
        rw [hreply, hreply (.observed seen), Reply.masked, Reply.masked, hseen]
      rw [bind_assoc, bind_assoc]
      refine Mirrors.andThen (.modify fun hst => ?_) fun _ => ?_
      · exact hst.write (congrArg Journal.Entry.observed hseen)
      · rw [pure_bind, pure_bind, hsame]
        exact ih _ (hnext _)
    | _ =>
      exact hsame (by rintro ⟨⟩)
        ((bonds_twin.perform (bonds_twin.attuned h.toKin) rfl
          (fun change _ => bonds_twin.refiled change) hleads).imp fun _ _ hreply => hreply.1)

theorem invoke_twin {host : Host σ} (hblind : host.Blind) (opts : Options) (depth : Nat) :
    ∀ past call, Mirrors (Abreast scope reported past) Eq (host.invoke opts depth call)
      (host.withoutCancel.invoke opts depth call) := by
  induction depth with
  | zero => exact fun _ _ => .throw _
  | succ depth ih =>
    intro past call s t hst
    have hreact : host.withoutCancel.react call t.moment t.host =
        (host.react call s.moment s.host).withoutCancel := by
      rw [Host.withoutCancel, hblind.moment call s.moment, hst.same.moment, hst.same.akin.host,
        ← hblind.moment]
    have hinner : Twinned scope reported ⟨host, opts, host.invoke opts depth⟩
        ⟨host.withoutCancel, opts, host.withoutCancel.invoke opts depth⟩ :=
      ⟨⟨fun _ => rfl, rfl⟩, ih⟩
    rw [Host.invoke, Host.invoke, get_bind, get_bind, hreact]
    exact script_twin hinner _ (hblind.script call _ _) _ _
      (hst.write (congrArg (Journal.Entry.called call) hst.same.moment))

theorem twinned {host : Host σ} (hblind : host.Blind) (opts : Options) :
    Twinned scope reported (host.engine opts) (host.withoutCancel.engine opts) :=
  ⟨⟨fun _ => rfl, rfl⟩, invoke_twin hblind opts Host.nestingLimit⟩

namespace Twinned

variable (h : Twinned scope reported e e')

include h

theorem log (error : Option String) (message : String) (context : Option Context) :
    Mirrors (Abreast scope reported past) Eq (e.log error message context)
      (e'.log error message context) :=
  bonds_twin.log (bonds_twin.attuned h.toKin) (h.invoke past _)

theorem fire (event : Event) (context : Option Context) :
    Mirrors (Abreast scope reported past) Eq (e.fire event context) (e'.fire event context) :=
  bonds_twin.fire (fun _ => h.invoke past _) fun hst =>
    hst.write (congrArg (Journal.Entry.fired event context) hst.same.moment)

theorem configuration (ref : ProjectRef) :
    Mirrors (Abreast scope reported past) Eq (e.configuration ref) (e'.configuration ref) :=
  bonds_twin.configuration (bonds_twin.attuned h.toKin) (h.invoke past _)

theorem plans : Plans e e' (Abreast scope reported past) where
  toKin := h.toKin
  memory := fun hst => hst.same.akin.host
  registry := fun hst => hst.same.akin.registry
  serials := fun hst => hst.same.akin.serials
  noted := fun _ _ _ hst => hst.write rfl
  counted := fun serials _ _ hst => hst.map (fun s => { s with serials }) fun _ _ _ _ _ => rfl
  schedule := fun hst => hst.same.view ownSlot.schedule fun _ _ _ => rfl
  scheduled := fun schedule _ _ _ hst =>
    hst.map (fun s => { s with schedule := some schedule }) fun _ _ _ _ _ => rfl
  planned := fun _ _ _ hst => hst.write (by rw [hst.same.view ownSlot.schedule fun _ _ _ => rfl])

theorem searches : Searches e e' (Abreast scope reported past) where
  toKin := h.toKin
  files := fun hst => hst.same.akin.files
  cache := fun hst => hst.same.akin.cache
  size := fun hst => hst.same.akin.size
  project := fun ref _ _ hst => hst.same.akin.project ref
  noted := fun _ _ _ hst => hst.write rfl
  getProject := fun _ _ => h.invoke past _
  unreadable := fun _ _ => h.log _ _ none
  missing := fun _ _ => h.log none _ none
  added := fun project _ _ _ _ hst =>
    hst.map (fun s => s.extended project) fun _ _ _ _ _ => rfl
  cached := fun cache _ _ hst => hst.map (fun s => { s with cache }) fun _ _ _ _ _ => rfl
  overridden := fun index overrides _ _ hst => hst.map
    (fun s => s.changed index overrides.apply) fun _ _ _ _ _ => rfl
  linked := fun ref refs _ _ _ _ _ _ hst => hst.map (fun s =>
    (s.changed ref.index ({ · with libraries := some refs })))
    fun _ _ _ _ _ => rfl
  reset := fun index _ _ hst => hst.map
    (fun s => s.changed index Project.resetSubset)
    fun _ _ _ _ _ => rfl

theorem resolves : Resolves e e' (Abreast scope reported past) where
  toProbes := h.searches.probes
  pointed := fun index path _ _ hst => hst.map
    (fun s => s.changed index (·.addFile path))
    fun _ _ _ _ _ => rfl

theorem strides : Strides e e' (Naming.alone (fun _ => True) (fun _ => True))
    (Abreast scope reported past) where
  file := fun ⟨hc, _⟩ => congrArg Context.file hc
  elementNames := fun ⟨hd, _⟩ hst => by
    rw [hd, hst.same.akin.host, h.answer Host.elementNames fun _ _ => rfl]
  attributeNames := fun ⟨hd, _⟩ hst => by
    rw [hd, hst.same.akin.host, h.answer Host.attributeNames fun _ _ => rfl]
  nodeTypes := fun ⟨hd, _⟩ hst => by
    rw [hd, hst.same.akin.host, h.answer Host.nodeTypes fun _ _ => rfl]
  appliesToFile := fun _ ⟨hd, _⟩ ⟨hc, _⟩ hst => by
    rw [hd, hc, hst.same.akin.host, h.answer Host.appliesToFile fun _ _ => rfl]
  ask := by
    rintro d _ hook hook' ⟨rfl, -⟩ hhook
    obtain ⟨rfl, -⟩ := Naming.alone_fileHooks hhook
    exact h.invoke past _
  parseMarkup := by
    rintro c _ ⟨rfl, -⟩
    exact bonds_twin.parseMarkup h.toKin (h.invoke past _)
  parseSource := by
    rintro c _ ⟨rfl, -⟩
    exact bonds_twin.parseSource h.toKin (h.invoke past _)
  unique := Naming.alone_unique
  scans := fun _ ⟨hd, _⟩ => by rw [hd, h.answer Host.scans fun _ _ => rfl]
  files := fun hst => hst.same.akin.files
  scope := fun hst => hst.same.scope
  selection := fun hst => by
    rw [hst.same.view State.selection fun _ _ _ => rfl]
    exact List.forall₂_same.2 fun _ _ => ⟨⟨rfl, trivial⟩, rfl⟩
  memo := fun hst => by
    rw [hst.same.view State.memo fun _ _ _ => rfl]
    exact Naming.memo_alone _ fun _ => trivial
  remembered := by
    rintro memo memo' s t hmemo hst
    obtain rfl := Naming.alone_memo hmemo
    exact hst.map (fun s => { s with memo }) fun _ _ _ _ _ => rfl
  supplies := fun _ _ _ hst => by
    rw [hst.same.akin.host, h.answer Host.supplies fun _ _ => rfl]
  appliesToFolder := fun _ _ _ _ _ ⟨hd, _⟩ hst => by
    rw [hd, hst.same.akin.host, h.answer Host.appliesToFolder fun _ _ => rfl]
  readClass := fun _ => bonds_twin.readClass h.toKin (h.invoke past _)
  log := fun error message => h.log error message none
  fire := by
    rintro c _ ⟨rfl, -⟩
    exact h.fire _ _

omit h in
theorem samePass (pass : Pass) :
    SamePass (Naming.alone (fun _ => True) (fun _ => True)) (@Abreast σ scope reported past) pass
      pass where
  context := fun _ _ => ⟨rfl, trivial⟩
  dir := rfl
  own := Iff.rfl
  outline := fun hst => by rw [hst.same.project]
  read := fun document _ _ hst => hst.map (fun s =>
    (s.changed pass.project.index (·.readManifest document)))
    fun _ _ _ _ _ => rfl

theorem marches (root : ProjectRef) :
    Marches e e' (Naming.alone (fun _ => True) (fun _ => True)) (@Abreast σ scope reported) root
      root where
  strides := fun _ => h.strides
  level := by
    rintro past d _ hook hook' ⟨rfl, -⟩ hhook
    obtain ⟨rfl, -⟩ := Naming.alone_levelHooks hhook
    exact h.invoke past _
  announce := by
    rintro past event c _ - ⟨rfl, -⟩
    exact h.fire event _
  project := ⟨rfl, trivial⟩
  pass := fun _ => samePass _
  libraries := fun _ => (h.searches.libraries root).imp fun found _ heq =>
    heq ▸ List.forall₂_same.2 fun _ _ => ⟨⟨rfl, trivial⟩, fun _ => samePass _⟩

end Twinned
end Engine
end ProjectLint
