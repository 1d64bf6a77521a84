/-
The search for projects after earlier runs. What they have left behind, a schedule in some phase and
projects that are pointed at files, is still there while a run looks for its projects. The search
does not look at it, so it is the same whatever it is, if the client does not look at the phase
either.
-/
import ProjectLint.Proofs.Rerun.Callbacks

namespace ProjectLint

def Observation.timeless : Observation → Observation
  | .state moment root enabled inScope project =>
    .state { moment with phase := 1 } root enabled inScope project
  | seen => seen

def Reply.timeless : Reply → Reply
  | .observed seen => .observed seen.timeless
  | reply => reply

def Journal.Entry.timeless : Journal.Entry → Journal.Entry
  | .called call moment => .called call { moment with phase := 1 }
  | .observed seen => .observed seen.timeless
  | entry => entry

def Action.isTimeless : Action → Bool
  | .requestRepeat .. => false
  | .observe _ _ _ project => !project
  | _ => true

/-- The client does not know of phases in the calls that come before a run begins: those that look
for projects, the message that there are none, and whatever calls these lead to while the memory of
the embedding has a property. It reacts in the same way in every phase and whatever phase it sees,
asks for no other, and looks at no project. -/
structure Host.Unaware (host : Host σ) (paths : List String) (calls : Call → Prop) (I : σ → Prop) :
    Prop where
  getProject : ∀ dir reference, calls (.getProject dir reference)
  unreadable : ∀ (fault : Files.ReadFault) path,
    calls (.log (some (fault.message path)) ("Could not read " ++ path) none)
  missing : ∀ library dir, calls
    (.log none ("Library project " ++ library ++ " referenced from " ++ dir ++ " does not exist")
      none)
  nothing : calls (.log none ("No projects found for " ++ Text.joined ", " paths) none)
  blind : ∀ {call memory}, calls call → I memory → ∀ moment phase,
    host.react call { moment with phase } memory = host.react call moment memory
  heeds : ∀ {call memory}, calls call → I memory → ∀ moment,
    (host.react call moment memory).Heeds
      (fun action => action.isTimeless = true ∧ action.Leads calls)
      (fun reply reply' => reply.timeless = reply'.timeless) I

namespace Rerun

open Run Engine Journal

/-- Two runs that look for the same projects, with what they have written since `before` and
`before'`. -/
structure Searching (I : σ → Prop) (before before' : List Entry) (s t : State σ) : Prop
    extends State.Akin s t where
  scope : s.scope = t.scope
  canceled : s.canceled = t.canceled
  memory : I s.host
  told : ∃ new new', s.written = before ++ new ∧ t.written = before' ++ new' ∧
    new.map Entry.timeless = new'.map Entry.timeless

namespace Searching

variable {I : σ → Prop} {before before' : List Entry} {s t : State σ}

theorem write (h : Searching I before before' s t) {entry entry' : Entry}
    (hentry : entry.timeless = entry'.timeless) :
    Searching I before before' (s.write entry) (t.write entry') := by
  obtain ⟨new, new', hnew, hnew', htimeless⟩ := h.told
  refine { h with told := ⟨new ++ [entry], new' ++ [entry'], ?_, ?_, ?_⟩ }
  · rw [State.written_write, hnew, List.append_assoc]
  · rw [State.written_write, hnew', List.append_assoc]
  · rw [List.map_append, List.map_append, htimeless, List.map_singleton, List.map_singleton, hentry]

theorem changed (h : Searching I before before' s t) (index : Nat) {change : Project → Project}
    (hchange : ∀ p, (change p.resetSubset).resetSubset = (change p).resetSubset) :
    Searching I before before' (s.changed index change) (t.changed index change) :=
  { h with toAkin := h.toAkin.changed index hchange }

theorem moment_eq (h : Searching I before before' s t) :
    t.moment = { s.moment with phase := t.phase } := by
  rw [State.moment, State.moment, h.scope, h.canceled]

theorem moment_timeless (h : Searching I before before' s t) :
    { s.moment with phase := 1 } = { t.moment with phase := 1 } := by
  rw [h.moment_eq]

theorem bonds : Bonds I (Searching I before before') where
  akin := fun hst => hst.toAkin
  memory := fun hst => hst.memory
  logged := fun _ _ _ hst => hst.write rfl
  submitted := fun _ _ _ _ hst => hst.write rfl
  suppressed := fun _ _ _ _ hst => hst.write rfl
  configured := fun _ _ _ _ hst => hst.changed _ fun _ => rfl
  updated := fun change _ _ hchange hst =>
    { hst with
      host := congrArg change hst.host
      memory := hchange _ hst.memory }
  refiled := fun change _ _ hst => { hst with files := congrArg change hst.files }
  listening := fun change _ _ hst => { hst with listeners := congrArg change hst.listeners }
  search := fun hst => { hst with }

variable {host : Host σ} {paths : List String} {calls : Call → Prop}

theorem performs {e : Engine σ} {action : Action} (htimeless : action.isTimeless = true)
    (hleads : action.Leads (Answers e e (Searching I before before'))) :
    Mirrors (Searching I before before') (fun reply reply' => reply.timeless = reply'.timeless)
      (e.perform action) (e.perform action) := by
  have hplain : action.isPlain = true → Mirrors (Searching I before before')
      (fun reply reply' => reply.timeless = reply'.timeless) (e.perform action)
      (e.perform action) :=
    fun hplain => (bonds.perform (bonds.attuned (.refl e)) hplain
      (fun change _ => bonds.refiled change) hleads).imp fun _ _ hreply =>
      congrArg _ hreply.1
  cases action with
  | requestRepeat => cases htimeless
  | cancel =>
    exact Mirrors.andThen (.modify fun hst => { hst with canceled := rfl }) fun _ => .pure rfl
  | observe context issue scope project =>
    rw [Action.isTimeless, Bool.not_eq_true'] at htimeless
    subst htimeless
    have hobserve : Mirrors (Searching I before before')
        (fun seen seen' => seen.timeless = seen'.timeless) (e.observe context issue scope false)
        (e.observe context issue scope false) := by
      refine bonds.observe (bonds.attuned (.refl e)) hleads (fun hst => ?_)
        fun hst huv shown _ enabled => ?_
      · rw [Observation.timeless, Observation.timeless, hst.moment_timeless]
      · rw [Observation.timeless, Observation.timeless, hst.moment_timeless, huv.scope]
        rfl
    refine hobserve.bind fun seen seen' hseen => ?_
    refine Mirrors.bind (R := Eq) (.modify fun hst => hst.write (congrArg Entry.observed hseen))
      fun _ _ _ => .pure (congrArg Reply.observed hseen)
  | _ => exact hplain rfl

theorem echoes (h : host.Unaware paths calls I) :
    Echoes host I (Searching I before before') calls
      (fun action => action.isTimeless = true ∧ action.Leads calls)
      (fun reply reply' => reply.timeless = reply'.timeless) where
  toBonds := bonds
  reacts := fun hcall hst => by
    rw [hst.moment_eq, ← hst.host]
    exact (h.blind hcall hst.memory _ _).symm
  heeds := fun hcall hst => h.heeds hcall hst.memory _
  called := fun _ hst => hst.write (congrArg (Entry.called _) hst.moment_timeless)
  performs := fun _ he _ hmay => performs hmay.1 (hmay.2.imp he)

variable (h : host.Unaware paths calls I) (opts : Options)

include h

theorem log {error : Option String} {message : String} (hcall : calls (.log error message none)) :
    Respects (Searching I before before') ((host.engine opts).log error message) :=
  bonds.log (bonds.attuned (.refl _)) ((echoes h).invoke opts Host.nestingLimit hcall)

theorem searches : Searches (host.engine opts) (host.engine opts) (Searching I before before') where
  toKin := .refl _
  files := fun hst => hst.files
  cache := fun hst => hst.cache
  size := fun hst => hst.size
  project := fun ref _ _ hst => hst.project ref
  noted := fun _ _ _ hst => hst.write rfl
  getProject := fun dir reference =>
    (echoes h).invoke opts Host.nestingLimit (h.getProject dir reference)
  unreadable := fun fault path => log h opts (h.unreadable fault path)
  missing := fun library dir => log h opts (h.missing library dir)
  added := fun project _ _ _ _ hst => { hst with toAkin := hst.toAkin.added project }
  cached := fun _ _ _ hst => { hst with cache := rfl }
  overridden := fun _ _ _ _ hst => hst.changed _ fun _ => rfl
  linked := fun _ _ _ _ _ _ _ _ hst => hst.changed _ fun _ => rfl
  reset := fun _ _ _ hst => hst.changed _ fun _ => rfl

theorem resolves : Resolves (host.engine opts) (host.engine opts) (Searching I before before') where
  toProbes := (searches h opts).probes
  pointed := fun _ _ _ _ hst => hst.changed _ fun _ => rfl

theorem resolve (paths : List String) : Respects (Searching I before before')
      (Discovery.resolve (host.engine opts) State.canceled paths) :=
  (Resolves.resolve (fun _ => resolves h opts) (halting_never fun hst => hst.canceled)
    paths).mirrors

end Searching
end Rerun
end ProjectLint
