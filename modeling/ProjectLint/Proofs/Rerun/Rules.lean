/-
Embeddings that act by rules know no other projects than those they are called with. Their clients
do not know of phases if no rule of theirs waits for a phase, asks for one, or looks at a project.
-/
import ProjectLint.Proofs.Rerun.Checking
import ProjectLint.Proofs.Rerun.Search

namespace ProjectLint

def Action.About (call : Call) : Action → Prop
  | .report made => call.context? = some made.context
  | .log _ _ context => context = call.context?
  | .observe context _ _ _ => context = call.context?
  | _ => True

theorem Call.known_context {call : Call} {known : ProjectRef → Prop}
    (h : ∀ ref ∈ call.projects, known ref) :
    ∀ ref ∈ (call.context?.map Context.projects).getD [], known ref := by
  cases call with
  | getConfiguration => exact List.forall_mem_nil _
  | _ => exact h

theorem Action.About.known {call : Call} {action : Action} {known : ProjectRef → Prop}
    (h : action.About call) (hcall : ∀ ref ∈ call.projects, known ref) :
    ∀ ref ∈ action.projects, known ref := by
  have hcontext := Call.known_context hcall
  cases action with
  | report made =>
    rw [show call.context? = some made.context from h] at hcontext
    exact hcontext
  | log error message context =>
    rw [← show context = call.context? from h] at hcontext
    exact hcontext
  | observe context issue scope project =>
    rw [← show context = call.context? from h] at hcontext
    exact hcontext
  | _ => exact List.forall_mem_nil _

namespace Scripted

def Command.isTimeless : Command → Bool
  | .requestRepeat _ _ => false
  | .observe _ _ project => !project
  | _ => true

def Rule.isTimeless (rule : Rule) : Bool :=
  rule.phase.isNone && rule.commands.all Command.isTimeless

variable {replies : Reply → Reply → Prop} {I : Memory → Prop}

def Command.May (command : Command) (call : Call) (action : Action) : Prop :=
  action.About call ∧ (command.isTimeless = true → action.isTimeless = true)

theorem Command.heeds_script (command : Command) (call : Call) (memory : Memory)
    {may : Action → Prop} (hmay : ∀ action, command.May call action → may action)
    (hI : ∀ memory, I memory) {next : Script Memory} (hnext : next.Heeds may replies I) :
    (command.script call memory next).Heeds may replies I := by
  have hperform : ∀ action, command.May call action →
      (Script.perform action next).Heeds may replies I :=
    fun action haction => ⟨hmay action haction, fun _ _ _ => ⟨rfl, hnext⟩⟩
  cases command with
  | report name location message data =>
    rw [Command.script]
    cases hcontext : call.context? with
    | none => trivial
    | some context =>
      cases memory.issue? name with
      | none => trivial
      | some issue => exact hperform _ ⟨hcontext, fun _ => rfl⟩
  | requestRepeat detector scope =>
    rw [Command.script]
    cases detector.or (Subject.ofCall call).detector? with
    | some detector => exact hperform _ ⟨trivial, fun h => by cases h⟩
    | none => trivial
  | cancel =>
    refine ⟨hmay _ ⟨trivial, fun _ => rfl⟩, fun _ _ _ => ⟨rfl, ?_⟩⟩
    exact hperform _ ⟨trivial, fun _ => rfl⟩
  | fail fault => trivial
  | observe issue scope project => exact hperform _ ⟨rfl, id⟩
  | askSuppressed issue => exact hperform _ ⟨trivial, fun _ => rfl⟩
  | log error message => exact hperform _ ⟨rfl, fun _ => rfl⟩
  | addListener listener => exact hperform _ ⟨trivial, fun _ => rfl⟩
  | removeListener listener => exact hperform _ ⟨trivial, fun _ => rfl⟩
  | addObserver listener => exact ⟨fun _ _ => hI _, fun _ _ => hnext⟩
  | removeObserver listener => exact ⟨fun _ _ => hI _, fun _ _ => hnext⟩
  | changeFiles change => exact hperform _ ⟨trivial, fun _ => rfl⟩

theorem heeds_reaction (rules : List Rule) (call : Call) (moment : Moment) {may : Action → Prop}
    (hmay : ∀ rule ∈ rules, ∀ command ∈ rule.commands, ∀ action, command.May call action →
      may action)
    (hI : ∀ memory, I memory) : (reaction rules call moment).Heeds may replies I := by
  refine ⟨fun _ _ => hI _, fun memory _ => ?_⟩
  have hcommands : ∀ command ∈ commandsFor rules call moment
      (memory.countOf (Subject.ofCall call, call.name)), ∀ action, command.May call action →
        may action := by
    intro command hcommand
    obtain ⟨rule, hrule, hcommand⟩ := List.mem_flatMap.1 hcommand
    exact hmay rule (List.mem_filter.1 hrule).1 command hcommand
  dsimp only
  generalize commandsFor rules call moment _ = commands at hcommands ⊢
  induction commands with
  | nil => trivial
  | cons command rest ih =>
    obtain ⟨hcommand, hrest⟩ := List.forall_mem_cons.1 hcommands
    exact command.heeds_script call memory hcommand hI (ih hrest)

namespace Embedding

theorem discreet (embedding : Embedding) : embedding.host.Discreet fun _ _ => False where
  heeds := fun _ _ _ hcall _ moment =>
    heeds_reaction _ _ moment (fun _ _ _ _ _ hmay => hmay.1.known hcall) fun _ _ => False.elim

theorem rulesOf_client (embedding : Embedding) {call : Call} (h : call.isClient = true) :
    embedding.rulesOf (Subject.ofCall call) = embedding.client.rules := by
  cases call with
  | detector | listener => cases h
  | _ => rfl

theorem unaware (embedding : Embedding) (paths : List String)
    (h : ∀ rule ∈ embedding.client.rules, rule.isTimeless = true) :
    embedding.host.Unaware paths (fun call => call.isClient = true) fun _ => True where
  getProject := fun _ _ => rfl
  unreadable := fun _ _ => rfl
  missing := fun _ _ => rfl
  nothing := rfl
  blind := by
    intro call memory hcall _ moment phase
    have hcommands : ∀ number,
        commandsFor embedding.client.rules call { moment with phase } number =
          commandsFor embedding.client.rules call moment number := by
      intro number
      rw [commandsFor, commandsFor]
      refine congrArg (List.flatMap Rule.commands) (List.filter_congr fun rule hrule => ?_)
      have hphase := (Bool.and_eq_true_iff.1 (h rule hrule)).1
      rw [Rule.applies, Rule.applies, Option.isNone_iff_eq_none.1 hphase]
      rfl
    show reaction _ _ _ = reaction _ _ _
    rw [embedding.rulesOf_client hcall, reaction, reaction]
    simp only [hcommands]
  heeds := by
    intro call memory hcall _ moment
    show (reaction _ _ _).Heeds _ _ _
    rw [embedding.rulesOf_client hcall]
    refine heeds_reaction _ _ _ (fun rule hrule command hcommand action hmay => ?_) fun _ => trivial
    have hall := List.all_eq_true.1 (Bool.and_eq_true_iff.1 (h rule hrule)).2
    exact ⟨hmay.2 (hall command hcommand), action.leads_client.imp And.left⟩

end Embedding
end Scripted
end ProjectLint
