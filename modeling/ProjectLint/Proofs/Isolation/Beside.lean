/-
Two runs beside each other, each in the check of a project of the same directory. The runs may have
checked other projects before, so that projects and instances go by other numbers, configurations
are known or not, and the memory of the embedding differs but for what belongs to the instances at
work. Calls that are the same up to names keep it so and are seen in both.
-/
import ProjectLint.Proofs.Isolation.Drawn

namespace ProjectLint

open Journal
open List (Forall₂)

variable {d d' : Detector}

/-! ## One run -/

/-- How a run stands to a state in which its projects were found: they are the same but for what a
check leaves in them, and no instance that is still to be made was touched. -/
structure Since (host : Host σ) (p : Privacy σ τ) (base s : State σ) : Prop where
  files : s.files = base.files
  registry : s.registry = base.registry
  canceled : s.canceled = false
  projects : base.SameCore s
  trusted : s.Trusted host
  unborn : p.Unborn s

namespace Since

variable {host : Host σ} {p : Privacy σ τ} {base s s' : State σ}

variable (h : Since host p base s)

include h

theorem aside (haside : Aside host p s s') : Since host p base s' where
  files := haside.files.trans h.files
  registry := haside.registry.trans h.registry
  canceled := haside.canceled.trans h.canceled
  projects := fun i => (haside.projects i).trans (h.projects i)
  trusted := haside.trusted h.trusted
  unborn := haside.unborn h.unborn

theorem update (hborn : d.serial ≤ Engine.serialOf s.serials d.className) {change : σ → σ}
    (hchange : p.Spares d change) : Since host p base { s with host := change s.host } := by
  refine { h with unborn := fun other hother => ?_ }
  have hne : other ≠ d := by
    rintro rfl
    exact Nat.not_lt_of_le hborn hother
  exact (hchange other hne s.host).trans (h.unborn other hother)

theorem readManifest (index : Nat) (document : Markup.Document) : Since host p base
    (s.changed index (·.readManifest document)) := by
  have hcore := State.sameCore_changed s index fun project => project.core_readManifest document
  exact { h with
    projects := fun i => (hcore i).trans (h.projects i)
    trusted := h.trusted.changed index fun project =>
      ⟨Project.core_congr Project.dir (fun _ => rfl) (project.core_readManifest document),
        project.configuration_readManifest document⟩ }

theorem libraries (ref : ProjectRef) : (s.project ref).libraries = (base.project ref).libraries :=
  Project.core_congr Project.libraries (fun _ => rfl) (h.projects.project ref)

end Since

/-! ## Two runs -/

theorem forall₂_of_map_eq {f : α → γ} {g : β → γ} {P : α → Prop} {Q : β → Prop} {l : List α}
    {l' : List β} (h : l.map f = l'.map g) (hP : ∀ a ∈ l, P a) (hQ : ∀ b ∈ l', Q b) :
    Forall₂ (fun a b => f a = g b ∧ P a ∧ Q b) l l' := by
  induction l generalizing l' with
  | nil =>
    rw [List.map_nil] at h
    rw [List.map_eq_nil_iff.1 h.symm]
    exact .nil
  | cons a rest ih =>
    cases l' with
    | nil => cases h
    | cons b rest' =>
      obtain ⟨hab, hrest⟩ := List.cons.inj h
      obtain ⟨hfirst, hothers⟩ := List.forall_mem_cons.1 hP
      obtain ⟨hfirst', hothers'⟩ := List.forall_mem_cons.1 hQ
      exact .cons ⟨hab, hfirst, hfirst'⟩ (ih hrest hothers hothers')

namespace Pairing

variable (n : Pairing)

structure Asked (requests requests' : Requests) : Prop where
  detectors : Forall₂ n.detector requests.detectors requests'.detectors
  scope : requests.scope = requests'.scope

structure Schedules (schedule schedule' : Schedule) : Prop where
  selection : Forall₂ n.naming.Members schedule.selection.members schedule'.selection.members
  phase : schedule.phase = schedule'.phase
  requests : Option.Rel n.Asked schedule.requests schedule'.requests

variable {n}

theorem Schedules.request {schedule schedule' : Schedule} (h : n.Schedules schedule schedule')
    (hd : n.detector d d') (scope : Option ScopeSet) :
    n.Schedules (schedule.request d scope) (schedule'.request d' scope) := by
  refine { h with requests := .some ?_ }
  have hrequests := h.requests
  generalize schedule.requests = known at hrequests
  generalize schedule'.requests = known' at hrequests
  cases hrequests with
  | none => exact ⟨.cons hd .nil, rfl⟩
  | some hknown =>
    rename_i known known'
    refine ⟨?_, congrArg (fun own : ScopeSet => own.union (scope.getD .all)) hknown.scope⟩
    show Forall₂ n.detector
      (if known.detectors.contains d then known.detectors else known.detectors ++ [d])
      (if known'.detectors.contains d' then known'.detectors else known'.detectors ++ [d'])
    have hmem : known.detectors.contains d = true ↔ known'.detectors.contains d' = true := by
      rw [List.contains_iff_mem, List.contains_iff_mem]
      exact List.rel_mem n.detectors hd hknown.detectors
    by_cases hasked : known.detectors.contains d = true
    · rw [if_pos hasked, if_pos (hmem.1 hasked)]
      exact hknown.detectors
    · rw [if_neg hasked, if_neg (mt hmem.2 hasked)]
      exact List.rel_append hknown.detectors (.cons hd .nil)

end Pairing

def Neighbors (base base' : State σ) (ref ref' : ProjectRef) : Prop :=
  ref.dir = ref'.dir ∧ base.cache.lookup ref.dir = some ref ∧
    base'.cache.lookup ref'.dir = some ref'

structure Bases (σ τ : Type) where
  host : Host σ
  p : Privacy σ τ
  base : State σ
  base' : State σ
  isolated : host.Isolated p
  unplaced : p.Unplaced
  drawn : Drawn host base
  drawn' : Drawn host base'
  files : base.files = base'.files
  registry : base.registry = base'.registry

/-- Two runs to be compared, with what was seen of them before and which names stand for each
other. -/
structure Comparison (σ τ : Type) extends Bases σ τ where
  n : Pairing
  before : List Entry
  before' : List Entry
  project : ∀ {ref ref'}, n.project ref ref' ↔ Neighbors base base' ref ref'

namespace Comparison

variable (k : Comparison σ τ)

structure Beside (s t : State σ) : Prop where
  left : Since k.host k.p k.base s
  right : Since k.host k.p k.base' t
  scope : s.scope = t.scope
  schedule : ∃ x x', s.schedule = some x ∧ t.schedule = some x' ∧ k.n.Schedules x x'
  memo : Option.Rel k.n.naming.Memos s.memo t.memo
  born : ∀ {d d'}, k.n.detector d d' → d.serial ≤ Engine.serialOf s.serials d.className ∧
    d'.serial ≤ Engine.serialOf t.serials d'.className
  own : ∀ {d d'}, k.n.detector d d' → k.p.same k.n (k.p.own d s.host) (k.p.own d' t.host)
  sights : ∃ new new', s.sights = k.before ++ new ∧ t.sights = k.before' ++ new' ∧
    Forall₂ k.n.Entries new new'

variable {k} {s t s' t' : State σ} {ref ref' : ProjectRef}

namespace Beside

variable (h : k.Beside s t)

include h

theorem files : s.files = t.files := by
  rw [h.left.files, k.files, h.right.files]

theorem registry : s.registry = t.registry := by
  rw [h.left.registry, k.registry, h.right.registry]

theorem canceled : s.canceled = t.canceled := by
  rw [h.left.canceled, h.right.canceled]

theorem moment : s.moment = t.moment := by
  obtain ⟨x, x', hx, hx', hschedules⟩ := h.schedule
  rw [State.moment, State.moment, h.scope, h.canceled, State.phase, State.phase, hx, hx']
  exact congrArg (Moment.mk _ · _) hschedules.phase

theorem selection : Forall₂ k.n.naming.Members s.selection.members t.selection.members := by
  obtain ⟨x, x', hx, hx', hschedules⟩ := h.schedule
  rw [State.selection, State.selection, hx, hx']
  exact hschedules.selection

theorem aside (hs : Aside k.host k.p s s') (ht : Aside k.host k.p t t') : k.Beside s' t' where
  left := h.left.aside hs
  right := h.right.aside ht
  scope := by rw [hs.scope, ht.scope, h.scope]
  schedule := by
    rw [hs.schedule, ht.schedule]
    exact h.schedule
  memo := by
    rw [hs.memo, ht.memo]
    exact h.memo
  born := by
    rw [hs.serials, ht.serials]
    exact h.born
  own := fun {d d'} hd => by
    rw [hs.own d, ht.own d']
    exact h.own hd
  sights := by
    rw [hs.sights, ht.sights]
    exact h.sights

theorem unheard (listeners listeners' : List Listener) :
    k.Beside { s with listeners } { t with listeners := listeners' } :=
  { h with left := { h.left with }, right := { h.right with } }

theorem see {entry entry' : Entry} (hentry : k.n.Entries entry entry') :
    k.Beside (s.write entry) (t.write entry') := by
  obtain ⟨new, new', hnew, hnew', hseen⟩ := h.sights
  have hsight : entry.isSight = true ∧ entry'.isSight = true := by
    cases hentry <;> exact ⟨rfl, rfl⟩
  refine ⟨{ h.left with }, { h.right with }, h.scope, h.schedule, h.memo, h.born, h.own,
    new ++ [entry], new' ++ [entry'], ?_, ?_, List.rel_append hseen (.cons hentry .nil)⟩
  · rw [s.sights_write_of_seen hsight.1, hnew, List.append_assoc]
  · rw [t.sights_write_of_seen hsight.2, hnew', List.append_assoc]

end Beside

theorem made (k : Comparison σ τ) (href : k.n.project ref ref') :
    k.base.Made ref ∧ k.base'.Made ref' := by
  obtain ⟨-, hkept, hkept'⟩ := k.project.1 href
  exact ⟨(k.drawn.lookup hkept).2, (k.drawn'.lookup hkept').2⟩

theorem Beside.made (h : k.Beside s t) (href : k.n.project ref ref') : s.Made ref ∧ t.Made ref' :=
  ⟨h.left.projects.made (k.made href).1, h.right.projects.made (k.made href).2⟩

theorem Beside.outline (h : k.Beside s t) (href : k.n.project ref ref') :
    (s.project ref).outline = (t.project ref').outline := by
  have hcore : ∀ {project other : Project}, project.core = other.core →
      project.outline = other.outline := Project.core_congr Project.outline fun _ => rfl
  obtain ⟨hmade, hmade'⟩ := k.made href
  obtain ⟨hproject, hdir⟩ := hmade.project_eq
  obtain ⟨hproject', hdir'⟩ := hmade'.project_eq
  rw [hcore (h.left.projects.project ref), hcore (h.right.projects.project ref'),
    k.drawn.shaped _ _ hproject, k.drawn'.shaped _ _ hproject', hdir, hdir', k.n.dir href, k.files]

end Comparison

namespace Comparison

open Run Engine

variable {k : Comparison σ τ} {s t : State σ} {ref ref' : ProjectRef}
variable {context context' : Option Context}

/-! ## What happens aside in both -/

theorem mirrors_of_aside {R : α → β → Prop} {x : Run σ α} {y : Run σ β}
    (h : ∀ s t, k.Beside s t → ∃ a s' b t', x s = .ok a s' ∧ Aside k.host k.p s s' ∧
      y t = .ok b t' ∧ Aside k.host k.p t t' ∧ R a b) : Mirrors k.Beside R x y := by
  intro s t hst
  obtain ⟨a, s', b, t', hx, hs, hy, ht, hab⟩ := h s t hst
  rw [hx, hy]
  exact .ok hab (hst.aside hs ht)

theorem mirrors_record {entry entry' : Entry} (h : entry.isSight = false)
    (h' : entry'.isSight = false) : Mirrors k.Beside Eq (record entry) (record entry') :=
  mirrors_of_aside fun s t _ =>
    ⟨(), s.write entry, (), t.write entry', rfl, .write s h, rfl, .write t h', rfl⟩

section Nested

variable (opts : Options) (depth : Nat)

def nested (k : Comparison σ τ) (opts : Options) (depth : Nat) : Engine σ :=
  ⟨k.host, opts, k.host.invoke opts (depth + 1)⟩

theorem tidy_nested (k : Comparison σ τ) : (k.nested opts depth).Tidy k.p :=
  tidy_invoke k.isolated opts depth

theorem mirrors_log {error error' : Option String} {message message' : String} :
    Mirrors k.Beside Eq ((k.nested opts depth).log error message context)
      ((k.nested opts depth).log error' message' context') := by
  refine mirrors_of_aside fun s t _ => ?_
  obtain ⟨s', hs, haside⟩ := (k.tidy_nested opts depth).log error message context s
  obtain ⟨t', ht, haside'⟩ := (k.tidy_nested opts depth).log error' message' context' t
  exact ⟨(), s', (), t', hs, haside, ht, haside', rfl⟩

theorem mirrors_configuration (href : k.n.project ref ref') :
    Mirrors k.Beside (fun config config' => config = config' ∧ config.Impartial k.n)
      ((k.nested opts depth).configuration ref)
      ((k.nested opts depth).configuration ref') := by
  refine mirrors_of_aside fun s t hst => ?_
  obtain ⟨hmade, hmade'⟩ := hst.made href
  obtain ⟨config, s', hs, haside, hgives⟩ :=
    (k.tidy_nested opts depth).configuration hst.left.trusted hmade
  obtain ⟨config', t', ht, haside', hgives'⟩ :=
    (k.tidy_nested opts depth).configuration hst.right.trusted hmade'
  rw [← hst.files, ← k.n.dir href] at hgives'
  exact ⟨config, s', config', t', hs, haside, ht, haside', k.isolated.unique hgives hgives',
    k.isolated.impartial_of_gives k.n hgives⟩

/-! ## Actions -/

theorem mirrors_deliver {report report' : Report} (h : k.n.Reports report report') :
    Mirrors k.Beside Eq ((k.nested opts depth).invoke (.report report))
      ((k.nested opts depth).invoke (.report report')) := by
  intro s t hst
  obtain ⟨s', hs, haside⟩ := (k.tidy_nested opts depth).call (.report report) rfl s
  obtain ⟨t', ht, haside'⟩ := (k.tidy_nested opts depth).call (.report report') rfl t
  rw [hs, ht]
  have hsee := hst.see (.report s.moment h)
  nth_rewrite 2 [hst.moment] at hsee
  exact .ok rfl (hsee.aside haside haside')

theorem mirrors_submit (author : Author) {report report' : Report}
    (h : k.n.Reports report report') :
    Mirrors k.Beside Eq ((k.nested opts depth).submit author report)
      ((k.nested opts depth).submit author report') := by
  refine (mirrors_record rfl rfl).bind fun _ _ _ => ?_
  refine (mirrors_configuration opts depth h.context.project).bind ?_
  rintro config _ ⟨rfl, himpartial⟩
  refine .read fun s t hst => ?_
  rw [hst.files, h.verdict_eq t.files.cwd himpartial, h.issue]
  cases verdict config t.files.cwd report' with
  | disabled => exact .ite Iff.rfl (.pure rfl) (mirrors_log opts depth)
  | ignored => exact .pure rfl
  | silenced => exact .pure rfl
  | delivered => exact mirrors_deliver opts depth h

theorem mirrors_requestRepeat (hd : k.n.detector d d') (scope : Option ScopeSet) :
    Mirrors k.Beside Eq (requestRepeat d scope) (requestRepeat d' scope) := by
  intro s t hst
  obtain ⟨x, x', hx, hx', hschedules⟩ := hst.schedule
  rw [requestRepeat_of_some hx, requestRepeat_of_some hx']
  have hwritten : k.Beside (s.write (.requested d scope)) (t.write (.requested d' scope)) :=
    hst.aside (.write s rfl) (.write t rfl)
  exact .ok rfl { hwritten with
    left := { hwritten.left with }
    right := { hwritten.right with }
    schedule := ⟨_, _, rfl, rfl, hschedules.request hd scope⟩ }

theorem rootDir_eq {c c' : Context} (h : k.n.Contexts c c') :
    c.rootProject.dir = c'.rootProject.dir := by
  have hmain := h.main
  rw [Context.rootProject, Context.rootProject]
  generalize c.main = main at hmain
  generalize c'.main = main' at hmain
  cases hmain with
  | none => exact k.n.dir h.project
  | some hmain => exact k.n.dir hmain

theorem mirrors_observe
    (h : Option.Rel k.n.Contexts context context') (issue : Option Issue) (scope : Option Scope)
    (project : Bool) :
    Mirrors k.Beside (fun seen seen' => k.n.Replies k.p.sees (.observed seen) (.observed seen'))
      ((k.nested opts depth).observe context issue scope project)
      ((k.nested opts depth).observe context' issue scope project) := by
  refine .read fun s t hst => ?_
  rw [hst.moment]
  cases h with
  | none => exact .pure (.state _ _ _ _ .none)
  | some hcontext =>
    rename_i c c'
    have hshown : ∀ enabled : Option Bool,
        Mirrors k.Beside (fun seen seen' => k.n.Replies k.p.sees (.observed seen) (.observed seen'))
          (do let shown := (← get).project c.project
              return .state t.moment (some c.rootProject.dir) enabled
                (scope.map (← get).scope.contains)
                (if project then some (c.project, shown) else none))
          (do let shown := (← get).project c'.project
              return .state t.moment (some c'.rootProject.dir) enabled
                (scope.map (← get).scope.contains)
                (if project then some (c'.project, shown) else none)) := by
      intro enabled
      refine .read fun u v huv => .read fun u' v' huv' => .pure ?_
      rw [rootDir_eq hcontext, huv'.scope]
      refine .state _ _ _ _ ?_
      cases project with
      | true => exact .some ⟨hcontext.project, k.unplaced (huv.outline hcontext.project)⟩
      | false => exact .none
    cases issue with
    | none => exact hshown none
    | some issue =>
      refine (mirrors_configuration opts depth hcontext.project).bind ?_
      rintro config _ ⟨rfl, -⟩
      exact hshown _

theorem mirrors_perform {own : Detector → Detector → Prop}
    (hown : ∀ {d d'}, own d d' → k.n.detector d d') {action action' : Action}
    (h : k.n.Actions own action action') :
    Mirrors k.Beside (k.n.Replies k.p.sees) ((k.nested opts depth).perform action)
      ((k.nested opts depth).perform action') := by
  have hdone : ∀ {x y : Run σ Unit}, Mirrors k.Beside Eq x y →
      Mirrors k.Beside (k.n.Replies k.p.sees) (x >>= fun _ => pure .done)
        (y >>= fun _ => pure .done) :=
    fun hxy => hxy.bind fun _ _ _ => .pure .done
  cases h with
  | report hreport => exact hdone (mirrors_submit opts depth .embedding hreport)
  | requestRepeat scope hd => exact hdone (mirrors_requestRepeat (hown hd) scope)
  | log => exact hdone (mirrors_log opts depth)
  | addListener => exact hdone (.modify fun hst => hst.unheard _ _)
  | removeListener => exact hdone (.modify fun hst => hst.unheard _ _)
  | observe issue scope project hcontext =>
    refine (mirrors_observe opts depth hcontext issue scope project).bind fun seen seen' hseen => ?_
    exact (mirrors_record rfl rfl).bind fun _ _ _ => .pure hseen
  | askSuppressed issue target =>
    exact (mirrors_record rfl rfl).bind fun _ _ _ => .pure (.suppressed _ _)

/-! ## Calls -/

structure Fits (k : Comparison σ τ) (stance : Stance σ) : Prop where
  sees : stance.sees = k.p.sees
  own : ∀ {d d'}, stance.own d d' → k.n.detector d d'
  view : ∀ {s t}, k.Beside s t → stance.view s.host t.host
  update : ∀ {change change' s t}, stance.left change → stance.right change' →
    (∀ m m', stance.view m m' → stance.view (change m) (change' m')) → k.Beside s t →
    k.Beside { s with host := change s.host } { t with host := change' t.host }

theorem fits_parsing (k : Comparison σ τ) : k.Fits k.p.parser where
  sees := rfl
  own := False.elim
  view := fun _ => trivial
  update := fun {_ _ s t} hleft hright _ hst =>
    hst.aside (.update s fun d => hleft d s.host) (.update t fun d => hright d t.host)

theorem fits_detector (k : Comparison σ τ) (hd : k.n.detector d d') :
    k.Fits (k.p.detector k.n d d') where
  sees := rfl
  own := by
    rintro _ _ ⟨rfl, rfl⟩
    exact hd
  view := fun hst => hst.own hd
  update := by
    intro change change' s t hleft hright hview hst
    refine { hst with
      left := hst.left.update (hst.born hd).1 hleft
      right := hst.right.update (hst.born hd).2 hright
      own := fun {other other'} hother => ?_ }
    by_cases hsame : other = d
    · subst hsame
      obtain rfl := k.n.detectors.2 hother hd
      exact hview _ _ (hst.own hd)
    · have hsame' : other' ≠ d' := by
        rintro rfl
        exact hsame (k.n.detectors.1 hother hd)
      show k.p.same k.n (k.p.own other (change s.host)) (k.p.own other' (change' t.host))
      rw [hleft other hsame, hright other' hsame']
      exact hst.own hother

theorem mirrors_script {stance : Stance σ} (hstance : k.Fits stance) {script script' : Script σ}
    (h : Script.Alike k.n stance script script') :
    Mirrors k.Beside Eq (script.run (k.nested opts depth).perform)
      (script'.run (k.nested opts depth).perform) := by
  induction h with
  | done => exact .pure rfl
  | fail fault => exact .throw fault
  | update hleft hright hview _ ih =>
    refine Mirrors.bind (.modify fun hst => hstance.update hleft hright hview hst)
      fun _ _ _ => .read fun s t hst => ?_
    exact ih _ _ (hstance.view hst)
  | act haction _ ih =>
    exact (mirrors_perform opts depth hstance.own haction).bind fun reply reply' hreply =>
      ih reply reply' (hstance.sees ▸ hreply)

theorem mirrors_invoke {stance : Stance σ} (hstance : k.Fits stance) {call call' : Call}
    (hcalled : ∀ {s t}, k.Beside s t →
      k.Beside (s.write (.called call s.moment)) (t.write (.called call' t.moment)))
    (hscript : ∀ moment {s t}, k.Beside s t →
      Script.Alike k.n stance (k.host.react call moment s.host)
        (k.host.react call' moment t.host)) :
    Mirrors k.Beside Eq ((k.nested opts (depth + 1)).invoke call)
      ((k.nested opts (depth + 1)).invoke call') := by
  intro s t hst
  have hrun := mirrors_script opts depth hstance (hscript s.moment hst) _ _ (hcalled hst)
  have hmoment : k.host.react call' s.moment t.host = k.host.react call' t.moment t.host := by
    rw [hst.moment]
  rw [hmoment] at hrun
  exact hrun

theorem mirrors_ask (hd : k.n.detector d d') {hook hook' : Hook} (hhook : k.n.Hooks hook hook') :
    Mirrors k.Beside Eq ((k.nested opts (depth + 1)).ask d hook)
      ((k.nested opts (depth + 1)).ask d' hook') := by
  refine mirrors_invoke opts depth (k.fits_detector hd) (fun {s t} hst => ?_)
    fun moment s t hst => k.isolated.detector k.n moment hd hhook (hst.own hd)
  rw [← hst.moment]
  exact hst.see (.hook s.moment hd hhook)

theorem mirrors_parsing {call call' : Call} (h : k.n.Parsings call call') :
    Mirrors k.Beside Eq ((k.nested opts (depth + 1)).invoke call)
      ((k.nested opts (depth + 1)).invoke call') := by
  refine mirrors_invoke opts depth k.fits_parsing (fun {s t} hst => ?_)
    fun moment s t _ => k.isolated.parser k.n moment s.host t.host h
  cases h <;> exact hst.aside (.write s rfl) (.write t rfl)

end Nested

section Runs

variable (k) (opts : Options)

theorem mirrors_fire (event : Event) (h : Option.Rel k.n.Contexts context context') :
    Mirrors k.Beside Eq ((k.host.engine opts).fire event context)
      ((k.host.engine opts).fire event context') := by
  intro s t hst
  have hmade : ∀ c, context = some c → s.Made c.project := by
    rintro c rfl
    cases h with
    | some hcontext => exact (hst.made hcontext.project).1
  have hmade' : ∀ c, context' = some c → t.Made c.project := by
    rintro c rfl
    cases h with
    | some hcontext => exact (hst.made hcontext.project).2
  obtain ⟨s', hs, haside⟩ := fire_aside k.isolated opts event hst.left.trusted hmade
  obtain ⟨t', ht, haside'⟩ := fire_aside k.isolated opts event hst.right.trusted hmade'
  rw [← hst.moment] at haside'
  rw [hs, ht]
  exact .ok rfl ((hst.see (.fired event s.moment h)).aside haside haside')

/-! ## Passes -/

theorem visits : Visits (k.host.engine opts) (k.host.engine opts) k.n.naming k.Beside where
  file := fun hc => hc.file
  elementNames := fun hd hst => k.isolated.elementNames k.n hd (hst.own hd)
  attributeNames := fun hd hst => k.isolated.attributeNames k.n hd (hst.own hd)
  nodeTypes := fun hd hst => k.isolated.nodeTypes k.n hd (hst.own hd)
  appliesToFile := fun file hd hc hst => k.isolated.appliesToFile k.n file hd hc (hst.own hd)
  ask := fun hd hhook => mirrors_ask opts (Host.nestingLimit - 2) hd (.inl hhook)
  parseMarkup := fun hc => .consult (mirrors_parsing opts (Host.nestingLimit - 2) (.markup hc))
    fun hst => hst.files ▸ k.isolated.parseMarkup k.n _ _ _ hc
  parseSource := fun hc => .consult (mirrors_parsing opts (Host.nestingLimit - 2) (.source hc))
    fun hst => hst.files ▸ k.isolated.parseSource k.n _ _ _ hc

theorem strides : Strides (k.host.engine opts) (k.host.engine opts) k.n.naming k.Beside where
  toVisits := k.visits opts
  unique := k.n.detectors
  scans := fun _ hd => by rw [k.n.className hd]
  files := Beside.files
  scope := Beside.scope
  selection := Beside.selection
  memo := Beside.memo
  remembered := fun hmemo hst =>
    { hst with left := { hst.left with }, right := { hst.right with }, memo := hmemo }
  supplies := fun scanner _ _ _ => k.isolated.supplies scanner _ _
  appliesToFolder := fun folder _ _ _ _ hd hst =>
    k.isolated.appliesToFolder k.n folder hd (hst.own hd)
  readClass := fun bytes => .consult
    (mirrors_parsing opts (Host.nestingLimit - 2) (.bytecode bytes))
    fun _ => k.isolated.readClass bytes _ _
  log := fun _ _ => mirrors_log opts (Host.nestingLimit - 1)
  fire := fun hc => k.mirrors_fire opts .scanningFile (.some hc)

variable {k}

theorem samePass {main main' : ProjectRef} (href : k.n.project ref ref')
    (hmain : k.n.project main main') :
    SamePass k.n.naming k.Beside ⟨ref, main⟩ ⟨ref', main'⟩ where
  context := fun _ _ => ⟨href, .some hmain, rfl, rfl⟩
  dir := k.n.dir href
  own := Relator.rel_eq k.n.projects href hmain
  outline := fun hst => hst.outline href
  read := fun document _ _ hst =>
    { hst with
      left := hst.left.readManifest _ document
      right := hst.right.readManifest _ document }

theorem mirrors_libraries (href : k.n.project ref ref')
    (hknown : ∃ refs, (k.base.project ref).libraries = some refs)
    (hknown' : ∃ refs, (k.base'.project ref').libraries = some refs) :
    Mirrors k.Beside (Forall₂ k.n.project) ((k.host.engine opts).libraries ref)
      ((k.host.engine opts).libraries ref') := by
  obtain ⟨refs, hrefs⟩ := hknown
  obtain ⟨refs', hrefs'⟩ := hknown'
  intro s t hst
  rw [libraries_of_known _ ((hst.left.libraries ref).trans hrefs),
    libraries_of_known _ ((hst.right.libraries ref').trans hrefs')]
  refine .ok ?_ hst
  obtain ⟨hmade, hmade'⟩ := k.made href
  obtain ⟨hproject, hdir⟩ := hmade.project_eq
  obtain ⟨hproject', hdir'⟩ := hmade'.project_eq
  obtain ⟨hdirs, hkept⟩ := k.drawn.linked _ _ refs hproject hrefs
  obtain ⟨hdirs', hkept'⟩ := k.drawn'.linked _ _ refs' hproject' hrefs'
  have hsame : refs.map ProjectRef.dir = refs'.map ProjectRef.dir := by
    rw [hdirs, hdirs', hdir, hdir', k.n.dir href, k.files]
  exact (forall₂_of_map_eq hsame hkept hkept').imp fun _ _ => k.project.2

theorem projectContexts (href : k.n.project ref ref') :
    k.n.Contexts (projectContext ref) (projectContext ref') :=
  ⟨href, .none, k.n.dir href, rfl⟩

theorem phase {root root' : ProjectRef} (hroot : k.n.project root root')
    (hknown : ∃ refs, (k.base.project root).libraries = some refs)
    (hknown' : ∃ refs, (k.base'.project root').libraries = some refs) :
    Phase (k.host.engine opts) k.n.naming k.Beside root root' where
  strides := fun _ => k.strides opts
  canceled := Beside.canceled
  level := fun _ _ _ _ _ hd hhook => mirrors_ask opts (Host.nestingLimit - 2) hd (.inr hhook)
  announce := fun _ event _ _ _ hc => k.mirrors_fire opts event (.some hc)
  project := projectContexts hroot
  pass := fun _ => samePass hroot hroot
  libraries := by
    intro _ s t hst
    have hlibraries := mirrors_libraries opts hroot hknown hknown' s t hst
    generalize (k.host.engine opts).libraries root s = r at hlibraries
    generalize (k.host.engine opts).libraries root' t = r' at hlibraries
    cases hlibraries with
    | ok hrefs h =>
      refine .ok (hrefs.imp fun library library' hlibrary => ?_) h
      exact ⟨⟨hlibrary, .some hroot, k.n.dir hlibrary, rfl⟩, fun _ => samePass hlibrary hroot⟩
    | error fault h => exact .error fault h

end Runs
end Comparison
end ProjectLint
