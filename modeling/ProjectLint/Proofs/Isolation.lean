/-
Isolation of projects. What is seen of a project in a run, its events, the calls of its detectors
and the reports that reach the client, is what is seen when the project is checked alone, whichever
projects are checked beside it, in whatever order, and whatever libraries they share with it.

This takes an isolated embedding, and projects none of which is in the library closure of another.
-/
import Mathlib.Data.List.TakeWhile
import ProjectLint.Proofs.Chapters
import ProjectLint.Proofs.EventProtocol
import ProjectLint.Proofs.Isolation.Chapter

namespace ProjectLint

open List (Forall₂)

variable {entries new : List Entry} {roots : List ProjectRef}

/-! ## The block of a project -/

namespace Journal

variable {root : ProjectRef}

def Entry.opening? : Entry → Option ProjectRef
  | .fired .scanningProject (some context) _ => some context.project
  | _ => none

def Entry.isFinal : Entry → Bool
  | .fired .completed _ _ | .fired .canceled _ _ => true
  | _ => false

def Entry.belongs (root : ProjectRef) (entry : Entry) : Bool :=
  !entry.isFinal && entry.opening?.all (· == root)

def block (root : ProjectRef) (entries : List Entry) : List Entry :=
  ((sights entries).dropWhile fun entry => entry.opening? != some root).takeWhile
    (Entry.belongs root)

theorem Entry.opening?_of_belongs {entry : Entry} {other : ProjectRef}
    (h : entry.belongs root = true) (hother : entry.opening? = some other) : other = root := by
  rw [Entry.belongs, hother] at h
  exact beq_iff_eq.1 (Bool.and_eq_true_iff.1 h).2

/-- What is seen of the check of a project: nothing, or a scan of the project and what belongs to
it. -/
structure Account (root : ProjectRef) (entries : List Entry) : Prop where
  opened : Bases.Opened root entries
  own : ∀ entry ∈ entries, entry.belongs root = true

theorem Account.opening?_ne {other : ProjectRef} (h : Account other entries) (hne : root ≠ other) :
    ∀ entry ∈ entries, (entry.opening? != some root) = true := by
  intro entry hentry
  rw [bne_iff_ne]
  exact fun hopening => hne (Entry.opening?_of_belongs (h.own entry hentry) hopening)

section Accounts

variable {root : ProjectRef} {others : List ProjectRef} {words : List (List Entry)}

theorem opening?_ne_of_accounts (h : Forall₂ Account others words) (hroot : root ∉ others) :
    ∀ entry ∈ words.flatten, (entry.opening? != some root) = true := by
  induction h with
  | nil => exact List.forall_mem_nil _
  | cons hfirst _ ih =>
    obtain ⟨hne, hrest⟩ := not_or.1 (mt List.mem_cons.2 hroot)
    intro entry hentry
    rw [List.flatten_cons, List.mem_append] at hentry
    exact hentry.elim (hfirst.opening?_ne hne entry) (ih hrest entry)

theorem takeWhile_of_accounts (h : Forall₂ Account others words) (hroot : root ∉ others)
    {last : Entry} (hlast : last.isFinal = true) :
    (words.flatten ++ [last]).takeWhile (Entry.belongs root) = [] := by
  induction h with
  | nil => exact List.takeWhile_cons_of_neg (by rw [Entry.belongs, hlast]; exact Bool.false_ne_true)
  | @cons other word _ _ hfirst _ ih =>
    obtain ⟨hne, hrest⟩ := not_or.1 (mt List.mem_cons.2 hroot)
    rcases hfirst.opened with rfl | ⟨moment, more, rfl⟩
    · exact ih hrest
    · refine List.takeWhile_cons_of_neg fun hbelongs => hne ?_
      exact (Entry.opening?_of_belongs hbelongs rfl).symm

end Accounts

theorem block_eq {before after : List ProjectRef}
    {words words' : List (List Entry)} {word : List Entry} {first last : Entry}
    (hbefore : Forall₂ Account before words) (hword : Account root word)
    (hafter : Forall₂ Account after words') (hnodup : (before ++ root :: after).Nodup)
    (hfirst : first.opening? = none) (hlast : last.isFinal = true)
    (h : sights entries = first :: words.flatten ++ (word ++ (words'.flatten ++ [last]))) :
    block root entries = word := by
  have hnot : root ∉ before ∧ root ∉ after := by
    rw [List.nodup_middle, List.nodup_cons, List.mem_append, not_or] at hnodup
    exact hnodup.1
  have hskip : ∀ entry ∈ first :: words.flatten, (entry.opening? != some root) = true :=
    List.forall_mem_cons.2 ⟨by rw [hfirst]; rfl, opening?_ne_of_accounts hbefore hnot.1⟩
  rw [block, h, List.dropWhile_append_of_pos hskip]
  rcases hword.opened with rfl | ⟨moment, more, rfl⟩
  · have hend : (last.opening? != some root) = true := by
      cases last with
      | fired event context moment => cases event <;> first | rfl | cases hlast
      | _ => cases hlast
    have hrest : ∀ entry ∈ words'.flatten ++ [last], (entry.opening? != some root) = true := by
      intro entry hentry
      rcases List.mem_append.1 hentry with hentry | hentry
      · exact opening?_ne_of_accounts hafter hnot.2 entry hentry
      · rw [List.mem_singleton.1 hentry]
        exact hend
    rw [List.nil_append, List.dropWhile_eq_nil_iff.2 hrest]
    rfl
  · rw [List.cons_append, List.dropWhile_cons_of_neg
      (by simp [Entry.opening?, Engine.projectContext]),
      ← List.cons_append, List.takeWhile_append_of_pos hword.own,
      takeWhile_of_accounts hafter hnot.2 hlast, List.append_nil]

end Journal

theorem forall₂_split {R : α → β → Prop} {l : List α} {l' : List β} (h : Forall₂ R l l') {a : α}
    (ha : a ∈ l) :
    ∃ before after before' b after', l = before ++ a :: after ∧ l' = before' ++ b :: after' ∧
      Forall₂ R before before' ∧ R a b ∧ Forall₂ R after after' := by
  induction h with
  | nil => exact absurd ha List.not_mem_nil
  | @cons first b rest rest' hfirst hrest ih =>
    rcases List.mem_cons.1 ha with rfl | ha
    · exact ⟨[], rest, [], b, rest', rfl, rfl, .nil, hfirst, hrest⟩
    · obtain ⟨before, after, before', c, after', rfl, rfl, hbefore, hab, hafter⟩ := ih ha
      exact ⟨first :: before, after, b :: before', c, after', rfl, rfl, .cons hfirst hbefore, hab,
        hafter⟩

/-! ## The account of a project -/

open Run Engine EventProtocol Journal

variable {host : Host σ} {p : Privacy σ τ} {base s t s' : State σ} {root root' : ProjectRef}

structure Known (base : State σ) (root : ProjectRef) : Prop where
  kept : base.cache.lookup root.dir = some root
  libraries : ∃ refs, (base.project root).libraries = some refs

theorem belongs_checkRoot (host : Host σ) (opts : Options)
    (h : (host.engine opts).checkRoot root s = .ok () s')
    (hnew : s'.written = s.written ++ new) : ∀ entry ∈ new, entry.belongs root = true := by
  have hcourse := course_checkRoot host opts (List.mem_singleton.2 (Eq.refl root)) s
  rw [h, endState_ok] at hcourse
  obtain ⟨other, hother, hword, -⟩ := hcourse.wrote
  rw [hnew] at hother
  obtain rfl := List.append_cancel_left hother
  have hallows : Allows (fun signal => ∀ moment,
      (Entry.fired signal.1 signal.2 moment).belongs root = true) root :=
    ⟨fun _ => by simp [Entry.belongs, Entry.isFinal, Entry.opening?, projectContext],
      fun _ _ _ _ => rfl, fun _ _ => rfl, fun _ => rfl⟩
  have hall := one_add_le_allOf hallows.phases_le hword
  intro entry hentry
  cases entry with
  | fired event context moment =>
    exact hall (event, context) (List.mem_filterMap.2 ⟨_, hentry, rfl⟩) moment
  | _ => rfl

theorem scope_checkRoot (host : Host σ) (opts : Options) (hroot : s.Made root)
    (h : (host.engine opts).checkRoot root s = .ok () s') :
    s'.scope = s.scope ∧ ∃ new, s'.written = s.written ++ new := by
  obtain ⟨project, hproject, -⟩ := hroot
  have hhas : s.Has root := (Array.getElem?_eq_some_iff.1 hproject).1
  rcases Phases.told_checkRoot host opts hhas with ⟨fault, _, hrun, -⟩ | ⟨chapter, htold⟩
  · rw [h] at hrun
    cases hrun
  · rw [h] at htold
    exact ⟨htold.scope, _, htold.written⟩

structure Tells (host : Host σ) (p : Privacy σ τ) (opts : Options) (base : State σ)
    (scope : ScopeSet) (root : ProjectRef) (word : List Entry) : Prop where
  account : Account root word
  checked : ∃ s s', Since host p base s ∧ s.scope = scope ∧
    (host.engine opts).checkRoot root s = .ok () s' ∧ s'.sights = s.sights ++ word

theorem Bases.tells_same (g : Bases σ τ) (opts : Options) {scope : ScopeSet}
    {word word' : List Entry} (hroot : Known g.base root) (hroot' : Known g.base' root')
    (hdir : root.dir = root'.dir) (h : Tells g.host g.p opts g.base scope root word)
    (h' : Tells g.host g.p opts g.base' scope root' word') :
    ∃ n : Pairing, n.project root root' ∧ Forall₂ n.Entries word word' := by
  obtain ⟨s, s', hs, hscope, hcheck, hword⟩ := h.checked
  obtain ⟨t, t', ht, hscope', hcheck', hword'⟩ := h'.checked
  obtain ⟨-, n, new, new', hn, hnew, hnew', hentries, -⟩ :=
    g.between_checkRoot opts ⟨hdir, hroot.kept, hroot'.kept⟩ hroot.libraries hroot'.libraries
      ⟨hs, ht, hscope.trans hscope'.symm⟩ hcheck hcheck'
  rw [hword] at hnew
  rw [hword'] at hnew'
  rw [List.append_cancel_left hnew, List.append_cancel_left hnew']
  exact ⟨n, hn, hentries⟩

section Accounts

variable (hhost : host.Isolated p) (hp : p.Unplaced) (hbase : Drawn host base) (opts : Options)

include hhost hp hbase

theorem tells_checkRoot (hroot : Known base root) (hs : Since host p base s)
    (h : (host.engine opts).checkRoot root s = .ok () s') :
    Since host p base s' ∧ ∃ word, s'.sights = s.sights ++ word ∧
      Tells host p opts base s.scope root word := by
  -- The run beside itself.
  let alone : Bases σ τ := ⟨host, p, base, base, hhost, hp, hbase, hbase, rfl, rfl⟩
  obtain ⟨hbetween, -, word, -, -, hword, -, -, hopened, -⟩ :=
    alone.between_checkRoot opts ⟨rfl, hroot.kept, hroot.kept⟩ hroot.libraries hroot.libraries
      ⟨hs, hs, rfl⟩ h h
  refine ⟨hbetween.left, word, hword, ⟨hopened, fun entry hentry => ?_⟩, s, s', hs, rfl, h, hword⟩
  have hmade : s.Made root := hs.projects.made (hbase.lookup hroot.kept).2
  obtain ⟨-, new, hnew⟩ := scope_checkRoot host opts hmade h
  rw [State.sights, State.sights, hnew, sights_append] at hword
  rw [← List.append_cancel_left hword] at hentry
  exact belongs_checkRoot host opts h hnew entry (List.mem_filter.1 hentry).1

theorem tells_checkRoots (hroots : ∀ root ∈ roots, Known base root)
    (hs : Since host p base s) {current last : ProjectRef}
    (h : (host.engine opts).checkRoots current roots s = .ok last s') :
    Since host p base s' ∧ ∃ words, s'.sights = s.sights ++ words.flatten ∧
      Forall₂ (Tells host p opts base s.scope) roots words := by
  induction roots generalizing current s with
  | nil =>
    cases h
    exact ⟨hs, [], (List.append_nil _).symm, .nil⟩
  | cons root rest ih =>
    obtain ⟨hroot, hrest⟩ := List.forall_mem_cons.1 hroots
    rw [checkRoots, get_bind, hs.canceled, if_neg Bool.false_ne_true] at h
    obtain ⟨_, s₁, hfirst, hmore⟩ := bind_eq_ok h
    obtain ⟨hs₁, word, hword, htells⟩ := tells_checkRoot hhost hp hbase opts hroot hs hfirst
    have hmade : s.Made root := hs.projects.made (hbase.lookup hroot.kept).2
    have hscope := (scope_checkRoot host opts hmade hfirst).1
    obtain ⟨hs', words, hwords, hall⟩ := ih hrest hs₁ hmore
    rw [hscope] at hall
    refine ⟨hs', word :: words, ?_, .cons htells hall⟩
    rw [hwords, hword, List.append_assoc, List.flatten_cons]

end Accounts

/-! ## A run over project directories -/

namespace Isolation

open Discovery Phases

variable {start : State σ}

structure Launched (host : Host σ) (p : Privacy σ τ) (opts : Options) (paths : List String)
    (scope : ScopeSet) (elapsed : Int) (s s' base start : State σ) (roots : List ProjectRef) :
    Prop where
  rooted : Rooted host p paths roots (s.begun (some scope)) base
  since : Since host p base start
  scope : start.scope = scope
  sights : ∃ moment, start.sights = s.sights ++ [.fired .starting none moment]
  goes : ∃ first, ((host.engine opts).checkRoots first roots >>= fun current =>
    (host.engine opts).finish current elapsed) start = .ok () s'

/-- What a run on all paths writes for one root is, up to a renaming, what a run on its path alone
writes. -/
def SameBlock (host : Host σ) (opts : Options) (paths : List String) (path : String)
    (scope : ScopeSet) (s s₁ s₂ : State σ) : Prop :=
  ∃ (root root' : ProjectRef) (n : Pairing) (new new' : List Entry),
    root ∈ foundRoots host opts paths (some scope) s ∧ root.dir = s.files.canonical path ∧
    foundRoots host opts [path] (some scope) s = [root'] ∧ n.project root root' ∧
    s₁.written = s.written ++ new ∧ s₂.written = s.written ++ new' ∧
    Forall₂ n.Entries (block root new) (block root' new')

section Launched

variable {opts : Options} {paths : List String} {scope : ScopeSet} {elapsed : Int}

theorem apart_singleton (ws : Workspace) (path : String) : Apart ws [path] := by
  intro first hfirst other hother hne
  rw [List.mem_singleton.1 hfirst, List.mem_singleton.1 hother] at hne
  exact absurd rfl hne

theorem Launched.single {path : String} {base : State σ}
    (h : Launched host p opts [path] scope elapsed s s' base start roots) :
    ∃ root, roots = [root] ∧ root.dir = s.files.canonical path := by
  obtain ⟨root, hroot, hdir⟩ := h.rooted.all (apart_singleton _ path) path List.mem_cons_self
  refine ⟨root, List.perm_singleton.1 ?_, hdir⟩
  refine (List.perm_ext_iff_of_nodup h.rooted.nodup (List.nodup_singleton root)).2 fun other => ?_
  rw [List.mem_singleton]
  refine ⟨fun hother => ?_, fun heq => heq ▸ hroot⟩
  obtain ⟨given, hgiven, hsame⟩ := h.rooted.given other hother
  rw [List.mem_singleton.1 hgiven] at hsame
  exact Drawn.unique (h.rooted.kept other hother) (h.rooted.kept root hroot) (hsame.trans hdir.symm)

theorem Launched.known {base : State σ}
    (h : Launched host p opts paths scope elapsed s s' base start roots) :
    ∀ root ∈ roots, Known base root :=
  fun root hroot => ⟨h.rooted.kept root hroot, h.rooted.knows root hroot⟩

end Launched

theorem exists_written (opts : Options) {paths : List String} {given : Option ScopeSet}
    {elapsed : Int} (hs : s.Sound)
    (h : (host.engine opts).analyze paths given elapsed s = .ok () s') :
    ∃ new, s'.written = s.written ++ new := by
  obtain ⟨_, _, _, hnarrated⟩ := narrated_analyze host opts paths given elapsed hs
  rw [h] at hnarrated
  exact ⟨_, hnarrated.written⟩

section Runs

variable (hhost : host.Isolated p) (opts : Options) {paths : List String} {scope : ScopeSet}
  {elapsed : Int}

include hhost

theorem fire_of_run (event : Event) (hs : s.Trusted host) :
    ∃ s', (host.engine opts).fire event none s = .ok () s' ∧
      Aside host p (s.write (.fired event none s.moment)) s' :=
  fire_aside hhost opts event hs fun _ hnone => by cases hnone

theorem launched_analyze (hs : Drawn host s) (hborn : p.Unborn s)
    (hall : AllProjects s.files (paths.map (Path.resolve s.files.cwd))) (hne : paths ≠ [])
    (hapart : Apart s.files paths)
    (h : (host.engine opts).analyze paths (some scope) elapsed s = .ok () s') :
    ∃ base start, Launched host p opts paths scope elapsed s s' base start
      (foundRoots host opts paths (some scope) s) := by
  have hbegun : Drawn host (s.begun (some scope)) := { hs with }
  cases hresolve : Discovery.resolve (host.engine opts) State.canceled paths
    (s.begun (some scope)) with
  | error fault base =>
    rw [analyze_of_error hresolve] at h
    cases h
  | ok roots base =>
    have hfound : foundRoots host opts paths (some scope) s = roots := by
      rw [foundRoots, hresolve]
      rfl
    have hrooted : Rooted host p paths roots (s.begun (some scope)) base :=
      rooted_resolve hhost opts hbegun rfl hall hresolve
    have hcanceled : base.canceled = false := hrooted.canceled
    cases roots with
    | nil =>
      obtain ⟨path, hpath⟩ := List.exists_mem_of_ne_nil paths hne
      obtain ⟨root, hroot, -⟩ := hrooted.all hapart path hpath
      exact absurd hroot List.not_mem_nil
    | cons first rest =>
      rw [analyze_of_cons hresolve hcanceled, checkAll_eq] at h
      let entered := (base.ready (some scope) (first :: rest)).entered (rest.length + 1)
      have hentered : Since host p base entered :=
        ⟨rfl, rfl, hcanceled, fun _ => rfl, hrooted.drawn.trusted, hrooted.unborn hborn⟩
      obtain ⟨start, hfire, haside⟩ := fire_of_run hhost opts .starting hentered.trusted
      rw [bind_of_ok hfire] at h
      rw [hfound]
      refine ⟨base, start, hrooted, ?_, haside.scope, ⟨entered.moment, ?_⟩, first, h⟩
      · exact Since.aside (s := entered.write (.fired .starting none entered.moment))
          { hentered with } haside
      · have hquiet : entered.sights = base.sights := State.sights_write_of_unseen _ rfl
        rw [haside.sights, entered.sights_write_of_seen rfl, hquiet, hrooted.sights]
        rfl

theorem sights_finish {current : ProjectRef} (hs : Since host p base s)
    (h : (host.engine opts).finish current elapsed s = .ok () s') :
    ∃ moment, s'.sights = s.sights ++ [.fired .completed none moment] := by
  rw [finish_of_not_canceled _ _ _ hs.canceled, conclude, hs.canceled] at h
  have hclosing : Since host p base (s.closing elapsed) := { hs with }
  obtain ⟨_, hfire, haside⟩ := fire_of_run hhost opts .completed hclosing.trusted
  rw [if_neg Bool.false_ne_true, hfire] at h
  cases h
  refine ⟨(s.closing elapsed).moment, ?_⟩
  have hquiet : (s.closing elapsed).sights = s.sights := State.sights_write_of_unseen _ rfl
  rw [haside.sights, State.sights_write_of_seen _ rfl, hquiet]

theorem Launched.accounts (hp : p.Unplaced) {base : State σ}
    (h : Launched host p opts paths scope elapsed s s' base start roots)
    (hnew : s'.written = s.written ++ new) :
    ∃ first words last, first.opening? = none ∧ last.isFinal = true ∧
      Forall₂ (Tells host p opts base scope) roots words ∧
      Journal.sights new = first :: words.flatten ++ [last] := by
  obtain ⟨current, hgoes⟩ := h.goes
  obtain ⟨last, s₁, hroots, hfinish⟩ := bind_eq_ok hgoes
  obtain ⟨hsince, words, hwords, htells⟩ :=
    tells_checkRoots hhost hp h.rooted.drawn opts h.known h.since hroots
  rw [h.scope] at htells
  obtain ⟨moment, hstart⟩ := h.sights
  obtain ⟨moment', hend⟩ := sights_finish hhost opts hsince hfinish
  refine ⟨.fired .starting none moment, words, .fired .completed none moment', rfl, rfl, htells, ?_⟩
  rw [hwords, hstart, State.sights, State.sights, hnew, sights_append, List.append_assoc,
    List.append_assoc] at hend
  exact List.append_cancel_left hend

theorem Launched.tells_block (hp : p.Unplaced) {base : State σ}
    (h : Launched host p opts paths scope elapsed s s' base start roots)
    (hnew : s'.written = s.written ++ new) (hroot : root ∈ roots) :
    Tells host p opts base scope root (block root new) := by
  obtain ⟨first, words, last, hfirst, hlast, htells, hsights⟩ := h.accounts hhost opts hp hnew
  obtain ⟨before, after, words', word, words'', rfl, rfl, hbefore, hword, hafter⟩ :=
    forall₂_split htells hroot
  rw [List.flatten_append, List.flatten_cons, List.cons_append, List.append_assoc,
    List.append_assoc, ← List.cons_append] at hsights
  rw [block_eq (hbefore.imp fun _ _ => Tells.account) hword.account
    (hafter.imp fun _ _ => Tells.account) h.rooted.nodup hfirst hlast hsights]
  exact hword

/-- A project is checked as if it were alone, whatever other projects a run is given: those that it
shares libraries with, those that ask for more phases, and in whatever order. -/
theorem analyze_isolates (hp : p.Unplaced) {path : String} (hpath : path ∈ paths)
    {elapsed' : Int} {s₁ s₂ : State σ} (hs : Drawn host s) (hborn : p.Unborn s)
    (hall : AllProjects s.files (paths.map (Path.resolve s.files.cwd)))
    (hapart : Apart s.files paths)
    (h₁ : (host.engine opts).analyze paths (some scope) elapsed s = .ok () s₁)
    (h₂ : (host.engine opts).analyze [path] (some scope) elapsed' s = .ok () s₂) :
    SameBlock host opts paths path scope s s₁ s₂ := by
  have hall' : AllProjects s.files ([path].map (Path.resolve s.files.cwd)) := by
    intro given hgiven
    rw [List.map_cons, List.map_nil, List.mem_singleton] at hgiven
    exact hall given (hgiven ▸ List.mem_map_of_mem hpath)
  obtain ⟨base, start, hrun⟩ := launched_analyze hhost opts hs hborn hall
    (List.ne_nil_of_mem hpath) hapart h₁
  obtain ⟨base', start', hrun'⟩ := launched_analyze hhost opts hs hborn hall'
    (List.cons_ne_nil _ _) (apart_singleton _ path) h₂
  obtain ⟨new, hnew⟩ := exists_written opts hs.charted.sound h₁
  obtain ⟨new', hnew'⟩ := exists_written opts hs.charted.sound h₂
  obtain ⟨root, hroot, hdir⟩ := hrun.rooted.all hapart path hpath
  obtain ⟨root', hsingle, hdir'⟩ := hrun'.single
  have hroot' : root' ∈ foundRoots host opts [path] (some scope) s := by
    rw [hsingle]
    exact List.mem_cons_self
  let g : Bases σ τ := ⟨host, p, base, base', hhost, hp, hrun.rooted.drawn, hrun'.rooted.drawn,
    hrun.rooted.files.trans hrun'.rooted.files.symm,
    hrun.rooted.registry.trans hrun'.rooted.registry.symm⟩
  obtain ⟨n, hn, hentries⟩ := g.tells_same opts (hrun.known root hroot)
    (hrun'.known root' hroot') (hdir.trans hdir'.symm)
    (hrun.tells_block hhost opts hp hnew hroot)
    (hrun'.tells_block hhost opts hp hnew' hroot')
  exact ⟨root, root', n, new, new', hroot, hdir, hsingle, hn, hnew, hnew', hentries⟩

end Runs

/-! ## Embeddings that act when a project begins -/

def opening (script : Detector → Context → σ → Script σ) : Host σ where
  react := fun call _ memory =>
    match call with
    | .detector d (.beforeProject context) => script d context memory
    | _ => .done
  scans := fun _ _ => true
  construct := fun _ _ => .ok ()
  appliesToFolder := fun _ _ _ => true
  appliesToFile := fun _ _ _ _ => true
  elementNames := fun _ _ => .nothing
  attributeNames := fun _ _ => .nothing
  nodeTypes := fun _ _ => []
  supplies := fun _ _ => false
  parseMarkup := fun _ _ _ => .ok none
  parseSource := fun _ _ _ => .ok none
  readClass := fun _ _ => .ok ⟨"", [], [], []⟩
  keepsProjects := true
  overrides := fun _ => {}
  configuration := fun _ _ _ => none
  logsPlainly := false

theorem isolated_opening {script : Detector → Context → σ → Script σ}
    (hinit : ∀ n name, p.same n (p.init name) (p.init name))
    (hscript : ∀ (n : Pairing) {d d' c c' m m'}, n.detector d d' → n.Contexts c c' →
      p.same n (p.own d m) (p.own d' m') →
      Script.Alike n (p.detector n d d') (script d c m) (script d' c' m')) :
    (opening script).Isolated p where
  begins := hinit
  detector := by
    intro n moment d d' hook hook' m m' hd hhook hsame
    rcases hhook with hhook | hhook
    · cases hhook <;> exact .done
    · cases hhook with
      | beforeProject hcontext => exact hscript n hd hcontext hsame
      | _ => exact .done
  elementNames := fun _ _ _ _ _ _ _ => rfl
  attributeNames := fun _ _ _ _ _ _ _ => rfl
  nodeTypes := fun _ _ _ _ _ _ _ => rfl
  appliesToFolder := fun _ _ _ _ _ _ _ _ => rfl
  appliesToFile := fun _ _ _ _ _ _ _ _ _ _ _ => rfl
  parser := by
    intro n moment m m' call call' hcall
    cases hcall <;> exact .done
  parseMarkup := fun _ _ _ _ _ _ _ => rfl
  parseSource := fun _ _ _ _ _ _ _ => rfl
  readClass := fun _ _ _ => rfl
  supplies := fun _ _ _ => rfl
  client := by
    intro call moment memory hcall
    cases call <;> trivial
  keepsProjects := rfl
  configuration := fun _ _ _ _ => rfl
  impartial := by
    intro n dir ws m made hmade
    cases hmade
  listener := fun _ _ _ _ _ => trivial

def remark (context : Context) (message : String) : Report :=
  ⟨context, manifestIssue, none, message, .null⟩

def countingHost : Host (Detector → Nat) :=
  opening fun d context _ =>
    .update (fun counts => Function.update counts d (counts d + 1)) fun counts =>
      if counts d = 1 then
        .perform (.requestRepeat d none) (.perform (.report (remark context "first")) .done)
      else .perform (.report (remark context "again")) .done

def counts : Privacy (Detector → Nat) Nat where
  own := fun d counts => counts d
  init := fun _ => 0
  same := fun _ count count' => count = count'
  sees := Project.outline

theorem isolated_countingHost : countingHost.Isolated counts := by
  refine isolated_opening (fun _ _ => rfl) fun n {d d' c c' m m'} hd hcontext _ => ?_
  have hspares : ∀ d, counts.Spares d fun counts => Function.update counts d (counts d + 1) :=
    fun d other hother _ => Function.update_of_ne hother _ _
  have hremark : ∀ message, n.Actions (counts.detector n d d').own
      (.report (remark c message)) (.report (remark c' message)) :=
    fun _ => .report ⟨hcontext, rfl, rfl, rfl, rfl⟩
  refine .update (hspares d) (hspares d') (fun m m' hview => ?_) fun m m' hview => ?_
  · replace hview : m d = m' d' := hview
    show Function.update m d (m d + 1) d = Function.update m' d' (m' d' + 1) d'
    rw [Function.update_self, Function.update_self, hview]
  · replace hview : m d = m' d' := hview
    rw [hview]
    by_cases hfirst : m' d' = 1
    · rw [if_pos hfirst, if_pos hfirst]
      exact .act (.requestRepeat none ⟨rfl, rfl⟩) fun _ _ _ =>
        .act (hremark _) fun _ _ _ => .done
    · rw [if_neg hfirst, if_neg hfirst]
      exact .act (hremark _) fun _ _ _ => .done

theorem mem_of_reaches {ws : Workspace} {dir other : String}
    (hleaf : ∀ library ∈ ws.libraryDirs dir, ws.libraryDirs library = [])
    (h : ws.Reaches dir other) : other ∈ ws.libraryDirs dir := by
  obtain ⟨library, hlibrary, hrest⟩ := Relation.TransGen.head'_iff.1 h
  rcases Relation.ReflTransGen.cases_head hrest with rfl | ⟨next, hnext, -⟩
  · exact hlibrary
  · rw [hleaf library hlibrary] at hnext
    exact absurd hnext List.not_mem_nil

def shared : Workspace :=
  sideBySide [("a", "android.library.reference.1=../c"),
    ("b", "android.library.reference.1=../c"), ("c", "")]

theorem apart_shared : Apart shared ["a", "b"] := by
  have hleaf : ∀ path ∈ ["a", "b"],
      shared.libraryDirs (shared.canonical path) = ["/w/c"] := by decide +kernel
  have hend : shared.libraryDirs "/w/c" = [] := by decide +kernel
  have hnone : ∀ path ∈ ["a", "b"], shared.canonical path ≠ "/w/c" := by decide +kernel
  intro path hpath other hother _ hreaches
  have hmem := mem_of_reaches (fun library hlibrary => by
    rw [hleaf other hother, List.mem_singleton] at hlibrary
    rw [hlibrary, hend]) hreaches
  rw [hleaf other hother, List.mem_singleton] at hmem
  exact hnone path hpath hmem

theorem analyze_isolates_shared :
    let start := fresh (fun _ => 0) shared ⟨[manifestIssue]⟩
    let run := fun paths => (countingHost.engine ⟨false⟩).analyze paths (some .all) 0 start
    run ["a", "b"] = .ok () (endState (run ["a", "b"])) ∧
      SameBlock countingHost ⟨false⟩ ["a", "b"] "b" .all start (endState (run ["a", "b"]))
        (endState (run ["b"])) := by
  intro start run
  have h₁ : run ["a", "b"] = .ok () (endState (run ["a", "b"])) :=
    eq_ok_of_result? (by decide +kernel)
  have h₂ : run ["b"] = .ok () (endState (run ["b"])) := eq_ok_of_result? (by decide +kernel)
  exact ⟨h₁, analyze_isolates isolated_countingHost ⟨false⟩ id (by decide) (drawn_fresh _ _ _ _)
    (fun _ _ => rfl) (by decide +kernel) apart_shared h₁ h₂⟩

/-! ## Detectors that look where a project was reached from -/

def curiousHost : Host Unit :=
  opening fun _ context _ =>
    .act (.observe (some context) none none true) fun reply =>
      match reply with
      | .observed (.state _ _ _ _ (some (_, project))) =>
        .perform (.report (remark context project.reference)) .done
      | _ => .done

def attached : Privacy Unit Unit where
  own := fun _ _ => ()
  init := fun _ => ()
  same := fun _ _ _ => True
  sees := fun project => { project.outline with reference := project.reference }

theorem isolated_curiousHost : curiousHost.Isolated attached := by
  refine isolated_opening (fun _ _ => trivial) fun n {d d' c c' m m'} hd hcontext _ => ?_
  refine .act (.observe none none true (.some hcontext)) fun reply reply' hreply => ?_
  cases hreply with
  | done => exact .done
  | suppressed => exact .done
  | state moment root enabled inScope hshown =>
    cases hshown with
    | none => exact .done
    | @some shown shown' hshown =>
      have hreference := congrArg Project.reference hshown.2
      exact .act (.report ⟨hcontext, rfl, rfl, hreference, rfl⟩) fun _ _ _ => .done

def messages (entries : List Entry) : List String :=
  entries.filterMap fun entry =>
    match entry with
    | .called (.report report) _ => some report.message
    | _ => none

theorem messages_eq {n : Pairing} {entries' : List Entry}
    (h : Forall₂ n.Entries entries entries') : messages entries = messages entries' := by
  induction h with
  | nil => rfl
  | cons hfirst _ ih =>
    rw [messages, messages, List.filterMap_cons, List.filterMap_cons]
    cases hfirst with
    | fired => exact ih
    | hook => exact ih
    | report moment hreport => exact congrArg₂ List.cons hreport.message ih

theorem attached_readManifest (project : Project) (document : Markup.Document) :
    attached.sees (project.readManifest document) = attached.sees project := by
  rw [Project.readManifest]
  repeat' split
  all_goals rfl

/-- A project is reached from the directory that all given paths share, so detectors that look there
see what else was given. -/
theorem reference_shows_other_paths :
    let start := fresh () (sideBySide [("a", ""), ("b", "")]) ⟨[manifestIssue]⟩
    let run := fun paths => (curiousHost.engine ⟨false⟩).analyze paths (some .all) 0 start
    curiousHost.Isolated attached ∧
      (∀ (project : Project) document,
        attached.sees (project.readManifest document) = attached.sees project) ∧
      Drawn curiousHost start ∧ attached.Unborn start ∧
      AllProjects start.files (["a", "b"].map (Path.resolve start.files.cwd)) ∧
      Apart start.files ["a", "b"] ∧
      run ["a", "b"] = .ok () (endState (run ["a", "b"])) ∧
      run ["a"] = .ok () (endState (run ["a"])) ∧
      ¬ SameBlock curiousHost ⟨false⟩ ["a", "b"] "a" .all start (endState (run ["a", "b"]))
        (endState (run ["a"])) := by
  intro start run
  have hapart : Apart start.files ["a", "b"] := by
    have hnone : ∀ path ∈ ["a", "b"],
        start.files.libraryDirs (start.files.canonical path) = [] := by decide +kernel
    intro path _ other hother _ hreaches
    have hmem := mem_of_reaches (fun library hlibrary => by
      rw [hnone other hother] at hlibrary
      exact absurd hlibrary List.not_mem_nil) hreaches
    rw [hnone other hother] at hmem
    exact absurd hmem List.not_mem_nil
  refine ⟨isolated_curiousHost, attached_readManifest, drawn_fresh _ _ _ _, fun _ _ => rfl,
    by decide +kernel, hapart, eq_ok_of_result? (by decide +kernel),
    eq_ok_of_result? (by decide +kernel), ?_⟩
  rintro ⟨root, root', n, new, new', hroot, hdir, hsingle, -, hnew, hnew', hentries⟩
  have hroots : foundRoots curiousHost ⟨false⟩ ["a", "b"] (some .all) start =
      [⟨0, "/w/a"⟩, ⟨1, "/w/b"⟩] := by decide +kernel
  have hroots' : foundRoots curiousHost ⟨false⟩ ["a"] (some .all) start = [⟨0, "/w/a"⟩] := by
    decide +kernel
  have hcanonical : start.files.canonical "a" = "/w/a" := by decide +kernel
  rw [hroots', List.singleton_inj] at hsingle
  rw [hroots] at hroot
  rw [hcanonical] at hdir
  have hfirst : root = ⟨0, "/w/a"⟩ := by
    rcases List.mem_cons.1 hroot with rfl | hroot
    · rfl
    · rw [List.mem_singleton.1 hroot] at hdir
      exact absurd hdir (by decide)
  replace hnew : (endState (run ["a", "b"])).written = new := hnew
  replace hnew' : (endState (run ["a"])).written = new' := hnew'
  have hsame := messages_eq hentries
  rw [hfirst, ← hsingle, ← hnew, ← hnew'] at hsame
  exact absurd hsame (by decide +kernel)

end Isolation
end ProjectLint
