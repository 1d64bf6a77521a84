/-
Canonical paths. Where links were replaced once there are none left to replace, so a canonical path
is canonical for itself, and a project that is kept under its canonical directory is found there
again.

Replacing links may have no end: a link may stand for a path through itself, although the file
system takes that path elsewhere. `Lands` is the replacement without a bound, one link after the
other. What a link comes to depends on nothing but the link, so one that is met while it is being
replaced comes back for ever, and as many levels as there are links are enough for all that ends.
-/
import ProjectLint.Proofs.Trees

namespace ProjectLint

namespace Files.Entry

variable {names : List String} {own target : String}

theorem mem_linksBelow {child : Entry} {entries : List Entry} (h : child ∈ entries)
    (hlink : (names, target) ∈ child.links) :
    (child.name :: names, target) ∈ linksBelow entries := by
  induction entries with
  | nil => cases h
  | cons first rest ih =>
    rw [linksBelow]
    rcases List.mem_cons.1 h with rfl | hrest
    · exact List.mem_append_left _ (List.mem_map.2 ⟨_, hlink, rfl⟩)
    · exact List.mem_append_right _ (ih hrest)

theorem mem_links {entry : Entry} (h : entry.descend? names = some (.link own target)) :
    (names, target) ∈ entry.links := by
  induction names generalizing entry with
  | nil =>
    cases h
    rw [links]
    exact List.mem_singleton_self _
  | cons name rest ih =>
    obtain ⟨child, hchild, hrest⟩ := Option.bind_eq_some_iff.1 h
    obtain ⟨_, _, entries, rfl, hmem, rfl⟩ := child?_eq_some hchild
    rw [links]
    exact mem_linksBelow hmem (ih hrest)

end Files.Entry

namespace Workspace

open Files Path

/-! ## One link after the other -/

/-- The parts that are still to do from a link-free place, with every link replaced by the path that
it stands for and the way begun again at the root. The outcome is where this comes to, or none if
something is missing; there may be no outcome at all. -/
inductive Lands (ws : Workspace) : List String → List String → Option (List String) → Prop
  | done : Lands ws here [] (some here)
  | missing : ws.root.descend? (here ++ [part]) = none → Lands ws here (part :: rest) none
  | dangling : ws.root.descend? (here ++ [part]) = some (.link own target) →
      ws.exists? (ofParts (here ++ [part])) = false → Lands ws here (part :: rest) none
  | plain : ws.root.descend? (here ++ [part]) = some entry →
      (∀ own target, entry ≠ .link own target) → Lands ws (here ++ [part]) rest outcome →
      Lands ws here (part :: rest) outcome
  | link : ws.root.descend? (here ++ [part]) = some (.link own target) →
      ws.exists? (ofParts (here ++ [part])) = true →
      Lands ws [] (aim here target ++ rest) outcome → Lands ws here (part :: rest) outcome

variable {ws : Workspace} {onLink onLink' : List String → Landing}
  {here todo rest given : List String} {part : String} {outcome : Option (List String)}

theorem Lands.append {result : Option (List String)} (h : Lands ws here todo outcome)
    (hrest : ∀ there, outcome = some there → Lands ws there rest result)
    (hnone : outcome = none → result = none) : Lands ws here (todo ++ rest) result := by
  induction h with
  | done => exact hrest _ rfl
  | missing hentry =>
    rw [hnone rfl]
    exact .missing hentry
  | dangling hentry hleads =>
    rw [hnone rfl]
    exact .dangling hentry hleads
  | plain hentry hplain _ ih => exact .plain hentry hplain (ih hrest hnone)
  | link hentry hleads _ ih =>
    have happend := ih hrest hnone
    rw [List.append_assoc] at happend
    exact .link hentry hleads happend

section Step

variable (onLink : List String → Landing) {entry : Entry} {own target : String}

theorem landFrom_missing (h : ws.root.descend? (here ++ [part]) = none) :
    ws.landFrom onLink here (part :: rest) = .broken := by
  rw [landFrom, h]

theorem landFrom_plain (h : ws.root.descend? (here ++ [part]) = some entry)
    (hplain : ∀ own target, entry ≠ .link own target) :
    ws.landFrom onLink here (part :: rest) = ws.landFrom onLink (here ++ [part]) rest := by
  rw [landFrom, h]
  cases entry with
  | link own target => exact absurd rfl (hplain own target)
  | file own content => rfl
  | folder own listable entries => rfl

theorem landFrom_link (h : ws.root.descend? (here ++ [part]) = some (.link own target)) :
    ws.landFrom onLink here (part :: rest) =
      if ws.exists? (ofParts (here ++ [part])) then
        (onLink (aim here target)).andThen fun there => ws.landFrom onLink there rest
      else .broken := by
  rw [landFrom, h]

end Step

/-- What a walk does at one part, whatever it does with links. -/
theorem landFrom_cases (ws : Workspace) (here : List String) (part : String) :
    (∀ rest, Lands ws here (part :: rest) none ∧
      ∀ onLink, ws.landFrom onLink here (part :: rest) = .broken) ∨
    (∃ entry, ws.root.descend? (here ++ [part]) = some entry ∧
      (∀ own target, entry ≠ .link own target) ∧ ∀ onLink rest,
        ws.landFrom onLink here (part :: rest) = ws.landFrom onLink (here ++ [part]) rest) ∨
    ∃ own target, ws.root.descend? (here ++ [part]) = some (.link own target) ∧
      ws.exists? (ofParts (here ++ [part])) = true ∧ ∀ onLink rest,
        ws.landFrom onLink here (part :: rest) =
          (onLink (aim here target)).andThen fun there => ws.landFrom onLink there rest := by
  cases hentry : ws.root.descend? (here ++ [part]) with
  | none => exact .inl fun rest => ⟨.missing hentry, fun onLink => landFrom_missing onLink hentry⟩
  | some entry =>
    by_cases hlink : ∃ own target, entry = .link own target
    · obtain ⟨own, target, rfl⟩ := hlink
      cases hleads : ws.exists? (ofParts (here ++ [part])) with
      | false =>
        refine .inl fun rest => ⟨.dangling hentry hleads, fun onLink => ?_⟩
        rw [landFrom_link onLink hentry, hleads, if_neg Bool.false_ne_true]
      | true =>
        refine .inr (.inr ⟨own, target, rfl, rfl, fun onLink rest => ?_⟩)
        rw [landFrom_link onLink hentry, hleads, if_pos rfl]
    · have hplain : ∀ own target, entry ≠ .link own target :=
        fun own target heq => hlink ⟨own, target, heq⟩
      exact .inr (.inl ⟨entry, rfl, hplain, fun onLink rest => landFrom_plain onLink hentry hplain⟩)

/-! ## As deep as there are links -/

namespace Landing

def of : Option (List String) → Landing
  | some there => .reached there
  | none => .broken

theorem of_ne_endless (outcome : Option (List String)) : of outcome ≠ .endless := by
  cases outcome with
  | some there => exact fun h => by cases h
  | none => exact fun h => by cases h

theorem eq_of {landing : Landing} (h : landing ≠ .endless) : ∃ outcome, landing = of outcome := by
  cases landing with
  | reached there => exact ⟨some there, rfl⟩
  | broken => exact ⟨none, rfl⟩
  | endless => exact absurd rfl h

theorem andThen_andThen (landing : Landing) (f g : List String → Landing) :
    (landing.andThen f).andThen g = landing.andThen fun there => (f there).andThen g := by
  cases landing with
  | reached there => rfl
  | broken => rfl
  | endless => rfl

end Landing

theorem landFrom_append (onLink : List String → Landing) (here todo rest : List String) :
    ws.landFrom onLink here (todo ++ rest) =
      (ws.landFrom onLink here todo).andThen fun there => ws.landFrom onLink there rest := by
  induction todo generalizing here with
  | nil => rfl
  | cons part others ih =>
    rw [List.cons_append]
    rcases ws.landFrom_cases here part with hbroken | ⟨_, -, -, hstep⟩ | ⟨_, target, -, -, hstep⟩
    · rw [(hbroken _).2, (hbroken _).2]
      rfl
    · rw [hstep, hstep, ih]
    · rw [hstep, hstep, Landing.andThen_andThen]
      exact congrArg _ (funext ih)

theorem landFrom_agree (h : ∀ given, onLink given ≠ .endless → onLink' given = onLink given)
    (hends : ws.landFrom onLink here todo ≠ .endless) :
    ws.landFrom onLink' here todo = ws.landFrom onLink here todo := by
  induction todo generalizing here with
  | nil => rfl
  | cons part others ih =>
    rcases ws.landFrom_cases here part with hbroken | ⟨_, -, -, hstep⟩ | ⟨_, target, -, -, hstep⟩
    · rw [(hbroken _).2, (hbroken _).2]
    · rw [hstep] at hends ⊢
      rw [hstep]
      exact ih hends
    · rw [hstep] at hends ⊢
      rw [hstep]
      have hfirst : onLink (aim here target) ≠ .endless := fun heq => hends (by rw [heq]; rfl)
      rw [h _ hfirst]
      obtain ⟨outcome, hreal⟩ := Landing.eq_of hfirst
      rw [hreal] at hends ⊢
      cases outcome with
      | some there => exact ih hends
      | none => rfl

theorem land_succ {depth : Nat} (hends : ws.land depth given ≠ .endless) :
    ws.land (depth + 1) given = ws.land depth given := by
  induction depth generalizing given with
  | zero => exact landFrom_agree (fun _ h => absurd rfl h) hends
  | succ depth ih => exact landFrom_agree (fun _ h => ih h) hends

theorem land_of_le {depth more : Nat} (hle : depth ≤ more)
    (hends : ws.land depth given ≠ .endless) : ws.land more given = ws.land depth given := by
  induction hle with
  | refl => rfl
  | step _ ih => rw [land_succ (by rwa [ih]), ih]

theorem Lands.of_landFrom
    (hlink : ∀ given outcome, onLink given = .of outcome → Lands ws [] given outcome)
    (h : ws.landFrom onLink here todo = .of outcome) : Lands ws here todo outcome := by
  induction todo generalizing here with
  | nil =>
    cases outcome with
    | some there =>
      cases h
      exact .done
    | none => cases h
  | cons part others ih =>
    rcases ws.landFrom_cases here part with hbroken | ⟨_, hentry, hplain, hstep⟩ |
      ⟨_, target, hentry, hleads, hstep⟩
    · rw [(hbroken _).2] at h
      cases outcome with
      | some there => cases h
      | none => exact (hbroken _).1
    · rw [hstep] at h
      exact .plain hentry hplain (ih h)
    · rw [hstep] at h
      have hfirst : onLink (aim here target) ≠ .endless := by
        intro heq
        rw [heq] at h
        exact Landing.of_ne_endless outcome h.symm
      obtain ⟨middle, hmiddle⟩ := Landing.eq_of hfirst
      rw [hmiddle] at h
      refine .link hentry hleads ((hlink _ _ hmiddle).append (fun there hthere => ?_)
        fun hnone => ?_)
      · subst hthere
        exact ih h
      · subst hnone
        cases outcome with
        | some there => cases h
        | none => rfl

theorem Lands.of_land {depth : Nat} (h : ws.land depth given = .of outcome) :
    Lands ws [] given outcome := by
  induction depth generalizing given outcome with
  | zero => exact .of_landFrom (fun _ outcome h => absurd h.symm (Landing.of_ne_endless outcome)) h
  | succ depth ih => exact .of_landFrom (fun _ _ => ih) h

/-- An outcome takes finitely many links, so some depth is enough for it. -/
theorem Lands.depth (h : Lands ws here todo outcome) :
    ∃ depth, ws.landFrom (ws.land depth) here todo = .of outcome := by
  induction h with
  | done => exact ⟨0, rfl⟩
  | missing hentry => exact ⟨0, landFrom_missing _ hentry⟩
  | dangling hentry hleads =>
    exact ⟨0, by rw [landFrom_link _ hentry, hleads, if_neg Bool.false_ne_true]; rfl⟩
  | plain hentry hplain _ ih =>
    obtain ⟨depth, hdepth⟩ := ih
    exact ⟨depth, by rw [landFrom_plain _ hentry hplain, hdepth]⟩
  | link hentry hleads _ ih =>
    obtain ⟨depth, hdepth⟩ := ih
    refine ⟨depth + 1, ?_⟩
    rw [landFrom_link _ hentry, if_pos hleads, land]
    rw [landFrom_append] at hdepth
    generalize ws.landFrom (ws.land depth) [] _ = first at hdepth ⊢
    cases first with
    | reached there =>
      have hends : ws.landFrom (ws.land depth) there _ ≠ .endless :=
        fun heq => Landing.of_ne_endless _ (hdepth.symm.trans heq)
      exact (landFrom_agree (fun _ => land_succ) hends).trans hdepth
    | broken => exact hdepth
    | endless => exact hdepth

/-- The paths that the links of the tree stand for. -/
def aims (ws : Workspace) : List (List String) :=
  ws.root.links.map fun link => aim link.1.dropLast link.2

theorem aim_mem {own target : String}
    (h : ws.root.descend? (here ++ [part]) = some (.link own target)) :
    aim here target ∈ ws.aims := by
  refine List.mem_map.2 ⟨_, Entry.mem_links h, ?_⟩
  rw [List.dropLast_concat]

theorem landFrom_congr (h : ∀ given ∈ ws.aims, onLink given = onLink' given)
    (here todo : List String) : ws.landFrom onLink here todo = ws.landFrom onLink' here todo := by
  induction todo generalizing here with
  | nil => rfl
  | cons part others ih =>
    rcases ws.landFrom_cases here part with
      hbroken | ⟨_, -, -, hstep⟩ | ⟨_, target, hentry, -, hstep⟩
    · rw [(hbroken _).2, (hbroken _).2]
    · rw [hstep, hstep, ih]
    · rw [hstep, hstep, h _ (aim_mem hentry)]
      exact congrArg _ (funext ih)

theorem exists_level {f : Nat → Nat} {bound : Nat} (hmono : ∀ n, f n ≤ f (n + 1))
    (hbound : ∀ n, f n ≤ bound) : ∃ n ≤ bound, f n = f (n + 1) := by
  by_contra hnone
  have hrises : ∀ n ≤ bound + 1, n ≤ f n := by
    intro n hn
    induction n with
    | zero => exact Nat.zero_le _
    | succ n ih =>
      have hless := ih (by omega)
      have hne : f n ≠ f (n + 1) := fun heq => hnone ⟨n, by omega, heq⟩
      have := hmono n
      omega
  have := hrises (bound + 1) (Nat.le_refl _)
  have := hbound (bound + 1)
  omega

/-- With each level some link more has an end, or none ever gets one any more. -/
theorem exists_settled (ws : Workspace) :
    ∃ depth ≤ ws.aims.length,
      ∀ given ∈ ws.aims, ws.land (depth + 1) given = ws.land depth given := by
  let ended (depth : Nat) : List (List String) :=
    ws.aims.filter fun given => ws.land depth given ≠ .endless
  have hsublist : ∀ depth, (ended depth).Sublist (ended (depth + 1)) := by
    intro depth
    refine List.monotone_filter_right _ fun given hends => ?_
    have hends : ws.land depth given ≠ .endless := of_decide_eq_true hends
    exact decide_eq_true (by rwa [land_succ hends])
  obtain ⟨depth, hdepth, hlevel⟩ := exists_level (f := fun depth => (ended depth).length)
    (fun depth => (hsublist depth).length_le) fun _ => List.length_filter_le _ _
  refine ⟨depth, hdepth, fun given hgiven => ?_⟩
  by_cases hends : ws.land depth given = .endless
  · by_contra hne
    rw [hends] at hne
    have hmem : given ∈ ended depth := by
      rw [(hsublist depth).eq_of_length hlevel]
      exact List.mem_filter.2 ⟨hgiven, decide_eq_true hne⟩
    exact of_decide_eq_true (List.mem_filter.1 hmem).2 hends
  · exact land_succ hends

theorem land_linkDepth {more : Nat} (hmore : ws.linkDepth ≤ more) (given : List String) :
    ws.land more given = ws.land ws.linkDepth given := by
  obtain ⟨depth, hdepth, hsettled⟩ := ws.exists_settled
  have hconstant : ∀ extra given,
      ws.land (depth + 1 + extra) given = ws.land (depth + 1) given := by
    intro extra
    induction extra with
    | zero => exact fun _ => rfl
    | succ extra ih =>
      intro given
      exact landFrom_congr (fun other hother => (ih other).trans (hsettled other hother)) [] given
  have hlength : 1 + ws.aims.length = ws.linkDepth := by
    rw [aims, List.length_map, linkDepth]
  rw [show more = depth + 1 + (more - (depth + 1)) by omega, hconstant,
    show ws.linkDepth = depth + 1 + (ws.linkDepth - (depth + 1)) by omega, hconstant]

/-- The bounded replacement is the unbounded one: it has the outcome, if there is one. -/
theorem lands_iff : Lands ws [] given outcome ↔ ws.land ws.linkDepth given = .of outcome := by
  refine ⟨fun h => ?_, .of_land⟩
  obtain ⟨depth, hdepth⟩ := h.depth
  have hland : ws.land (depth + 1) given = .of outcome := hdepth
  rcases Nat.le_total (depth + 1) ws.linkDepth with hle | hle
  · rw [land_of_le hle (by rw [hland]; exact Landing.of_ne_endless _), hland]
  · rw [← land_linkDepth hle, hland]

/-- The links of a path do not end exactly if their replacement has no outcome. -/
theorem linksEnd_eq_false_iff {path : String} : ws.linksEnd path = false ↔
    ∀ outcome, ¬ Lands ws [] (absoluteParts ws.cwd path) outcome := by
  rw [linksEnd, bne_eq_false_iff_eq, landing]
  refine ⟨fun hendless outcome h => ?_, fun hnone => ?_⟩
  · exact Landing.of_ne_endless outcome ((lands_iff.1 h).symm.trans hendless)
  · by_contra hends
    obtain ⟨outcome, hland⟩ := Landing.eq_of hends
    exact hnone outcome (lands_iff.2 hland)

/-- The links of every path come to an end. -/
def LinksEnd (ws : Workspace) : Prop :=
  ∀ path, ws.linksEnd path = true

theorem linksEnd_of_aims (h : ∀ given ∈ ws.aims, ws.land ws.linkDepth given ≠ .endless) :
    ws.LinksEnd := by
  have hends : ∀ here todo, ws.landFrom (ws.land ws.linkDepth) here todo ≠ .endless := by
    intro here todo
    induction todo generalizing here with
    | nil => exact fun heq => by cases heq
    | cons part others ih =>
      rcases ws.landFrom_cases here part with hbroken | ⟨_, -, -, hstep⟩ |
        ⟨_, target, hentry, -, hstep⟩
      · rw [(hbroken _).2]
        exact fun heq => by cases heq
      · rw [hstep]
        exact ih _
      · obtain ⟨outcome, hland⟩ := Landing.eq_of (h _ (aim_mem hentry))
        rw [hstep, hland]
        cases outcome with
        | some there => exact ih there
        | none => exact fun heq => by cases heq
  intro path
  rw [linksEnd, bne_iff_ne, landing, ← land_linkDepth (Nat.le_succ _)]
  exact hends _ _

structure Linkless (ws : Workspace) (names : List String) : Prop where
  named : ∀ name ∈ names, IsName name
  way : ∀ start, start ≠ [] → start <+: names →
    ∃ entry, ws.root.descend? start = some entry ∧ ∀ name target, entry ≠ .link name target

theorem linkless_nil (ws : Workspace) : ws.Linkless [] :=
  ⟨List.forall_mem_nil _, fun _ hne hstart => absurd (List.prefix_nil.1 hstart) hne⟩

theorem Linkless.step {done : List String} (h : ws.Linkless done) {name : String} {entry : Entry}
    (hname : IsName name) (hentry : ws.root.descend? (done ++ [name]) = some entry)
    (hlink : ∀ name target, entry ≠ .link name target) : ws.Linkless (done ++ [name]) := by
  refine ⟨fun other hother => ?_, fun start hne hstart => ?_⟩
  · rcases List.mem_append.1 hother with hold | hnew
    · exact h.named other hold
    · exact List.mem_singleton.1 hnew ▸ hname
  · rcases List.prefix_concat_iff.1 hstart with rfl | hold
    · exact ⟨entry, hentry, hlink⟩
    · exact h.way start hne hold

theorem linkless_landFrom
    (hlink : ∀ given real, (∀ name ∈ given, IsName name) → onLink given = .reached real →
      ws.Linkless real) (htodo : ∀ name ∈ todo, IsName name) {real : List String}
    (hhere : ws.Linkless here) (h : ws.landFrom onLink here todo = .reached real) :
    ws.Linkless real := by
  induction todo generalizing here with
  | nil =>
    cases h
    exact hhere
  | cons name rest ih =>
    obtain ⟨hname, hrest⟩ := List.forall_mem_cons.1 htodo
    rcases ws.landFrom_cases here name with hbroken | ⟨_, hentry, hplain, hstep⟩ |
      ⟨_, target, -, -, hstep⟩
    · rw [(hbroken _).2] at h
      cases h
    · rw [hstep] at h
      exact ih hrest (hhere.step hname hentry hplain) h
    · rw [hstep] at h
      cases hfirst : onLink (aim here target) with
      | reached there =>
        rw [hfirst] at h
        exact ih hrest (hlink _ there (isName_absoluteParts _ _) hfirst) h
      | broken | endless =>
        rw [hfirst] at h
        cases h

theorem linkless_land (depth : Nat) :
    ∀ given real, (∀ name ∈ given, IsName name) → ws.land depth given = .reached real →
      ws.Linkless real := by
  induction depth with
  | zero =>
    intro given real hgiven h
    refine linkless_landFrom (fun _ _ _ hnone => ?_) hgiven ws.linkless_nil h
    cases hnone
  | succ depth ih =>
    intro given real hgiven h
    exact linkless_landFrom ih hgiven ws.linkless_nil h

theorem landFrom_of_linkless (onLink : List String → Landing) (h : ws.Linkless (here ++ todo)) :
    ws.landFrom onLink here todo = .reached (here ++ todo) := by
  induction todo generalizing here with
  | nil =>
    rw [List.append_nil]
    rfl
  | cons name rest ih =>
    rw [List.append_cons] at h ⊢
    obtain ⟨entry, hentry, hplain⟩ := h.way (here ++ [name]) (by simp) (List.prefix_append _ _)
    rw [landFrom_plain onLink hentry hplain, ih h]

theorem land_of_linkless {names : List String} (h : ws.Linkless names) (depth : Nat) :
    ws.land depth names = .reached names := by
  cases depth with
  | zero => exact landFrom_of_linkless _ h
  | succ depth => exact landFrom_of_linkless _ h

/-! ## Canonical paths -/

theorem landing_congr {path other : String}
    (h : absoluteParts ws.cwd path = absoluteParts ws.cwd other) :
    ws.landing path = ws.landing other := by
  rw [landing, landing, h]

/-- A path has a canonical path that is free of links, or it is canonical but for its spelling. -/
theorem canonical_cases (ws : Workspace) (path : String) :
    (∃ real, ws.landing path = .reached real ∧ ws.Linkless real ∧
      ws.canonical path = ofParts real) ∨
      ws.canonical path = resolve ws.cwd path := by
  rw [canonical]
  cases hland : ws.landing path with
  | reached real =>
    exact .inl ⟨real, rfl, linkless_land _ _ _ (isName_absoluteParts _ _) hland, rfl⟩
  | broken => exact .inr rfl
  | endless => exact .inr rfl

theorem landing_canonical (ws : Workspace) (path : String) :
    ws.landing (ws.canonical path) = ws.landing path := by
  rcases ws.canonical_cases path with ⟨real, hland, hlinkless, hreal⟩ | hplain
  · rw [hreal, hland, landing, absoluteParts_ofParts _ hlinkless.named, land_of_linkless hlinkless]
  · rw [hplain]
    exact landing_congr (absoluteParts_resolve ws.cwd path)

theorem canonical_congr {path other : String}
    (h : absoluteParts ws.cwd path = absoluteParts ws.cwd other) :
    ws.canonical path = ws.canonical other := by
  rw [canonical, canonical, resolve, resolve, h, landing_congr h]

theorem canonical_resolve (ws : Workspace) (path : String) :
    ws.canonical (resolve ws.cwd path) = ws.canonical path :=
  canonical_congr (absoluteParts_resolve ws.cwd path)

@[simp]
theorem canonical_canonical (ws : Workspace) (path : String) :
    ws.canonical (ws.canonical path) = ws.canonical path := by
  rcases ws.canonical_cases path with ⟨real, hland, -, hreal⟩ | hplain
  · rw [canonical, landing_canonical, hland, hreal]
  · rw [hplain, canonical_resolve, hplain]

theorem linksEnd_canonical (ws : Workspace) (path : String) :
    ws.linksEnd (ws.canonical path) = ws.linksEnd path := by
  rw [linksEnd, linksEnd, landing_canonical]

theorem spells_canonical (ws : Workspace) (path : String) :
    ∃ names, Spells names (ws.canonical path) := by
  rcases ws.canonical_cases path with ⟨real, -, hlinkless, hreal⟩ | hplain
  · exact ⟨real, hlinkless.named, hreal⟩
  · rw [hplain]
    exact ⟨_, .resolve ws.cwd path⟩

end Workspace
end ProjectLint
