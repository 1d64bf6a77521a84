/-
The roots that a search for projects leaves. A found project is left out when another found one
references it, directly or through others. Projects that reference each other leave each other out,
so they are accounted for only if a further found project, which they do not reference, references
them.
-/
import Mathlib.Order.Preorder.Finite
import ProjectLint.Proofs.Distinct
import ProjectLint.Proofs.References

namespace ProjectLint

open Relation

/-! ## Sources of a finite preorder -/

theorem sources_cover_iff {r : α → α → Prop} (hrefl : ∀ a, r a a)
    (htrans : ∀ {a b c}, r a b → r b c → r a c) (elements : List α) :
    (∀ a ∈ elements, ∃ m ∈ elements, (∀ b ∈ elements, r b m → b = m) ∧ r m a) ↔
      ∀ a ∈ elements, ∀ b ∈ elements, a ≠ b → r a b → r b a → ∃ m ∈ elements, r m a ∧ ¬ r a m := by
  constructor
  · intro h a ha b hb hne hab hba
    obtain ⟨m, hm, hsource, hma⟩ := h a ha
    refine ⟨m, hm, hma, fun ham => hne ?_⟩
    rw [hsource a ha ham, hsource b hb (htrans hba ham)]
  · intro h a ha
    let order : Preorder α := { le := r, le_refl := hrefl, le_trans := fun _ _ _ => htrans }
    obtain ⟨m, hma, hm⟩ := (List.finite_toSet elements).exists_le_minimal ha
    refine ⟨m, hm.1, fun b hb hbm => ?_, hma⟩
    by_contra hne
    obtain ⟨below, hbelow, hlt, hnot⟩ := h m hm.1 b hb (Ne.symm hne) (hm.2 hb hbm) hbm
    exact hnot (hm.2 hbelow hlt)

/-! ## Found projects exist -/

namespace Discovery

open Run Engine

variable {s s' : State σ} {stopped : State σ → Bool} {found found' : Found}
variable {paths : List String} {refs roots : List ProjectRef} {s₁ : State σ}

def Found.In (found : Found) (s : State σ) : Prop :=
  ∀ ref ∈ found.map Prod.snd, s.Has ref

theorem Found.In.later (h : found.In s) {announced : Journal.Entry → Prop}
    (hlater : State.Later announced s s') : found.In s' :=
  fun ref href => hlater.has (h ref href)

theorem Found.In.set (h : found.In s) {path : String} {ref : ProjectRef} (href : s.Has ref) :
    (found.set path ref).In s := by
  intro other hother
  obtain ⟨entry, hentry, rfl⟩ := List.mem_map.1 hother
  rcases mem_put.1 hentry with ⟨hold, -⟩ | rfl
  · exact h _ (List.mem_map_of_mem hold)
  · exact href

def Adds (search : Found → Run σ Found) : Prop :=
  ∀ {found found' s s'}, s.Sound → found.In s → search found s = .ok found' s' →
    s'.Sound ∧ found'.In s'

variable {host : Host σ} {opts : Options}

theorem adds_register (path dir reference : String) :
    Adds fun found => register (host.engine opts) found path dir reference := by
  intro found found' s s' hs hfound h
  obtain ⟨ref, s₁, hproject, hend⟩ := bind_eq_ok h
  cases hend
  obtain ⟨hs₁, href⟩ := sound_projectAt hs hproject
  have hlater := (frames_of_finds host fun h => h.projectAt opts dir reference).ok hproject
  exact ⟨hs₁, (hfound.later hlater).set href⟩

theorem adds_carry {search : String → Found → Run σ Found} (h : ∀ dir, Adds (search dir))
    (dirs : List String) : Adds fun found => carry dirs found search := by
  induction dirs with
  | nil =>
    intro found found' s s' hs hfound hend
    cases hend
    exact ⟨hs, hfound⟩
  | cons dir rest ih =>
    intro found found' s s' hs hfound hrun
    obtain ⟨found₁, s₁, hfirst, hrest⟩ := bind_eq_ok hrun
    obtain ⟨hs₁, hfound₁⟩ := h dir hs hfound hfirst
    exact ih hs₁ hfound₁ hrest

theorem adds_searchBelow (stopped : State σ → Bool) (reference : String) (fuel : Nat) :
    ∀ dir, Adds (searchBelow (host.engine opts) stopped reference fuel dir) := by
  induction fuel with
  | zero =>
    intro dir found found' s s' _ _ h
    cases h
  | succ fuel ih =>
    intro dir found found' s s' hs hfound h
    rw [searchBelow, get_bind] at h
    cases hstopped : stopped s with
    | true =>
      rw [hstopped] at h
      cases h
      exact ⟨hs, hfound⟩
    | false =>
      rw [hstopped] at h
      cases hproject : Project.isProjectDir s.files dir with
      | true =>
        rw [hproject] at h
        exact adds_register dir dir reference hs hfound h
      | false =>
        rw [hproject] at h
        exact adds_carry ih _ hs hfound h

theorem adds_addFolder (stopped : State σ → Bool) (dir reference : String) :
    Adds (addFolder (host.engine opts) stopped dir reference) := by
  intro found found' s s' hs hfound h
  rw [addFolder, get_bind] at h
  cases hproject : Project.isProjectDir s.files dir with
  | true =>
    rw [hproject] at h
    exact adds_register dir dir reference hs hfound h
  | false =>
    rw [hproject] at h
    cases habove : projectAmong? s.files ((ancestors dir).take 2) with
    | some above =>
      rw [habove] at h
      exact adds_register dir above above hs hfound h
    | none =>
      rw [habove] at h
      exact adds_searchBelow stopped reference _ dir hs hfound h

theorem adds_addFile (path : String) : Adds (addFile (host.engine opts) path) := by
  intro found found' s s' hs hfound h
  rw [addFile, get_bind] at h
  cases habove : projectAmong? s.files (ancestors path) with
  | some above =>
    rw [habove] at h
    exact adds_register path above above hs hfound h
  | none =>
    rw [habove] at h
    cases h
    exact ⟨⟨hs.cache, hs.libraries⟩, hfound⟩

theorem addPaths_spec (all : List String) (hs : s.Sound) (hfound : found.In s)
    (h : addPaths (host.engine opts) stopped all paths found s = .ok (some found') s') :
    s'.Sound ∧ found'.In s' := by
  induction paths generalizing found s with
  | nil =>
    cases h
    exact ⟨hs, hfound⟩
  | cons path rest ih =>
    have hrest : ∀ {found₁ : Found} {s₁ : State σ}, s₁.Sound → found₁.In s₁ →
        (get >>= fun s => if stopped s then return none
          else addPaths (host.engine opts) stopped all rest found₁) s₁ = .ok (some found') s' →
        s'.Sound ∧ found'.In s' := by
      intro found₁ s₁ hs₁ hfound₁ hmore
      rw [get_bind] at hmore
      cases hstopped : stopped s₁ with
      | true =>
        rw [hstopped] at hmore
        cases hmore
      | false =>
        rw [hstopped] at hmore
        exact ih hs₁ hfound₁ hmore
    rw [addPaths, get_bind] at h
    cases hfolder : s.files.isFolder path with
    | true =>
      rw [hfolder] at h
      obtain ⟨found₁, s₁, hfirst, hmore⟩ := bind_eq_ok h
      obtain ⟨hs₁, hfound₁⟩ := adds_addFolder stopped path _ hs hfound hfirst
      exact hrest hs₁ hfound₁ hmore
    | false =>
      rw [hfolder] at h
      obtain ⟨found₁, s₁, hfirst, hmore⟩ := bind_eq_ok h
      obtain ⟨hs₁, hfound₁⟩ := adds_addFile path hs hfound hfirst
      exact hrest hs₁ hfound₁ hmore

/-! ## Roots -/

theorem keeps_reset (ref : ProjectRef) :
    Keeps (@State.Sound σ) (changeProject ref Project.resetSubset) :=
  .modify fun hs => hs.changed _ fun _ => rfl

theorem keeps_followFolder {I : State σ → Prop} (path : String) (ref : ProjectRef) :
    Keeps I (followFolder path ref) :=
  .inspect fun _ _ => .ite _ (.inspect fun _ _ => .ite _ (.pure ()) (.throw .endless)) (.pure ())

theorem keeps_pointAt (found : Found) : Keeps (@State.Sound σ) (pointAt found) :=
  .each found fun _ _ => (keeps_followFolder _ _).bind fun _ => .inspect fun _ _ =>
    .ite _ (.pure ()) (.modify fun hs => hs.changed _ fun _ => rfl)

theorem resets_later (b : State σ) (ref : ProjectRef) :
    Keeps (State.Later Quiet b) (changeProject ref Project.resetSubset) :=
  .modify fun h => h.changed _ _ (fun _ => rfl) fun _ _ _ _ _ hq => hq

theorem frames_resetEach (refs : List ProjectRef) :
    Frames Quiet (each refs fun ref => changeProject ref Project.resetSubset : Run σ Unit) :=
  .of_keeps fun b => .each refs fun ref _ => resets_later b ref

theorem frames_allLibraries (ref : ProjectRef) :
    Frames Quiet ((host.engine opts).allLibraries ref) :=
  frames_of_finds host fun h => ((h.seeks opts).resolves.allLibraries ref).keeps

theorem frames_resetSubsets (refs : List ProjectRef) :
    Frames Quiet (resetSubsets (host.engine opts) refs) :=
  frames_of_finds host fun h => ((h.seeks opts).resolves.resetSubsets refs).keeps

theorem frames_pointAt (found : Found) : Frames Quiet (pointAt found : Run σ Unit) :=
  .of_keeps fun _ => .each found fun _ _ => (keeps_followFolder _ _).bind fun _ =>
    .inspect fun _ _ => .ite _ (.pure ())
      (.modify fun h => h.changed _ _ (fun _ => rfl) fun _ _ _ _ _ hq => hq)

theorem resetSubsets_spec (hs : s.Sound) (hrefs : ∀ ref ∈ refs, s.Has ref)
    (h : resetSubsets (host.engine opts) refs s = .ok () s') :
    s'.Sound ∧ ∀ ref ∈ refs, s'.Settled ref := by
  induction refs generalizing s with
  | nil =>
    cases h
    exact ⟨hs, fun _ href => absurd href List.not_mem_nil⟩
  | cons ref rest ih =>
    rw [resetSubsets, each] at h
    obtain ⟨_, s₂, hfirst, hrest⟩ := bind_eq_ok h
    obtain ⟨_, s₀, hreset, hfirst⟩ := bind_eq_ok hfirst
    obtain ⟨libraries, s₁, hall, heach⟩ := bind_eq_ok hfirst
    have hs₀ := (keeps_reset ref).ok hs hreset
    have hlater₀ := (Frames.of_keeps fun b => resets_later b ref).ok hreset
    obtain ⟨hs₁, hsettled, -⟩ := allLibraries_spec hs₀
      (hlater₀.has (hrefs ref List.mem_cons_self)) hall
    have hlater₁ := (frames_allLibraries ref).ok hall
    have hs₂ := Keeps.ok (.each libraries fun library _ => keeps_reset library) hs₁ heach
    have hlater₂ := (frames_resetEach libraries).ok heach
    have hlater := (hlater₀.trans hlater₁).trans hlater₂
    obtain ⟨hs', hmore⟩ := ih hs₂
      (fun other hother => hlater.has (hrefs other (List.mem_cons_of_mem _ hother))) hrest
    refine ⟨hs', fun other hother => ?_⟩
    rcases List.mem_cons.1 hother with rfl | hother
    · exact (hsettled.later hlater₂).later ((frames_resetSubsets rest).ok hrest)
    · exact hmore other hother

theorem librariesOf_spec (e : Engine σ) {found : List ProjectRef}
    (hsettled : ∀ ref ∈ refs, s.Settled ref) (h : librariesOf e refs s = .ok found s') :
    s' = s ∧ (∀ ref ∈ refs, ∃ own, e.allLibraries ref s = .ok own s) ∧ ∀ other, other ∈ found ↔
        ∃ ref ∈ refs, ∃ own, e.allLibraries ref s = .ok own s ∧ other ∈ own := by
  induction refs generalizing found with
  | nil =>
    cases h
    refine ⟨rfl, fun _ href => absurd href List.not_mem_nil, fun other => ?_⟩
    exact ⟨fun hother => absurd hother List.not_mem_nil,
      fun ⟨_, href, _⟩ => absurd href List.not_mem_nil⟩
  | cons ref rest ih =>
    rw [librariesOf] at h
    obtain ⟨own, s₁, hown, hmore⟩ := bind_eq_ok h
    obtain ⟨others, s₂, hrest, hend⟩ := bind_eq_ok hmore
    cases hend
    obtain ⟨rfl, -⟩ := allLibraries_again e (hsettled ref List.mem_cons_self) hown
    obtain ⟨rfl, hall, hothers⟩ := ih
      (fun other hother => hsettled other (List.mem_cons_of_mem _ hother)) hrest
    refine ⟨rfl, fun other hother => ?_, fun other => ⟨fun hother => ?_, ?_⟩⟩
    · rcases List.mem_cons.1 hother with rfl | hother
      · exact ⟨own, hown⟩
      · exact hall other hother
    · rcases List.mem_append.1 hother with hfirst | hlater
      · exact ⟨ref, List.mem_cons_self, own, hown, hfirst⟩
      · obtain ⟨source, hsource, rest⟩ := (hothers other).1 hlater
        exact ⟨source, List.mem_cons_of_mem _ hsource, rest⟩
    · rintro ⟨source, hsource, libraries, hlibraries, hother⟩
      rcases List.mem_cons.1 hsource with rfl | hsource
      · rw [hown] at hlibraries
        cases hlibraries
        exact List.mem_append_left _ hother
      · exact List.mem_append_right _
          ((hothers other).2 ⟨source, hsource, libraries, hlibraries, hother⟩)

theorem withLibraries_again (e : Engine σ) {found : List ProjectRef}
    (hsettled : ∀ ref ∈ refs, s.Settled ref) (h : withLibraries e refs s = .ok found s') :
    s' = s := by
  induction refs generalizing found with
  | nil =>
    cases h
    rfl
  | cons ref rest ih =>
    rw [withLibraries] at h
    obtain ⟨own, s₁, hown, hmore⟩ := bind_eq_ok h
    obtain ⟨others, s₂, hrest, hend⟩ := bind_eq_ok hmore
    cases hend
    obtain ⟨rfl, -⟩ := allLibraries_again e (hsettled ref List.mem_cons_self) hown
    exact ih (fun other hother => hsettled other (List.mem_cons_of_mem _ hother)) hrest

theorem checkDistinct_again (e : Engine σ)
    (hsettled : ∀ ref ∈ roots, s.Settled ref) (h : checkDistinct e roots s = .ok () s') :
    s' = s := by
  rw [checkDistinct] at h
  cases hassertions : e.options.assertions with
  | false =>
    rw [hassertions] at h
    cases h
    rfl
  | true =>
    rw [hassertions] at h
    obtain ⟨found, s₁, hfound, hend⟩ := bind_eq_ok h
    obtain rfl := withLibraries_again e hsettled hfound
    cases hclash : clash? found with
    | some ref =>
      rw [hclash] at hend
      cases hend
    | none =>
      rw [hclash] at hend
      cases hend
      rfl

/-- A search that ends: the found projects forget what they were pointed at and are pointed anew.
What follows only asks for libraries that are known, and changes nothing but the journal. -/
theorem resolve_stages (hs : s.Sound) (hfound : Gathers (host.engine opts) stopped paths s found s₁)
    (h : resolve (host.engine opts) stopped paths s = .ok roots s') :
    ∃ s₂ s₃ libraries entry, s₁.Sound ∧ (∀ ref ∈ distinct (found.map Prod.snd), s₁.Has ref) ∧
      resetSubsets (host.engine opts) (distinct (found.map Prod.snd)) s₁ = .ok () s₂ ∧
      s₂.Sound ∧ (∀ ref ∈ distinct (found.map Prod.snd), s₂.Settled ref) ∧
      pointAt found s₂ = .ok () s₃ ∧ s' = s₃.write entry ∧
      librariesOf (host.engine opts) (distinct (found.map Prod.snd)) s₃ = .ok libraries s₃ ∧
      roots = (distinct (found.map Prod.snd)).filter fun ref => !libraries.contains ref := by
  rw [resolve_of_found hfound] at h
  obtain ⟨hs₁, hin⟩ := addPaths_spec _ hs (fun _ href => absurd href List.not_mem_nil) hfound
  obtain ⟨_, s₂, hreset, h⟩ := bind_eq_ok h
  obtain ⟨_, s₃, hpoint, h⟩ := bind_eq_ok h
  obtain ⟨libraries, s₄, hlibraries, h⟩ := bind_eq_ok h
  obtain ⟨_, s₅, hdistinct, hend⟩ := bind_eq_ok h
  have hrefs : ∀ ref ∈ distinct (found.map Prod.snd), s₁.Has ref :=
    fun ref href => hin ref (mem_distinct.1 href)
  obtain ⟨hs₂, hsettled⟩ := resetSubsets_spec hs₁ hrefs hreset
  have hlater := (frames_pointAt found).ok hpoint
  obtain ⟨rfl, -⟩ :=
    librariesOf_spec _ (fun ref href => (hsettled ref href).later hlater) hlibraries
  obtain rfl := checkDistinct_again _
    (fun ref href => (hsettled ref (List.mem_filter.1 href).1).later hlater) hdistinct
  cases hend
  exact ⟨s₂, s₅, libraries, _, hs₁, hrefs, hreset, hs₂, hsettled, hpoint, rfl, hlibraries, rfl⟩

theorem resolve_settles (hs : s.Sound)
    (hfound : Gathers (host.engine opts) stopped paths s found s₁)
    (h : resolve (host.engine opts) stopped paths s = .ok roots s') :
    ∃ t : State σ, s'.projects = t.projects ∧ s'.files = t.files ∧ t.Sound ∧
      (∀ ref ∈ found.map Prod.snd, t.Has ref ∧ t.Settled ref ∧
        ∃ own, (host.engine opts).allLibraries ref t = .ok own t) ∧
      ∀ ref, ref ∈ roots ↔ ref ∈ found.map Prod.snd ∧ ∀ other ∈ found.map Prod.snd, ∀ own,
          (host.engine opts).allLibraries other t = .ok own t → ref ∉ own := by
  obtain ⟨s₂, s₃, libraries, _, -, hrefs, hreset, hs₂, hsettled, hpoint, rfl, hlibraries, rfl⟩ :=
    resolve_stages hs hfound h
  have hlater₂ := (frames_resetSubsets _).ok hreset
  have hlater₃ := (frames_pointAt found).ok hpoint
  replace hsettled : ∀ ref ∈ distinct (found.map Prod.snd), s₃.Settled ref :=
    fun ref href => (hsettled ref href).later hlater₃
  obtain ⟨-, hall, hmem⟩ := librariesOf_spec _ hsettled hlibraries
  refine ⟨s₃, rfl, rfl, (keeps_pointAt found).ok hs₂ hpoint, fun ref href => ?_, fun ref => ?_⟩
  · have hproject := mem_distinct.2 href
    exact ⟨(hlater₂.trans hlater₃).has (hrefs ref hproject), hsettled ref hproject,
      hall ref hproject⟩
  · rw [List.mem_filter, mem_distinct, Bool.not_eq_true', ← Bool.not_eq_true, List.contains_iff_mem,
      hmem]
    refine and_congr_right fun _ => ⟨fun hnot other hother own hown href => hnot ?_, ?_⟩
    · exact ⟨other, mem_distinct.2 hother, own, hown, href⟩
    · rintro hnone ⟨other, hother, own, hown, href⟩
      exact hnone other (mem_distinct.1 hother) own hown href

theorem roots_sublist (hfound : Gathers (host.engine opts) stopped paths s found s₁)
    (h : resolve (host.engine opts) stopped paths s = .ok roots s') :
    roots.Sublist (distinct (found.map Prod.snd)) := by
  rw [resolve_of_found hfound] at h
  obtain ⟨_, _, -, h⟩ := bind_eq_ok h
  obtain ⟨_, _, -, h⟩ := bind_eq_ok h
  obtain ⟨libraries, _, -, h⟩ := bind_eq_ok h
  obtain ⟨_, _, -, h⟩ := bind_eq_ok h
  cases h
  exact List.filter_sublist

theorem found_of_mem {root : ProjectRef}
    (h : resolve (host.engine opts) stopped paths s = .ok roots s') (hroot : root ∈ roots) :
    ∃ found s₁, Gathers (host.engine opts) stopped paths s found s₁ := by
  rw [resolve, get_bind] at h
  obtain ⟨result, s₁, hfound, h⟩ := bind_eq_ok h
  cases result with
  | none =>
    cases h
    exact absurd hroot List.not_mem_nil
  | some found => exact ⟨found, s₁, hfound⟩

theorem resolve_knows (hs : s.Sound)
    (h : resolve (host.engine opts) stopped paths s = .ok roots s') :
    ∀ root ∈ roots, ∃ refs, (s'.project root).libraries = some refs := by
  intro root hroot
  obtain ⟨found, s₁, hfound⟩ := found_of_mem h hroot
  obtain ⟨t, hprojects, -, -, hsettled, hroots⟩ := resolve_settles hs hfound h
  obtain ⟨-, hroot, -⟩ := hsettled root ((hroots root).1 hroot).1
  rw [project_congr hprojects]
  exact hroot root .refl

/-- The library is reached from the project, through other libraries as well. -/
def References (e : Engine σ) (s : State σ) (ref other : ProjectRef) : Prop :=
  ∃ libraries t, e.allLibraries ref s = .ok libraries t ∧ other ∈ libraries

theorem links_congr {t : State σ} (h : s'.projects = t.projects) : s'.Links = t.Links := by
  funext ref other
  rw [State.Links, State.Links, project_congr h]

theorem resolve_spec (hs : s.Sound) (hfound : Gathers (host.engine opts) stopped paths s found s₁)
    (h : resolve (host.engine opts) stopped paths s = .ok roots s') :
    (∀ ref ∈ found.map Prod.snd, ∀ other, References (host.engine opts) s' ref other ↔
        ReflTransGen s'.Links ref other ∧ other ≠ ref) ∧
    ∀ ref, ref ∈ roots ↔ ref ∈ found.map Prod.snd ∧
      ∀ other ∈ found.map Prod.snd, ¬ References (host.engine opts) s' other ref := by
  obtain ⟨t, hprojects, hfiles, ht, hsettled, hroots⟩ := resolve_settles hs hfound h
  have hanswer : ∀ ref ∈ found.map Prod.snd, ∀ own,
      (host.engine opts).allLibraries ref t = .ok own t →
        (host.engine opts).allLibraries ref s' = .ok own s' := fun ref href own hown =>
    (allLibraries_again _ (hsettled ref href).2.1 hown).2 s' hprojects hfiles
  refine ⟨fun ref href other => ?_, fun ref => ?_⟩
  · obtain ⟨hhas, -, own, hown⟩ := hsettled ref href
    obtain ⟨-, -, hmem⟩ := allLibraries_spec ht hhas hown
    rw [links_congr hprojects, ← hmem, References, hanswer ref href own hown]
    constructor
    · rintro ⟨_, _, hsame, hother⟩
      cases hsame
      exact hother
    · exact fun hother => ⟨own, s', rfl, hother⟩
  · rw [hroots]
    refine and_congr_right fun _ => forall₂_congr fun other hother => ?_
    obtain ⟨-, -, own, hown⟩ := hsettled other hother
    constructor
    · rintro hnone ⟨_, _, hsame, href⟩
      rw [hanswer other hother own hown] at hsame
      cases hsame
      exact hnone own hown href
    · intro hnot own hown href
      exact hnot ⟨own, s', hanswer other hother own hown, href⟩

/-- Every found project is a root or a library of one, exactly if any two that reference each other
are referenced by a third one which they do not reference. -/
theorem resolve_accounts_iff (host : Host σ) (opts : Options) {paths : List String}
    {roots : List ProjectRef} {s₁ : State σ} (hs : s.Sound)
    (hfound : addPaths (host.engine opts) stopped (paths.map (Path.resolve s.files.cwd))
      (paths.map (Path.resolve s.files.cwd)) [] s = .ok (some found) s₁)
    (h : resolve (host.engine opts) stopped paths s = .ok roots s') :
    (∀ ref ∈ found.map Prod.snd,
      ref ∈ roots ∨ ∃ root ∈ roots, References (host.engine opts) s' root ref) ↔
    ∀ ref ∈ found.map Prod.snd, ∀ other ∈ found.map Prod.snd,
      References (host.engine opts) s' ref other →
      References (host.engine opts) s' other ref →
        ∃ third ∈ found.map Prod.snd, References (host.engine opts) s' third ref ∧
          ¬ References (host.engine opts) s' ref third := by
  obtain ⟨hreferences, hroots⟩ := resolve_spec hs hfound h
  have hcover := sources_cover_iff (r := ReflTransGen s'.Links) (fun _ => .refl) .trans
    (found.map Prod.snd)
  have hsource : ∀ m, m ∈ roots ↔ m ∈ found.map Prod.snd ∧
      ∀ other ∈ found.map Prod.snd, ReflTransGen s'.Links other m → other = m := by
    intro m
    rw [hroots]
    refine and_congr_right fun _ => forall₂_congr fun other hother => ?_
    rw [hreferences other hother, not_and, not_ne_iff]
    exact ⟨fun h hreach => (h hreach).symm, fun h hreach => (h hreach).symm⟩
  constructor
  · intro haccounted ref href other hother hto hfrom
    obtain ⟨hreach, hne⟩ := (hreferences ref href other).1 hto
    obtain ⟨hback, -⟩ := (hreferences other hother ref).1 hfrom
    have hsources : ∀ ref ∈ found.map Prod.snd, ∃ m ∈ found.map Prod.snd,
        (∀ other ∈ found.map Prod.snd, ReflTransGen s'.Links other m → other = m) ∧
          ReflTransGen s'.Links m ref := by
      intro ref href
      rcases haccounted ref href with hroot | ⟨root, hroot, hlibrary⟩
      · obtain ⟨hmem, hsource⟩ := (hsource ref).1 hroot
        exact ⟨ref, hmem, hsource, .refl⟩
      · obtain ⟨hmem, hsource⟩ := (hsource root).1 hroot
        exact ⟨root, hmem, hsource, ((hreferences root hmem ref).1 hlibrary).1⟩
    obtain ⟨third, hthird, hup, hdown⟩ :=
      hcover.1 hsources ref href other hother hne.symm hreach hback
    refine ⟨third, hthird, (hreferences third hthird ref).2 ⟨hup, ?_⟩, fun h => ?_⟩
    · rintro rfl
      exact hdown .refl
    · exact hdown ((hreferences ref href third).1 h).1
  · intro hthird ref href
    have hcovered := hcover.2 fun ref href other hother hne hto hfrom => by
      obtain ⟨third, hmem, hup, hdown⟩ := hthird ref href other hother
        ((hreferences ref href other).2 ⟨hto, hne.symm⟩)
        ((hreferences other hother ref).2 ⟨hfrom, hne⟩)
      obtain ⟨hreach, hne⟩ := (hreferences third hmem ref).1 hup
      exact ⟨third, hmem, hreach, fun h => hdown ((hreferences ref href third).2 ⟨h, hne.symm⟩)⟩
    obtain ⟨m, hm, hmin, hreach⟩ := hcovered ref href
    have hroot := (hsource m).2 ⟨hm, hmin⟩
    by_cases hsame : ref = m
    · exact .inl (hsame ▸ hroot)
    · exact .inr ⟨m, hroot, (hreferences m hm ref).2 ⟨hreach, hsame⟩⟩

def chained : State Scripted.Memory :=
  fresh {} (sideBySide [("a", "android.library.reference.1=../b"), ("b", "")])

/-- Both are found, and the library is left to the project. -/
theorem resolve_accounts_chained :
    ∃ found roots s₁ s',
      addPaths (idleHost.engine ⟨true⟩) State.canceled
        (["a", "b"].map (Path.resolve chained.files.cwd))
        (["a", "b"].map (Path.resolve chained.files.cwd)) [] chained = .ok (some found) s₁ ∧
      resolve (idleHost.engine ⟨true⟩) State.canceled ["a", "b"] chained = .ok roots s' ∧
      found.map Prod.snd = [⟨0, "/w/a"⟩, ⟨1, "/w/b"⟩] ∧ roots = [⟨0, "/w/a"⟩] ∧
      ((∀ ref ∈ found.map Prod.snd,
        ref ∈ roots ∨ ∃ root ∈ roots, References (idleHost.engine ⟨true⟩) s' root ref) ↔
      ∀ ref ∈ found.map Prod.snd, ∀ other ∈ found.map Prod.snd,
        References (idleHost.engine ⟨true⟩) s' ref other →
        References (idleHost.engine ⟨true⟩) s' other ref →
          ∃ third ∈ found.map Prod.snd, References (idleHost.engine ⟨true⟩) s' third ref ∧
            ¬ References (idleHost.engine ⟨true⟩) s' ref third) := by
  have hfound : result? (addPaths (idleHost.engine ⟨true⟩) State.canceled
      (["a", "b"].map (Path.resolve chained.files.cwd))
      (["a", "b"].map (Path.resolve chained.files.cwd)) [] chained) =
        some (some [("/w/a", ⟨0, "/w/a"⟩), ("/w/b", ⟨1, "/w/b"⟩)]) := by decide +kernel
  have hroots : result? (resolve (idleHost.engine ⟨true⟩) State.canceled ["a", "b"] chained) =
      some [⟨0, "/w/a"⟩] := by decide +kernel
  exact ⟨_, _, _, _, eq_ok_of_result? hfound, eq_ok_of_result? hroots, rfl, rfl,
    resolve_accounts_iff idleHost ⟨true⟩ (sound_fresh _ _ _) (eq_ok_of_result? hfound)
      (eq_ok_of_result? hroots)⟩

def cyclic : State Scripted.Memory :=
  fresh {} (sideBySide [("a", "android.library.reference.1=../b"),
    ("b", "android.library.reference.1=../a")])

/-- Both are found, and neither is a root or a library of one. -/
theorem resolve_loses_cyclic :
    ∃ found roots s₁ s',
      addPaths (idleHost.engine ⟨true⟩) State.canceled
        (["a", "b"].map (Path.resolve cyclic.files.cwd))
        (["a", "b"].map (Path.resolve cyclic.files.cwd)) [] cyclic = .ok (some found) s₁ ∧
      resolve (idleHost.engine ⟨true⟩) State.canceled ["a", "b"] cyclic = .ok roots s' ∧
      found.map Prod.snd = [⟨0, "/w/a"⟩, ⟨1, "/w/b"⟩] ∧ roots = [] ∧
      ¬ ∀ ref ∈ found.map Prod.snd,
        ref ∈ roots ∨ ∃ root ∈ roots, References (idleHost.engine ⟨true⟩) s' root ref := by
  have hfound : result? (addPaths (idleHost.engine ⟨true⟩) State.canceled
      (["a", "b"].map (Path.resolve cyclic.files.cwd))
      (["a", "b"].map (Path.resolve cyclic.files.cwd)) [] cyclic) =
        some (some [("/w/a", ⟨0, "/w/a"⟩), ("/w/b", ⟨1, "/w/b"⟩)]) := by decide +kernel
  have hroots : result? (resolve (idleHost.engine ⟨true⟩) State.canceled ["a", "b"] cyclic) =
      some [] := by decide +kernel
  refine ⟨_, _, _, _, eq_ok_of_result? hfound, eq_ok_of_result? hroots, rfl, rfl,
    fun haccounted => ?_⟩
  rcases haccounted _ List.mem_cons_self with hroot | ⟨root, hroot, -⟩
  · exact List.not_mem_nil hroot
  · exact List.not_mem_nil hroot

end Discovery
end ProjectLint
