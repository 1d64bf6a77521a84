/-
The references between projects. A project leads to the libraries that were looked up for it, and
`allLibraries` collects what a project leads to, directly or through others, without itself.
Libraries once looked up stay, so from the first time on the answer is the same.
-/
import Mathlib.Logic.Relation
import ProjectLint.Proofs.Frame
import ProjectLint.Scripted.Embedding

namespace ProjectLint

open Relation

variable {ref : ProjectRef} {refs : List ProjectRef}

namespace State

/-- There is such a project. -/
def Has (s : State σ) (ref : ProjectRef) : Prop :=
  ref.index < s.projects.size

/-- There is such a project, with the folder of the reference. -/
def Made (s : State σ) (ref : ProjectRef) : Prop :=
  ∃ project, s.projects[ref.index]? = some project ∧ project.dir = ref.dir

theorem Made.has {s : State σ} (h : s.Made ref) : s.Has ref := by
  obtain ⟨_, hproject, -⟩ := h
  exact (Array.getElem?_eq_some_iff.1 hproject).1

/-- Each reference that is remembered is to a project that exists. -/
structure Sound (s : State σ) : Prop where
  cache : ∀ entry ∈ s.cache, s.Has entry.2
  libraries : ∀ (i : Nat) p refs, s.projects[i]? = some p → p.libraries = some refs →
    ∀ ref ∈ refs, s.Has ref

/-- A project is known to refer to another. -/
def Links (s : State σ) (ref other : ProjectRef) : Prop :=
  ∃ refs, (s.project ref).libraries = some refs ∧ other ∈ refs

def Settled (s : State σ) (ref : ProjectRef) : Prop :=
  ∀ other, ReflTransGen s.Links ref other → ∃ refs, (s.project other).libraries = some refs

variable {announced : Journal.Entry → Prop} {s s' : State σ} {ref other : ProjectRef}

theorem Later.has (h : Later announced s s') (hs : s.Has ref) : s'.Has ref := by
  obtain ⟨q, hq, -⟩ := h.projects ref.index _ (Array.getElem?_eq_getElem hs)
  exact (Array.getElem?_eq_some_iff.1 hq).1

theorem Made.later (h : s.Made ref) (hlater : Later announced s s') : s'.Made ref := by
  obtain ⟨project, hproject, hdir⟩ := h
  obtain ⟨kept, hkept, hsame, -⟩ := hlater.projects _ project hproject
  exact ⟨kept, hkept, hsame.trans hdir⟩

theorem Made.changed (h : s.Made ref) (index : Nat) {change : Project → Project}
    (hchange : ∀ project, s.projects[index]? = some project → (change project).dir = project.dir) :
    Made (s.changed index change) ref := by
  obtain ⟨project, hproject, hdir⟩ := h
  obtain ⟨kept, hkept, ⟨rfl, rfl⟩ | rfl⟩ := getElem?_modify_of hproject index change
  · exact ⟨_, hkept, (hchange project hproject).trans hdir⟩
  · exact ⟨kept, hkept, hdir⟩

theorem Made.added (h : s.Made ref) (project : Project) : Made (s.extended project) ref := by
  obtain ⟨known, hknown, hdir⟩ := h
  exact ⟨known, getElem?_push_of hknown project, hdir⟩

theorem made_added (s : State σ) (project : Project) :
    Made (s.extended project) ⟨s.projects.size, project.dir⟩ := by
  refine ⟨project, ?_, rfl⟩
  show (s.projects.push project)[s.projects.size]? = _
  rw [Array.getElem?_push, if_pos rfl]

theorem Later.links (h : Later announced s s') (hs : s.Links ref other) : s'.Links ref other := by
  obtain ⟨refs, hrefs, hmem⟩ := hs
  exact ⟨refs, h.libraries hrefs, hmem⟩

theorem Settled.mono (h : s.Settled ref) (hother : ReflTransGen s.Links ref other) :
    s.Settled other :=
  fun _ hmore => h _ (hother.trans hmore)

theorem Settled.links_iff (h : s.Settled ref) (hlater : Later announced s s') :
    s'.Links ref other ↔ s.Links ref other := by
  refine ⟨?_, hlater.links⟩
  rintro ⟨refs, hrefs, hmem⟩
  obtain ⟨known, hknown⟩ := h ref .refl
  have hsame : known = refs := Option.some.inj ((hlater.libraries hknown).symm.trans hrefs)
  exact ⟨known, hknown, hsame ▸ hmem⟩

theorem Settled.reaches_iff (h : s.Settled ref) (hlater : Later announced s s') :
    ReflTransGen s'.Links ref other ↔ ReflTransGen s.Links ref other := by
  refine ⟨fun hreach => ?_, ReflTransGen.mono (fun _ _ => hlater.links) _ _⟩
  induction hreach with
  | refl => exact .refl
  | tail _ hlink ih => exact ih.tail (((h.mono ih).links_iff hlater).1 hlink)

theorem Settled.later (h : s.Settled ref) (hlater : Later announced s s') : s'.Settled ref := by
  intro other hother
  obtain ⟨refs, hrefs⟩ := h other ((h.reaches_iff hlater).1 hother)
  exact ⟨refs, hlater.libraries hrefs⟩

theorem has_changed (index : Nat) (change : Project → Project) :
    State.Has (s.changed index change) ref ↔ s.Has ref := by
  show ref.index < (s.projects.modify index change).size ↔ ref.index < s.projects.size
  rw [Array.size_modify]

theorem Sound.changed (h : s.Sound) (index : Nat) {change : Project → Project}
    (hchange : ∀ p, (change p).libraries = p.libraries) :
    Sound (s.changed index change) := by
  refine ⟨fun entry hentry => (has_changed _ _).2 (h.cache entry hentry), ?_⟩
  intro i p refs hp hrefs ref href
  obtain ⟨q, hq, ⟨-, rfl⟩ | rfl⟩ := getElem?_of_modify hp
  · exact (has_changed _ _).2 (h.libraries i q refs hq ((hchange q).symm.trans hrefs) ref href)
  · exact (has_changed _ _).2 (h.libraries i p refs hq hrefs ref href)

theorem getElem?_of_has (h : s.Has ref) : s.projects[ref.index]? = some (s.project ref) := by
  rw [State.project, Array.getD_eq_getD_getElem?, Array.getElem?_eq_getElem h]
  rfl

theorem Made.project_eq (h : s.Made ref) :
    s.projects[ref.index]? = some (s.project ref) ∧ (s.project ref).dir = ref.dir := by
  obtain ⟨project, hproject, hdir⟩ := h
  have hsame : s.project ref = project := by
    rw [State.project, Array.getD_eq_getD_getElem?, hproject]
    rfl
  rw [hsame]
  exact ⟨hproject, hdir⟩

theorem project_modify (s : State σ) (index : Nat) (change : Project → Project) (ref : ProjectRef) :
    State.project (s.changed index change) ref =
      if index = ref.index ∧ ref.index < s.projects.size then change (s.project ref)
      else s.project ref := by
  show (s.projects.modify index change).getD ref.index _ = _
  rw [Array.getD_eq_getD_getElem?, Array.getElem?_modify]
  by_cases hhas : s.Has ref
  · rw [getElem?_of_has hhas]
    by_cases hindex : index = ref.index
    · rw [if_pos hindex, if_pos ⟨hindex, hhas⟩]
      rfl
    · rw [if_neg hindex, if_neg fun h => hindex h.1]
      rfl
  · have hunchanged : ¬ (index = ref.index ∧ ref.index < s.projects.size) := fun h => hhas h.2
    rw [if_neg hunchanged, State.project, Array.getD_eq_getD_getElem?,
      Array.getElem?_eq_none (Nat.le_of_not_lt hhas), Option.map_none, ite_self]

theorem has_push (project : Project) (h : s.Has ref) : State.Has (s.extended project) ref := by
  show ref.index < (s.projects.push project).size
  rw [Array.size_push]
  exact Nat.lt_succ_of_lt h

theorem project_push (project : Project) (h : s.Has ref) :
    State.project (s.extended project) ref = s.project ref := by
  show (s.projects.push project).getD ref.index _ = _
  rw [Array.getD_eq_getD_getElem?, Array.getElem?_push, if_neg (Nat.ne_of_lt h), getElem?_of_has h]
  rfl

theorem Sound.linked (h : s.Sound) (index : Nat) (hrefs : ∀ ref ∈ refs, s.Has ref) :
    Sound (s.changed index ({ · with libraries := some refs })) := by
  refine ⟨fun entry hentry => (has_changed _ _).2 (h.cache entry hentry), ?_⟩
  intro i p known hp hknown ref href
  obtain ⟨q, hq, ⟨-, rfl⟩ | rfl⟩ := getElem?_of_modify hp
  · cases hknown
    exact (has_changed _ _).2 (hrefs ref href)
  · exact (has_changed _ _).2 (h.libraries i p known hq hknown ref href)

theorem Sound.added (h : s.Sound) {project : Project} (hproject : project.libraries = none) :
    Sound (s.extended project) := by
  refine ⟨fun entry hentry => has_push project (h.cache entry hentry), ?_⟩
  intro i p refs hp hrefs ref href
  rcases getElem?_of_push hp with rfl | hold
  · cases hproject.symm.trans hrefs
  · exact has_push project (h.libraries i p refs hold hrefs ref href)

end State

namespace Engine

open Run

variable {s s' : State σ}
variable {cache : List (String × ProjectRef)} {dir reference : String}

theorem bears_sound (host : Host σ) : Bears host State.Sound (fun _ => True) (fun _ => True) where
  configured := fun _ _ _ _ _ _ h => h.changed _ fun _ => rfl

theorem cachedProject_of_kept (e : Engine σ) (reference : String)
    (hends : s.files.linksEnd dir = true) (h : cache.lookup (s.files.canonical dir) = some ref) :
    e.cachedProject cache dir reference s = .ok (ref, cache) s := by
  rw [cachedProject, bind_of_ok (followLinks_of_end hends), get_bind, h]
  rfl

theorem cachedProject_of_none {e : Engine σ} (hends : s.files.linksEnd dir = true)
    (h : cache.lookup (s.files.canonical dir) = none)
    (hmake : e.makeProject (s.files.canonical dir) reference s = .ok ref s') :
    e.cachedProject cache dir reference s =
      .ok (ref, cache ++ [(s.files.canonical dir, ref)]) s' := by
  rw [cachedProject, bind_of_ok (followLinks_of_end hends), get_bind, h]
  exact bind_of_ok hmake

variable {host : Host σ} {opts : Options}

theorem sound_makeProject (hs : s.Sound)
    (h : (host.engine opts).makeProject dir reference s = .ok ref s') :
    s'.Sound ∧ s'.Has ref := by
  replace h := (followLinks_bind_eq_ok h).2
  obtain ⟨properties, s₁, hread, hadd⟩ := bind_eq_ok (x := readProperties _ _) h
  have hs₁ := ((bears_sound host).readProperties opts _).ok hs hread
  cases hadd
  refine ⟨hs₁.added rfl, ?_⟩
  show s₁.projects.size < (s₁.projects.push _).size
  rw [Array.size_push]
  exact Nat.lt_succ_self _

theorem sound_cachedProject {cache' : List (String × ProjectRef)} (hs : s.Sound)
    (hcache : ∀ entry ∈ cache, s.Has entry.2)
    (h : (host.engine opts).cachedProject cache dir reference s = .ok (ref, cache') s') :
    s'.Sound ∧ s'.Has ref ∧ ∀ entry ∈ cache', s'.Has entry.2 := by
  have hlater := (frames_of_finds host fun h =>
    ((h.searches opts).cachedProject cache dir reference).keeps).ok h
  rw [cachedProject] at h
  replace h := (followLinks_bind_eq_ok h).2
  rw [get_bind] at h
  cases hfound : cache.lookup (s.files.canonical dir) with
  | some known =>
    rw [hfound] at h
    cases h
    obtain ⟨before, after, rfl, -⟩ := List.lookup_eq_some_iff.1 hfound
    exact ⟨hs, hcache _ (List.mem_append_right _ List.mem_cons_self), hcache⟩
  | none =>
    rw [hfound] at h
    obtain ⟨made, s₁, hmake, hreturn⟩ := bind_eq_ok h
    cases hreturn
    obtain ⟨hs', hhas⟩ := sound_makeProject hs hmake
    refine ⟨hs', hhas, fun entry hentry => ?_⟩
    rcases List.mem_append.1 hentry with hold | hnew
    · exact hlater.has (hcache entry hold)
    · rw [List.mem_singleton.1 hnew]
      exact hhas

theorem sound_projectAt (hs : s.Sound)
    (h : (host.engine opts).projectAt dir reference s = .ok ref s') : s'.Sound ∧ s'.Has ref := by
  rw [projectAt] at h
  obtain ⟨_, s₁, hcall, h⟩ := bind_eq_ok h
  have hs₁ := Keeps.ok ((bears_sound host).serves opts rfl) hs hcall
  cases hkeeps : (host.engine opts).host.keepsProjects with
  | true =>
    rw [hkeeps, if_pos rfl, get_bind] at h
    obtain ⟨⟨made, cache⟩, s₂, hcached, hend⟩ := bind_eq_ok h
    cases hend
    obtain ⟨hs₂, hmade, hcache⟩ := sound_cachedProject hs₁ hs₁.cache hcached
    have hs₃ : State.Sound { s₂ with cache } := ⟨hcache, hs₂.libraries⟩
    exact ⟨hs₃.changed _ fun _ => rfl, (State.has_changed _ _).2 hmade⟩
  | false =>
    rw [hkeeps] at h
    obtain ⟨made, s₂, hmake, hend⟩ := bind_eq_ok h
    cases hend
    obtain ⟨hs₂, hmade⟩ := sound_makeProject hs₁ hmake
    exact ⟨hs₂.changed _ fun _ => rfl, (State.has_changed _ _).2 hmade⟩

theorem sound_lookUpLibraries {dirs : List String}
    (hs : s.Sound) (h : (host.engine opts).lookUpLibraries dir dirs s = .ok refs s') :
    s'.Sound ∧ ∀ ref ∈ refs, s'.Has ref := by
  induction dirs generalizing s refs with
  | nil =>
    cases h
    exact ⟨hs, fun _ href => absurd href List.not_mem_nil⟩
  | cons library rest ih =>
    rw [lookUpLibraries, get_bind] at h
    cases hfolder : s.files.isFolder library with
    | true =>
      rw [hfolder, if_pos rfl] at h
      obtain ⟨ref, s₁, hfirst, h⟩ := bind_eq_ok h
      obtain ⟨others, s₂, hrest, hend⟩ := bind_eq_ok h
      cases hend
      obtain ⟨hs₁, href⟩ := sound_projectAt hs hfirst
      obtain ⟨hs₂, hothers⟩ := ih hs₁ hrest
      refine ⟨hs₂, fun other hother => ?_⟩
      rcases List.mem_cons.1 hother with rfl | hother
      · exact ((frames_of_finds host fun h =>
          ((h.searches opts).lookUpLibraries dir rest).keeps).ok hrest).has href
      · exact hothers other hother
    | false =>
      rw [hfolder] at h
      obtain ⟨_, s₁, hlog, hrest⟩ := bind_eq_ok h
      have hs₁ := ((bears_sound host).log ((bears_sound host).serves opts) _ _ _).ok hs hlog
      exact ih hs₁ hrest

theorem sound_libraries (hs : s.Sound)
    (href : s.Has ref) (h : (host.engine opts).libraries ref s = .ok refs s') :
    s'.Sound ∧ (s'.project ref).libraries = some refs ∧ ∀ other ∈ refs, s'.Has other := by
  rw [libraries, bind_of_ok (x := getProject ref) rfl] at h
  cases hknown : (s.project ref).libraries with
  | some known =>
    rw [hknown] at h
    cases h
    exact ⟨hs, hknown, hs.libraries _ _ refs (State.getElem?_of_has href) hknown⟩
  | none =>
    rw [hknown] at h
    obtain ⟨found, s₁, hlook, hend⟩ := bind_eq_ok h
    cases hend
    obtain ⟨hs₁, hfound⟩ := sound_lookUpLibraries hs hlook
    have href₁ : s₁.Has ref :=
      ((frames_of_finds host fun h => ((h.searches opts).lookUpLibraries _ _).keeps).ok
        hlook).has href
    refine ⟨hs₁.linked ref.index hfound, ?_, fun other hother =>
      (State.has_changed _ _).2 (hfound other hother)⟩
    have hhas : State.Has (s₁.changed ref.index ({ · with libraries := some refs })) ref :=
      (State.has_changed _ _).2 href₁
    have hproject := State.getElem?_of_has hhas
    rw [Array.getElem?_modify, if_pos rfl, State.getElem?_of_has href₁] at hproject
    rw [← Option.some.inj hproject]

/-! ## The closure -/

/-- What a walk from given projects adds to those seen before: projects that are led to, each with
all its libraries. -/
structure Covers (s : State σ) (starts seen seen' : List ProjectRef) : Prop where
  grown : seen <+: seen'
  nodup : seen.Nodup → seen'.Nodup
  started : ∀ start ∈ starts, start ∈ seen'
  reached : ∀ ref ∈ seen', ref ∈ seen ∨ ∃ start ∈ starts, ReflTransGen s.Links start ref
  expanded : ∀ ref ∈ seen', ref ∉ seen →
    ∃ refs, (s.project ref).libraries = some refs ∧ ∀ other ∈ refs, other ∈ seen'

namespace Covers

variable {starts starts' seen seen' seen'' : List ProjectRef} {announced : Journal.Entry → Prop}

theorem refl (s : State σ) (seen : List ProjectRef) (h : ∀ start ∈ starts, start ∈ seen) :
    Covers s starts seen seen :=
  ⟨List.prefix_refl _, id, h, fun _ => .inl, fun _ hmem hnot => absurd hmem hnot⟩

theorem later (h : Covers s starts seen seen') (hlater : State.Later announced s s') :
    Covers s' starts seen seen' := by
  refine ⟨h.grown, h.nodup, h.started, fun ref href => ?_, fun ref href hnew => ?_⟩
  · refine (h.reached ref href).imp id ?_
    rintro ⟨start, hstart, hreach⟩
    exact ⟨start, hstart, ReflTransGen.mono (fun _ _ => hlater.links) _ _ hreach⟩
  · obtain ⟨refs, hrefs, hall⟩ := h.expanded ref href hnew
    exact ⟨refs, hlater.libraries hrefs, hall⟩

theorem trans (h : Covers s starts seen seen') (h' : Covers s starts' seen' seen'') :
    Covers s (starts ++ starts') seen seen'' := by
  refine ⟨h.grown.trans h'.grown, h'.nodup ∘ h.nodup, fun start hstart => ?_, fun ref href => ?_,
    fun ref href hnew => ?_⟩
  · exact (List.mem_append.1 hstart).elim (fun hmem => h'.grown.subset (h.started start hmem))
      (h'.started start)
  · rcases h'.reached ref href with hold | ⟨start, hstart, hreach⟩
    · refine (h.reached ref hold).imp id ?_
      rintro ⟨start, hstart, hreach⟩
      exact ⟨start, List.mem_append_left _ hstart, hreach⟩
    · exact .inr ⟨start, List.mem_append_right _ hstart, hreach⟩
  · by_cases hold : ref ∈ seen'
    · obtain ⟨refs, hrefs, hall⟩ := h.expanded ref hold hnew
      exact ⟨refs, hrefs, fun other hother => h'.grown.subset (hall other hother)⟩
    · exact h'.expanded ref href hold

theorem step (hnew : ref ∉ seen)
    (hrefs : (s.project ref).libraries = some refs) (h : Covers s refs (seen ++ [ref]) seen') :
    Covers s [ref] seen seen' := by
  have href : ref ∈ seen' := h.grown.subset (List.mem_append_right _ List.mem_cons_self)
  refine ⟨(List.prefix_append _ _).trans h.grown, fun hseen => h.nodup ?_, ?_, ?_, ?_⟩
  · exact List.nodup_append.2 ⟨hseen, List.nodup_cons.2 ⟨List.not_mem_nil, List.nodup_nil⟩,
      fun a ha b hb hab => hnew (List.mem_singleton.1 hb ▸ hab ▸ ha)⟩
  · exact fun start hstart => List.mem_singleton.1 hstart ▸ href
  · intro other hother
    rcases h.reached other hother with hseen | ⟨start, hstart, hreach⟩
    · refine (List.mem_append.1 hseen).imp id fun hmem => ⟨ref, List.mem_cons_self, ?_⟩
      rw [List.mem_singleton.1 hmem]
    · exact .inr ⟨ref, List.mem_cons_self, .head ⟨refs, hrefs, hstart⟩ hreach⟩
  · intro other hother hnot
    by_cases hsame : other = ref
    · rw [hsame]
      exact ⟨refs, hrefs, h.started⟩
    · refine h.expanded other hother fun hmem => ?_
      exact (List.mem_append.1 hmem).elim hnot fun hlast => hsame (List.mem_singleton.1 hlast)

end Covers

theorem covers_carry {walk : ProjectRef → List ProjectRef → Run σ (List ProjectRef)}
    (hwalk : ∀ {ref seen seen' s s'}, s.Sound → s.Has ref → walk ref seen s = .ok seen' s' →
      s'.Sound ∧ State.Later Quiet s s' ∧
        ∃ refs, (s'.project ref).libraries = some refs ∧ Covers s' refs seen seen')
    (refs : List ProjectRef) {seen seen' : List ProjectRef} (hs : s.Sound)
    (hrefs : ∀ ref ∈ refs, s.Has ref)
    (h : carry refs seen (fun ref seen =>
      if seen.contains ref then return seen else walk ref (seen ++ [ref])) s = .ok seen' s') :
    s'.Sound ∧ State.Later Quiet s s' ∧ Covers s' refs seen seen' := by
  induction refs generalizing seen s with
  | nil =>
    cases h
    exact ⟨hs, .refl _, .refl _ _ fun _ hstart => absurd hstart List.not_mem_nil⟩
  | cons ref rest ih =>
    rw [carry] at h
    obtain ⟨seen₁, s₁, hfirst, hrest⟩ := bind_eq_ok h
    have hone : s₁.Sound ∧ State.Later Quiet s s₁ ∧ Covers s₁ [ref] seen seen₁ := by
      by_cases hseen : seen.contains ref = true
      · rw [if_pos hseen] at hfirst
        cases hfirst
        refine ⟨hs, .refl s, .refl s seen fun start hstart => ?_⟩
        rw [List.mem_singleton.1 hstart]
        exact List.contains_iff_mem.1 hseen
      · rw [if_neg hseen] at hfirst
        obtain ⟨hs₁, hlater, libraries, hlibraries, hcovers⟩ :=
          hwalk hs (hrefs ref List.mem_cons_self) hfirst
        refine ⟨hs₁, hlater, hcovers.step (fun hmem => ?_) hlibraries⟩
        exact hseen (List.contains_iff_mem.2 hmem)
    obtain ⟨hs₁, hlater₁, hcovers₁⟩ := hone
    obtain ⟨hs', hlater', hcovers'⟩ := ih hs₁
      (fun other hother => hlater₁.has (hrefs other (List.mem_cons_of_mem _ hother))) hrest
    exact ⟨hs', hlater₁.trans hlater', (hcovers₁.later hlater').trans hcovers'⟩

theorem covers_closeOver (fuel : Nat) :
    ∀ {ref : ProjectRef} {seen seen' : List ProjectRef} {s s' : State σ}, s.Sound → s.Has ref →
      (host.engine opts).closeOver fuel ref seen s = .ok seen' s' →
      s'.Sound ∧ State.Later Quiet s s' ∧
        ∃ refs, (s'.project ref).libraries = some refs ∧ Covers s' refs seen seen' := by
  induction fuel with
  | zero =>
    intro _ _ _ _ _ _ _ h
    cases h
  | succ fuel ih =>
    intro ref seen seen' s s' hs href h
    rw [closeOver] at h
    obtain ⟨refs, s₁, hlibraries, hwalk⟩ := bind_eq_ok h
    obtain ⟨hs₁, hknown, hrefs⟩ := sound_libraries hs href hlibraries
    obtain ⟨hs', hlater, hcovers⟩ := covers_carry ih refs hs₁ hrefs hwalk
    exact ⟨hs', ((frames_libraries host opts ref).ok hlibraries).trans hlater,
      refs, hlater.libraries hknown, hcovers⟩

theorem allLibraries_spec {found : List ProjectRef} (hs : s.Sound)
    (href : s.Has ref) (h : (host.engine opts).allLibraries ref s = .ok found s') :
    s'.Sound ∧ s'.Settled ref ∧
      ∀ other, other ∈ found ↔ ReflTransGen s'.Links ref other ∧ other ≠ ref := by
  rw [allLibraries, get_bind] at h
  obtain ⟨seen, s₁, hclose, hend⟩ := bind_eq_ok h
  cases hend
  obtain ⟨hs', -, refs, hrefs, hcovers⟩ := covers_closeOver _ hs href hclose
  obtain ⟨found, rfl⟩ := hcovers.grown
  have hnodup := hcovers.nodup (List.nodup_cons.2 ⟨List.not_mem_nil, List.nodup_nil⟩)
  -- The walk is closed under references: those of the project itself and of all it added.
  have hexpanded : ∀ other ∈ [ref] ++ found,
      ∃ refs, (s'.project other).libraries = some refs ∧ ∀ next ∈ refs, next ∈ [ref] ++ found := by
    intro other hother
    by_cases hsame : other ∈ [ref]
    · rw [List.mem_singleton.1 hsame]
      exact ⟨refs, hrefs, hcovers.started⟩
    · exact hcovers.expanded other hother hsame
  have hclosed : ∀ other, ReflTransGen s'.Links ref other → other ∈ [ref] ++ found := by
    intro other hreach
    induction hreach with
    | refl => exact List.mem_append_left _ List.mem_cons_self
    | tail _ hlink ih =>
      obtain ⟨known, hknown, hnext⟩ := hlink
      obtain ⟨refs, hrefs, hall⟩ := hexpanded _ ih
      rw [hrefs] at hknown
      cases hknown
      exact hall _ hnext
  refine ⟨hs', fun other hreach => ?_,
    fun other => ⟨fun hother => ⟨?_, ?_⟩, fun ⟨hreach, hne⟩ => ?_⟩⟩
  · obtain ⟨refs, hrefs, -⟩ := hexpanded other (hclosed other hreach)
    exact ⟨refs, hrefs⟩
  · rcases hcovers.reached other (List.mem_append_right _ hother) with
      hsame | ⟨start, hstart, hreach⟩
    · rw [List.mem_singleton.1 hsame]
    · exact .head ⟨refs, hrefs, hstart⟩ hreach
  · rintro rfl
    exact (List.nodup_cons.1 hnodup).1 hother
  · exact (List.mem_append.1 (hclosed other hreach)).resolve_left fun hsame =>
      hne (List.mem_singleton.1 hsame)

/-! ## Asking again -/

theorem carry_again (walk : ProjectRef → List ProjectRef → Run σ (List ProjectRef))
    {P : ProjectRef → Prop}
    (hwalk : ∀ {ref seen seen' s'}, P ref → walk ref seen s = .ok seen' s' →
      s' = s ∧ ∀ t : State σ, t.projects = s.projects → walk ref seen t = .ok seen' t)
    (refs : List ProjectRef) (hrefs : ∀ ref ∈ refs, P ref) {seen seen' : List ProjectRef}
    (h : carry refs seen (fun ref seen =>
      if seen.contains ref then return seen else walk ref (seen ++ [ref])) s = .ok seen' s') :
    s' = s ∧ ∀ t : State σ, t.projects = s.projects →
      carry refs seen (fun ref seen =>
        if seen.contains ref then return seen else walk ref (seen ++ [ref])) t = .ok seen' t := by
  induction refs generalizing seen with
  | nil =>
    cases h
    exact ⟨rfl, fun _ _ => rfl⟩
  | cons ref rest ih =>
    rw [carry] at h
    obtain ⟨seen₁, s₁, hfirst, hrest⟩ := bind_eq_ok h
    have hmore := fun other hother => hrefs other (List.mem_cons_of_mem _ hother)
    by_cases hseen : seen.contains ref = true
    · rw [if_pos hseen] at hfirst
      cases hfirst
      obtain ⟨hs', hagain⟩ := ih hmore hrest
      refine ⟨hs', fun t ht => ?_⟩
      rw [carry, if_pos hseen]
      exact hagain t ht
    · rw [if_neg hseen] at hfirst
      obtain ⟨rfl, hsame⟩ := hwalk (hrefs ref List.mem_cons_self) hfirst
      obtain ⟨hs', hagain⟩ := ih hmore hrest
      refine ⟨hs', fun t ht => ?_⟩
      rw [carry, if_neg hseen, bind_of_ok (hsame t ht)]
      exact hagain t ht

theorem libraries_of_known (e : Engine σ)
    (h : (s.project ref).libraries = some refs) : e.libraries ref s = .ok refs s := by
  rw [libraries, bind_of_ok (x := getProject ref) rfl, h]
  rfl

theorem project_congr {t : State σ} (h : t.projects = s.projects) (ref : ProjectRef) :
    t.project ref = s.project ref := by
  rw [State.project, State.project, h]

theorem closeOver_again (e : Engine σ) (fuel : Nat) :
    ∀ {ref : ProjectRef} {seen seen' : List ProjectRef} {s' : State σ}, s.Settled ref →
      e.closeOver fuel ref seen s = .ok seen' s' →
      s' = s ∧
        ∀ t : State σ, t.projects = s.projects → e.closeOver fuel ref seen t = .ok seen' t := by
  induction fuel with
  | zero =>
    intro _ _ _ _ _ h
    cases h
  | succ fuel ih =>
    intro ref seen seen' s' hsettled h
    obtain ⟨refs, hrefs⟩ := hsettled ref .refl
    rw [closeOver, bind_of_ok (libraries_of_known e hrefs)] at h
    obtain ⟨hs', hagain⟩ := carry_again (e.closeOver fuel) ih refs
      (fun other hother => hsettled.mono (.single ⟨refs, hrefs, hother⟩)) h
    refine ⟨hs', fun t ht => ?_⟩
    rw [closeOver, bind_of_ok (libraries_of_known e (project_congr ht ref ▸ hrefs))]
    exact hagain t ht

theorem allLibraries_again (e : Engine σ) {found : List ProjectRef}
    (hsettled : s.Settled ref) (h : e.allLibraries ref s = .ok found s') :
    s' = s ∧ ∀ t : State σ, t.projects = s.projects → t.files = s.files →
      e.allLibraries ref t = .ok found t := by
  rw [allLibraries, get_bind] at h
  obtain ⟨seen, s₁, hclose, hend⟩ := bind_eq_ok h
  cases hend
  obtain ⟨hs', hagain⟩ := closeOver_again e _ hsettled hclose
  refine ⟨hs', fun t hprojects hfiles => ?_⟩
  have hdepth : e.referenceDepth t = e.referenceDepth s := by
    rw [referenceDepth, referenceDepth, hprojects, hfiles]
  rw [allLibraries, get_bind, hdepth, bind_of_ok (hagain t hprojects)]
  rfl

end Engine

/-! ## Projects side by side -/

def sideBySide (projects : List (String × String)) : Workspace :=
  ⟨.folder "" true [.folder "w" true (projects.map fun (name, properties) =>
    .folder name true [.file "AndroidManifest.xml" (.bytes []),
      .file "project.properties" (.bytes properties.toUTF8.toList)])], "/w"⟩

def idleHost : Host Scripted.Memory :=
  Scripted.Embedding.host {}

def fresh (host : σ) (files : Workspace) (registry : Registry := {}) : State σ :=
  { host, files, registry }

theorem sound_fresh (host : σ) (files : Workspace) (registry : Registry) :
    (fresh host files registry).Sound := by
  refine ⟨fun _ hentry => absurd hentry List.not_mem_nil, fun i p refs hp => ?_⟩
  rw [show (fresh host files registry).projects[i]? = none from rfl] at hp
  cases hp

def manifestIssue : Issue where
  id := "I"
  brief := "I"
  explanation := "I"
  category := .correctness
  priority := .ofNat 5
  severity := .warning
  scope := .ofList [.manifest]
  detector := some "D"
  enabled := true
  moreInfo := []

end ProjectLint
