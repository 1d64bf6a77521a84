/-
The stock of projects, and why a search for projects comes to an end. A client that keeps its
projects has one for each canonical directory; a library is looked up by a path that goes down to a
folder, and there is room for the canonical paths of all of these. So a chain of references that
passes no project twice is not too long, and neither is a way down the folders.
-/
import ProjectLint.Proofs.Provisions
import ProjectLint.Proofs.Upkeep
import ProjectLint.Proofs.Ways

namespace ProjectLint

open Run

/-- A client that keeps its projects, and that returns when it is asked for a project or told
something, with the files as they were. -/
structure Host.Caching (host : Host σ) (opts : Options) (ws : Workspace) : Prop where
  keepsProjects : host.keepsProjects = true
  asked : ∀ dir reference {s}, s.files = ws →
    ∃ s', (host.engine opts).invoke (.getProject dir reference) s = .ok () s' ∧ s'.files = ws
  told : ∀ error message context {s}, s.files = ws →
    ∃ s', (host.engine opts).invoke (.log error message context) s = .ok () s' ∧ s'.files = ws

/-- Code that does not fail where a run relies on it, and does not touch the files. Listeners may
fail, and so may the reading of a class. -/
structure Host.Steady (host : Host σ) (opts : Options) (ws : Workspace) : Prop where
  keepsProjects : host.keepsProjects = true
  keepsFiles : ∀ call moment memory,
    (host.react call moment memory).Within Action.KeepsFiles fun _ => True
  calls : ∀ {call s}, call.isRisky = false → s.files = ws →
    ∃ s', (host.engine opts).invoke call s = .ok () s'
  construct : ∀ name memory, host.construct name memory = .ok ()
  parseMarkup : ∀ context memory, ∃ document, host.parseMarkup context ws memory = .ok document
  parseSource : ∀ context memory, ∃ unit, host.parseSource context ws memory = .ok unit

theorem within_idle (may : Action → Prop) (call : Call) (moment : Moment)
    (memory : Scripted.Memory) :
    (idleHost.react call moment memory).Within may fun _ => True := by
  cases call <;> exact ⟨trivial, fun _ => trivial⟩

theorem caching_idle (opts : Options) (ws : Workspace) : idleHost.Caching opts ws :=
  ⟨rfl, fun _ _ _ hs => ⟨_, rfl, hs⟩, fun _ _ _ _ hs => ⟨_, rfl, hs⟩⟩

namespace State

variable {s : State σ}

/-- The projects that are kept or referenced were made, and libraries are looked for further down
from the root. -/
structure Filed (s : State σ) : Prop where
  cache : ∀ entry ∈ s.cache, s.Made entry.2
  libraries : ∀ (i : Nat) p refs, s.projects[i]? = some p → p.libraries = some refs →
    ∀ ref ∈ refs, s.Made ref
  plain : ∀ (i : Nat) p, s.projects[i]? = some p → ∀ dir ∈ p.libraryDirs, Path.IsPlain dir

theorem Filed.project (hs : s.Filed) (ref : ProjectRef) :
    (∀ refs, (s.project ref).libraries = some refs → ∀ other ∈ refs, s.Made other) ∧
      ∀ dir ∈ (s.project ref).libraryDirs, Path.IsPlain dir := by
  rw [State.project, Array.getD_eq_getD_getElem?]
  cases hproject : s.projects[ref.index]? with
  | some p => exact ⟨fun refs => hs.libraries _ p refs hproject, hs.plain _ p hproject⟩
  | none => exact ⟨fun refs h => (by cases h), fun dir h => (by cases h)⟩

theorem Filed.sound (hs : s.Filed) : s.Sound :=
  ⟨fun entry hentry => (hs.cache entry hentry).has, fun i p refs hp hrefs ref href =>
    (hs.libraries i p refs hp hrefs ref href).has⟩

theorem filed_fresh (memory : σ) (files : Workspace) (registry : Registry) :
    (fresh memory files registry).Filed := by
  have hnone : ∀ i : Nat, (fresh memory files registry).projects[i]? = none := fun _ => rfl
  refine ⟨fun _ h => absurd h List.not_mem_nil, fun i p refs h => ?_, fun i p h => ?_⟩
  all_goals
    rw [hnone i] at h
    cases h

structure Untouched (s t : State σ) : Prop where
  files : t.files = s.files
  cache : t.cache = s.cache
  projects : ∀ i : Nat, t.projects[i]?.map Project.filing = s.projects[i]?.map Project.filing

namespace Untouched

variable {s t u : State σ} {ref : ProjectRef}

theorem refl (s : State σ) : Untouched s s :=
  ⟨rfl, rfl, fun _ => rfl⟩

theorem trans (h : Untouched s t) (h' : Untouched t u) : Untouched s u :=
  ⟨h'.files.trans h.files, h'.cache.trans h.cache, fun i => (h'.projects i).trans (h.projects i)⟩

theorem symm (h : Untouched s t) : Untouched t s :=
  ⟨h.files.symm, h.cache.symm, fun i => (h.projects i).symm⟩

theorem getElem? (h : Untouched s t) {i : Nat} {p : Project} (hp : s.projects[i]? = some p) :
    ∃ q, t.projects[i]? = some q ∧ q.dir = p.dir ∧ q.libraries = p.libraries ∧
      q.libraryDirs = p.libraryDirs := by
  have hi := h.projects i
  rw [hp, Option.map_some] at hi
  obtain ⟨q, hq, hfiling⟩ := Option.map_eq_some_iff.1 hi
  simp only [Project.filing, Prod.mk.injEq] at hfiling
  exact ⟨q, hq, hfiling⟩

theorem made (h : Untouched s t) (hs : s.Made ref) : t.Made ref := by
  obtain ⟨p, hp, hdir⟩ := hs
  obtain ⟨q, hq, hsame, -⟩ := h.getElem? hp
  exact ⟨q, hq, hsame.trans hdir⟩

theorem size (h : Untouched s t) : t.projects.size = s.projects.size := by
  have hiff : ∀ i : Nat, t.projects.size ≤ i ↔ s.projects.size ≤ i := by
    intro i
    rw [← Array.getElem?_eq_none_iff, ← Array.getElem?_eq_none_iff,
      ← Option.map_eq_none_iff (f := Project.filing), h.projects i, Option.map_eq_none_iff]
  have := hiff t.projects.size
  have := hiff s.projects.size
  omega

theorem filed (h : Untouched s t) (hs : s.Filed) : t.Filed := by
  refine ⟨fun entry hentry => ?_, fun i q refs hq hrefs ref href => ?_, fun i q hq dir hdir => ?_⟩
  · rw [h.cache] at hentry
    exact h.made (hs.cache entry hentry)
  · obtain ⟨p, hp, -, hlibraries, -⟩ := h.symm.getElem? hq
    exact h.made (hs.libraries i p refs hp (hlibraries.trans hrefs) ref href)
  · obtain ⟨p, hp, -, -, hdirs⟩ := h.symm.getElem? hq
    exact hs.plain i p hp dir (hdirs ▸ hdir)

theorem changed (s : State σ) (index : Nat) {change : Project → Project}
    (h : ∀ project, (change project).filing = project.filing) :
    Untouched s (s.changed index change) :=
  ⟨rfl, rfl, fun i => map_getElem?_modify s.projects index i h⟩

end Untouched

theorem Spared.untouched {t : State σ} (h : Spared s t) : Untouched s t := by
  refine ⟨h.files, h.cache, fun i => ?_⟩
  have hfiling : ∀ found : Option Project,
      (found.map Project.core).map Project.filing = found.map Project.filing :=
    fun found => Option.map_map ..
  rw [← hfiling, h.projects i, hfiling]

structure Grew (kind : String → Prop) (s t : State σ) : Prop where
  files : t.files = s.files
  made : ∀ {ref}, s.Made ref → t.Made ref
  kept : ∀ {key}, (s.cache.lookup key).isSome = true → (t.cache.lookup key).isSome = true
  added : ∃ keys : List String, keys.Nodup ∧ t.projects.size = s.projects.size + keys.length ∧
    ∀ key ∈ keys, kind key ∧ s.cache.lookup key = none ∧ (t.cache.lookup key).isSome = true

namespace Grew

variable {kind kind' : String → Prop} {s t u : State σ}

theorem of_untouched (h : Untouched s t) : Grew kind s t where
  files := h.files
  made := h.made
  kept := fun hkey => by rwa [h.cache]
  added := ⟨[], List.nodup_nil, by simp [h.size], by simp⟩

theorem refl (s : State σ) : Grew kind s s :=
  of_untouched (.refl s)

theorem trans (h : Grew kind s t) (h' : Grew kind t u) : Grew kind s u where
  files := h'.files.trans h.files
  made := fun hs => h'.made (h.made hs)
  kept := fun hkey => h'.kept (h.kept hkey)
  added := by
    obtain ⟨keys, hnodup, hsize, hkeys⟩ := h.added
    obtain ⟨more, hnodup', hsize', hmore⟩ := h'.added
    refine ⟨keys ++ more, ?_, by rw [hsize', hsize, List.length_append, Nat.add_assoc], ?_⟩
    · -- a directory with a new project is kept from then on, so none gets a second one
      refine List.nodup_append.2 ⟨hnodup, hnodup', fun key hkey other hother heq => ?_⟩
      have hsome := (hkeys key hkey).2.2
      rw [heq, (hmore other hother).2.1] at hsome
      cases hsome
    · intro key hkey
      rcases List.mem_append.1 hkey with hold | hnew
      · obtain ⟨hkind, hnone, hsome⟩ := hkeys key hold
        exact ⟨hkind, hnone, h'.kept hsome⟩
      · obtain ⟨hkind, hnone, hsome⟩ := hmore key hnew
        refine ⟨hkind, ?_, hsome⟩
        cases hcache : s.cache.lookup key with
        | none => rfl
        | some ref =>
          have hkept := h.kept (by rw [hcache]; rfl)
          rw [hnone] at hkept
          cases hkept

theorem mono (h : Grew kind s t) (hkind : ∀ key, kind key → kind' key) : Grew kind' s t := by
  obtain ⟨keys, hnodup, hsize, hkeys⟩ := h.added
  exact ⟨h.files, h.made, h.kept, keys, hnodup, hsize,
    fun key hkey => ⟨hkind key (hkeys key hkey).1, (hkeys key hkey).2⟩⟩

end Grew

theorem Filed.added (hs : s.Filed) {key : String} {project : Project}
    (hkey : s.cache.lookup key = none) (hlibraries : project.libraries = none)
    (hplain : ∀ dir ∈ project.libraryDirs, Path.IsPlain dir) :
    let ref : ProjectRef := ⟨s.projects.size, project.dir⟩
    let t := { s with
      projects := s.projects.push project
      cache := s.cache ++ [(key, ref)] }
    t.Filed ∧ t.Made ref ∧ Grew (· = key) s t := by
  intro ref t
  have hlast : t.Made ref := made_added s project
  have hmade : ∀ {other}, s.Made other → t.Made other := fun h => h.added project
  refine ⟨⟨fun entry hentry => ?_, fun i p refs hp hrefs other hother => ?_,
    fun i p hp dir hdir => ?_⟩, hlast, rfl, hmade, fun hsome => ?_, [key], ?_⟩
  · rcases List.mem_append.1 hentry with hold | hnew
    · exact hmade (hs.cache entry hold)
    · rw [List.mem_singleton.1 hnew]
      exact hlast
  · rcases getElem?_of_push hp with rfl | hold
    · rw [hlibraries] at hrefs
      cases hrefs
    · exact hmade (hs.libraries i p refs hold hrefs other hother)
  · rcases getElem?_of_push hp with rfl | hold
    · exact hplain dir hdir
    · exact hs.plain i p hold dir hdir
  · show ((s.cache ++ [(key, ref)]).lookup _).isSome = true
    rw [List.lookup_append, Option.isSome_or, hsome, Bool.true_or]
  · refine ⟨List.nodup_singleton key, Array.size_push project, fun other hother => ?_⟩
    rw [List.mem_singleton.1 hother]
    refine ⟨rfl, hkey, ?_⟩
    show ((s.cache ++ [(key, ref)]).lookup key).isSome = true
    rw [List.lookup_append, hkey, List.lookup_cons_self]
    rfl

theorem Filed.linked (hs : s.Filed) (index : Nat) {refs : List ProjectRef}
    (hrefs : ∀ ref ∈ refs, s.Made ref) :
    let t := s.changed index ({ · with libraries := some refs })
    t.Filed ∧ ∀ kind, Grew kind s t := by
  intro t
  have hmade : ∀ {other}, s.Made other → t.Made other := fun h => h.changed index fun _ _ => rfl
  refine ⟨⟨fun entry hentry => hmade (hs.cache entry hentry), ?_, ?_⟩, fun kind => ?_⟩
  · intro i q known hq hknown ref href
    obtain ⟨p, hp, ⟨-, rfl⟩ | rfl⟩ := getElem?_of_modify hq
    · cases hknown
      exact hmade (hrefs ref href)
    · exact hmade (hs.libraries i q known hp hknown ref href)
  · intro i q hq dir hdir
    obtain ⟨p, hp, ⟨-, rfl⟩ | rfl⟩ := getElem?_of_modify hq
    · exact hs.plain i p hp dir hdir
    · exact hs.plain i q hp dir hdir
  · exact ⟨rfl, hmade, id, [], List.nodup_nil, Array.size_modify, by simp⟩

end State

namespace Run

open State

/-- An operation comes back with what is asked of it, and the stock of projects has grown. It does
not come back only where the links of the files do not end. -/
def Obtains (kind : String → Prop) (x : Run σ α) (s : State σ) (P : State σ → α → Prop) : Prop :=
  Ensures s.files.Stalls (fun t => t.Filed ∧ Grew kind s t) (fun a t => P t a) (x s)

namespace Obtains

variable {kind kind' : String → Prop} {s : State σ} {x : Run σ α} {P : State σ → α → Prop}

theorem pure {a : α} (hs : s.Filed) (h : P s a) : Obtains kind (pure a) s P :=
  ⟨⟨hs, .refl s⟩, h⟩

theorem bind {f : α → Run σ β} {Q : State σ → β → Prop} (hx : Obtains kind x s P)
    (hf : ∀ a t, x s = .ok a t → t.Filed → Grew kind s t → P t a → Obtains kind (f a) t Q) :
    Obtains kind (x >>= f) s Q := by
  refine Ensures.bind hx (fun _ => id) fun a t hok ht hP => ?_
  have hnext := hf a t hok ht.1 ht.2 hP
  rw [Obtains, ht.2.files] at hnext
  exact hnext.mono (fun _ => id) (fun _ hu => ⟨hu.1, ht.2.trans hu.2⟩) fun _ _ => id

theorem inspect {k : State σ → Run σ α} (h : Obtains kind (k s) s P) :
    Obtains kind (get >>= k) s P :=
  h

theorem congr {y : Run σ α} (heq : x s = y s) (h : Obtains kind y s P) : Obtains kind x s P := by
  rwa [Obtains, heq]

theorem imp {Q : State σ → α → Prop} (h : Obtains kind x s P) (hQ : ∀ t a, P t a → Q t a) :
    Obtains kind x s Q :=
  Ensures.mono h (fun _ => id) (fun _ => id) fun a t => hQ t a

theorem mono (h : Obtains kind x s P) (hkind : ∀ key, kind key → kind' key) : Obtains kind' x s P :=
  Ensures.mono h (fun _ => id) (fun _ ht => ⟨ht.1, ht.2.mono hkind⟩) fun _ _ => id

theorem anywhere (h : Obtains kind x s P) : Obtains (fun _ => True) x s P :=
  h.mono fun _ _ => trivial

theorem of_untouched {x : Run σ Unit} (hs : s.Filed)
    (h : ∃ t, x s = .ok () t ∧ Untouched s t) : Obtains kind x s fun _ _ => True := by
  obtain ⟨t, hok, ht⟩ := h
  rw [Obtains, hok]
  exact ⟨⟨ht.filed hs, .of_untouched ht⟩, trivial⟩

theorem change (hs : s.Filed) (ref : ProjectRef) {change : Project → Project}
    (h : ∀ project, (change project).filing = project.filing) :
    Obtains kind (changeProject ref change) s fun _ _ => True :=
  .of_untouched hs ⟨_, rfl, .changed s ref.index h⟩

theorem followLinks (hs : s.Filed) (path : String) :
    Obtains kind (Engine.followLinks path) s fun _ _ => True := by
  cases hends : s.files.linksEnd path with
  | true =>
    rw [Obtains, Engine.followLinks_of_end hends]
    exact ⟨⟨hs, .refl s⟩, trivial⟩
  | false =>
    rw [Obtains, Engine.followLinks_of_endless hends]
    exact ⟨.of_endless hends, hs, .refl s⟩

theorem each {f : α → Run σ Unit} (elements : List α) {s : State σ} (hs : s.Filed)
    (h : ∀ a ∈ elements, ∀ t, t.Filed → Grew kind s t → Obtains kind (f a) t fun _ _ => True) :
    Obtains kind (each elements f) s fun _ _ => True := by
  induction elements generalizing s with
  | nil => exact .pure hs trivial
  | cons first rest ih =>
    refine (h first List.mem_cons_self s hs (.refl s)).bind fun _ t _ ht hgrew _ => ih ht ?_
    exact fun a ha u hu hgrew' =>
      h a (List.mem_cons_of_mem _ ha) u hu (hgrew.trans hgrew')

theorem returns (h : Obtains kind x s P) (hlinks : s.files.LinksEnd) :
    ∃ a t, x s = .ok a t ∧ t.Filed ∧ Grew kind s t ∧ P t a := by
  obtain ⟨a, t, hok, ⟨ht, hgrew⟩, hP⟩ := Ensures.returns_of_linksEnd h hlinks
  exact ⟨a, t, hok, ht, hgrew, hP⟩

end Obtains
end Run

namespace Engine

open State

variable {host : Host σ} {opts : Options} {ws : Workspace} {s t : State σ}
variable {seen : List ProjectRef}

theorem hears_untouched (hhost : host.Steady opts ws) (s : State σ) :
    Hears host (Untouched s) Action.KeepsFiles fun _ => True where
  reacts := fun moment memory _ => hhost.keepsFiles _ moment memory
  configured := fun ref _ _ _ _ _ h => h.trans (.changed _ ref.index fun _ => rfl)
  files := fun change _ hmay h => { h with files := (hmay change rfl _).trans h.files }
  heeds := fun _ _ _ moment memory => hhost.keepsFiles _ moment memory

theorem untouched_endState (hhost : host.Steady opts ws) (call : Call) (s : State σ) :
    Untouched s (endState ((host.engine opts).invoke call s)) :=
  (hears_untouched hhost s).invoke opts (hhost.keepsFiles call _ _) { Untouched.refl s with }

theorem untouched_invoke (hhost : host.Steady opts ws) (hs : s.files = ws) (call : Call)
    (hcall : call.isRisky = false) :
    ∃ t, (host.engine opts).invoke call s = .ok () t ∧ Untouched s t := by
  obtain ⟨t, ht⟩ := hhost.calls hcall hs
  have hkept := untouched_endState hhost call s
  rw [ht] at hkept
  exact ⟨t, ht, hkept⟩

theorem caching_of_steady (hhost : host.Steady opts ws) : host.Caching opts ws := by
  have hcall : ∀ {call : Call} {s : State σ}, call.isRisky = false → s.files = ws →
      ∃ t, (host.engine opts).invoke call s = .ok () t ∧ t.files = ws := by
    intro call s hcall hs
    obtain ⟨t, hok, ht⟩ := untouched_invoke hhost hs call hcall
    exact ⟨t, hok, ht.files.trans hs⟩
  exact ⟨hhost.keepsProjects, fun _ _ => hcall rfl, fun _ _ _ => hcall rfl⟩

theorem Careful.of_caching (hhost : host.Caching opts ws) {E : Fault → Prop} :
    Careful host opts ws E Spared := by
  refine .of_files (fun dir reference s hs => ?_) fun error message s hs => ?_
  · obtain ⟨t, hok, ht⟩ := hhost.asked dir reference hs
    rw [hok]
    exact ⟨ht, trivial⟩
  · obtain ⟨t, hok, ht⟩ := hhost.told error message none hs
    rw [hok]
    exact ⟨ht, trivial⟩

/-! ## Projects and their libraries -/

theorem projectAt_returns (hhost : host.Caching opts ws) (hfiles : s.files = ws) (hs : s.Filed)
    (dir reference : String) :
    Obtains (· = ws.canonical dir) ((host.engine opts).projectAt dir reference) s
      fun t ref => t.Made ref := by
  refine (Careful.of_caching hhost).projectAt hfiles (fun hends => .of_endless (hfiles ▸ hends))
    (fun t ht => ?_) (fun t ref t' ht hprovided => ?_) reference
  · exact ⟨ht.untouched.filed hs, .of_untouched ht.untouched⟩
  · have hgrew : Grew (· = ws.canonical dir) s t := .of_untouched ht.untouched
    replace hs := ht.untouched.filed hs
    cases hprovided with
    | known hkey =>
      have hchanged : Untouched t (t.changed ref.index (host.overrides ref.dir).apply) :=
        .changed t ref.index fun _ => rfl
      have hmade := hs.cache _ (mem_of_lookup hkey)
      exact ⟨⟨hchanged.filed hs, hgrew.trans (.of_untouched hchanged)⟩, hchanged.made hmade⟩
    | kept reference hkey =>
      let project := (host.shape ws (ws.canonical dir)).shownFrom reference
      have hdir : project.dir = ws.canonical dir := host.shape_dir ws dir reference
      have hplain : ∀ library ∈ project.libraryDirs, Path.IsPlain library := by
        intro library hlibrary
        obtain ⟨entry, -, rfl⟩ := List.mem_map.1 hlibrary
        exact Path.isPlain_join (Workspace.isAbsolute_canonical _ _) _
      obtain ⟨hfiled, hmade, hadded⟩ := hs.added hkey rfl hplain
      rw [hdir] at hfiled hmade hadded
      exact ⟨⟨hfiled, hgrew.trans hadded⟩, hmade⟩
    | lent reference hlent => cases hlent.symm.trans hhost.keepsProjects

theorem lookUpLibraries_returns (hhost : host.Caching opts ws) (hfiles : s.files = ws)
    (hs : s.Filed) (dir : String) {dirs : List String} (hdirs : ∀ dir ∈ dirs, Path.IsPlain dir) :
    Obtains ws.IsFolderKey ((host.engine opts).lookUpLibraries dir dirs) s
      fun t refs => ∀ ref ∈ refs, t.Made ref := by
  have hat : ∀ library ∈ dirs, ws.isFolder library = true → ∀ {t : State σ},
      t.Filed ∧ Grew ws.IsFolderKey s t →
      Ensures s.files.Stalls (fun u => u.Filed ∧ Grew ws.IsFolderKey s u)
        (fun ref u => True ∧ u.Made ref) ((host.engine opts).projectAt library library t) := by
    intro library hlibrary hfolder t ht
    have hproject :=
      projectAt_returns hhost (ht.2.files.trans hfiles) ht.1 library library
    have hkey : ∀ key, key = ws.canonical library → ws.IsFolderKey key :=
      fun key hkey => ⟨library, hdirs library hlibrary, hfolder, hkey⟩
    rw [Obtains, ht.2.files] at hproject
    exact hproject.mono (fun _ => id) (fun _ hu => ⟨hu.1, ht.2.trans (hu.2.mono hkey)⟩)
      fun _ _ hmade => ⟨trivial, hmade⟩
  exact ((Careful.of_caching hhost).lookUpLibraries (P := fun _ _ => True)
    (fun ht => ht.2.files.trans hfiles) (fun ht hspared => ⟨hspared.untouched.filed ht.1,
      ht.2.trans (.of_untouched hspared.untouched)⟩) dir hat ⟨hs, .refl s⟩).mono (fun _ => id)
    (fun _ => id) fun _ _ => And.right

theorem libraries_returns (hhost : host.Caching opts ws) (hfiles : s.files = ws) (hs : s.Filed)
    (ref : ProjectRef) :
    Obtains ws.IsFolderKey ((host.engine opts).libraries ref) s
      fun t refs => ∀ other ∈ refs, t.Made other := by
  obtain ⟨hlibraries, hplain⟩ := hs.project ref
  rw [libraries]
  refine .congr (bind_of_ok (x := getProject ref) rfl) ?_
  cases hknown : (s.project ref).libraries with
  | some refs => exact .pure hs (hlibraries refs hknown)
  | none =>
    refine (lookUpLibraries_returns hhost hfiles hs _ hplain).bind fun refs t _ ht hgrew hrefs => ?_
    obtain ⟨hfiled, hlinked⟩ := ht.linked ref.index hrefs
    exact ⟨⟨hfiled, hlinked _⟩, fun other hother =>
      (hlinked ws.IsFolderKey).made (hrefs other hother)⟩

/-! ## The closure -/

theorem length_le_size (hnodup : seen.Nodup)
    (hmade : ∀ ref ∈ seen, t.Made ref) : seen.length ≤ t.projects.size := by
  have hindices : (seen.map ProjectRef.index).Nodup := by
    refine hnodup.map_on fun ref href other hother heq => ?_
    obtain ⟨p, hp, hdir⟩ := hmade ref href
    obtain ⟨q, hq, hdir'⟩ := hmade other hother
    rw [heq, hq] at hp
    cases hp
    cases ref
    cases other
    cases heq
    cases hdir
    cases hdir'
    rfl
  have hbelow : seen.map ProjectRef.index ⊆ List.range t.projects.size := by
    intro index hindex
    obtain ⟨ref, href, rfl⟩ := List.mem_map.1 hindex
    exact List.mem_range.2 (hmade ref href).has
  have hlength := (hindices.subperm hbelow).length_le
  rwa [List.length_map, List.length_range] at hlength

theorem length_le_of_made (hnodup : seen.Nodup)
    (hmade : ∀ ref ∈ seen, t.Made ref) (hgrew : Grew ws.IsFolderKey s t) :
    seen.length ≤ s.projects.size + ws.folderRoom := by
  obtain ⟨keys, hkeys, hsize, hkind⟩ := hgrew.added
  have hroom := Workspace.length_le_folderRoom hkeys fun key hkey => (hkind key hkey).1
  have hlength := length_le_size hnodup hmade
  omega

structure Seen (t : State σ) (seen : List ProjectRef) : Prop where
  nodup : seen.Nodup
  made : ∀ ref ∈ seen, t.Made ref

theorem Seen.later (h : Seen s seen) (hgrew : Grew kind s t) : Seen t seen :=
  ⟨h.nodup, fun ref href => hgrew.made (h.made ref href)⟩

theorem Seen.concat (h : Seen t seen) {ref : ProjectRef}
    (hnew : ref ∉ seen) (href : t.Made ref) : Seen t (seen ++ [ref]) := by
  refine ⟨List.nodup_append.2 ⟨h.nodup, List.nodup_singleton ref, ?_⟩, ?_⟩
  · intro other hother last hlast heq
    rw [heq, List.mem_singleton.1 hlast] at hother
    exact hnew hother
  · exact List.forall_mem_append.2 ⟨h.made, List.forall_mem_singleton.2 href⟩

theorem closeOver_returns (hhost : host.Caching opts ws) {b : State σ} (hfiles : b.files = ws)
    (fuel : Nat) : ∀ {s : State σ} {ref : ProjectRef} {seen : List ProjectRef}, s.Filed →
      Grew ws.IsFolderKey b s → Seen s seen → ref ∈ seen →
      b.projects.size + ws.folderRoom < fuel + seen.length →
      Obtains ws.IsFolderKey ((host.engine opts).closeOver fuel ref seen) s
        fun t seen' => Seen t seen' ∧ seen.length ≤ seen'.length := by
  induction fuel with
  | zero =>
    intro s ref seen hs hgrew hseen _ hfuel
    have := length_le_of_made hseen.nodup hseen.made hgrew
    omega
  | succ fuel ih =>
    intro s ref seen hs hgrew hseen href hfuel
    rw [closeOver]
    refine (libraries_returns hhost (hgrew.files.trans hfiles) hs ref).bind
      fun refs t hlook ht hlooked hrefs => ?_
    replace hgrew := hgrew.trans hlooked
    replace hseen := hseen.later hlooked
    clear href hs hlook hlooked s
    -- each library is passed by or is one more that is seen, which makes up for the fuel
    induction refs generalizing t seen with
    | nil => exact .pure ht ⟨hseen, Nat.le_refl _⟩
    | cons library rest ihrest =>
      obtain ⟨hlibrary, hrest⟩ := List.forall_mem_cons.1 hrefs
      have hfirst : Obtains ws.IsFolderKey (if seen.contains library then pure seen
          else (host.engine opts).closeOver fuel library (seen ++ [library])) t
          fun u seen' => Seen u seen' ∧ seen.length ≤ seen'.length := by
        by_cases hmem : seen.contains library = true
        · rw [if_pos hmem]
          exact .pure ht ⟨hseen, Nat.le_refl _⟩
        · rw [if_neg hmem]
          have hlength : (seen ++ [library]).length = seen.length + 1 := by simp
          refine (ih ht hgrew (hseen.concat (by simpa using hmem) hlibrary)
            (List.mem_append_right _ (List.mem_singleton_self _)) (by omega)).imp ?_
          exact fun _ _ h => ⟨h.1, by omega⟩
      refine hfirst.bind fun next u _ hu hgrew' hnext => ?_
      have hfuel' : b.projects.size + ws.folderRoom < fuel + 1 + next.length := by
        have := hnext.2
        omega
      refine (ihrest hfuel' u hu (fun ref href => hgrew'.made (hrest ref href))
        (hgrew.trans hgrew') hnext.1).imp fun _ _ h => ⟨h.1, Nat.le_trans hnext.2 h.2⟩

theorem allLibraries_returns (hhost : host.Caching opts ws) (hfiles : s.files = ws) (hs : s.Filed)
    {ref : ProjectRef} (hmade : s.Made ref) :
    Obtains ws.IsFolderKey ((host.engine opts).allLibraries ref) s
      fun t refs => ∀ other ∈ refs, t.Made other := by
  have hkeeps : (host.engine opts).host.keepsProjects = true := hhost.keepsProjects
  have hdepth : (host.engine opts).referenceDepth s =
      ws.folderRoom + s.projects.size + Run.growth := by
    rw [referenceDepth, hfiles, if_pos hkeeps]
  have hseen : Seen s [ref] := ⟨List.nodup_singleton ref, List.forall_mem_singleton.2 hmade⟩
  rw [allLibraries]
  refine .inspect ?_
  refine (closeOver_returns hhost hfiles _ hs (.refl s) hseen (List.mem_singleton_self ref) ?_).bind
    fun seen t _ ht _ hfound => .pure ht fun other hother => ?_
  · rw [hdepth, List.length_singleton]
    omega
  · exact hfound.1.made other (List.mem_of_mem_drop hother)

end Engine
end ProjectLint
