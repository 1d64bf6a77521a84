/-
One project for each directory. A client that keeps its projects finds the project of a directory
under its canonical path, and a project that it makes has that path for its directory. So however
the directories are spelled and whatever links lead to them, two questions for a project are
answered with the same one exactly if they come to the same canonical path, and no search finds two
projects of one directory.
-/
import ProjectLint.Proofs.Charts

namespace ProjectLint

open Run State

variable {host : Host σ} {opts : Options} {ws : Workspace} {s t : State σ}

theorem State.Kept.eq_of_dir (h : s.Kept) {ref other : ProjectRef} (href : s.Made ref)
    (hother : s.Made other) (hdir : ref.dir = other.dir) : ref = other := by
  have hlookup := h.lookup href
  rw [hdir, h.lookup hother] at hlookup
  exact (Option.some.inj hlookup).symm

theorem Stocked.filed (h : Stocked host ws s) : s.Filed where
  cache := fun entry hentry => (h.cached entry.1 entry.2 hentry).2
  libraries := fun i p refs hp hrefs => (h.linked i p refs hp hrefs).2
  plain := fun i p hp dir hdir => by
    have hdirs : p.libraryDirs = (host.shape ws p.dir).libraryDirs :=
      Project.chart_congr Project.libraryDirs (fun _ => rfl) (h.shaped i p hp)
    rw [hdirs] at hdir
    obtain ⟨entry, -, rfl⟩ := List.mem_map.1 hdir
    exact Path.isPlain_join (Workspace.isAbsolute_canonical _ _) _

/-! ## Questions for projects -/

namespace Engine

theorem projectsAt_stocked (hhost : host.Caching opts ws) {asks : List (String × String)}
    (hends : ∀ ask ∈ asks, ws.linksEnd ask.1 = true) (hs : Stocked host ws s) :
    ∃ refs t, asks.mapM (fun ask => (host.engine opts).projectAt ask.1 ask.2) s = .ok refs t ∧
      Stocked host ws t ∧ (∀ ref, s.Made ref → t.Made ref) ∧
      List.Forall₂ (fun ask ref => ref.dir = ws.canonical ask.1 ∧ t.Made ref) asks refs := by
  induction asks generalizing s with
  | nil => exact ⟨[], s, rfl, hs, fun _ => id, .nil⟩
  | cons ask rest ih =>
    obtain ⟨hend, hends⟩ := List.forall_mem_cons.1 hends
    obtain ⟨ref, s₁, hask, hs₁, hdir, hmade⟩ := (stocked_projectAt (Careful.of_caching hhost)
      hhost.keepsProjects hs ask.1 ask.2
      fun hendless => Bool.false_ne_true (hendless.symm.trans hend)).returns
    have hgrew := projectAt_returns hhost hs.files hs.filed ask.1 ask.2
    rw [Obtains, hask] at hgrew
    replace hgrew := hgrew.1.2
    obtain ⟨refs, t, hrest, ht, hkept, hrefs⟩ := ih hends hs₁
    refine ⟨ref :: refs, t, ?_, ht, fun other hother => hkept other (hgrew.made hother),
      .cons ⟨hdir, hkept ref hmade⟩ hrefs⟩
    rw [List.mapM_cons, bind_of_ok hask, bind_of_ok hrest]
    rfl

end Engine

/-! ## Searches -/

namespace Discovery

open Engine

theorem clash?_eq_none {refs : List ProjectRef}
    (h : ∀ ref ∈ refs, ∀ other ∈ refs, ref.dir = other.dir → ref = other) : clash? refs = none := by
  suffices hgo : ∀ rest seen, (∀ ref ∈ rest, ref ∈ refs) → (∀ ref ∈ seen, ref ∈ refs) →
      clash?.go seen rest = none from hgo refs [] (fun _ => id) (List.forall_mem_nil _)
  intro rest
  induction rest with
  | nil => exact fun _ _ _ => rfl
  | cons ref rest ih =>
    intro seen hall hseen
    obtain ⟨href, hrest⟩ := List.forall_mem_cons.1 hall
    rw [clash?.go]
    cases hfind : seen.find? (·.dir == ref.dir) with
    | none => exact ih _ hrest (List.forall_mem_cons.2 ⟨href, hseen⟩)
    | some other =>
      have hdir := List.find?_some hfind
      have hsame := h other (hseen other (List.mem_of_find?_eq_some hfind)) ref href
        (eq_of_beq hdir)
      dsimp only
      rw [if_pos hsame]
      exact ih seen hrest hseen

theorem withLibraries_returns (hhost : host.Caching opts ws) (hfiles : s.files = ws) (hs : s.Filed)
    {refs : List ProjectRef} (hrefs : ∀ ref ∈ refs, s.Made ref) :
    Obtains (fun _ => True) (withLibraries (host.engine opts) refs) s
      fun t found => ∀ ref ∈ found, t.Made ref := by
  induction refs generalizing s with
  | nil => exact .pure hs (List.forall_mem_nil _)
  | cons ref rest ih =>
    obtain ⟨href, hrest⟩ := List.forall_mem_cons.1 hrefs
    refine (allLibraries_returns hhost hfiles hs href).anywhere.bind
      fun libraries t _ ht hgrew hlibraries => ?_
    refine (ih (hgrew.files.trans hfiles) ht fun other hother =>
      hgrew.made (hrest other hother)).bind
      fun others u _ hu hgrew' hothers => .pure hu ?_
    refine List.forall_mem_append.2 ⟨List.forall_mem_cons.2 ⟨?_, fun other hother => ?_⟩, hothers⟩
    · exact hgrew'.made (hgrew.made href)
    · exact hgrew'.made (hlibraries other hother)

theorem checkDistinct_returns (hhost : host.Caching opts ws) (hs : Stocked host ws s)
    {roots : List ProjectRef} (hroots : ∀ root ∈ roots, s.Made root) :
    Obtains (fun _ => True) (checkDistinct (host.engine opts) roots) s fun _ _ => True := by
  rw [checkDistinct]
  by_cases hassertions : (host.engine opts).options.assertions = true
  · rw [if_pos hassertions]
    refine (withLibraries_returns hhost hs.files hs.filed hroots).bind
      fun found t hok ht _ hmade => ?_
    have hstocked := ((seeks_stocked (E := fun _ => True) (Careful.of_caching hhost)
      hhost.keepsProjects).resolves.withLibraries roots).keeps.ok hs hok
    have hnone : clash? found = none := clash?_eq_none fun ref href other hother =>
      hstocked.kept.eq_of_dir (hmade ref href) (hmade other hother)
    rw [hnone]
    exact .pure ht trivial
  · rw [if_neg hassertions]
    exact .pure hs.filed trivial

theorem resolve_stocked (hhost : host.Caching opts ws) (hproper : ws.Proper)
    (hs : Stocked host ws s) (stopped : State σ → Bool) (paths : List String) :
    Ensures ws.Stalls (Stocked host ws) (fun _ _ => True)
      (resolve (host.engine opts) stopped paths s) := by
  have hseeks := seeks_stocked (E := fun _ => True) (Careful.of_caching hhost) hhost.keepsProjects
  have hreturns := resolve_returns hhost hproper hseeks
    (fun _ _ hu => checkDistinct_returns hhost hu) hs.files hs.filed hs stopped paths
  exact (hreturns.and (.of_keeps (hseeks.resolve stopped paths) hs)).mono
    (fun _ hfault => hfault.1) (fun _ ht => ht.2) fun _ _ _ => trivial

end Discovery

/-- Asked for any directories whose links can be followed to an end, a client that keeps its
projects gives one project for each canonical path, with that path for its directory; canonical
paths are their own canonical paths; and a search for the projects of any paths returns unless it
never gets to the end of a link, so its consistency check never fails. -/
theorem one_project_per_directory (hhost : host.Caching opts ws) (hproper : ws.Proper)
    (hs : Stocked host ws s) :
    (∀ asks : List (String × String), (∀ ask ∈ asks, ws.linksEnd ask.1 = true) → ∃ refs t,
      asks.mapM (fun ask => (host.engine opts).projectAt ask.1 ask.2) s = .ok refs t ∧
      Stocked host ws t ∧
      List.Forall₂ (fun ask ref => (t.project ref).dir = ws.canonical ask.1) asks refs ∧
      ∀ first ∈ asks.zip refs, ∀ second ∈ asks.zip refs,
        (first.2 = second.2 ↔ ws.canonical first.1.1 = ws.canonical second.1.1)) ∧
    (∀ path, ws.canonical (ws.canonical path) = ws.canonical path) ∧
    ∀ (stopped : State σ → Bool) (paths : List String),
      (∃ roots t, Discovery.resolve (host.engine opts) stopped paths s = .ok roots t ∧
        Stocked host ws t) ∨
      ¬ ws.LinksEnd ∧
        ∃ t, Discovery.resolve (host.engine opts) stopped paths s = .error .endless t := by
  refine ⟨fun asks hends => ?_, ws.canonical_canonical, fun stopped paths =>
    (Discovery.resolve_stocked hhost hproper hs stopped paths).returns_or_stalls⟩
  obtain ⟨refs, t, hok, ht, -, hrefs⟩ := Engine.projectsAt_stocked hhost hends hs
  refine ⟨refs, t, hok, ht, hrefs.imp fun ask ref href => ?_, fun first hfirst second hsecond => ?_⟩
  · rw [href.2.project_eq.2]
    exact href.1
  · obtain ⟨hdir, hmade⟩ := List.forall₂_zip hrefs hfirst
    obtain ⟨hdir', hmade'⟩ := List.forall₂_zip hrefs hsecond
    rw [← hdir, ← hdir']
    exact ⟨congrArg ProjectRef.dir, ht.kept.eq_of_dir hmade hmade'⟩

def linked : Workspace :=
  { root := .folder "" true [.folder "w" true [
      .folder "a" true [.file Layout.manifest (.bytes [])], .link "b" "a", .link "c" "/w/b/../b",
      .link "loop" "loop/x", .link "gone" "nowhere"]]
    cwd := "/w" }

theorem one_project_per_directory_linked :
    linked.Proper ∧ linked.LinksEnd ∧
    (∃ refs t, [("/w/a", "/w"), ("/w/loop/x", "/"), ("c", "/"), ("/w/gone", "/"),
        ("loop/x/../x", "/w")].mapM (fun ask =>
          (idleHost.engine ⟨true⟩).projectAt ask.1 ask.2) (fresh {} linked) = .ok refs t ∧
      refs.map ProjectRef.index = [0, 1, 0, 2, 1]) ∧
    ∃ roots t, Discovery.resolve (idleHost.engine ⟨true⟩) State.canceled ["/w/c", "/w/b"]
      (fresh {} linked) = .ok roots t := by
  have hproper : linked.Proper := by decide +kernel
  have hlinks : linked.LinksEnd := Workspace.linksEnd_of_aims (by decide +kernel)
  obtain ⟨hasked, -, hfound⟩ := one_project_per_directory (caching_idle ⟨true⟩ linked)
    hproper (stocked_fresh idleHost {} linked {})
  refine ⟨hproper, hlinks, ?_, ?_⟩
  · obtain ⟨refs, t, hok, -⟩ := hasked _ fun ask _ => hlinks ask.1
    refine ⟨refs, t, hok, ?_⟩
    have hrun : (result? (List.mapM (fun ask => (idleHost.engine ⟨true⟩).projectAt ask.1 ask.2)
        [("/w/a", "/w"), ("/w/loop/x", "/"), ("c", "/"), ("/w/gone", "/"), ("loop/x/../x", "/w")]
        (fresh {} linked))).map (·.map ProjectRef.index) = some [0, 1, 0, 2, 1] := by
      decide +kernel
    rw [hok] at hrun
    exact Option.some.inj hrun
  · rcases hfound State.canceled ["/w/c", "/w/b"] with ⟨roots, t, hok, -⟩ | ⟨hendless, -⟩
    · exact ⟨roots, t, hok⟩
    · exact absurd hlinks hendless

end ProjectLint
