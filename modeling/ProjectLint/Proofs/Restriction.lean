/-
What a run that is pointed at files scans. Without a scope of its own a run infers one from the
files it is given, and a project that is pointed at files is scanned for resources in them only. The
stages of source code and of classes do not look at what a project is pointed at: once the inferred
scope has their category, they scan all they find.
-/
import ProjectLint.Proofs.Planning
import ProjectLint.Proofs.Trees

namespace ProjectLint

namespace Context.Kind

/-- Resources, sources and classes in folders. -/
def isStaged : Kind → Bool
  | .markup (some _) | .source | .bytecode none _ _ _ => true
  | _ => false

/-- The categories of code that such a file is scanned for. -/
def code : Kind → List Scope
  | .source => [.javaFile, .allJavaFiles]
  | .bytecode .. => [.classFile]
  | _ => []

end Context.Kind

/-- A file that is given or lies in a folder that is given. -/
def Path.Pointed (given : List String) (file : String) : Prop :=
  file ∈ given ∨ ∃ path ∈ given, Path.Beneath path file

/-- An action that keeps the file tree proper. -/
def Action.KeepsProper (action : Action) : Prop :=
  ∀ change, action = .changeFiles change → ∀ ws : Workspace, ws.Proper → (change ws).Proper

namespace Restriction

open Run Engine Journal

variable {roots : List ProjectRef} {found : State σ} {scope : ScopeSet} {before : List Entry}
  {s : State σ}

def Fits (roots : List ProjectRef) (found : State σ) (scope : ScopeSet)
    (context : Context) : Prop :=
  context.project ∈ roots → context.kind.isStaged = true →
    ∀ given, (found.project context.project).subset = some given →
      context.kind.code.any scope.contains = true ∨ Path.Pointed given context.file

structure Restricted (roots : List ProjectRef) (found : State σ) (scope : ScopeSet)
    (before : List Entry) (s : State σ) : Prop where
  proper : s.files.Proper
  within : ∀ category, s.scope.contains category = true → scope.contains category = true
  pointed : ∀ root ∈ roots, s.Has root ∧ (s.project root).subset = (found.project root).subset
  fits : ∃ new, s.written = before ++ new ∧ ∀ context ∈ scans new, Fits roots found scope context

namespace Restricted

theorem write (h : Restricted roots found scope before s) {entry : Entry}
    (hentry : ∀ context, entry.scan? = some context → Fits roots found scope context) :
    Restricted roots found scope before (s.write entry) := by
  obtain ⟨new, hnew, hfits⟩ := h.fits
  refine { h with fits := ⟨new ++ [entry], ?_, fun context hcontext => ?_⟩ }
  · rw [State.written_write, hnew, List.append_assoc]
  · rw [scans, List.filterMap_append, List.mem_append] at hcontext
    rcases hcontext with hold | hlast
    · exact hfits context hold
    · obtain ⟨last, hmem, hscan⟩ := List.mem_filterMap.1 hlast
      exact hentry context (List.mem_singleton.1 hmem ▸ hscan)

theorem write_aside (h : Restricted roots found scope before s) {entry : Entry}
    (hentry : entry.scan? = none) : Restricted roots found scope before (s.write entry) :=
  h.write fun _ hscan => absurd (hentry.symm.trans hscan) (Option.some_ne_none _).symm

theorem changed (h : Restricted roots found scope before s) (index : Nat)
    {change : Project → Project} (hchange : ∀ p, (change p).subset = p.subset) :
    Restricted roots found scope before (s.changed index change) := by
  refine { h with pointed := fun root hroot => ?_ }
  obtain ⟨hhas, hsubset⟩ := h.pointed root hroot
  refine ⟨(State.has_changed _ _).2 hhas, ?_⟩
  rw [State.project_modify, ← hsubset]
  by_cases hchanged : index = root.index ∧ root.index < s.projects.size
  · rw [if_pos hchanged, hchange]
  · rw [if_neg hchanged]

theorem added (h : Restricted roots found scope before s) (project : Project) :
    Restricted roots found scope before (s.extended project) := by
  refine { h with pointed := fun root hroot => ?_ }
  obtain ⟨hhas, hsubset⟩ := h.pointed root hroot
  exact ⟨State.has_push project hhas, by rw [State.project_push project hhas, hsubset]⟩

variable {host : Host σ}

theorem hears (hhost : host.KeepsTo Action.KeepsProper) :
    Hears host (Restricted roots found scope before) Action.KeepsProper fun _ => True where
  called := fun _ hs => hs.write_aside rfl
  logged := fun _ _ hs => hs.write_aside rfl
  observed := fun _ _ hs => hs.write_aside rfl
  submitted := fun _ _ _ hs => hs.write_aside rfl
  requested := fun _ _ _ _ _ _ hs => { hs.write_aside rfl with }
  configured := fun _ _ _ _ _ _ hs => hs.changed _ fun _ => rfl
  files := fun change _ hmay hs => { hs with proper := hmay change rfl _ hs.proper }
  heard := fun hs => hs.write_aside rfl

theorem lists_entry {dir file : String} (h : Lists (Restricted roots found scope before) dir file) :
    ∃ name, Path.IsName name ∧ file = Path.join dir name := by
  obtain ⟨s, hs, hfile⟩ := h
  exact Workspace.mem_list hs.proper hfile

theorem pointed_of_placed {project : Project} {folder : FolderType} {file : String}
    {given : List String}
    (h : Placed (Restricted roots found scope before) project folder file)
    (hgiven : project.subset = some given) : Path.Pointed given file := by
  have hsame : ∀ {others path}, project.subset = some others → path ∈ others → path ∈ given :=
    fun hothers hpath => Option.some.inj (hothers.symm.trans hgiven) ▸ hpath
  have hlies : ∀ {dir}, Lies (Restricted roots found scope before) dir folder file →
      ∃ name, Path.IsName name ∧ file = Path.join dir name := by
    rintro dir ⟨-, s, hs, hlisted, -⟩
    exact lists_entry ⟨s, hs, hlisted⟩
  cases h with
  | itself hothers hfile => exact .inl (hsame hothers hfile)
  | typed hothers hdir hfile =>
    obtain ⟨name, hname, rfl⟩ := hlies hfile
    exact .inr ⟨_, hsame hothers hdir, .entry _ hname⟩
  | within hothers hresources hdir hfile =>
    obtain ⟨name, hname, rfl⟩ := lists_entry hdir
    obtain ⟨last, hlast, rfl⟩ := hlies hfile
    exact .inr ⟨_, hsame hothers hresources, (Path.Beneath.entry _ hname).deeper hlast⟩
  | whole hnone => cases hnone.symm.trans hgiven

theorem any_of_within (h : Restricted roots found scope before s) {categories : List Scope}
    (hany : categories.any s.scope.contains = true) : categories.any scope.contains = true := by
  obtain ⟨category, hmem, hcontains⟩ := List.any_eq_true.1 hany
  exact List.any_eq_true.2 ⟨category, hmem, h.within category hcontains⟩

theorem upkeep (hhost : host.KeepsTo Action.KeepsProper) (opts : Options) :
    Upkeep (host.engine opts) (Restricted roots found scope before) (fun _ => True)
      (Fits roots found scope) := by
  have hears : Hears host (Restricted roots found scope before) Action.KeepsProper fun _ => True :=
    hears hhost
  have hinvoke : ∀ call, Upholds (Restricted roots found scope before) (fun _ => True)
      ((host.engine opts).invoke call) := by
    intro call s hs
    have hend := hears.invoke opts (hhost call _ _) (hs.write_aside rfl)
    generalize (host.engine opts).invoke call s = r at hend ⊢
    cases r with
    | ok _ _ => exact .ok hend
    | error _ _ => exact .error trivial hend
  have hserving : Serving (host.engine opts) (Restricted roots found scope before)
      fun _ => True := ⟨fun _ _ => hinvoke _, fun _ hs => hs.write_aside rfl⟩
  have hfiling : Filing (host.engine opts) (Restricted roots found scope before)
      fun _ => True := { hserving with
    changed := fun index _ _ hchange hs => hs.changed index hchange
    added := fun project _ hs => hs.added project
    cached := fun _ _ hs => { hs with }
    endless := trivial }
  exact {
    call := fun _ => hinvoke _
    risky := hinvoke
    write := fun hentry hs => hs.write_aside hentry
    scanned := fun hcontext hs => hs.write fun _ hscan => Option.some.inj hscan ▸ hcontext
    due := fun {pass file kind} hdue hroot hstaged given hsubset => by
      obtain ⟨⟨s, hs, hscope⟩, hreason⟩ := hdue
      cases hreason with
      | manifest => cases hstaged
      | resource _ hplaced =>
        obtain ⟨t, ht, hplaced⟩ := hplaced
        exact .inr (pointed_of_placed hplaced ((ht.pointed _ hroot).2.trans hsubset))
      | source => exact .inl (hs.any_of_within hscope)
      | folderClass => exact .inl (hs.any_of_within hscope)
      | archiveClass => exact .inl (hs.any_of_within hscope)
      | rules => cases hstaged
    changed := fun index _ _ hchange hs => hs.changed index fun p => (hchange p).1
    libraries := hfiling.libraries
    serials := fun _ _ hs => { hs with }
    schedule := fun _ _ hs => { hs with }
    memo := fun _ _ hs => { hs with }
    reported := fun hs => { hs with }
    narrowed := fun {s} hs => { hs with
      within := fun category hcategory => by
        have hboth : (s.scope.inter _).contains category = true := hcategory
        rw [ScopeSet.contains_inter, Bool.and_eq_true_iff] at hboth
        exact hs.within category hboth.1 }
    restored := fun hs₀ hs => { hs with within := hs₀.within } }

end Restricted

/-! ## A whole run -/

variable (host : Host σ) (opts : Options)

theorem finds_proper (hhost : host.KeepsTo Action.KeepsProper) :
    Finds host (fun s => s.files.Proper) Action.KeepsProper fun _ => True where
  files := fun change _ hmay hs => hmay change rfl _ hs

theorem scans_of_quiet {s s' : State σ} (h : State.Later Quiet s s') :
    ∃ new, s'.written = s.written ++ new ∧ scans new = [] := by
  obtain ⟨new, hnew, hall⟩ := h.wrote
  refine ⟨new, hnew, List.filterMap_eq_nil_iff.2 fun entry hentry => ?_⟩
  have hincidental := (hall entry hentry).resolve_right id
  cases entry with
  | fired => cases hincidental
  | _ => rfl

/-- The scope that the given files of roots suggest. -/
def inferred (roots : List ProjectRef) (found : State σ) : ScopeSet :=
  Layout.inferScope (roots.map fun ref => (found.project ref).subset)

/-- While a root is pointed at files, the stages of resources, source code and class folders scan
only these and what lies beneath them, where the inferred scope has no code of their kind. -/
theorem analyze_keeps_to_subset {paths : List String} {elapsed : Int} {s found : State σ}
    {roots : List ProjectRef} {new : List Entry} {context : Context} {given : List String}
    (hs : s.Sound) (hfiles : s.files.Proper)
    (hhost : ∀ call moment memory,
      (host.react call moment memory).Within Action.KeepsProper fun _ => True)
    (hroots : Discovery.resolve (host.engine opts) State.canceled paths (s.begun none) =
      .ok roots found)
    (hnew : (endState ((host.engine opts).analyze paths none elapsed s)).written = s.written ++ new)
    (hscan : context ∈ scans new) (hroot : context.project ∈ roots)
    (hgiven : (found.project context.project).subset = some given)
    (hstage : context.kind.isStaged = true)
    (hcode : context.kind.code.any (inferred roots found).contains = false) :
    Path.Pointed given context.file := by
  have hquiet := frames_resolve host opts State.canceled paths (s.begun none)
  rw [hroots, endState_ok] at hquiet
  obtain ⟨search, hsearch, hnone⟩ := scans_of_quiet hquiet
  have hbegun : (s.begun none).Sound := ⟨hs.cache, hs.libraries⟩
  cases hcanceled : found.canceled with
  | true =>
    rw [analyze_of_canceled hroots hcanceled, endState_ok, hsearch] at hnew
    rw [← List.append_cancel_left hnew, hnone] at hscan
    exact absurd hscan List.not_mem_nil
  | false =>
    cases roots with
    | nil => exact absurd hroot List.not_mem_nil
    | cons first rest =>
      have hproper : found.files.Proper :=
        ((finds_proper host hhost).resolve opts State.canceled paths).ok
          (s := s.begun none) hfiles hroots
      have hready : Restricted (first :: rest) found (inferred (first :: rest) found)
          found.written
          { found.ready none (first :: rest) with
            schedule := some {}, memo := none, cancelReported := false } := by
        refine ⟨hproper, fun _ => id, fun root hroot => ⟨?_, rfl⟩, [],
          (List.append_nil _).symm, List.forall_mem_nil _⟩
        obtain ⟨refs, hrefs⟩ := Discovery.resolve_knows hbegun hroots root hroot
        exact State.has_of_libraries hrefs
      have hentered : Restricted (first :: rest) found (inferred (first :: rest) found)
          found.written ((found.ready none (first :: rest)).entered (rest.length + 1)) :=
        hready.write_aside rfl
      rw [analyze_of_cons hroots hcanceled] at hnew
      obtain ⟨check, hcheck, hfits⟩ :=
        ((Restricted.upkeep hhost opts).checkAll first rest elapsed hentered).endState.fits
      have hsplit : new = search ++ check := by
        rw [hcheck, hsearch, List.append_assoc] at hnew
        exact (List.append_cancel_left hnew).symm
      rw [hsplit, scans, List.filterMap_append, ← scans, ← scans, hnone, List.nil_append] at hscan
      rcases hfits context hscan hroot hstage given hgiven with hany | hpointed
      · rw [hcode] at hany
        cases hany
      · exact hpointed

def watchfulHost : Host Scripted.Memory :=
  { idleHost with scans := fun _ _ => true }

theorem watchfulHost_keepsProper (call : Call) (moment : Moment) (memory : Scripted.Memory) :
    (watchfulHost.react call moment memory).Within Action.KeepsProper fun _ => True := by
  cases call <;> exact ⟨trivial, fun _ => trivial⟩

def furnished (category : Scope) : State Scripted.Memory :=
  fresh {} ⟨.folder "" true [.folder "w" true [.folder "a" true [
    .file "AndroidManifest.xml" (.bytes []),
    .folder "res" true [.folder "layout" true [.file "main.xml" (.bytes [])],
      .folder "values" true [.file "strings.xml" (.bytes [])]],
    .folder "src" true [.file "F.java" (.bytes []), .file "G.java" (.bytes [])]]]], "/w"⟩
    ⟨[{ manifestIssue with scope := .ofList [category] }]⟩

def pointedRun (category : Scope) (path : String) : Outcome Scripted.Memory Unit :=
  (watchfulHost.engine ⟨true⟩).analyze [path] none 0 (furnished category)

def pointedSearch (category : Scope) (path : String) : Outcome Scripted.Memory (List ProjectRef) :=
  Discovery.resolve (watchfulHost.engine ⟨true⟩) State.canceled [path]
    ((furnished category).begun none)

/-- A run that is pointed at one of the folders of resources scans a file in it. -/
theorem analyze_keeps_to_subset_layout :
    ∃ context ∈ scans (endState (pointedRun .resourceFile "a/res/layout")).written,
      context.file = "/w/a/res/layout/main.xml" ∧
      Path.Pointed ["/w/a/res/layout"] context.file := by
  have hroots : result? (pointedSearch .resourceFile "a/res/layout") = some [⟨0, "/w/a"⟩] := by
    decide +kernel
  have hscans : (scans (endState (pointedRun .resourceFile "a/res/layout")).written).map
      (fun context => (context.project, context.file, context.kind.isStaged, context.kind.code)) =
        [(⟨0, "/w/a"⟩, "/w/a/res/layout/main.xml", true, [])] := by
    decide +kernel
  obtain ⟨context, hcontext, hfacts⟩ := List.mem_map.1 (hscans ▸ List.mem_singleton_self _)
  obtain ⟨hproject, hfile, hstaged, hcode⟩ :
      context.project = ⟨0, "/w/a"⟩ ∧ context.file = "/w/a/res/layout/main.xml" ∧
        context.kind.isStaged = true ∧ context.kind.code = [] := by
    simpa only [Prod.mk.injEq] using hfacts
  refine ⟨context, hcontext, hfile, ?_⟩
  refine analyze_keeps_to_subset watchfulHost ⟨true⟩ (sound_fresh _ _ _) (by decide +kernel)
    watchfulHost_keepsProper (eq_ok_of_result? hroots) (List.nil_append _).symm hcontext ?_ ?_
    hstaged ?_
  · rw [hproject]
    exact List.mem_singleton_self _
  · rw [hproject]
    decide +kernel
  · rw [hcode]
    rfl

/-- A run that is pointed at one file of source code scans the other one too. -/
theorem source_leaves_subset :
    ∃ roots found, pointedSearch .javaFile "a/src/F.java" = .ok roots found ∧
      (found.project ⟨0, "/w/a"⟩).subset = some ["/w/a/src/F.java"] ∧
      result? (pointedRun .javaFile "a/src/F.java") = some () ∧
      ∃ context ∈ scans (endState (pointedRun .javaFile "a/src/F.java")).written,
        context.project ∈ roots ∧ context.project = ⟨0, "/w/a"⟩ ∧
        context.kind.isStaged = true ∧ ¬ Path.Pointed ["/w/a/src/F.java"] context.file := by
  have hroots : result? (pointedSearch .javaFile "a/src/F.java") = some [⟨0, "/w/a"⟩] := by
    decide +kernel
  have hscans : (scans (endState (pointedRun .javaFile "a/src/F.java")).written).map
      (fun context => (context.project, context.file, context.kind.isStaged)) =
        [(⟨0, "/w/a"⟩, "/w/a/src/F.java", true), (⟨0, "/w/a"⟩, "/w/a/src/G.java", true)] := by
    decide +kernel
  obtain ⟨context, hcontext, hfacts⟩ :=
    List.mem_map.1 (hscans ▸ List.mem_cons_of_mem _ (List.mem_singleton_self _))
  obtain ⟨hproject, hfile, hstaged⟩ :
      context.project = ⟨0, "/w/a"⟩ ∧ context.file = "/w/a/src/G.java" ∧
        context.kind.isStaged = true := by
    simpa only [Prod.mk.injEq] using hfacts
  refine ⟨_, _, eq_ok_of_result? hroots, by decide +kernel, by decide +kernel, context, hcontext,
    ?_, hproject, hstaged, ?_⟩
  · rw [hproject]
    exact List.mem_singleton_self _
  · rw [hfile]
    have hnames : ∀ name ∈ ["w", "a", "src", "F.java"], Path.IsName name := by decide
    rintro (hmem | ⟨path, hpath, hbeneath⟩)
    · exact absurd hmem (by decide)
    · rw [List.mem_singleton.1 hpath] at hbeneath
      have hbelow : Path.Beneath (Path.ofParts ["w", "a", "src", "F.java"]) "/w/a/src/G.java" :=
        hbeneath
      obtain ⟨more, -, hmore, heq⟩ := hbelow.ofParts hnames
      have hparts := congrArg (Path.absoluteParts "/") heq
      rw [Path.absoluteParts_ofParts _ (List.forall_mem_append.2 ⟨hnames, hmore⟩)] at hparts
      have hlength : ["w", "a", "src", "G.java"] = ["w", "a", "src", "F.java"] ++ more := hparts
      simp at hlength

end Restriction
end ProjectLint
