/-
The libraries that the phases of a project pass over. A phase goes over what the project references
itself, in the order of the references and as often as they lead to a directory. So no library is
passed over twice, and the project is not passed over as a library of its own, where the references
lead to different directories and none leads back; and only there, as nothing but the closure over
all references looks at what was seen before.
-/
import ProjectLint.Proofs.Allotment
import ProjectLint.Proofs.Charts

namespace ProjectLint

namespace Journal

def Entry.pass? : Entry → Option ProjectRef
  | .fired .scanningLibrary (some context) _ => some context.project
  | _ => none

/-- The projects and libraries that were passed over, in order. -/
def passes (entries : List Entry) : List ProjectRef :=
  entries.filterMap Entry.pass?

end Journal

namespace LibraryPasses

open Run Engine Journal

variable {host : Host σ} {opts : Options} {ws : Workspace} {root : ProjectRef}
  {refs : List ProjectRef} {s t : State σ}

def passDir? (entry : Entry) : Option String :=
  entry.pass?.map ProjectRef.dir

theorem passDir?_of_aside {entry : Entry} (h : entry.isAside = true) : passDir? entry = none := by
  cases entry with
  | fired event context moment =>
    cases event with
    | scanningLibrary =>
      cases context with
      | none => rfl
      | some => cases h
    | _ => rfl
  | _ => rfl

/-! ## One phase -/

def Ahead (root : ProjectRef) (refs : List ProjectRef) (start : List Entry) (rest : List String)
    (s : State σ) : Prop :=
  (s.project root).libraries = some refs ∧
    Left Entry.phaseOf? passDir? (refs.map ProjectRef.dir) start rest s

theorem lenient_ahead (root : ProjectRef) (refs : List ProjectRef) (start : List Entry) :
    Lenient (Ahead (σ := σ) root refs start) :=
  fun _ _ _ hless hs => ⟨hs.1, hs.2.less hless⟩

theorem ahead_of_later {start : List Entry} {rest : List String} {announced : Entry → Prop}
    (hs : Ahead root refs start rest s) (h : State.Later announced s t)
    (hannounced : ∀ entry, announced entry → entry.phaseOf? = none ∧ passDir? entry = none) :
    Ahead root refs start rest t := by
  obtain ⟨more, hmore, hall⟩ := h.wrote
  refine ⟨h.libraries hs.1, hs.2.append hmore fun entry hentry => ?_⟩
  rcases hall entry hentry with hincidental | hown
  · cases entry with
    | fired => cases hincidental
    | _ => exact ⟨rfl, rfl⟩
  · exact hannounced entry hown

theorem ahead_of_quiet {start : List Entry} {rest : List String} (h : State.Later Quiet s t)
    (hs : Ahead root refs start rest s) : Ahead root refs start rest t :=
  ahead_of_later hs h fun _ hquiet => hquiet.elim

theorem keeps_of_quiet {x : Run σ α} (h : Frames Quiet x) (start : List Entry)
    (rest : List String) : Keeps (Ahead root refs start rest) x :=
  fun s hs => ahead_of_quiet (h s) hs

theorem keeps_checkFiles (host : Host σ) (opts : Options) (pass : Pass) (start : List Entry)
    (rest : List String) :
    Keeps (Ahead root refs start rest) ((host.engine opts).checkFiles pass) := by
  refine fun s hs => ahead_of_later hs (frames_checkFiles host opts pass s) ?_
  rintro _ ⟨file, kind, moment, rfl⟩
  exact ⟨rfl, rfl⟩

theorem spends_checkLibrary (host : Host σ) (opts : Options) (detectors : List Detector)
    (library : ProjectRef) (start : List Entry) :
    Spends (Ahead root refs start) ((host.engine opts).checkLibrary detectors root library)
      [library.dir] := by
  have hI := lenient_ahead (σ := σ) root refs start
  have htell : ∀ hook, Spends (Ahead root refs start)
      ((host.engine opts).tellUntilCanceled detectors hook) [] :=
    fun hook => .of_keeps (keeps_of_quiet (frames_tellUntilCanceled host opts detectors hook) start)
  have hfire : Spends (Ahead root refs start)
      ((host.engine opts).fire .scanningLibrary (some (libraryContext library root)))
      [library.dir] := by
    intro rest s hs
    obtain ⟨s₁, hfire, hlater⟩ := fire_eq_ok host opts .scanningLibrary
      (some (libraryContext library root)) s
    rw [hfire]
    exact ahead_of_quiet hlater ⟨hs.1, Left.spend hs.2 rfl rfl⟩
  have hfiles : Spends (Ahead root refs start) ((host.engine opts).checkFiles ⟨library, root⟩) [] :=
    .of_keeps (keeps_checkFiles host opts _ start)
  exact hfire.bind hI fun _ => (htell _).bind hI fun _ => .unlessCanceled hI <|
    hfiles.bind hI fun _ => (htell _).unlessCanceled hI

theorem spends_checkAnnounced (host : Host σ) (opts : Options) (detectors : List Detector)
    (start : List Entry) :
    Spends (Ahead root refs start) ((host.engine opts).checkAnnounced root detectors)
      (refs.map ProjectRef.dir) := by
  have hI := lenient_ahead (σ := σ) root refs start
  have htell : ∀ hook, Spends (Ahead root refs start)
      ((host.engine opts).tellUntilCanceled detectors hook) [] :=
    fun hook => .of_keeps (keeps_of_quiet (frames_tellUntilCanceled host opts detectors hook) start)
  have hfiles : Spends (Ahead root refs start) ((host.engine opts).checkFiles ⟨root, root⟩) [] :=
    .of_keeps (keeps_checkFiles host opts _ start)
  have hlibraries : Spends (Ahead root refs start)
      ((host.engine opts).checkLibraries detectors root) (refs.map ProjectRef.dir) := by
    refine .inspect fun _ => .ite (fun _ => .pure hI ()) fun _ => ?_
    refine .after hI (Q := fun found => found = refs)
      (keeps_of_quiet (frames_libraries host opts root) start) (fun hs hrun => ?_) ?_
    · rw [libraries, bind_of_ok (x := getProject root) rfl, hs.1] at hrun
      cases hrun
      rfl
    · rintro found rfl
      rw [List.map_eq_flatMap]
      exact .eachUntilCanceled hI found fun library _ =>
        spends_checkLibrary host opts detectors library start
  exact (htell _).bind hI fun _ => .unlessCanceled hI <| hfiles.bind hI fun _ =>
    .unlessCanceled hI <| hlibraries.bind_free hI fun _ => (htell _).unlessCanceled hI

theorem sectioned_checkPhase (host : Host σ) (opts : Options) {allotted : ProjectRef → List String}
    {before : List Entry} (hrefs : (s.project root).libraries = some refs)
    (hallotted : refs.map ProjectRef.dir = allotted root)
    (hs : Sectioned Entry.phaseOf? (Keeping passDir? allotted) before s) :
    Sectioned Entry.phaseOf? (Keeping passDir? allotted) before
      (endState ((host.engine opts).checkPhase root s)) := by
  obtain ⟨s₁, hfire, hlater⟩ := fire_eq_ok host opts .scanningProject (some (projectContext root)) s
  rw [checkPhase_eq, bind_of_ok hfire]
  let entry : Entry := .fired .scanningProject (some (projectContext root)) s.moment
  have hbegun : Ahead root refs (s.write entry).written (refs.map ProjectRef.dir) s₁ :=
    ahead_of_quiet hlater ⟨hrefs, .full _⟩
  have hdone := spends_checkAnnounced host opts s.selection.detectors (s.write entry).written []
    s₁ (by rwa [List.append_nil])
  have hleft := hdone.2
  rw [hallotted] at hleft
  exact hleft.sectioned hs rfl fun _ => id

/-! ## A run -/

/-- In every phase of a project the libraries that are passed over are among those that its
directory references, in order and no more often. So they are all different, and different from the
project, where the references lead to different directories and not back to it. -/
theorem passes_sublist (host : Host σ) (opts : Options) {paths : List String}
    {scope : Option ScopeSet} {elapsed : Int} {new during : List Entry}
    (hs : Charted host s.files s)
    (hhost : ∀ call moment memory,
      (host.react call moment memory).Within Action.KeepsFiles fun _ => True)
    (hnew : (endState ((host.engine opts).analyze paths scope elapsed s)).written =
      s.written ++ new)
    (hphase : (root, during) ∈ sections Entry.phaseOf? new) :
    ((passes during).map ProjectRef.dir).Sublist (s.files.libraryDirs root.dir) ∧
      ((s.files.libraryDirs root.dir).Nodup → root.dir ∉ s.files.libraryDirs root.dir →
        (passes during).Nodup ∧ root ∉ passes during) := by
  have hall := sections_analyze Entry.phaseOf?
    (Keeping passDir? fun root => s.files.libraryDirs root.dir) hs.sound
    (fun entry => entry.phaseOf?_of_aside) ?_ ?_ hnew
  · have hsublist : ((passes during).map ProjectRef.dir).Sublist
      (s.files.libraryDirs root.dir) := by
      rw [passes, List.map_filterMap]
      exact hall _ hphase
    refine ⟨hsublist, fun hnodup hown => ⟨(hsublist.nodup hnodup).of_map _, fun hroot => hown ?_⟩⟩
    exact hsublist.subset (List.mem_map_of_mem hroot)
  · exact fun root during entry haside hkept => hkept.aside (passDir?_of_aside haside)
  · intro roots found hresolve
    have hcharted : Charted host s.files (s.begun scope) := { hs with }
    let known (root : ProjectRef) := (found.project root).libraries.getD []
    have hknown : ∀ root ∈ roots, (found.project root).libraries = some (known root) ∧
        (known root).map ProjectRef.dir = s.files.libraryDirs root.dir := by
      intro root hroot
      obtain ⟨refs, hrefs, hdirs, -⟩ :=
        Discovery.charted_links (.of_within hhost opts _) hcharted hresolve hroot
      have hsame : known root = refs := by simp only [known, hrefs, Option.getD_some]
      exact hsame ▸ ⟨hrefs, hdirs⟩
    have hlasts : Lasts fun t : State σ =>
        ∀ root ∈ roots, (t.project root).libraries = some (known root) :=
      lasts_forall roots fun root => lasts_libraries root (known root)
    refine ⟨_, _, _, hlasts.settles host, fun root hroot => (hknown root hroot).1, ?_⟩
    rintro before root config t hroot ⟨ht, hsectioned⟩ - - -
    exact ⟨hlasts.checkPhase host opts root t ht,
      sectioned_checkPhase host opts (ht root hroot) (hknown root hroot).2 hsectioned⟩

def referring (properties : String) : State Scripted.Memory :=
  fresh {} (sideBySide [("a", properties), ("b", ""), ("c", "")]) ⟨[manifestIssue]⟩

def referringRun (properties : String) : Outcome Scripted.Memory Unit :=
  (idleHost.engine ⟨false⟩).analyze ["a"] (some (.ofList [.manifest, .javaFile])) 0
    (referring properties)

def passLists (entries : List Entry) : List (ProjectRef × List ProjectRef) :=
  (sections Entry.phaseOf? entries).map fun part => (part.1, passes part.2)

/-- Where two references lead to two libraries, the phase passes over each of them once. -/
theorem passes_sublist_two :
    ∃ during, (⟨0, "/w/a"⟩, during) ∈ sections Entry.phaseOf? (endState (referringRun
        "android.library.reference.1=../b\nandroid.library.reference.2=../c")).written ∧
      passes during = [⟨1, "/w/b"⟩, ⟨2, "/w/c"⟩] ∧
      (passes during).Nodup ∧ (⟨0, "/w/a"⟩ : ProjectRef) ∉ passes during := by
  have hlists : passLists (endState (referringRun
      "android.library.reference.1=../b\nandroid.library.reference.2=../c")).written =
        [(⟨0, "/w/a"⟩, [⟨1, "/w/b"⟩, ⟨2, "/w/c"⟩])] := by
    decide +kernel
  obtain ⟨during, hpart, hpasses⟩ := exists_section (hlists ▸ List.mem_singleton_self _)
  have hnew : (endState (referringRun
      "android.library.reference.1=../b\nandroid.library.reference.2=../c")).written = (referring
        "android.library.reference.1=../b\nandroid.library.reference.2=../c").written ++ _ :=
    (List.nil_append _).symm
  exact ⟨during, hpart, hpasses, (passes_sublist idleHost ⟨false⟩ (charted_fresh _ _ _ _)
    (within_idle _) hnew hpart).2 (by decide +kernel) (by decide +kernel)⟩

/-- A library that is referenced twice is passed over twice, and a project that references itself is
passed over as a library of its own. -/
theorem repeated_reference_repeats_pass :
    (∃ during, (⟨0, "/w/a"⟩, during) ∈ sections Entry.phaseOf? (endState (referringRun
        "android.library.reference.1=../b\nandroid.library.reference.2=../b")).written ∧
      ¬ (passes during).Nodup) ∧
    ∃ during, (⟨0, "/w/a"⟩, during) ∈ sections Entry.phaseOf? (endState (referringRun
        "android.library.reference.1=.")).written ∧
      (⟨0, "/w/a"⟩ : ProjectRef) ∈ passes during := by
  have htwice : passLists (endState (referringRun
      "android.library.reference.1=../b\nandroid.library.reference.2=../b")).written =
        [(⟨0, "/w/a"⟩, [⟨1, "/w/b"⟩, ⟨1, "/w/b"⟩])] := by
    decide +kernel
  have hitself : passLists (endState (referringRun "android.library.reference.1=.")).written =
      [(⟨0, "/w/a"⟩, [⟨0, "/w/a"⟩])] := by
    decide +kernel
  constructor
  · obtain ⟨during, hpart, hpasses⟩ := exists_section (htwice ▸ List.mem_singleton_self _)
    exact ⟨during, hpart, by rw [hpasses]; decide⟩
  · obtain ⟨during, hpart, hpasses⟩ := exists_section (hitself ▸ List.mem_singleton_self _)
    exact ⟨during, hpart, by rw [hpasses]; exact List.mem_singleton_self _⟩

end LibraryPasses
end ProjectLint
