import Mathlib.Data.List.Forall2
import Storyline.Files.Disk
import Storyline.Library.Folder

/-!
# Loading a folder

A folder is loaded all or nothing, in whatever order its names are listed.

* `Graph.Loads`, `Graph.Fails`: what comes of the file at a path.
* `Graph.Outcome`: what comes of files one after the other.
* `Graph.loadFolder_exact`: what comes of a folder.
-/

namespace Storyline

/-! ## Paths -/

theorem Path.hasExtension_iff (extension name : String) :
    hasExtension extension name ↔ ∃ stem, stem ≠ "" ∧ name = stem ++ "." ++ extension := by
  unfold hasExtension
  rw [Bool.and_eq_true, List.isSuffixOf_iff_suffix, decide_eq_true_iff, ← String.length_toList]
  constructor
  · rintro ⟨⟨stem, split⟩, longer⟩
    refine ⟨String.ofList stem, ?_, ?_⟩
    · intro empty
      obtain rfl : stem = [] := by simpa using empty
      rw [← split] at longer
      exact Nat.lt_irrefl _ longer
    · apply String.toList_injective
      rw [← split]
      simp
  · rintro ⟨stem, filled, rfl⟩
    have filled : 0 < stem.toList.length := List.length_pos_iff.2 (by simpa using filled)
    have whole : (stem ++ "." ++ extension).toList = stem.toList ++ '.' :: extension.toList := by
      simp
    rw [whole, List.length_append]
    exact ⟨List.suffix_append .., Nat.lt_add_of_pos_left filled⟩

namespace Graph

/-! ## The order of the paths -/

theorem pathsIn_perm (folder : String) (names : List String) :
    (pathsIn folder names).Perm
      ((names.filter (Path.hasExtension "json")).map (Path.join folder)) :=
  List.mergeSort_perm ..

theorem pathsIn_ascending (folder : String) (names : List String) :
    (pathsIn folder names).Pairwise (· ≤ ·) := by
  have sorted : (pathsIn folder names).Pairwise fun a b => decide (a ≤ b) = true :=
    List.pairwise_mergeSort (by simpa using fun a b c => String.le_trans)
      (by simpa using String.le_total) _
  exact sorted.imp of_decide_eq_true

theorem eq_pathsIn_iff {folder : String} {names paths : List String} :
    paths = pathsIn folder names ↔
      paths.Perm ((names.filter (Path.hasExtension "json")).map (Path.join folder)) ∧
        paths.Pairwise (· ≤ ·) := by
  constructor
  · rintro rfl
    exact ⟨pathsIn_perm folder names, pathsIn_ascending folder names⟩
  · rintro ⟨perm, ascending⟩
    refine List.Perm.eq_of_pairwise (fun _ _ _ _ => String.le_antisymm) ascending
      (pathsIn_ascending folder names) (perm.trans (pathsIn_perm folder names).symm)

/-! ## Files -/

variable {contents contents' : String → Except FileFault String} {path : String}
  {paths : List String} {g g' : Graph} {failure failure' : Failure}

/-- The file at a path describes a graph. -/
def Loads (contents : String → Except FileFault String) (path : String) (g : Graph) : Prop :=
  ∃ text, contents path = .ok text ∧ Graph.read text = .ok g

/-- Why the file at a path describes none. -/
inductive Fails (contents : String → Except FileFault String) (path : String) : Failure → Prop where
  | unread {fault : FileFault} (refused : contents path = .error fault) :
      Fails contents path (.graphUnread path fault)
  | notLoaded {text : String} {fault : GraphFault} (found : contents path = .ok text)
      (faulty : Graph.read text = .error fault) :
      Fails contents path (.graphNotLoaded path fault)

theorem ofContents_eq_ok_iff :
    ofContents path (contents path) = .ok g ↔ Loads contents path g := by
  cases found : contents path with
  | error fault => simp [ofContents, Loads, found]
  | ok text =>
    cases read : Graph.read text <;> simp [ofContents, Loads, found, read, Except.mapError]

theorem ofContents_eq_error_iff :
    ofContents path (contents path) = .error failure ↔ Fails contents path failure := by
  constructor
  · intro failed
    cases found : contents path with
    | error fault =>
      rw [found] at failed
      obtain rfl := Except.error.inj failed
      exact .unread found
    | ok text =>
      cases read : Graph.read text with
      | error fault =>
        rw [found, ofContents, read] at failed
        obtain rfl := Except.error.inj failed
        exact .notLoaded found read
      | ok g =>
        rw [found, ofContents, read] at failed
        exact absurd failed nofun
  · intro fails
    cases fails with
    | unread refused => rw [refused, ofContents]
    | notLoaded found faulty => rw [found, ofContents, faulty, Except.mapError]

theorem Loads.unique (h : Loads contents path g) (h' : Loads contents path g') : g = g' :=
  Except.ok.inj ((ofContents_eq_ok_iff.2 h).symm.trans (ofContents_eq_ok_iff.2 h'))

theorem Fails.unique (h : Fails contents path failure) (h' : Fails contents path failure') :
    failure = failure' :=
  Except.error.inj ((ofContents_eq_error_iff.2 h).symm.trans (ofContents_eq_error_iff.2 h'))

theorem Loads.not_fails (h : Loads contents path g) : ¬ Fails contents path failure :=
  fun h' => nomatch (ofContents_eq_ok_iff.2 h).symm.trans (ofContents_eq_error_iff.2 h')

/-- What comes of the files at some paths: all their graphs, or the first failure. -/
def Outcome (contents : String → Except FileFault String) (paths : List String) :
    Except Failure (List Graph) → Prop
  | .ok graphs => List.Forall₂ (Loads contents) paths graphs
  | .error failure => ∃ before path after, paths = before ++ path :: after ∧
      (∀ p ∈ before, ∃ g, Loads contents p g) ∧ Fails contents path failure

theorem Fails.message (h : Fails contents path failure) :
    failure.message = s!"failed to read graph {path}" ∨
      failure.message = s!"failed to load graph {path}" := by
  cases h with
  | unread => exact .inl rfl
  | notLoaded => exact .inr rfl

theorem outcome_nil {outcome : Except Failure (List Graph)} :
    Outcome contents [] outcome ↔ outcome = .ok [] := by
  cases outcome <;> simp [Outcome]

theorem outcome_of_loads (loads : Loads contents path g) {outcome : Except Failure (List Graph)} :
    Outcome contents (path :: paths) outcome ↔
      ∃ others, Outcome contents paths others ∧ outcome = others.map (g :: ·) := by
  constructor
  · intro comes
    cases outcome with
    | ok graphs =>
      obtain ⟨g', others, loads', rest, rfl⟩ := List.forall₂_cons_left_iff.1 comes
      obtain rfl := loads.unique loads'
      exact ⟨.ok others, rest, rfl⟩
    | error failure =>
      obtain ⟨before, failing, after, split, loaded, fails⟩ := comes
      cases before with
      | nil =>
        obtain ⟨rfl, -⟩ := List.cons.inj split
        exact absurd fails loads.not_fails
      | cons _ before =>
        obtain ⟨-, rest⟩ := List.cons.inj split
        obtain ⟨-, loaded⟩ := List.forall_mem_cons.1 loaded
        exact ⟨.error failure, ⟨before, failing, after, rest, loaded, fails⟩, rfl⟩
  · rintro ⟨others, comes, rfl⟩
    cases others with
    | ok graphs => exact .cons loads comes
    | error failure =>
      obtain ⟨before, failing, after, rfl, loaded, fails⟩ := comes
      exact ⟨path :: before, failing, after, rfl,
        List.forall_mem_cons.2 ⟨⟨g, loads⟩, loaded⟩, fails⟩

theorem outcome_of_fails (fails : Fails contents path failure)
    {outcome : Except Failure (List Graph)} :
    Outcome contents (path :: paths) outcome ↔ outcome = .error failure := by
  constructor
  · intro comes
    cases outcome with
    | ok graphs =>
      obtain ⟨g, -, loads, -⟩ := List.forall₂_cons_left_iff.1 comes
      exact absurd fails loads.not_fails
    | error failure' =>
      obtain ⟨before, failing, after, split, loaded, fails'⟩ := comes
      cases before with
      | nil =>
        obtain ⟨rfl, -⟩ := List.cons.inj split
        rw [fails.unique fails']
      | cons _ before =>
        obtain ⟨rfl, -⟩ := List.cons.inj split
        obtain ⟨g, loads⟩ := loaded path List.mem_cons_self
        exact absurd fails loads.not_fails
  · rintro rfl
    exact ⟨[], path, paths, rfl, nofun, fails⟩

theorem Loads.congr (same : contents' path = contents path) :
    Loads contents' path g ↔ Loads contents path g := by
  rw [Loads, Loads, same]

theorem Fails.congr (same : contents' path = contents path) :
    Fails contents' path failure ↔ Fails contents path failure := by
  rw [← ofContents_eq_error_iff, ← ofContents_eq_error_iff, same]

theorem outcome_congr (same : ∀ path ∈ paths, contents' path = contents path)
    {outcome : Except Failure (List Graph)} :
    Outcome contents' paths outcome ↔ Outcome contents paths outcome := by
  induction paths generalizing outcome with
  | nil => rw [outcome_nil, outcome_nil]
  | cons path paths ih =>
    obtain ⟨here, there⟩ := List.forall_mem_cons.1 same
    cases comes : ofContents path (contents path) with
    | ok g =>
      have loads : Loads contents path g := ofContents_eq_ok_iff.1 comes
      rw [outcome_of_loads loads, outcome_of_loads ((Loads.congr here).2 loads)]
      simp only [ih there]
    | error failure =>
      have fails : Fails contents path failure := ofContents_eq_error_iff.1 comes
      rw [outcome_of_fails fails, outcome_of_fails ((Fails.congr here).2 fails)]

end Graph

/-! ## Folders -/

/-- Files that do not change while they are looked at: the names in a folder, in the order in which
they are listed, and what there is to read at every path. -/
structure Files.Still {σ : Type} [Files (StateM σ)] (s : σ) (folder : String) (names : List String)
    (contents : String → Except FileFault String) : Prop where
  listed : (Files.list folder : StateM σ _).run s = (.ok names, s)
  read : ∀ path, (Files.read path : StateM σ _).run s = (contents path, s)

theorem Disk.still {d : Disk} {folder : String} {names : List String}
    (listed : d.list folder = .ok names) : Files.Still d folder names d.read where
  listed := congrArg (·, d) listed
  read _ := rfl

namespace Graph

variable {σ : Type} [Files (StateM σ)] {s s' : σ} {folder : String} {names names' : List String}
  {contents contents' : String → Except FileFault String}

theorem run_load (still : Files.Still s folder names contents) (path : String) :
    (load path : StateM σ _).run s = (ofContents path (contents path), s) := by
  rw [load, StateT.run_bind, still.read path]
  rfl

theorem run_loadAll (still : Files.Still s folder names contents) (paths : List String) :
    ∃ outcome, (loadAll paths : StateM σ _).run s = (outcome, s) ∧
      ∀ o, Outcome contents paths o ↔ o = outcome := by
  induction paths with
  | nil => exact ⟨_, rfl, fun _ => outcome_nil⟩
  | cons path paths ih =>
    obtain ⟨others, run, unique⟩ := ih
    rw [loadAll, StateT.run_bind, run_load still path]
    cases comes : ofContents path (contents path) with
    | ok g =>
      refine ⟨others.map (g :: ·), ?_, fun o => ?_⟩
      · show ((loadAll paths : StateM σ _) >>= fun gs => pure (gs.map (g :: ·))).run s = _
        rw [StateT.run_bind, run]
        rfl
      · rw [outcome_of_loads (ofContents_eq_ok_iff.1 comes)]
        simp only [unique, exists_eq_left]
    | error failure =>
      exact ⟨.error failure, rfl, fun _ => outcome_of_fails (ofContents_eq_error_iff.1 comes)⟩

theorem run_loadFolder (still : Files.Still s folder names contents) :
    (loadFolder folder : StateM σ _).run s =
      (loadAll (pathsIn folder names) : StateM σ _).run s := by
  rw [loadFolder, StateT.run_bind, still.listed]
  rfl

/-- The scenarios of a folder are the files with something and `.json` for a name, in ascending
order. The outcome for the folder is all their graphs, or the failure of the first one that fails;
neither the order in which the names are listed nor what else there is can change it. -/
theorem loadFolder_exact (still : Files.Still s folder names contents) :
    let paths := pathsIn folder names
    (∀ name, Path.hasExtension "json" name ↔ ∃ stem, stem ≠ "" ∧ name = stem ++ ".json") ∧
    (∀ ps, ps = paths ↔
      ps.Perm ((names.filter (Path.hasExtension "json")).map (Path.join folder)) ∧
        ps.Pairwise (· ≤ ·)) ∧
    (∀ path failure, Fails contents path failure →
      failure.message = s!"failed to read graph {path}" ∨
        failure.message = s!"failed to load graph {path}") ∧
    ∃ outcome, (loadFolder folder : StateM σ _).run s = (outcome, s) ∧
      (∀ o, Outcome contents paths o ↔ o = outcome) ∧
      ∀ s' names' contents', Files.Still s' folder names' contents' →
        (names'.filter (Path.hasExtension "json")).Perm
          (names.filter (Path.hasExtension "json")) →
        (∀ path ∈ paths, contents' path = contents path) →
        (loadFolder folder : StateM σ _).run s' = (outcome, s') := by
  intro paths
  obtain ⟨outcome, run, unique⟩ := run_loadAll still paths
  refine ⟨fun name => ?_, fun _ => eq_pathsIn_iff, fun _ _ => Fails.message, outcome, ?_, unique,
    ?_⟩
  · rw [Path.hasExtension_iff]
    simp only [String.append_assoc]
    rfl
  · rw [run_loadFolder still, run]
  · intro s' names' contents' still' listed same
    have paths' : pathsIn folder names' = paths :=
      eq_pathsIn_iff.2 ⟨(pathsIn_perm folder names').trans (listed.map _),
        pathsIn_ascending folder names'⟩
    obtain ⟨outcome', run', unique'⟩ := run_loadAll still' paths
    have comes : Outcome contents paths outcome' :=
      (outcome_congr same).1 ((unique' outcome').2 rfl)
    rw [run_loadFolder still', paths', run', (unique outcome').1 comes]

/-- A folder with two scenarios, of which neither can be loaded, and other files. -/
def drafts : Disk where
  root := .folder [("scenarios", .folder
    [("b.json", .file .empty), ("notes.txt", .file .empty), ("a.json", .folder []),
      (".json", .file .empty)])]
  here := []

theorem loadFolder_exact_drafts :
    Files.Still drafts "scenarios" ["b.json", "notes.txt", "a.json", ".json"] drafts.read ∧
      (loadFolder "scenarios" : StateM Disk _).run drafts =
        (.error (.graphUnread "scenarios/a.json" .isDirectory), drafts) := by
  have still : Files.Still drafts "scenarios" ["b.json", "notes.txt", "a.json", ".json"]
      drafts.read := Disk.still rfl
  have refused : drafts.read "scenarios/a.json" = .error .isDirectory := rfl
  obtain ⟨-, ascending, -, outcome, run, unique, -⟩ := loadFolder_exact still
  have paths : ["scenarios/a.json", "scenarios/b.json"] = pathsIn "scenarios" _ :=
    (ascending _).2 ⟨by decide, by decide⟩
  have comes : Outcome drafts.read _ (.error (.graphUnread "scenarios/a.json" .isDirectory)) :=
    ⟨[], _, _, paths.symm, nofun, .unread refused⟩
  rw [run, ← (unique _).1 comes]
  exact ⟨still, rfl⟩

end Graph

end Storyline
