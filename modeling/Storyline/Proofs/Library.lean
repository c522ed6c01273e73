import Storyline.Proofs.Director.Basic
import Storyline.Proofs.Interpreter.Request

/-!
# The library of a list of graphs

Of the graphs of one name the last is found, while the names keep the places where they first came.

* `Library.Holds`: what a library is after some graphs were added.
* `Library.Holds.addAll`: adding more graphs, and the warnings about them.
* `Director.new_exact`: a fresh director, and what it launches in a sandbox.
-/

namespace Storyline

namespace Library

/-- The names that have come before, each as often as it comes again. -/
def repeats (names : List String) : List String :=
  (names.zipIdx.filter fun (name, i) => name ∈ names.take i).map Prod.fst

theorem repeats_concat (names : List String) (name : String) :
    repeats (names ++ [name]) = repeats names ++ if name ∈ names then [name] else [] := by
  have before : (names.zipIdx.filter fun (n, i) => n ∈ (names ++ [name]).take i) =
      names.zipIdx.filter fun (n, i) => n ∈ names.take i := by
    apply List.filter_congr
    rintro ⟨n, i⟩ mem
    have inside : i < names.length := by simpa using List.snd_lt_of_mem_zipIdx mem
    have same : (names ++ [name]).take i = names.take i :=
      List.take_append_of_le_length (Nat.le_of_lt inside)
    simp only [same]
  unfold repeats
  rw [List.zipIdx_append, List.filter_append, List.map_append, before]
  by_cases mem : name ∈ names <;> simp [mem]

/-! ## Adding graphs -/

variable {salary : String} {graphs : List Graph} {l : Library}

theorem lookup_entry (name other : String) (g : Graph) (entries : List (String × Graph)) :
    ((name, g) :: entries).lookup other =
      if other = name then some g else entries.lookup other := by
  rw [List.lookup_cons]
  split
  · rename_i found
    rw [if_pos (beq_iff_eq.1 found)]
  · rename_i passed
    rw [if_neg (beq_eq_false_iff_ne.1 passed)]

theorem lookup_put (name other : String) (g : Graph) (entries : List (String × Graph)) :
    (put name g entries).lookup other =
      if other = name then some g else entries.lookup other := by
  induction entries with
  | nil => exact lookup_entry name other g []
  | cons entry entries ih =>
    obtain ⟨n, h⟩ := entry
    rw [put, lookup_entry]
    split
    · rename_i at_name
      rw [lookup_entry, at_name]
      split <;> rfl
    · rename_i elsewhere
      rw [lookup_entry, ih]
      split
      · rename_i at_n
        rw [if_neg (at_n ▸ elsewhere)]
      · rfl

/-- A library has what the graphs have that were added to it. -/
structure Holds (salary : String) (l : Library) (graphs : List Graph) : Prop where
  last : ∀ name, l.find? name = (graphs.filter (·.name = name)).getLast?
  names : ∀ name, name ∈ l.normal ↔ name ∈ graphs.map (·.name) ∧ name ≠ salary
  order : l.normal.Pairwise fun name other =>
    (graphs.map (·.name)).idxOf name < (graphs.map (·.name)).idxOf other

theorem holds_empty (salary : String) : empty.Holds salary [] where
  last _ := rfl
  names := by simp [empty]
  order := .nil

theorem Holds.nodup (h : l.Holds salary graphs) : l.normal.Nodup :=
  h.order.imp fun before same => by
    rw [same] at before
    exact Nat.lt_irrefl _ before

theorem Holds.isSome_find? (h : l.Holds salary graphs) (name : String) :
    (l.find? name).isSome ↔ name ∈ graphs.map (·.name) := by
  rw [h.last, List.getLast?_isSome, Ne, List.filter_eq_nil_iff]
  simp

theorem Holds.lookup_put (h : l.Holds salary graphs) (g : Graph) (name : String) :
    (put g.name g l.entries).lookup name =
      ((graphs ++ [g]).filter (·.name = name)).getLast? := by
  rw [Library.lookup_put, List.filter_append]
  split
  · rename_i own
    simp [own]
  · rename_i other
    have last : l.entries.lookup name = _ := h.last name
    simp [last, Ne.symm other]

theorem Holds.order_append (h : l.Holds salary graphs) (more : List String) :
    l.normal.Pairwise fun name other =>
      (graphs.map (·.name) ++ more).idxOf name < (graphs.map (·.name) ++ more).idxOf other := by
  refine h.order.imp_of_mem fun {name other} mem mem' before => ?_
  rwa [List.idxOf_append_of_mem ((h.names name).1 mem).1,
    List.idxOf_append_of_mem ((h.names other).1 mem').1]

theorem Holds.add (h : l.Holds salary graphs) (g : Graph) :
    (l.add salary g).1.Holds salary (graphs ++ [g]) ∧
      (l.add salary g).2 =
        if g.name ∈ graphs.map (·.name) then [.duplicateName g.name] else [] := by
  have last := h.lookup_put g
  have order := h.order_append [g.name]
  have names (name : String) : name ∈ (graphs ++ [g]).map (·.name) ↔
      name ∈ graphs.map (·.name) ∨ name = g.name := by
    rw [List.map_append, List.mem_append, List.map_singleton, List.mem_singleton]
  rw [Library.add]
  simp only [h.isSome_find?]
  split
  · rename_i again
    refine ⟨⟨last, fun name => ?_, by rwa [List.map_append]⟩, rfl⟩
    rw [h.names, names]
    refine and_congr_left fun _ => ⟨.inl, ?_⟩
    rintro (before | rfl)
    · exact before
    · exact again
  · rename_i fresh
    split
    · rename_i paid
      refine ⟨⟨last, fun name => ?_, by rwa [List.map_append]⟩, rfl⟩
      rw [h.names, names, paid]
      refine and_congr_left fun other => ⟨.inl, fun mem => mem.resolve_right other⟩
    · rename_i other
      refine ⟨⟨last, fun name => ?_, ?_⟩, rfl⟩
      · rw [List.mem_append, List.mem_singleton, h.names, names, or_and_right]
        refine or_congr_right ⟨fun same => ⟨same, same ▸ other⟩, And.left⟩
      · -- The new name comes first where the graphs so far end.
        rw [List.map_append]
        refine List.pairwise_append.2 ⟨order, List.pairwise_singleton .., ?_⟩
        intro name mem new same
        obtain rfl := List.mem_singleton.1 same
        have before := ((h.names name).1 mem).1
        rw [List.map_singleton, List.idxOf_append_of_mem before, List.idxOf_append_of_notMem fresh]
        exact Nat.lt_add_right _ (List.idxOf_lt_length_iff.2 before)

theorem addAll_cons (salary : String) (l : Library) (g : Graph) (more : List Graph) :
    (l.addAll salary (g :: more)).1 = ((l.add salary g).1.addAll salary more).1 ∧
      (l.addAll salary (g :: more)).2 =
        (l.add salary g).2 ++ ((l.add salary g).1.addAll salary more).2 :=
  ⟨rfl, rfl⟩

/-- The warnings are about the names that have come before, be it among the graphs that were there
or among those that are added. -/
theorem Holds.addAll (h : l.Holds salary graphs) (more : List Graph) :
    (l.addAll salary more).1.Holds salary (graphs ++ more) ∧
      (repeats (graphs.map (·.name))).map .duplicateName ++ (l.addAll salary more).2 =
        (repeats ((graphs ++ more).map (·.name))).map .duplicateName := by
  induction more generalizing l graphs with
  | nil =>
    rw [List.append_nil]
    exact ⟨h, List.append_nil _⟩
  | cons g more ih =>
    obtain ⟨first, warned⟩ := h.add g
    obtain ⟨all, warnings⟩ := ih first
    rw [List.append_assoc, List.singleton_append] at all warnings
    rw [(addAll_cons ..).1, (addAll_cons ..).2]
    refine ⟨all, ?_⟩
    have listed : (graphs ++ [g]).map (·.name) = graphs.map (·.name) ++ [g.name] :=
      List.map_append
    rw [← warnings, warned, listed, repeats_concat, List.map_append, List.append_assoc]
    split <;> rfl

theorem ofGraphs_holds (salary : String) (graphs : List Graph) :
    (ofGraphs salary graphs).1.Holds salary graphs :=
  ((holds_empty salary).addAll graphs).1

theorem warnings_ofGraphs (salary : String) (graphs : List Graph) :
    (ofGraphs salary graphs).2 =
      (repeats (graphs.map (·.name))).map .duplicateName ++
        if salary ∈ graphs.map (·.name) then [] else [.salaryMissing salary] := by
  obtain ⟨all, warnings⟩ := (holds_empty salary).addAll graphs
  rw [List.nil_append] at all warnings
  rw [← warnings]
  simp only [← all.isSome_find?]
  rfl

/-- The first of the normal scenarios is the name of the first graph with another name than the
salary scenario. -/
theorem Holds.head? (h : l.Holds salary graphs) :
    l.normal.head? = (graphs.find? (·.name ≠ salary)).map (·.name) := by
  cases found : graphs.find? (·.name ≠ salary) with
  | none =>
    have paid : ∀ g ∈ graphs, g.name = salary := by simpa using found
    have nothing : l.normal = [] := by
      refine List.eq_nil_iff_forall_not_mem.2 fun name mem => ?_
      obtain ⟨listed, other⟩ := (h.names name).1 mem
      obtain ⟨g, among, rfl⟩ := List.mem_map.1 listed
      exact other (paid g among)
    rw [nothing]
    rfl
  | some g =>
    obtain ⟨other, before, after, rfl, paid⟩ := List.find?_eq_some_iff_append.1 found
    have other : g.name ≠ salary := by simpa using other
    have passed {name : String} (other : name ≠ salary) : name ∉ before.map (·.name) := by
      intro mem
      obtain ⟨g', among, rfl⟩ := List.mem_map.1 mem
      exact other (by simpa using paid g' among)
    have mem : g.name ∈ l.normal := (h.names g.name).2 ⟨by simp, other⟩
    cases normal : l.normal with
    | nil => simp [normal] at mem
    | cons name names =>
      by_cases first : g.name = name
      · simp [first]
      · -- Another name at the head would come before `g`, among graphs with the salary's name.
        have later : g.name ∈ names := (List.mem_cons.1 (normal ▸ mem)).resolve_left first
        have order := (List.pairwise_cons.1 (normal ▸ h.order)).1 g.name later
        have own : name ≠ salary := ((h.names name).1 (by simp [normal])).2
        rw [List.map_append, List.idxOf_append_of_notMem (passed own),
          List.idxOf_append_of_notMem (passed other), List.map_cons, List.idxOf_cons_self] at order
        omega

theorem Holds.first (h : l.Holds salary graphs) {g : Graph}
    (found : graphs.find? (·.name ≠ salary) = some g) :
    ∃ others last, l.normal = g.name :: others ∧ l.find? g.name = some last := by
  have normal := h.head?
  rw [found, Option.map_some] at normal
  obtain ⟨others, normal⟩ := List.head?_eq_some_iff.1 normal
  have listed : g.name ∈ graphs.map (·.name) :=
    List.mem_map.2 ⟨g, List.mem_of_find?_eq_some found, rfl⟩
  obtain ⟨last, there⟩ := Option.isSome_iff_exists.1 ((h.isSome_find? g.name).2 listed)
  exact ⟨others, last, normal, there⟩

end Library

/-! ## Fresh directors -/

theorem Stage.start_begins {H : Type} [Host H] {s : Stage H}
    (inactive : s.interpreter.isActive = false) {g : Graph} {id : NodeId} {category : Category}
    (opens : g.start? = some ⟨id, .start category⟩) :
    (s.start g).1 = true ∧
      [.notice (.scenarioStarted g.name category), .sent (.started category), .call (.pause true)]
        <+: (s.start g).2.events := by
  rw [s.start_eq opens, inactive]
  exact ⟨rfl, _, rfl⟩

namespace Director

variable {H : Type} [Host H]

theorem start_of_find? {d : Director} {s : Stage H} {name : String} {g : Graph}
    (found : d.library.find? name = some g) : d.start name s = s.start g := by
  rw [start, found]

theorem launch_first {d : Director} (sandbox : d.config.sandbox = true) {name : String}
    {names : List String} (normal : d.library.normal = name :: names) (s : Stage H) :
    d.launch s = (d.start name s).2 := by
  simp only [launch, sandbox, normal, if_true]

theorem launch_nothing {d : Director} (sandbox : d.config.sandbox = true)
    (normal : d.library.normal = []) (s : Stage H) : d.launch s = s.tell .nothingToPlay := by
  simp only [launch, sandbox, normal, if_true]

/-- The library of a fresh director has the last graph of every name, and the other names than that
of the salary scenario in the order in which they first came; there is a warning for every graph
whose name had come before, and one if there is no salary scenario. So in a sandbox a session of the
last graph that bears the first of those names begins; if there is none, nothing does. -/
theorem new_exact (config : Config) (graphs : List Graph) (entropy : Generator) (host : H) :
    let d := (new config graphs).1
    let salary := config.salaryScenario
    let names := graphs.map (·.name)
    (∀ name, d.library.find? name = (graphs.filter (·.name = name)).getLast?) ∧
    (∀ name, name ∈ d.library.normal ↔ name ∈ names ∧ name ≠ salary) ∧ d.library.normal.Nodup ∧
    (d.library.normal.Pairwise fun name other => names.idxOf name < names.idxOf other) ∧
    (new config graphs).2 = (Library.repeats names).map .duplicateName ++
      (if salary ∈ names then [] else [.salaryMissing salary]) ∧
    (config.sandbox = true →
      let s : Stage H := ⟨d.interpreter entropy, host⟩
      (∀ first, graphs.find? (·.name ≠ salary) = some first → ∃ last id category,
        (graphs.filter (·.name = first.name)).getLast? = some last ∧
        last.start? = some ⟨id, .start category⟩ ∧
        (s.start last).1 = true ∧ d.launch s = (s.start last).2 ∧
        [.notice (.scenarioStarted last.name category), .sent (.started category),
          .call (.pause true)] <+: (d.launch s).events) ∧
      ((∀ g ∈ graphs, g.name = salary) →
        (d.launch s).stage = s ∧ (d.launch s).events = [.notice .nothingToPlay])) := by
  intro d salary names
  have holds : d.library.Holds salary graphs := Library.ofGraphs_holds salary graphs
  refine ⟨holds.last, holds.names, holds.nodup, holds.order,
    Library.warnings_ofGraphs salary graphs, ?_⟩
  intro sandbox s
  constructor
  · intro first found
    obtain ⟨others, last, normal, there⟩ := holds.first found
    obtain ⟨id, category, opens⟩ := last.exists_start
    obtain ⟨starts, begins⟩ := Stage.start_begins (s := s) rfl opens
    have launch : d.launch s = (s.start last).2 := by
      rw [launch_first sandbox normal, start_of_find? there]
    exact ⟨last, id, category, (holds.last first.name).symm.trans there, opens, starts, launch,
      launch ▸ begins⟩
  · intro paid
    have none : graphs.find? (·.name ≠ salary) = none := by simpa using paid
    have normal := holds.head?
    rw [none, Option.map_none, List.head?_eq_none_iff] at normal
    rw [launch_nothing sandbox normal]
    exact ⟨rfl, rfl⟩

/-- A scenario that ends at once. -/
def page (name : String) (category : Category) : Graph where
  name := name
  nodes := [⟨"start", .start category⟩, ⟨"end", .final⟩]
  links := [⟨"start", "start", "end"⟩]
  valid := Document.fault?_eq_none rfl

/-- The letter of the evening takes the place of that of the morning. -/
theorem new_exact_letters :
    let config := { Config.default with sandbox := true }
    let graphs := [page "salary" "payday", page "letter" "morning", page "joy" "party",
      page "salary" "bonus", page "letter" "evening"]
    let d := (new config graphs).1
    let today : Date := ⟨738886, by decide, by decide⟩
    let s : Stage Recorder := ⟨d.interpreter (.ofSeed 7), ⟨today, #[], false⟩⟩
    config.sandbox = true ∧ graphs.find? (·.name ≠ "salary") = some (page "letter" "morning") ∧
      (new config graphs).2 = [.duplicateName "salary", .duplicateName "letter"] ∧
      .sent (.started "evening") ∈ (d.launch s).events := by
  intro config graphs d today s
  obtain ⟨-, -, -, -, warnings, launches⟩ := new_exact config graphs (.ofSeed 7) s.host
  refine ⟨rfl, rfl, warnings.trans (by decide), ?_⟩
  obtain ⟨last, id, category, bears, opens, -, -, begins⟩ :=
    (launches rfl).1 (page "letter" "morning") rfl
  obtain rfl : page "letter" "evening" = last := Option.some.inj bears
  obtain ⟨-, kind⟩ := Node.mk.inj (Option.some.inj opens)
  obtain rfl : "evening" = category := Kind.start.inj kind
  exact begins.subset (by simp)

end Director

end Storyline
