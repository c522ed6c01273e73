import Storyline.Proofs.Director.LateEvents

/-!
# Graphs in play

The graph of the session and those of the continuations that wait come from the library, so they are
what all graphs of the library are.

* `Stage.InPlay`: all graphs on a stage have a property.
* `Stage.act_inPlay`: they keep it as long as no other graph is started.
* `Director.commandActs_starts`: a director starts graphs of its library only.
-/

namespace Storyline

variable {H : Type} {P : Graph → Prop}

/-- If the act starts a graph, it has the property. -/
def Act.Starts (P : Graph → Prop) : Act H → Prop
  | .serve r => ∀ g id category, r.Opens g id category → P g
  | _ => True

theorem Agenda.Gains.all {a b : Agenda} {g : Graph} {legs : List Leg} (h : a.Gains g legs b)
    (old : ∀ entry ∈ a.toList, P entry.2.graph) (own : P g) :
    ∀ entry ∈ b.toList, P entry.2.graph := by
  intro entry mem
  rcases h entry mem with before | ⟨same, -⟩
  · exact old entry before
  · rw [same]
    exact own

namespace Stage

structure InPlay (P : Graph → Prop) (s : Stage H) : Prop where
  session : ∀ session, s.interpreter.session = some session → P session.graph
  waiting : ∀ entry ∈ s.interpreter.agenda.toList, P entry.2.graph

theorem inPlay_of_idle {s : Stage H} (idle : s.interpreter.Idle)
    (waiting : ∀ entry ∈ s.interpreter.agenda.toList, P entry.2.graph) : s.InPlay P where
  session session playing := by
    rw [idle.2] at playing
    contradiction
  waiting := waiting

theorem InPlay.of_plays {s : Stage H} {g : Graph} {p : Place} (h : s.InPlay P)
    (plays : s.interpreter.Plays g p) : P g := by
  obtain ⟨session, playing, -⟩ := Option.map_eq_some_iff.1 plays.category?
  rw [← plays.graph playing]
  exact h.session session playing

theorem inPlay_of_plays {s : Stage H} {g : Graph} {p : Place} (plays : s.interpreter.Plays g p)
    (own : P g) (waiting : ∀ entry ∈ s.interpreter.agenda.toList, P entry.2.graph) :
    s.InPlay P where
  session session playing := by
    rw [plays.graph playing]
    exact own
  waiting := waiting

theorem InPlay.withAgenda {s : Stage H} {entry : Date × Continuation} {rest : Agenda}
    (h : s.InPlay P) (split : s.interpreter.agenda.toList = entry :: rest.toList) :
    P entry.2.graph ∧ (s.withAgenda rest).InPlay P := by
  have waiting := h.waiting
  rw [split] at waiting
  obtain ⟨first, others⟩ := List.forall_mem_cons.1 waiting
  exact ⟨first, h.session, others⟩

variable [Host H]

omit [Host H] in
theorem Proceeds.inPlay {s : Stage H} {g : Graph} {p : Place} {legs : List Leg} {t : Turn H}
    (h : s.Proceeds g p legs t) (own : P g)
    (waiting : ∀ entry ∈ s.interpreter.agenda.toList, P entry.2.graph) : t.stage.InPlay P := by
  cases h with
  | ongoing walk plays settings flag agenda =>
    exact inPlay_of_plays plays own (agenda.all waiting own)
  | ended walk last idle settings flag agenda =>
    exact inPlay_of_idle idle (agenda.all waiting own)

theorem serve_inPlay {s : Stage H} (coherent : s.interpreter.Coherent) (inPlay : s.InPlay P)
    {r : Request H} (keeps : ∀ a, r.rearrange a = a)
    (starts : ∀ g id category, r.Opens g id category → P g) : (s.serve r).stage.InPlay P := by
  have waiting := inPlay.waiting
  cases serves coherent r with
  | rests _ _ after _ _ agenda =>
    rw [keeps] at agenda
    exact inPlay_of_idle after (agenda ▸ waiting)
  | begins _ opens proceeds stage =>
    rw [stage]
    exact proceeds.inPlay (starts _ _ _ opens) waiting
  | stands plays after _ _ agenda =>
    rw [keeps] at agenda
    exact inPlay_of_plays after (inPlay.of_plays plays) (agenda ▸ waiting)
  | proceeds plays _ proceeds => exact proceeds.inPlay (inPlay.of_plays plays) waiting
  | finishes _ _ after _ _ agenda => exact inPlay_of_idle after (agenda ▸ waiting)

theorem startDue_inPlay {s : Stage H} (coherent : s.interpreter.Coherent) (inPlay : s.InPlay P) :
    (Director.startDue s).stage.InPlay P := by
  cases found : s.due? with
  | none =>
    rw [startDue_of_none found]
    exact inPlay
  | some x =>
    obtain ⟨⟨due, c⟩, rest⟩ := x
    obtain ⟨inactive, taken⟩ := takeDue?_of_due? found
    obtain ⟨first, others⟩ := inPlay.withAgenda (Agenda.takeDue?_toList taken)
    have idle : (s.withAgenda rest).interpreter.Coherent :=
      .inl (coherent.idle_of_inactive inactive)
    rw [startDue_of_some found]
    apply serve_inPlay (r := .startAt c) idle others (fun _ => rfl)
    intro g id category opens
    cases opens
    exact first

theorem act_inPlay {s : Stage H} (coherent : s.interpreter.Coherent) (inPlay : s.InPlay P)
    {a : Act H} (own : a.Own) (starts : a.Starts P) : (s.act a).stage.InPlay P := by
  cases a with
  | tell n => exact ⟨inPlay.session, inPlay.waiting⟩
  | call c => exact ⟨inPlay.session, inPlay.waiting⟩
  | serve r => exact serve_inPlay coherent inPlay own starts
  | startDue => exact startDue_inPlay coherent inPlay

end Stage

/-! ## Libraries -/

namespace Library

theorem put_all {name : String} {g : Graph} (own : P g) {entries : List (String × Graph)}
    (all : ∀ entry ∈ entries, P entry.2) : ∀ entry ∈ put name g entries, P entry.2 := by
  induction entries with
  | nil => exact List.forall_mem_singleton.2 own
  | cons entry rest ih =>
    obtain ⟨first, others⟩ := List.forall_mem_cons.1 all
    unfold put
    split
    · exact List.forall_mem_cons.2 ⟨own, others⟩
    · exact List.forall_mem_cons.2 ⟨first, ih others⟩

theorem add_all {salary : String} {l : Library} {g : Graph} (own : P g)
    (all : ∀ entry ∈ l.entries, P entry.2) : ∀ entry ∈ (l.add salary g).1.entries, P entry.2 := by
  have same : (l.add salary g).1.entries = put g.name g l.entries := by
    unfold add
    dsimp only
    split
    · rfl
    · split <;> rfl
  rw [same]
  exact put_all own all

theorem addAll_all {salary : String} {l : Library} {graphs : List Graph}
    (own : ∀ g ∈ graphs, P g) (all : ∀ entry ∈ l.entries, P entry.2) :
    ∀ entry ∈ (l.addAll salary graphs).1.entries, P entry.2 := by
  induction graphs generalizing l with
  | nil => exact all
  | cons g graphs ih =>
    obtain ⟨first, others⟩ := List.forall_mem_cons.1 own
    exact ih others (add_all first all)

end Library

/-! ## Directors -/

namespace Director

/-- All graphs of the library have the property. -/
def Owns (d : Director) (P : Graph → Prop) : Prop :=
  ∀ name g, d.library.find? name = some g → P g

theorem new_owns {config : Config} {graphs : List Graph} (own : ∀ g ∈ graphs, P g) :
    (new config graphs).1.Owns P := by
  intro name g found
  obtain ⟨before, after, split, -⟩ := List.lookup_eq_some_iff.1 found
  have mem : (name, g) ∈ (new config graphs).1.library.entries := by
    rw [split]
    exact List.mem_append_right _ List.mem_cons_self
  exact Library.addAll_all own (fun _ mem => absurd mem List.not_mem_nil) _ mem

theorem starting_starts {d : Director} (owns : d.Owns P) (name : String) :
    (d.starting name : Act H).Starts P := by
  unfold starting
  cases found : d.library.find? name with
  | none => trivial
  | some graph =>
    intro g id category opens
    cases opens
    exact owns name graph found

theorem launching_starts {d : Director} (owns : d.Owns P) : (d.launching : Act H).Starts P := by
  unfold launching
  split
  · cases d.library.normal with
    | nil => trivial
    | cons name names => exact starting_starts owns name
  · trivial

theorem commandActs_starts {d : Director} (owns : d.Owns P) (c : Command) :
    ∀ a ∈ (d.commandActs c : List (Act H)), a.Starts P := by
  have one {a : Act H} (starts : a.Starts P) : ∀ b ∈ [a], b.Starts P :=
    List.forall_mem_singleton.2 starts
  have two {a b : Act H} (starts : a.Starts P) (starts' : b.Starts P) :
      ∀ c ∈ [a, b], c.Starts P := List.forall_mem_cons.2 ⟨starts, one starts'⟩
  cases c with
  | tick elapsed => exact two nofun trivial
  | choose choice => exact one nofun
  | skipEnded => exact one nofun
  | dayPassed date => exact two trivial trivial
  | monthPassed date => exact two trivial (starting_starts owns _)
  | yearPassed date => exact two trivial nofun
  | launch => exact one (launching_starts owns)
  | start name => exact one (starting_starts owns name)
  | shutdown => exact one trivial

end Director

end Storyline
