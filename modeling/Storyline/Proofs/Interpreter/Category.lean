import Storyline.Proofs.Interpreter.Request

/-!
# Categories of sessions

As long as every continuation comes from a late node, all sessions and all continuations bear the
category that their graph's start node declares.

* `Stage.Homegrown`: a run in which late nodes alone schedule.
* `Stage.native_of_homegrown`: the categories in such a run.
-/

namespace Storyline

structure Interpreter.Native (i : Interpreter) : Prop where
  session : ∀ session, i.session = some session → session.graph.Native session.category
  agenda : ∀ entry ∈ i.agenda.toList, entry.2.graph.Native entry.2.category

namespace Interpreter

theorem Plays.native {i : Interpreter} {g : Graph} {p : Place} (plays : i.Plays g p) :
    (∀ session, i.session = some session → session.graph.Native session.category) ↔
      g.Native p.category := by
  cases plays with
  | running phase session holds => simp [session, Place.category]
  | paused phase session awaits => simp [session, Place.category]

theorem Idle.native {i : Interpreter} (idle : i.Idle)
    (agenda : ∀ entry ∈ i.agenda.toList, entry.2.graph.Native entry.2.category) : i.Native where
  session session h := by simp [idle.2] at h
  agenda := agenda

end Interpreter

theorem Agenda.Gains.native {a b : Agenda} {g : Graph} {p q : Place} {legs : List Leg}
    (gains : a.Gains g legs b) (walk : g.Walk p legs q) (native : g.Native p.category)
    (old : ∀ entry ∈ a.toList, entry.2.graph.Native entry.2.category) :
    ∀ entry ∈ b.toList, entry.2.graph.Native entry.2.category := by
  intro entry mem
  rcases gains entry mem with mem | ⟨graph, -, v, visit, category⟩
  · exact old entry mem
  · rw [graph, category]
    exact (walk.native native).2 v visit

namespace Stage

variable {H : Type} [Host H]

omit [Host H] in
theorem Proceeds.native {s : Stage H} {g : Graph} {p : Place} {legs : List Leg} {t : Turn H}
    (h : s.Proceeds g p legs t) (native : g.Native p.category)
    (agenda : ∀ entry ∈ s.interpreter.agenda.toList, entry.2.graph.Native entry.2.category) :
    t.stage.interpreter.Native := by
  cases h with
  | ongoing walk plays _ _ gains =>
    exact ⟨plays.native.2 (walk.native native).1, gains.native walk native agenda⟩
  | ended walk last idle _ _ gains => exact idle.native (gains.native walk native agenda)

/-! ## One request -/

/-- Whether a request adds no foreign category. -/
def Request.Homely : Request H → Prop
  | .schedule _ _ => False
  | .startAt c => c.graph.Native c.category
  | _ => True

omit [Host H] in
theorem rearrange_native {r : Request H} (homely : r.Homely) {a : Agenda}
    (old : ∀ entry ∈ a.toList, entry.2.graph.Native entry.2.category) :
    ∀ entry ∈ (r.rearrange a).toList, entry.2.graph.Native entry.2.category := by
  cases r with
  | schedule due c => exact homely.elim
  | takeDue today =>
    cases taken : a.takeDue? today with
    | none => simpa [Request.rearrange, taken] using old
    | some result =>
      obtain ⟨entry, rest⟩ := result
      simp only [Request.rearrange, taken, Option.elim_some]
      intro other mem
      apply old
      rw [Agenda.takeDue?_toList taken]
      exact List.mem_cons_of_mem _ mem
  | _ => exact old

omit [Host H] in
theorem Request.Opens.native {r : Request H} {g : Graph} {id : NodeId} {category : Category}
    (opens : r.Opens g id category) (homely : r.Homely) : g.Native category := by
  cases opens with
  | start first => exact ⟨_, first⟩
  | startAt found => exact homely

theorem serve_native {s : Stage H} (coherent : s.interpreter.Coherent)
    (native : s.interpreter.Native) {r : Request H} (homely : r.Homely) :
    (s.serve r).stage.interpreter.Native := by
  cases serves coherent r with
  | rests idle closed after settings flag agenda =>
    apply after.native
    rw [agenda]
    exact rearrange_native homely native.agenda
  | begins idle opens proceeds stage =>
    rw [stage]
    exact proceeds.native (opens.native homely) native.agenda
  | stands plays after settings flag agenda =>
    refine ⟨after.native.2 (plays.native.1 native.session), ?_⟩
    rw [agenda]
    exact rearrange_native homely native.agenda
  | proceeds plays inert proceeds =>
    exact proceeds.native (plays.native.1 native.session) native.agenda
  | finishes plays request after settings flag agenda =>
    apply after.native
    rw [agenda]
    exact native.agenda

/-! ## Whole runs -/

/-- Late nodes alone schedule: nothing is scheduled from outside, and a continuation is started only
after it was taken from the agenda. -/
structure Homegrown (s : Stage H) (rs : List (Request H)) : Prop where
  unscheduled : ∀ due c, .schedule due c ∉ rs
  taken : ∀ c before after, rs = before ++ .startAt c :: after →
    ∃ earlier today due rest, earlier ++ [.takeDue today] <+: before ∧
      (s.serveAll earlier).stage.interpreter.agenda.takeDue? today = some ((due, c), rest)

theorem Homegrown.initial {s : Stage H} {rs rs' : List (Request H)} (h : s.Homegrown (rs ++ rs')) :
    s.Homegrown rs where
  unscheduled due c mem := h.unscheduled due c (List.mem_append_left _ mem)
  taken c before after split := by
    apply h.taken c before (after ++ rs')
    simp [split]

theorem homely_of_homegrown {s : Stage H} {rs : List (Request H)} {r : Request H}
    (h : s.Homegrown (rs ++ [r]))
    (native : ∀ earlier, earlier.length ≤ rs.length → s.Homegrown earlier →
      (s.serveAll earlier).stage.interpreter.Native) : r.Homely := by
  cases r with
  | schedule due c => exact h.unscheduled due c (by simp)
  | startAt c =>
    obtain ⟨earlier, today, due, rest, ⟨later, split⟩, taken⟩ := h.taken c rs [] rfl
    have prior : earlier.length ≤ rs.length := by
      simp [← split]
    have initial : s.Homegrown (earlier ++ (.takeDue today :: later ++ [.startAt c])) := by
      simpa [← split] using h
    have mem : (due, c) ∈ (s.serveAll earlier).stage.interpreter.agenda.toList := by
      rw [Agenda.takeDue?_toList taken]
      exact List.mem_cons_self
    exact (native earlier prior initial.initial).agenda _ mem
  | _ => trivial

theorem native_of_homegrown {s : Stage H} (coherent : s.interpreter.Coherent)
    (native : s.interpreter.Native) (rs : List (Request H)) (h : s.Homegrown rs) :
    (s.serveAll rs).stage.interpreter.Native := by
  -- by length, since a continuation may have been taken any number of requests ago
  induction size : rs.length using Nat.strongRecOn generalizing rs with
  | _ n ih =>
    rcases List.eq_nil_or_concat rs with rfl | ⟨rs, r, rfl⟩
    · exact native
    · have shorter : rs.length < n := by
        rw [← size]
        simp
      rw [List.concat_eq_append] at h
      rw [List.concat_eq_append, serveAll_concat]
      apply serve_native (serveAll_coherent coherent rs) (ih rs.length shorter rs h.initial rfl)
      apply homely_of_homegrown h
      intro earlier prior homegrown
      exact ih earlier.length (by omega) earlier homegrown rfl

end Stage

end Storyline
