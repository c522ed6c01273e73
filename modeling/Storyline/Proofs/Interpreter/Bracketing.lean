import Mathlib.Data.List.Induction
import Storyline.Proofs.Interpreter.Category
import Storyline.Proofs.Interpreter.History

/-!
# Sessions one after another

* `Stage.serves_history`: what a request adds to a history.
* `Stage.serveAll_bracketed`: the record of every run is a history.
-/

namespace Storyline

/-! ## One request -/

namespace Stage

variable {H : Type} [Host H]

/-- What the record names besides the events of a request. -/
def heading (s : Stage H) : Request H → List Mark
  | .requestEnd => [.asked]
  | .choose choice => if s.accepts choice then [.accepted] else []
  | _ => []

def marks (s : Stage H) (r : Request H) : List Mark :=
  s.heading r ++ (heard (s.serve r).events).map .did

def record : Stage H → List (Request H) → List Mark
  | _, [] => []
  | s, r :: rs => s.marks r ++ record (s.serve r).stage rs

theorem marks_walkLegs (n : Nat) (s : Stage H) :
    (s.walkLegs n).flatMap Leg.marks =
      ((s.walkLegs n).flatMap Leg.calls).map fun c => .did (.call c) := by
  induction n generalizing s with
  | zero => rfl
  | succ n ih =>
    have pass : s.passLegs.flatMap Leg.marks =
        (s.passLegs.flatMap Leg.calls).map fun c => .did (.call c) := by
      unfold passLegs
      cases s.visit? <;> simp [Leg.marks, Leg.calls]
    simp [walkLegs, ih, pass]

theorem marks_legs (s : Stage H) {r : Request H} (inert : r.asksEnd = false) :
    (s.legs r).flatMap Leg.marks =
      s.heading r ++ ((s.legs r).flatMap Leg.calls).map fun c => .did (.call c) := by
  cases r with
  | choose choice =>
    simp only [legs, heading]
    split <;> rfl
  | skipEnded =>
    simp only [legs, heading]
    split <;> rfl
  | requestEnd => contradiction
  | _ =>
    simp only [legs, heading]
    cases s.entrance? _ with
    | none => rfl
    | some t => exact marks_walkLegs _ t

theorem heading_of_still {s : Stage H} {r : Request H} (still : s.legs r = []) :
    s.heading r = if r.asksEnd then [.asked] else [] := by
  cases ask : r.asksEnd with
  | false =>
    have marks := s.marks_legs ask
    rw [still] at marks
    simpa using marks.symm
  | true =>
    cases r with
    | requestEnd => rfl
    | _ => contradiction

omit [Host H] in
theorem Proceeds.history {s : Stage H} {g : Graph} {p : Place} {legs : List Leg} {t : Turn H}
    (proceeds : s.Proceeds g p legs t) {h : History} {i : Interpreter} (fits : h.Fits i)
    (playing : i.category? = some p.category)
    (same : i.endRequested = s.interpreter.endRequested) :
    ∃ (h' : History) (ending : List Event),
      heard t.events = (legs.flatMap Leg.calls).map .call ++ ending ∧
      h'.marks s.interpreter.settings.sandbox =
        h.marks s.interpreter.settings.sandbox ++ legs.flatMap Leg.marks ++ ending.map .did ∧
      h'.Fits t.stage.interpreter ∧
      (h.Tidy i → g.Native p.category → h'.Tidy t.stage.interpreter) := by
  have active : h.current.isSome := by rw [← fits.active, playing]; rfl
  have middle := middle_marks legs
  have quiet := asked_notMem_marks legs
  cases proceeds with
  | @ongoing q walk plays settings flag agenda events =>
    refine ⟨h.extend (legs.flatMap Leg.marks), [], by simpa using events, ?_, ?_, ?_⟩
    · simpa using History.marks_extend active _ _
    · exact fits.extend (by simp [playing]) (by simp [plays.category?]) (flag.trans same.symm)
        middle quiet
    · intro tidy native
      apply tidy.extend
      rw [plays.category?, playing, (walk.native native).1.unique native]
  | @ended q walk last idle settings flag agenda events =>
    have extended : (h.extend (legs.flatMap Leg.marks)).Fits i :=
      fits.extend (by simp [playing]) (by simp [playing]) rfl middle quiet
    have asked : s.interpreter.endRequested = (h.extend (legs.flatMap Leg.marks)).asked :=
      same.symm.trans extended.flag
    have still : (h.extend (legs.flatMap Leg.marks)).current.isSome := by
      rw [← extended.active, playing]
      rfl
    refine ⟨(h.extend (legs.flatMap Leg.marks)).close q.category, _, events, ?_, ?_, ?_⟩
    · rw [asked, History.marks_close still, History.marks_extend active]
    · exact extended.close (by simp [playing]) idle.category? flag _
    · intro tidy native
      apply (tidy.extend rfl _).close
      rw [playing, (walk.native native).1.unique native]

theorem marks_of_still {s : Stage H} {r : Request H} (legs : s.legs r = [])
    (silent : heard (s.serve r).events = []) :
    s.marks r = if r.asksEnd then [.asked] else [] := by
  simp [marks, heading_of_still legs, silent]

/-- A request that leaves the session alone can only be one for the end of the game. -/
theorem history_of_still {s : Stage H} {r : Request H} {h : History} (fits : h.Fits s.interpreter)
    (category : (s.serve r).stage.interpreter.category? = s.interpreter.category?)
    (flag : (s.serve r).stage.interpreter.endRequested =
      (s.interpreter.endRequested || r.asksEnd))
    (legs : s.legs r = []) (silent : heard (s.serve r).events = []) (sandbox : Bool) :
    ∃ h' : History, h'.marks sandbox = h.marks sandbox ++ s.marks r ∧
      h'.Fits (s.serve r).stage.interpreter ∧
      (h.Tidy s.interpreter → h'.Tidy (s.serve r).stage.interpreter) := by
  rw [marks_of_still legs silent]
  cases ask : r.asksEnd with
  | true =>
    have flag : (s.serve r).stage.interpreter.endRequested = true := by simp [flag, ask]
    exact ⟨h.ask, h.marks_ask sandbox, fits.ask category flag, fun tidy => tidy.ask category⟩
  | false =>
    have flag : (s.serve r).stage.interpreter.endRequested = s.interpreter.endRequested := by
      simp [flag, ask]
    exact ⟨h, by simp, fits.congr category flag, fun tidy => tidy.congr category⟩

theorem serves_history {s : Stage H} {r : Request H} (serves : s.Serves r (s.serve r))
    {h : History} (fits : h.Fits s.interpreter) :
    ∃ h' : History,
      h'.marks s.interpreter.settings.sandbox =
        h.marks s.interpreter.settings.sandbox ++ s.marks r ∧
      h'.Fits (s.serve r).stage.interpreter ∧
      (h.Tidy s.interpreter → s.interpreter.Native → r.Homely →
        h'.Tidy (s.serve r).stage.interpreter) := by
  cases serves with
  | rests idle closed after settings flag agenda legs silent =>
    have category := after.category?.trans idle.category?.symm
    obtain ⟨h', marks, fits', tidy⟩ := history_of_still fits category flag legs silent
      s.interpreter.settings.sandbox
    exact ⟨h', marks, fits', fun before _ _ => tidy before⟩
  | stands plays after settings flag agenda legs silent =>
    have category := after.category?.trans plays.category?.symm
    obtain ⟨h', marks, fits', tidy⟩ := history_of_still fits category flag legs silent
      s.interpreter.settings.sandbox
    exact ⟨h', marks, fits', fun before _ _ => tidy before⟩
  | @begins g id category u idle opens proceeds stage events =>
    have plays := s.opening_plays opens
    have closed : h.current = none := by simpa [idle.category?] using fits.active
    have heading : s.heading r = [] := by cases opens <;> rfl
    have inert : r.asksEnd = false := by cases opens <;> rfl
    have legs := s.marks_legs inert
    obtain ⟨h', ending, happened, marks, fits', tidy⟩ := proceeds.history
      (fits.begin idle.category? plays.category? rfl) plays.category? rfl
    rw [stage]
    refine ⟨h', ?_, fits', ?_⟩
    · rw [marks, History.marks_begin closed, legs, heading, Stage.marks, heading, events, happened]
      simp only [List.nil_append, List.map_append, List.map_map, List.append_assoc]
      rfl
    · intro before _ homely
      exact tidy (before.begin plays.category?) (opens.native homely)
  | @proceeds g p plays inert proceeds =>
    have legs := s.marks_legs inert
    obtain ⟨h', ending, happened, marks, fits', tidy⟩ := proceeds.history fits plays.category? rfl
    refine ⟨h', ?_, fits', ?_⟩
    · rw [marks, legs, Stage.marks, happened]
      simp
    · intro before native _
      exact tidy before (plays.native.1 native.session)
  | @finishes g p plays request after settings flag agenda legs events =>
    have playing : s.interpreter.category?.isSome := by simp [plays.category?]
    refine ⟨h.close p.category, ?_, fits.close playing after.category? flag _, ?_⟩
    · rw [History.marks_close (by rw [← fits.active, playing]), Stage.marks, events, request,
        fits.flag]
      rfl
    · intro before _ _
      exact before.close plays.category?

/-! ## Whole runs -/

theorem record_append (s : Stage H) (rs rs' : List (Request H)) :
    s.record (rs ++ rs') = s.record rs ++ (s.serveAll rs).stage.record rs' := by
  induction rs generalizing s with
  | nil => rfl
  | cons r rs ih =>
    simp only [List.cons_append, record, ih, List.append_assoc]
    rfl

theorem record_events (s : Stage H) (rs : List (Request H)) :
    (s.record rs).filterMap Mark.event? = heard (s.serveAll rs).events := by
  induction rs generalizing s with
  | nil => rfl
  | cons r rs ih =>
    have heading : (s.heading r).filterMap Mark.event? = [] := by
      cases r with
      | choose choice =>
        simp only [heading]
        split <;> rfl
      | _ => rfl
    have events (es : List Event) : (es.map Mark.did).filterMap Mark.event? = es := by
      induction es with
      | nil => rfl
      | cons e es ih => exact congrArg (e :: ·) ih
    simp only [record, marks, List.filterMap_append, heading, events, ih, serveAll,
      Turn.events_andThen, heard_append, List.nil_append]

theorem serveAll_history {s : Stage H} (idle : s.interpreter.Idle)
    (unasked : s.interpreter.endRequested = false) (empty : s.interpreter.agenda = .empty)
    (rs : List (Request H)) :
    ∃ h : History, s.record rs = h.marks s.interpreter.settings.sandbox ∧
      h.Fits (s.serveAll rs).stage.interpreter ∧
      (s.Homegrown rs → h.Tidy (s.serveAll rs).stage.interpreter) := by
  have coherent : s.interpreter.Coherent := .inl idle
  have native : s.interpreter.Native := idle.native (by simp [empty])
  -- A history fits the interpreter after the requests so far, so the last request comes last.
  induction rs using List.reverseRecOn with
  | nil =>
    refine ⟨⟨[], 0, none⟩, rfl, ⟨by simp, by simp, ?_, unasked⟩, fun _ => ⟨by simp, by simp⟩⟩
    simp [serveAll, idle.category?]
  | append_singleton rs r ih =>
    obtain ⟨h, marks, fits, tidy⟩ := ih
    obtain ⟨h', marks', fits', tidy'⟩ :=
      serves_history (serves (serveAll_coherent coherent rs) r) fits
    rw [serveAll_settings coherent rs] at marks'
    rw [serveAll_concat, record_append]
    refine ⟨h', ?_, fits', ?_⟩
    · rw [marks, marks']
      simp [record]
    · intro homegrown
      apply tidy' (tidy homegrown.initial)
      · exact native_of_homegrown coherent native rs homegrown.initial
      · apply homely_of_homegrown homegrown
        intro earlier _ homegrown'
        exact native_of_homegrown coherent native earlier homegrown'

omit [Host H] in
theorem Proceeds.flag_of_finished {s : Stage H} {g : Graph} {p : Place} {legs : List Leg}
    {t : Turn H} (h : s.Proceeds g p legs t) {category : Category}
    (finished : .sent (.finished category) ∈ heard t.events) :
    t.stage.interpreter.endRequested = false := by
  cases h with
  | ongoing walk plays settings flag agenda events => simp [events] at finished
  | ended walk last idle settings flag => exact flag

theorem flag_of_finished {s : Stage H} (coherent : s.interpreter.Coherent) {r : Request H}
    {category : Category} (finished : .sent (.finished category) ∈ (s.serve r).events) :
    (s.serve r).stage.interpreter.endRequested = false := by
  have finished : .sent (.finished category) ∈ heard (s.serve r).events :=
    List.mem_filter.2 ⟨finished, rfl⟩
  cases serves coherent r with
  | rests _ _ _ _ _ _ _ silent => simp [silent] at finished
  | @begins g id opened u idle opens proceeds stage events =>
    rw [stage]
    have opening : .sent (.finished category) ∉ sessionOpening opened := by simp [sessionOpening]
    rw [events] at finished
    exact proceeds.flag_of_finished ((List.mem_append.1 finished).resolve_left opening)
  | stands _ _ _ _ _ _ silent => simp [silent] at finished
  | proceeds plays inert proceeds => exact proceeds.flag_of_finished finished
  | finishes _ _ _ _ flag => exact flag

/-- What is heard in a run are complete blocks, and then an open one exactly while a session is
active. The game ends with those sessions before whose end that was requested. -/
theorem serveAll_bracketed (settings : Settings) (entropy : Generator) (host : H)
    (rs : List (Request H)) :
    let s := fresh settings entropy host
    let t := s.serveAll rs
    (s.record rs).filterMap Mark.event? = heard t.events ∧
    ∃ h : History, s.record rs = h.marks settings.sandbox ∧
      (∀ b ∈ h.blocks, Middle b.middle) ∧
      (∀ category ms, h.current = some (category, ms) → Middle ms) ∧
      t.stage.interpreter.isActive = h.current.isSome ∧
      t.stage.interpreter.endRequested = h.asked ∧
      t.events.filterMap Event.sent? = h.notifications ∧
      (∀ r category, .sent (.finished category) ∈ (t.stage.serve r).events →
        (t.stage.serve r).stage.interpreter.endRequested = false) ∧
      (s.Homegrown rs → ∀ b ∈ h.blocks, b.closed = b.opened) := by
  intro s t
  have idle : s.interpreter.Idle := fresh_idle settings entropy host
  obtain ⟨h, record, fits, tidy⟩ := serveAll_history idle rfl rfl rs
  have events := s.record_events rs
  refine ⟨events, h, record, fits.middles, fits.middle, ?_, fits.flag, ?_, ?_, ?_⟩
  · rw [← fits.active]
    simp [Interpreter.isActive, Interpreter.category?, t]
  · rw [← History.sent_marks fits settings.sandbox, ← sent_heard, ← events, record]
    rfl
  · intro r category finished
    exact flag_of_finished (serveAll_coherent (.inl idle) rs) finished
  · exact fun homegrown => (tidy homegrown).blocks

end Stage

end Storyline
