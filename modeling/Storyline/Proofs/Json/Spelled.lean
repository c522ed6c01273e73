import Storyline.Proofs.Json.Append
import Storyline.Proofs.Json.Reading

/-!
# Objects from the texts of their members

The text of an object is cut at the commas between its members, and each part is read by itself.
So the members of the object are what the texts of the members say, in their order, with blanks
wherever they may stand.

* `Draft.Enclosed`, `Draft.enclosed_step`: a reader does the same inside further arrays and objects.
* `Draft.takes_of_parse`: what is a value by itself is the same value inside them.
* `Draft.parse_objectText`: the members of an object.
-/

namespace Storyline.Json

namespace Draft

/-! ## Values by themselves -/

theorem last_of_wellFormed {last : Option Draft} {frames : List Frame}
    (h : (breakOff last frames).wellFormed) : ∃ d, last = some d ∧ d.wellFormed := by
  induction frames generalizing last with
  | nil =>
    cases last with
    | none => contradiction
    | some d => exact ⟨d, rfl, h⟩
  | cons frame frames ih =>
    -- The array or object around the last part stays open.
    cases frame with
    | array read =>
      obtain ⟨d, same, complete⟩ := ih h
      obtain rfl := Option.some.inj same
      simp [wellFormed] at complete
    | object read key =>
      obtain ⟨d, same, complete⟩ := ih h
      obtain rfl := Option.some.inj same
      simp [wellFormed] at complete

theorem not_wellFormed_breakOff_none (frames : List Frame) :
    ¬ (breakOff none frames).wellFormed := by
  intro h
  obtain ⟨d, same, -⟩ := last_of_wellFormed h
  contradiction

theorem not_wellFormed_breakOff_broken (frames : List Frame) :
    ¬ (breakOff (some .broken) frames).wellFormed := by
  intro h
  obtain ⟨d, same, complete⟩ := last_of_wellFormed h
  obtain rfl := Option.some.inj same
  contradiction

/-- What becomes of a state if its reader stands inside further frames. A draft that has broken off
is not well formed, so nothing is said of it. -/
inductive Enclosed (outer : List Frame) : State → State → Prop where
  | reading (expected : Expected) (frames : List Frame) :
      Enclosed outer (.reading expected frames) (.reading expected (frames ++ outer))
  | complete (d : Draft) : Enclosed outer (.complete d) (finish outer d)
  | stopped {d : Draft} (broken : ¬ d.wellFormed) (s : State) : Enclosed outer (.stopped d) s

variable {outer : List Frame}

theorem enclosed_finish (frames : List Frame) (d : Draft) :
    Enclosed outer (finish frames d) (finish (frames ++ outer) d) := by
  cases frames with
  | nil => exact .complete d
  | cons frame frames => exact .reading _ _

theorem enclosed_begin (frames : List Frame) (t : Token) :
    Enclosed outer (begin frames t) (begin (frames ++ outer) t) := by
  cases t with
  | openArray => exact .reading .valueOrClose (.array [] :: frames)
  | openObject => exact .reading .keyOrClose (.object [] none :: frames)
  | null => exact enclosed_finish frames _
  | bool b => exact enclosed_finish frames _
  | number n => exact enclosed_finish frames _
  | string s => exact enclosed_finish frames _
  | _ => exact .stopped (not_wellFormed_breakOff_broken frames) _

theorem enclosed_step (expected : Expected) (frames : List Frame) (t : Token) :
    Enclosed outer (step (.reading expected frames) t)
      (step (.reading expected (frames ++ outer)) t) := by
  cases expected with
  | value => exact enclosed_begin frames t
  | valueOrClose =>
    by_cases close : t = .closeArray
    · subst close
      cases frames with
      | nil => exact .stopped (not_wellFormed_breakOff_broken []) _
      | cons frame frames =>
        cases frame with
        | array read => exact enclosed_finish frames _
        | object read key => exact .stopped (not_wellFormed_breakOff_broken _) _
    · rw [Ready.valueOrClose.step close, Ready.valueOrClose.step close]
      exact enclosed_begin frames t
  | colon =>
    cases t with
    | colon => exact .reading .value frames
    | _ => exact .stopped (not_wellFormed_breakOff_broken frames) _
  | _ =>
    -- Only a frame of the right sort takes what may come next.
    cases frames with
    | nil => cases t <;> exact .stopped (not_wellFormed_breakOff_none []) _
    | cons frame frames =>
      cases frame <;> cases t <;> first
        | exact enclosed_finish frames _
        | exact .reading _ (_ :: frames)
        | exact .stopped (not_wellFormed_breakOff_none _) _

theorem foldl_stopped (d : Draft) (ts : List Token) :
    ts.foldl step (.stopped d) = .stopped d := by
  induction ts with
  | nil => rfl
  | cons t ts ih => exact ih

theorem foldl_followed (d : Draft) (ts : List Token) :
    ts.foldl step (.followed d) = .followed d := by
  induction ts with
  | nil => rfl
  | cons t ts ih => exact ih

theorem not_wellFormed_result {expected : Expected} {frames : List Frame} {d : Draft}
    (read : (State.reading expected frames).result = (d, false)) : ¬ d.wellFormed := by
  cases expected with
  | value | colon =>
    obtain rfl : breakOff (some .broken) frames = d := congrArg Prod.fst read
    exact not_wellFormed_breakOff_broken frames
  | _ =>
    obtain rfl : breakOff none frames = d := congrArg Prod.fst read
    exact not_wellFormed_breakOff_none frames

/-- A reader that ends with a complete value takes each step inside the value or ends it there. -/
theorem step_of_complete {expected : Expected} {frames : List Frame} {t : Token} {ts : List Token}
    {d : Draft} (read : ((t :: ts).foldl step (.reading expected frames)).result = (d, false))
    (complete : d.wellFormed) (outer : List Frame) :
    (∃ expected' frames', step (.reading expected frames) t = .reading expected' frames' ∧
        step (.reading expected (frames ++ outer)) t = .reading expected' (frames' ++ outer)) ∨
      (ts = [] ∧ step (.reading expected frames) t = .complete d ∧
        step (.reading expected (frames ++ outer)) t = finish outer d) := by
  have enclosed : Enclosed outer (step (.reading expected frames) t)
      (step (.reading expected (frames ++ outer)) t) := enclosed_step expected frames t
  rw [List.foldl_cons] at read
  generalize step (.reading expected frames) t = s at read enclosed
  generalize step (.reading expected (frames ++ outer)) t = s' at enclosed
  cases enclosed with
  | reading expected frames => exact .inl ⟨expected, frames, rfl, rfl⟩
  | complete v =>
    cases ts with
    | nil =>
      obtain rfl : v = d := congrArg Prod.fst read
      exact .inr ⟨rfl, rfl, rfl⟩
    | cons t ts =>
      have further : (ts.foldl step (.followed v)).result = (d, false) := read
      rw [foldl_followed] at further
      cases further
  | stopped broken =>
    rw [foldl_stopped] at read
    obtain rfl := congrArg Prod.fst read
    exact absurd complete broken

theorem foldl_enclosed {expected : Expected} {frames : List Frame} {ts : List Token} {d : Draft}
    (read : (ts.foldl step (.reading expected frames)).result = (d, false))
    (complete : d.wellFormed) (outer : List Frame) (more : List Token) :
    (ts ++ more).foldl step (.reading expected (frames ++ outer)) =
      more.foldl step (finish outer d) := by
  induction ts generalizing expected frames with
  | nil => exact absurd complete (not_wellFormed_result read)
  | cons t ts ih =>
    rw [List.cons_append, List.foldl_cons]
    obtain ⟨expected', frames', here, there⟩ | ⟨rfl, -, there⟩ :=
      step_of_complete read complete outer
    · rw [List.foldl_cons, here] at read
      rw [there]
      exact ih read
    · rw [there]
      rfl

theorem step_bad (expected : Expected) (frames : List Frame) :
    ∃ d, step (.reading expected frames) .bad = .stopped d := by
  cases expected <;> rcases frames with _ | ⟨_ | _, frames⟩ <;> exact ⟨_, rfl⟩

theorem bad_notMem {expected : Expected} {frames : List Frame} {ts : List Token} {d : Draft}
    (read : (ts.foldl step (.reading expected frames)).result = (d, false))
    (complete : d.wellFormed) : .bad ∉ ts := by
  induction ts generalizing expected frames with
  | nil => exact List.not_mem_nil
  | cons t ts ih =>
    obtain ⟨v, ill⟩ := step_bad expected frames
    obtain ⟨expected', frames', here, -⟩ | ⟨rfl, here, -⟩ := step_of_complete read complete []
    · rw [List.foldl_cons, here] at read
      refine List.not_mem_cons_of_ne_of_not_mem ?_ (ih read)
      rintro rfl
      rw [ill] at here
      contradiction
    · refine List.not_mem_cons_of_ne_of_not_mem ?_ List.not_mem_nil
      rintro rfl
      rw [ill] at here
      contradiction

theorem takes_of_parse {text : List Char} {d : Draft} (parsed : parse text = (d, false))
    (complete : d.wellFormed) : Takes (Token.scan text) d := by
  intro frames s more ready
  rw [parse] at parsed
  have value := foldl_enclosed parsed complete frames more
  cases ready with
  | value => exact value
  | valueOrClose =>
    rw [← value]
    cases tokens : Token.scan text with
    | nil =>
      rw [tokens] at parsed
      exact absurd complete (not_wellFormed_result parsed)
    | cons t ts =>
      have other : t ≠ .closeArray := by
        rintro rfl
        rw [tokens, List.foldl_cons] at parsed
        have broken : (State.stopped .broken).result = (d, false) :=
          foldl_stopped .broken ts ▸ parsed
        obtain rfl : .broken = d := congrArg Prod.fst broken
        contradiction
      rw [List.cons_append, List.foldl_cons, List.foldl_cons, Ready.valueOrClose.step other]
      rfl

end Draft

/-! ## Objects -/

/-- Whether a text is a member of an object: a key, a colon and the text of a value, with blanks
around each of them. -/
inductive Spells : List Char → Option String × Draft → Prop where
  | member {key value : List Char} {k : Option String} {d : Draft}
      (keyed : Token.scan key = [.string k]) (parsed : Draft.parse value = (d, false))
      (complete : d.wellFormed) : Spells (key ++ ':' :: value) (k, d)

/-- The text of an object from the texts of its members. -/
def objectText (members : List (List Char)) : List Char :=
  '\x7b' :: ([','].intercalate members ++ ['\x7d'])

/-- The texts of further members, with the closing brace. -/
def furtherText : List (List Char) → List Char
  | [] => ['\x7d']
  | text :: texts => ',' :: text ++ furtherText texts

theorem intercalate_eq_furtherText (text : List Char) (texts : List (List Char)) :
    [','].intercalate (text :: texts) ++ ['\x7d'] = text ++ furtherText texts := by
  induction texts generalizing text with
  | nil => simp [furtherText]
  | cons next texts ih => simp [furtherText, ih next]

theorem Spells.yields {text : List Char} {m : Option String × Draft} (h : Spells text m) :
    ∃ ts, Yields text (.string m.1 :: .colon :: ts) ∧ Draft.Takes ts m.2 := by
  cases h with
  | @member key value k d keyed parsed complete =>
    refine ⟨Token.scan value, fun rest stops => ?_, Draft.takes_of_parse parsed complete⟩
    have whole : .bad ∉ Token.scan value := by
      rw [Draft.parse] at parsed
      exact Draft.bad_notMem parsed complete
    have valueTokens := Token.yields_scan whole rest stops
    have alone : .bad ∉ Token.scan key := by simp [keyed]
    have keyTokens := Token.yields_scan alone (':' :: (value ++ rest)) (by simp [Stops])
    have colon : Token.scan (':' :: (value ++ rest)) = .colon :: Token.scan (value ++ rest) :=
      Token.scan_of_scanToken rfl rfl
    rw [List.append_assoc, List.cons_append, keyTokens, keyed, colon, valueTokens]
    rfl

theorem read_furtherText {texts : List (List Char)} {ms : List (Option String × Draft)}
    (spelled : List.Forall₂ Spells texts ms) :
    Separates (furtherText texts) ∧ ∃ ts, Yields (furtherText texts) ts ∧
      ∀ (read : List (Option String × Draft)) (last : Option String) (frames : List Draft.Frame)
        (more : List Token),
        (ts ++ more).foldl Draft.step (.reading .separator (.object read last :: frames)) =
          more.foldl Draft.step (Draft.finish frames (.object (read.reverse ++ ms) true)) := by
  induction spelled with
  | nil =>
    refine ⟨⟨_, rfl, by simp⟩, _, .mark .closeObject .nil, fun read last frames more => ?_⟩
    rw [List.append_nil]
    rfl
  | @cons text m texts ms first _ ih =>
    obtain ⟨separate, rest, yields, further⟩ := ih
    obtain ⟨ts, member, takes⟩ := first.yields
    refine ⟨⟨_, rfl, by simp⟩, _, .mark .comma (member.append yields separate),
      fun read last frames more => ?_⟩
    have start : Draft.ReadyForKey read frames (.reading .key (.object read last :: frames)) := .key
    have taken := start.read_member takes m.1 (rest ++ more)
    rw [further, List.reverse_cons, List.append_assoc, List.singleton_append] at taken
    show List.foldl Draft.step (.reading .key (.object read last :: frames))
      (.string m.1 :: .colon :: ts ++ rest ++ more) = _
    rw [List.append_assoc]
    exact taken

theorem Draft.parse_objectText {texts : List (List Char)} {ms : List (Option String × Draft)}
    (spelled : List.Forall₂ Spells texts ms) :
    parse (objectText texts) = (.object ms true, false) := by
  cases spelled with
  | nil => exact parse_of_tokens (.mark .openObject (.mark .closeObject .nil))
  | @cons text m texts ms first others =>
    obtain ⟨ts, member, takes⟩ := first.yields
    obtain ⟨separate, rest, yields, further⟩ := read_furtherText others
    have tokens : Yields (objectText (text :: texts))
        (.openObject :: (.string m.1 :: .colon :: ts ++ rest)) := by
      rw [objectText, intercalate_eq_furtherText]
      exact .mark .openObject (member.append yields separate)
    have start : ReadyForKey [] [] (.reading .keyOrClose [.object [] none]) := .keyOrClose
    have taken := start.read_member takes m.1 rest
    have closed := further [m] m.1 [] []
    rw [List.append_nil] at closed
    rw [parse_of_tokens tokens, List.foldl_cons]
    show (List.foldl step (.reading .keyOrClose [.object [] none])
      (.string m.1 :: .colon :: (ts ++ rest))).result = _
    rw [taken, closed]
    rfl

end Storyline.Json
