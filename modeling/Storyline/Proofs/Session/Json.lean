import Storyline.Config.File
import Storyline.Player
import Storyline.Proofs.Files.Disk
import Storyline.Proofs.Node.Json
import Storyline.Session.Json

/-!
# What is kept beyond a run

The state of a session, notifications, messages, players and configurations are decoded from their
own texts, and a saved configuration is loaded again.

* `Phase.recovers`: a phase, although a paused one has two tags side by side.
* `Config.load_save`: a configuration on a disk.
* `kept`: all of them together.
-/

namespace Storyline

open Json

/-! ## Sessions -/

/-- Whether a count fits into 64 bits. -/
def Suspension.Sized : Suspension → Prop
  | .choice _ choices => choices < UInt64.size
  | .timeAdvance _ => True

def Phase.Sized : Phase → Prop
  | .paused s => s.Sized
  | .idle | .running => True

structure Status.Sized (s : Status) : Prop where
  phase : s.phase.Sized
  pendingLate : s.pendingLate < UInt64.size

theorem Suspension.recovers {s : Suspension} (sized : s.Sized) :
    decode.Recovers 3 s.encode s := by
  cases s with
  | choice node choices =>
    exact tagged.recovers_record rfl (by decide)
      (((Shape.Recovers.field (Decoder.recovers_text 2 node)).map choice).seq
        (.field (Decoder.recovers_count sized 2)))
  | timeAdvance node =>
    exact tagged.recovers_record rfl (by decide)
      ((Shape.Recovers.field (Decoder.recovers_text 2 node)).map timeAdvance)

theorem Suspension.members_apart (s : Suspension) : ∀ m ∈ s.members, m.1 ≠ "state" := by
  cases s <;> simp [members]

namespace Phase

/-- The suspension is stored without the tag of the phase, and its own tag is still there. -/
theorem recovers {p : Phase} (sized : p.Sized) : decode.Recovers 3 p.encode p := by
  cases p with
  | idle => exact tagged.recovers rfl (List.forall_mem_nil _) (.unit idle)
  | running => exact tagged.recovers rfl (List.forall_mem_nil _) (.unit running)
  | paused s =>
    exact tagged.recovers rfl s.members_apart (.inner ((Suspension.recovers sized).map paused))

theorem names_distinct (s : Suspension) :
    ("state" :: s.members.map Prod.fst).Nodup := by
  cases s <;> simp [Suspension.members]

end Phase

theorem Status.recovers {s : Status} (sized : s.Sized) : decode.Recovers 4 s.encode s := by
  have fields : shape.Recovers 3 _ s :=
    (((((Shape.Recovers.field (Phase.recovers sized.phase)).map mk).seq
      (.field (recovers_optionalText 3 s.scenario))).seq
      (.field (recovers_optionalText 3 s.current))).seq
      (.field (recovers_optionalText 3 s.category))).seq
      (.field (Decoder.recovers_count sized.pendingLate 3))
  exact fields.record (by decide) _

/-! ## Notifications and messages -/

theorem Notification.recovers (n : Notification) : decode.Recovers 1 n.encode n := by
  cases n with
  | started category => exact paired.recovers rfl (by decide) (Decoder.recovers_text 0 category)
  | finished category => exact paired.recovers rfl (by decide) (Decoder.recovers_text 0 category)

theorem Dialog.recovers (d : Dialog) : decode.Recovers 2 d.encode d := by
  have fields : shape.Recovers 1 _ d :=
    (((((Shape.Recovers.field (Decoder.recovers_text 1 d.category)).map mk).seq
      (.field (recovers_optionalText 1 d.image))).seq
      (.field (Decoder.recovers_text 1 d.text))).seq
      (.field (recovers_texts 0 d.choices))).seq
      (.field (recovers_optionalText 1 d.speaker))
  exact fields.record (by decide) _

/-! ## Players -/

theorem Player.recovers (p : Player) : decode.Recovers 2 p.encode p := by
  have fields : shape.Recovers 1 _ p :=
    (((((Shape.Recovers.field (Decoder.recovers_signed64 1 p.happiness)).map mk).seq
      (.field (Decoder.recovers_signed64 1 p.money))).seq
      (.field (Decoder.recovers_signed64 1 p.salary))).seq
      (.field (Decoder.recovers_boolean 1 p.hasPet))).seq
      (.field (recovers_texts 0 p.inventory))
  exact fields.record (by decide) _

/-! ## Configurations -/

namespace Config

theorem recovers_steps (room : Nat) (n : UInt64) : steps.Recovers room (.number n.toNat) n := by
  have word : steps.Recovers room (.number n.toNat) (UInt64.ofNat n.toNat) :=
    (Decoder.recovers_count n.toNat_lt room).map UInt64.ofNat
  simpa using word

theorem recovers_seed (room : Nat) (seed : Option UInt64) :
    Decoder.Recovers (.nullable .word64) room (seed.elim .null fun n => .number n.toNat) seed := by
  cases seed with
  | none => exact Decoder.recovers_null .word64 room
  | some n => exact (Decoder.recovers_word64 room n).present nofun

theorem recovers_scenarioDir (room : Nat) (dir : Option String) :
    Decoder.Recovers (.nullable .path) room (optionalText dir) dir := by
  cases dir with
  | none => exact Decoder.recovers_null .path room
  | some s => exact (Decoder.recovers_path room s).present nofun

theorem recovers (c : Config) : decode.Recovers 1 c.encode c := by
  have fields : shape.Recovers 0 _ c :=
    ((((((Shape.Recovers.field (Decoder.recovers_boolean 0 c.sandbox)).map mk).seq
      (.field (Decoder.recovers_word64 0 c.resumeDelay))).seq
      (.field (recovers_steps 0 c.maxSteps))).seq
      (.field (recovers_seed 0 c.seed))).seq
      (.field (Decoder.recovers_text 0 c.salaryScenario))).seq
      (.field (recovers_scenarioDir 0 c.scenarioDir))
  exact fields.record (by decide) _

theorem ofText_indented (c : Config) (path : String) :
    ofText path c.encode.indented = .ok c := by
  rw [ofText, (c.recovers.readsBack (by decide)).indented]
  rfl

/-- A save that succeeds has written the file, after whatever it did to the folders above. -/
theorem save_cases {path : String} {c : Config} {d d' : Disk}
    (saved : (save path c : StateM Disk (Except Failure Unit)) d = (.ok (), d')) :
    ∃ between : Disk, between.write path c.encode.indented = .ok d' := by
  simp only [save, bind, StateT.bind] at saved
  cases made : (makeFolderOf path : StateM Disk (Except Failure Unit)) d with
  | mk outcome between =>
    rw [made] at saved
    cases outcome with
    | error failure => exact absurd saved nofun
    | ok made =>
      refine ⟨between, ?_⟩
      have changed : ((Disk.change (·.write path c.encode.indented) between).1.mapError
          (Failure.configNotWritten path),
          (Disk.change (·.write path c.encode.indented) between).2) = (.ok (), d') := saved
      rw [Disk.change] at changed
      cases written : between.write path c.encode.indented with
      | error fault =>
        rw [written] at changed
        exact absurd changed nofun
      | ok after =>
        rw [written] at changed
        exact congrArg Except.ok (congrArg Prod.snd changed)

theorem load_save {path : String} {c : Config} {d d' : Disk}
    (saved : (save path c : StateM Disk (Except Failure Unit)) d = (.ok (), d')) :
    (load path : StateM Disk (Except Failure Config)) d' = (.ok c, d') := by
  obtain ⟨between, written⟩ := save_cases saved
  have text := Disk.read_write written
  simp only [load, bind, StateT.bind, Files.read, text]
  exact congrArg (·, d') (c.ofText_indented path)

end Config

/-- Whatever is written of a run or a configuration is decoded as it was, from either layout. The
tag of a pause stays apart from the tag and the fields of what is waited for, and a configuration
that could be saved is loaded from where it was saved. -/
theorem kept {suspension : Suspension} {phase : Phase} {status : Status}
    (notification : Notification) (dialog : Dialog) (player : Player) (config : Config)
    (choices : suspension.Sized) (paused : phase.Sized) (counts : status.Sized) :
    Suspension.decode.ReadsBack suspension.encode suspension ∧
    Phase.decode.ReadsBack phase.encode phase ∧
    Status.decode.ReadsBack status.encode status ∧
    Notification.decode.ReadsBack notification.encode notification ∧
    Dialog.decode.ReadsBack dialog.encode dialog ∧
    Player.decode.ReadsBack player.encode player ∧
    Config.decode.ReadsBack config.encode config ∧
    (suspension.encode = .object suspension.members ∧
      (Phase.paused suspension).encode =
        .object (("state", .string "paused") :: suspension.members) ∧
      ("state" :: suspension.members.map Prod.fst).Nodup) ∧
    (∀ path, Config.ofText path config.encode.indented = .ok config) ∧
    (∀ (path : String) (d d' : Disk),
      (Config.save path config : StateM Disk (Except Failure Unit)) d = (.ok (), d') →
        (Config.load path : StateM Disk (Except Failure Config)) d' = (.ok config, d')) := by
  refine ⟨?_, ?_, ?_, ?_, ?_, ?_, ?_, ⟨rfl, rfl, Phase.names_distinct suspension⟩, ?_, ?_⟩
  · exact (Suspension.recovers choices).readsBack (by decide)
  · exact (Phase.recovers paused).readsBack (by decide)
  · exact (Status.recovers counts).readsBack (by decide)
  · exact notification.recovers.readsBack (by decide)
  · exact dialog.recovers.readsBack (by decide)
  · exact player.recovers.readsBack (by decide)
  · exact config.recovers.readsBack (by decide)
  · exact config.ofText_indented
  · exact fun path d d' saved => Config.load_save saved

theorem kept_letter :
    let pause := Suspension.choice "letter" 2
    let status : Status := ⟨.paused pause, some "post", some "letter", none, 1⟩
    (pause.Sized ∧ (Phase.paused pause).Sized ∧ status.Sized) ∧
      Phase.decode.ReadsBack (Phase.paused pause).encode (.paused pause) ∧
      Status.decode.ReadsBack status.encode status := by
  intro pause status
  have choices : pause.Sized := by show 2 < UInt64.size; decide
  have paused : (Phase.paused pause).Sized := choices
  have counts : status.Sized := ⟨choices, by decide⟩
  obtain ⟨-, phase, status, -⟩ := kept (.started "post")
    ⟨"post", none, "Hello", ["Read", "Burn"], none⟩ .initial .default choices paused counts
  exact ⟨⟨choices, paused, counts⟩, phase, status⟩

end Storyline
