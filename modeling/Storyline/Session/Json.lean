import Storyline.Host
import Storyline.Json.Tagged
import Storyline.Notifier
import Storyline.Session
import Storyline.Node.Json

/-!
# Sessions as JSON

How the state of a session, messages and notifications are written and read. What a paused phase
waits for stands beside its own tag, under a tag of another name.
-/

namespace Storyline

open Json

/-! ## Suspensions -/

namespace Suspension

/-- The members of a suspension, its tag first. -/
def members : Suspension → List (String × Value)
  | .choice node choices =>
    [("type", .string "choice"), ("node", .string node), ("choices", .number choices)]
  | .timeAdvance node => [("type", .string "time_advance"), ("node", .string node)]

def encode (s : Suspension) : Value :=
  .object s.members

def tagged : Tagged Suspension where
  name := "Suspension"
  member := "type"
  cases :=
    [⟨"choice", "Choice", .record
        (Suspension.choice <$> .required "node" .text <*> .required "choices" .count)⟩,
      ⟨"time_advance", "TimeAdvance", .record
        (Suspension.timeAdvance <$> .required "node" .text)⟩]

def decode : Decoder Suspension := tagged.decode

end Suspension

/-! ## Phases -/

namespace Phase

def encode : Phase → Value
  | .idle => .object [("state", .string "idle")]
  | .running => .object [("state", .string "running")]
  | .paused s => .object (("state", .string "paused") :: s.members)

def tagged : Tagged Phase where
  name := "Phase"
  member := "state"
  cases :=
    [⟨"idle", "Idle", .unit .idle⟩,
      ⟨"running", "Running", .unit .running⟩,
      ⟨"paused", "Paused", .inner fun mode d => (Suspension.decode mode d).map .paused⟩]

def decode : Decoder Phase := tagged.decode

end Phase

/-! ## Status -/

namespace Status

def encode (s : Status) : Value :=
  .object [("phase", s.phase.encode), ("scenario", optionalText s.scenario),
    ("current_node", optionalText s.current), ("category", optionalText s.category),
    ("pending_late_events", .number s.pendingLate)]

def shape : Shape Status :=
  Status.mk <$> .required "phase" Phase.decode <*> .optional "scenario" .text
    <*> .optional "current_node" .text <*> .optional "category" .text
    <*> .required "pending_late_events" .count

def decode : Decoder Status := shape.record "InterpreterStatus"

end Status

/-! ## Notifications -/

namespace Notification

def encode : Notification → Value
  | .started category =>
    .object [("type", .string "started"), ("category", .string category)]
  | .finished category =>
    .object [("type", .string "finished"), ("category", .string category)]

def paired : Paired Notification Category where
  name := "ScenarioNotification"
  tag := "type"
  content := "category"
  cases := [("started", .started), ("finished", .finished)]
  data := .text

def decode : Decoder Notification := paired.decode

end Notification

/-! ## Messages -/

namespace Dialog

def encode (d : Dialog) : Value :=
  .object [("category", .string d.category), ("image", optionalText d.image),
    ("text", .string d.text), ("choices", texts d.choices), ("speaker", optionalText d.speaker)]

def shape : Shape Dialog :=
  Dialog.mk <$> .required "category" .text <*> .optional "image" .text <*> .required "text" .text
    <*> .required "choices" (.list .text) <*> .optional "speaker" .text

def decode : Decoder Dialog := shape.record "DialogPayload"

end Dialog

end Storyline
