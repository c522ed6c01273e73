import Storyline.Interpreter.Basic
import Storyline.Json.Tagged
import Storyline.Node.Json

/-!
# Configuration

What a director can be told: everything has a default, so a configuration file may leave out what it
does not change.
-/

namespace Storyline

open Json

/-- What a director can be told. -/
structure Config where
  /-- Whether the calendar stays paused when a scenario ends. -/
  sandbox : Bool
  /-- The settling time after a resumption, in milliseconds. -/
  resumeDelay : UInt64
  /-- How many nodes may be visited at a time; at least one is. -/
  maxSteps : UInt64
  seed : Option UInt64
  /-- The scenario that every new month starts. -/
  salaryScenario : String
  scenarioDir : Option String
  deriving DecidableEq, Repr

namespace Config

/-- The configuration that changes nothing. -/
def default : Config where
  sandbox := false
  resumeDelay := 120
  maxSteps := 256
  seed := none
  salaryScenario := "salary"
  scenarioDir := none

instance : Inhabited Config := ⟨default⟩

/-- The settings of the director's interpreter. -/
def settings (c : Config) : Settings where
  sandbox := c.sandbox
  resumeDelay := c.resumeDelay.toNat * 1000000
  maxSteps := max c.maxSteps.toNat 1
  seed := c.seed

def encode (c : Config) : Value :=
  .object
    [("sandbox", .bool c.sandbox), ("resume_delay_ms", .number c.resumeDelay.toNat),
      ("max_steps_per_tick", .number c.maxSteps.toNat),
      ("rng_seed", c.seed.elim .null fun n => .number n.toNat),
      ("salary_scenario", .string c.salaryScenario), ("scenario_dir", optionalText c.scenarioDir)]

def steps : Decoder UInt64 := fun mode d =>
  (Decoder.count mode d).map UInt64.ofNat

def shape : Shape Config :=
  Config.mk <$> .defaulted "sandbox" .boolean default.sandbox
    <*> .defaulted "resume_delay_ms" .word64 default.resumeDelay
    <*> .defaulted "max_steps_per_tick" steps default.maxSteps
    <*> .defaulted "rng_seed" (.nullable .word64) default.seed
    <*> .defaulted "salary_scenario" .text default.salaryScenario
    <*> .defaulted "scenario_dir" (.nullable .path) default.scenarioDir

def decode : Decoder Config := shape.record "DirectorConfig"

end Config

end Storyline
