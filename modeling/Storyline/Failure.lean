import Storyline.Files
import Storyline.Graph.Fault

/-!
# Failures

Why a configuration or a scenario could not be loaded or saved: what was being done, and what went
wrong below.

* `Failure.report`: what the operator is shown.
-/

namespace Storyline

/-- Why something could not be done. -/
inductive Failure where
  | configUnread (path : String) (cause : FileFault)
  | configInvalid (path : String) (cause : Json.Fault)
  | folderNotMade (path : String) (cause : FileFault)
  | configNotWritten (path : String) (cause : FileFault)
  | folderUnlisted (path : String) (cause : FileFault)
  | graphUnread (path : String) (cause : FileFault)
  | graphNotLoaded (path : String) (cause : GraphFault)
  | scenariosNotLoaded (cause : Failure)
  /-- A line of input is no text. -/
  | inputUnread
  deriving DecidableEq, Repr

/-- The messages of a fault and of what lies below it. -/
def GraphFault.messages (fault : GraphFault) : List String :=
  match fault with
  | .unreadable below => [fault.message, below.message]
  | _ => [fault.message]

namespace Failure

/-- What was being done. -/
def message : Failure → String
  | .configUnread path _ => s!"failed to read config {path}"
  | .configInvalid path _ => s!"invalid config {path}"
  | .folderNotMade path _ => s!"failed to create {path}"
  | .configNotWritten path _ => s!"failed to write config {path}"
  | .folderUnlisted path _ => s!"failed to list {path}"
  | .graphUnread path _ => s!"failed to read graph {path}"
  | .graphNotLoaded path _ => s!"failed to load graph {path}"
  | .scenariosNotLoaded _ => "failed to load scenarios"
  | .inputUnread => FileFault.invalidText.message

/-- What went wrong below, the nearest first. -/
def causes : Failure → List String
  | .configUnread _ cause | .folderNotMade _ cause | .configNotWritten _ cause
  | .folderUnlisted _ cause | .graphUnread _ cause => [cause.message]
  | .configInvalid _ cause => [cause.message]
  | .graphNotLoaded _ cause => cause.messages
  | .scenariosNotLoaded cause => cause.message :: cause.causes
  | .inputUnread => []

/-- The lines of a text behind a label. -/
def labelled (label : String) (text : String) : List String :=
  match text.splitOn "\n" with
  | [] => [label]
  | first :: rest =>
    (label ++ first) :: rest.map ("".pushn ' ' label.length ++ ·)

/-- The lines that list causes. A single one has no number. -/
def causeLines : List String → List String
  | [] => []
  | [cause] => "" :: "Caused by:" :: labelled "    " cause
  | causes =>
    "" :: "Caused by:" :: (causes.zipIdx.map fun (cause, i) => labelled s!"    {i}: " cause).flatten

/-- The lines that the operator is shown. -/
def report (f : Failure) : List String :=
  ("Error: " ++ f.message).splitOn "\n" ++ causeLines f.causes

end Failure

end Storyline
