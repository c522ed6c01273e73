import Storyline.Agenda
import Storyline.Calendar.Date
import Storyline.Calendar.NewDay
import Storyline.Calendar.Period
import Storyline.Calendar.Written
import Storyline.CommandLoop
import Storyline.Config
import Storyline.Config.File
import Storyline.Console
import Storyline.Director
import Storyline.Failure
import Storyline.Files
import Storyline.Files.Disk
import Storyline.Files.Path
import Storyline.Game
import Storyline.Graph.Basic
import Storyline.Graph.Branch
import Storyline.Graph.Document
import Storyline.Graph.Fault
import Storyline.Graph.Reach
import Storyline.Host
import Storyline.Interpreter.Basic
import Storyline.Interpreter.Effects
import Storyline.Json.Decoder
import Storyline.Json.Draft
import Storyline.Json.Fault
import Storyline.Json.Number
import Storyline.Json.Shape
import Storyline.Json.Tagged
import Storyline.Json.Token
import Storyline.Json.Value
import Storyline.Library
import Storyline.Library.Folder
import Storyline.Main
import Storyline.Node
import Storyline.Node.Json
import Storyline.Notice
import Storyline.Notifier
import Storyline.Options
import Storyline.Outlet
import Storyline.Player
import Storyline.Program
import Storyline.Random.Cipher
import Storyline.Random.Generator
import Storyline.Session
import Storyline.Session.Json
import Storyline.Text.Blank
import Storyline.Text.Numeral
import Storyline.Text.Quoted
import Storyline.Text.Visible
import Storyline.Proofs.Graph.Branch
import Storyline.Proofs.Interpreter.Pass
import Storyline.Proofs.Graph.Walk
import Storyline.Proofs.Interpreter.Effects
import Storyline.Proofs.Interpreter.Progress
import Storyline.Proofs.Interpreter.Request
import Storyline.Proofs.Interpreter.Invariant
import Storyline.Proofs.Interpreter.Category
import Storyline.Proofs.Interpreter.Bracketing
import Storyline.Proofs.Interpreter.SessionWalk
import Storyline.Proofs.Interpreter.HostCalls
import Storyline.Proofs.Player
import Storyline.Proofs.Game.Move
import Storyline.Proofs.Game.GameOver
import Storyline.Proofs.Agenda.Order
import Storyline.Proofs.Calendar.Month
import Storyline.Proofs.Calendar.Span
import Storyline.Proofs.Interpreter.Plans
import Storyline.Proofs.Agenda.Accounts
import Storyline.Proofs.Director.Operation
import Storyline.Proofs.Director.LateEvents
import Storyline.Proofs.Console.Clock
import Storyline.Proofs.Director.Days
import Storyline.Proofs.Director.Clock
import Storyline.Proofs.Director.Milestones
import Storyline.Proofs.Game.Course
import Storyline.Proofs.Game.LateStarts
import Storyline.Proofs.Agenda.Queue
import Storyline.Proofs.Graph.Build
import Storyline.Proofs.Graph.Document
import Storyline.Proofs.Graph.Unordered
import Storyline.Proofs.Graph.Slots
import Storyline.Proofs.Notifier
import Storyline.Proofs.Files.Disk
import Storyline.Proofs.Session.Json
import Storyline.Proofs.Director.InPlay
import Storyline.Proofs.Game.Reach
import Storyline.Proofs.Game.Overdue
import Storyline.Proofs.Director.Energy
import Storyline.Proofs.Game.Playing
import Storyline.Proofs.Random.Shares
import Storyline.Proofs.Graph.Odds
import Storyline.Proofs.Interpreter.Settling
import Storyline.Proofs.Interpreter.Budget
import Storyline.Proofs.Interpreter.Untimely
import Storyline.Proofs.Calendar.Ahead
import Storyline.Proofs.Graph.Reach
import Storyline.Proofs.Interpreter.InReach
import Storyline.Proofs.Interpreter.LateNodes
import Storyline.Proofs.Director.Calendar
import Storyline.Proofs.Game.Arrivals
import Storyline.Proofs.CommandLoop
import Storyline.Proofs.Library
import Storyline.Proofs.Library.Folder
import Storyline.Proofs.Player.Books
