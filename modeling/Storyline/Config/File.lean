import Storyline.Config
import Storyline.Failure
import Storyline.Files.Path
import Storyline.Notice

/-!
# Configuration files

* `Config.load`, `Config.save`: a configuration and the file that holds it.
* `Config.loadUser`: the configuration of the user, who may have none.
-/

namespace Storyline.Config

variable {m : Type → Type} [Monad m] [Files m]

/-- The configuration that the text of a file describes. -/
def ofText (path text : String) : Except Failure Config :=
  (Json.decodeText decode text).mapError (.configInvalid path)

def load (path : String) : m (Except Failure Config) := do
  match ← Files.read path with
  | .ok text => return ofText path text
  | .error fault => return .error (.configUnread path fault)

/-- The file of the user's configuration, below the user's configuration folder. -/
def userPath (folder : String) : String :=
  Path.join (Path.join folder "scenario_director") "director.json"

/-- The configuration of the user, with a warning if there is a file that cannot be used. -/
def loadUser (folder : String) : m (Config × List Notice) := do
  let path := userPath folder
  if ← Files.holds path then
    match ← load path with
    | .ok config => return (config, [])
    | .error failure => return (default, [.configIgnored path failure.message])
  else return (default, [])

/-- Makes the folder of a file. -/
def makeFolderOf (path : String) : m (Except Failure Unit) :=
  match Path.parent? path with
  | none => return .ok ()
  | some folder => return (← Files.makeFolder folder).mapError (.folderNotMade folder)

/-- Saves a configuration in a file. -/
def save (path : String) (config : Config) : m (Except Failure Unit) := do
  match ← makeFolderOf path with
  | .error failure => return .error failure
  | .ok () =>
    return (← Files.write path config.encode.indented).mapError (.configNotWritten path)

end Storyline.Config
