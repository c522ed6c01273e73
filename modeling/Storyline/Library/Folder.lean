import Storyline.Director
import Storyline.Failure
import Storyline.Files.Path
import Storyline.Graph.Reach

/-!
# Folders of scenarios

A scenario is a file with the extension `json`. The scenarios of a folder are loaded in the order of
their paths, and only all together.

* `Graph.loadFolder`: the scenarios of a folder.
* `Director.load`: the director of a configuration.
-/

namespace Storyline

variable {m : Type → Type} [Monad m] [Files m]

namespace Graph

/-- The graph that the contents of a file describe. -/
def ofContents (path : String) : Except FileFault String → Except Failure Graph
  | .error fault => .error (.graphUnread path fault)
  | .ok text => (Graph.read text).mapError (.graphNotLoaded path)

def load (path : String) : m (Except Failure Graph) := do
  return ofContents path (← Files.read path)

/-- The paths of the scenarios among the names in a folder, in ascending order. -/
def pathsIn (folder : String) (names : List String) : List String :=
  ((names.filter (Path.hasExtension "json")).map (Path.join folder)).mergeSort fun a b => a ≤ b

/-- The graphs in some files, or the first failure. -/
def loadAll : List String → m (Except Failure (List Graph))
  | [] => return .ok []
  | path :: paths => do
    match ← load path with
    | .error failure => return .error failure
    | .ok graph => return (← loadAll paths).map (graph :: ·)

/-- The scenarios of a folder. -/
def loadFolder (folder : String) : m (Except Failure (List Graph)) := do
  match ← Files.list folder with
  | .error fault => return .error (.folderUnlisted folder fault)
  | .ok names => loadAll (pathsIn folder names)

end Graph

namespace Director

/-- The director of loaded scenarios, and what there is to say about them. -/
def ofScenarios (config : Config) (graphs : List Graph) : Director × List Notice :=
  let (director, notices) := new config graphs
  (director, graphs.flatMap Graph.warnings ++ .libraryLoaded graphs.length :: notices)

/-- The director of a configuration, with the scenarios of its folder if it names one. -/
def load (config : Config) : m (Except Failure (Director × List Notice)) := do
  match config.scenarioDir with
  | none => return .ok (ofScenarios config [])
  | some folder => return (← Graph.loadFolder folder).map (ofScenarios config)

end Director

end Storyline
