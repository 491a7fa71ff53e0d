import EffectGraph.Config.Merge
import EffectGraph.Files
import EffectGraph.Log
import EffectGraph.Yaml.Document

/-!
# Loading graph files

A graph is the merge of all YAML files in its folder, in the order of their
names.
-/

namespace EffectGraph.Config

variable [Stack]

/-! ## One file -/

/-- Whether data is a text. -/
def isText : Data → Bool
  | .str _ => true
  | _ => false

/-- Checks the data of a file: a mapping whose keys are texts, and which fits
the schema. -/
def configOf (d : Data) : Except LoadFault GraphConfig :=
  match d.entries? with
  | some es =>
    match (es.map Prod.fst).filter (!isText ·) with
    | [] => (GraphConfig.check d).mapError .issues
    | bad => .error (.keys bad)
  | none => .error .notMapping

/-- The bytes of the file at a path. -/
def bytesAt (files : Files) (path : String) : Except LoadFault ByteArray :=
  if path.contains '\x00' then .error .badPath
  else
    match files path with
    | .file bytes => .ok bytes
    | _ => .error .unreadable

/-- The error of a YAML text. -/
def yamlError (path : String) : Yaml.Fault → Error
  | .undecodable => .load path .undecodable
  | .malformed => .load path .malformed
  | .badScalar => .load path .badScalar
  | .failed e => e

/-- Loads a file, which is known by a number. -/
def loadFile (files : Files) (number : Nat) (path : String) : Except Error GraphConfig := do
  let path := normalPath path
  let bytes ← (bytesAt files path).mapError (.load path)
  let d ← (Yaml.load number bytes).mapError (yamlError path)
  (configOf d).mapError (.load path)

/-! ## All files of a graph -/

/-- The folder of a graph. -/
def graphFolder (configDir name : String) : String :=
  joinPath (joinPath (normalPath configDir) "graphs") name

/-- The names of graph files among the names in a folder, in order. -/
def graphFiles (names : List String) : List String :=
  (names.filter (·.endsWith ".yaml")).mergeSort fun a b => a ≤ b

/-- The files of a graph: the folder and the names in it. -/
def findFiles (files : Files) (configDir name : String) : Except Error (String × List String) :=
  let dir := graphFolder configDir name
  match files dir with
  | .folder names =>
    match graphFiles names with
    | [] => .error (.noFiles dir)
    | names => .ok (dir, names)
  | .overlong => .error (.longPath dir)
  | _ => .error (.noDirectory name dir)

/-- Loads files one after another up to the first that fails, and numbers them
from a number on. -/
def loadFiles (files : Files) (dir : String) (first : Nat) :
    List String → List (String × GraphConfig) × Except Error Unit
  | [] => ([], .ok ())
  | name :: names =>
    match loadFile files first (joinPath dir name) with
    | .ok c =>
      let (cs, r) := loadFiles files dir (first + 1) names
      ((name, c) :: cs, r)
    | .error e => ([], .error e)

/-- Loads and merges the files of a graph. -/
def loadGraph (files : Files) (configDir name : String) : Except Error Definition := do
  let (dir, names) ← findFiles files configDir name
  let (configs, done) := loadFiles files dir 0 names
  done
  merge name (configs.map Prod.snd)

/-! ## What loading reports -/

/-- The warning of a file that gives the graph another name. -/
def nameWarning? (name : String) (file : String × GraphConfig) : Option Record :=
  if file.2.name = name then none
  else some ⟨.warning, .loader,
    "Graph name mismatch in " ++ file.1 ++ ": expected " ++ name ++ ", got "
      ++ file.2.name.toString⟩

/-- The records of loading a graph. -/
def loadLog (files : Files) (configDir name : String) : List Record :=
  let start := Record.info .loader
    ("Initialized ConfigLoader with config_dir: " ++ normalPath configDir)
  match findFiles files configDir name with
  | .error _ => [start]
  | .ok (dir, names) =>
    let found := Record.info .loader
      ("Loading " ++ toString names.length ++ " YAML files for graph " ++ name)
    let (configs, done) := loadFiles files dir 0 names
    let warnings := configs.filterMap (nameWarning? name)
    let ending := match done with
      | .error (.load path fault) => [⟨.error, .loader, (Error.load path fault).message⟩]
      | .error _ => []
      | .ok _ =>
        match merge name (configs.map Prod.snd) with
        | .error _ => []
        | .ok d => [Record.info .loader
            ("Loaded graph " ++ name ++ ": " ++ toString d.nodes.length ++ " nodes, "
              ++ toString d.links.length ++ " links, " ++ toString d.outputs.length ++ " outputs")]
    start :: found :: warnings ++ ending

end EffectGraph.Config
