import EffectGraph.Command

/-!
# The program

Reads the settings from the environment and the graph files from disk, runs the
command, prints the shader code, and reports on the error stream.
-/

namespace EffectGraph

/-- What a path leads to on disk. What cannot be read counts as missing. -/
def entryOnDisk (path : String) : IO Entry := do
  try
    let place := (← IO.currentDir).join path
    if ← place.isDir then
      return .folder ((← place.readDir).toList.map fun e => e.fileName)
    else return .file (← IO.FS.readBinFile place)
  catch _ => return .missing

/-- The files that loading a graph looks at. -/
def filesOnDisk (configDir graph : String) : IO Files := do
  let dir := Config.graphFolder configDir graph
  let folder ← entryOnDisk dir
  let names := match folder with
    | .folder names => Config.graphFiles names
    | _ => []
  let entries ← names.mapM fun name => do
    let path := joinPath dir name
    return (path, ← entryOnDisk path)
  return fun path => (((dir, folder) :: entries).lookup path).getD .missing

/-- A record as a line of the error stream. -/
def Record.line (r : Record) : String :=
  "[" ++ r.level.name ++ "] " ++ r.source.name ++ ": " ++ r.message

end EffectGraph

open EffectGraph in
open scoped EffectGraph.Stack.Usual in
/-- Runs the command and returns its exit code. -/
def main : IO UInt32 := do
  let settings : Settings :=
    ⟨← IO.getEnv "CONFIG_DIR", ← IO.getEnv "GRAPH", ← IO.getEnv "LOG_LEVEL"⟩
  let files ← filesOnDisk (settings.configDir.getD "config") (settings.graph.getD "default")
  let report := Command.run .ofBytes settings files
  for r in report.log do
    IO.eprintln r.line
  match report.exit with
  | .ok code => do
    IO.print report.output.toString
    return code.toUInt32
  | .error e => do
    IO.eprintln e.message
    return 1
