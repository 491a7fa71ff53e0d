import EffectGraph.Config.Load
import EffectGraph.Effect
import EffectGraph.Text.Upper

/-!
# The command

The command loads a graph, compiles it, and prints the shader code. What it
does depends on three settings, the files, and what prints the code; the answer
is an exit code, the printed text, and the records of the log.
-/

namespace EffectGraph

/-- The settings of the command, as given. -/
structure Settings where
  configDir : Option String := none
  graph : Option String := none
  logLevel : Option String := none

/-- What prints texts: it takes a text, or refuses all of it. -/
abbrev Printer := Text → Except Error Unit

namespace Printer

/-- Whether a glyph has no encoding. -/
def isHalf : Glyph → Bool
  | .char _ => false
  | .half _ => true

/-- What prints bytes refuses a text with halves of pairs, and names the first of
them and those that follow it. -/
def ofBytes : Printer := fun t =>
  match t.glyphs.dropWhile (!isHalf ·) with
  | [] => .ok ()
  | g :: gs =>
    let position := (t.glyphs.takeWhile (!isHalf ·)).length
    .error (.unencodable g ((gs.takeWhile isHalf).length + 1) position)

end Printer

/-- What a run of the command leaves behind. -/
structure Report where
  exit : Except Error Nat
  output : Text := ⟨[]⟩
  log : List Record := []

namespace Command

variable [Stack]

/-- The records of a compilation. -/
def compileLog (c : Compiler) (d : Definition) : List Record :=
  let start := Record.info .compiler ("Compiling graph " ++ d.name ++ "...")
  match Compiler.declare d with
  | .error _ => [start]
  | .ok m =>
    let builder := Record.info .builder
      ("Initialized GraphBuilder with " ++ toString d.nodes.length ++ " nodes and "
        ++ toString d.links.length ++ " links")
    match c.construct d with
    | .error _ => [start, builder]
    | .ok b =>
      let built := Record.info .builder
        ("Graph built successfully: " ++ toString b.graph.nodes.size ++ " nodes, "
          ++ toString b.graph.slots.size ++ " slots, " ++ toString d.links.length ++ " links")
      let evaluated := do
        let ts ← Compiler.targets b d
        Compiler.evaluate b.graph ts m
      match evaluated with
      | .error _ => [start, builder, built]
      | .ok (count, e, _) =>
        let evaluated := Record.info .evaluator
          ("Evaluated " ++ toString count ++ " nodes into " ++ toString e.values.length
            ++ " output expressions")
        match c.compile d with
        | .error _ => [start, builder, built, evaluated]
        | .ok f =>
          let compiled := Record.info .compiler
            ("Compiled graph " ++ d.name ++ ": " ++ toString f.outputs.length ++ " outputs, "
              ++ toString f.module.size ++ " expressions, " ++ toString f.rendered ++ " rendered")
          [start, builder, built, evaluated, compiled]

/-- The record of the node types that are known. -/
def registryRecord (r : Registry) : Record :=
  Record.info .registry
    ("Registered " ++ toString r.types.length ++ " node types: " ++ r.typesText)

/-- Whether the command answers an error by an exit code instead of failing
itself. -/
def isReported (e : Error) : Bool :=
  [.invalid, .syntaxFault, .validation, .expression, .evaluation, .handle].contains e.kind

/-- The report of a failed run. -/
def failed (graph : String) (log : List Record) (e : Error) : Report :=
  if isReported e then
    { exit := .ok 1
      log := log ++
        [⟨.error, .command, "Failed to compile graph " ++ graph ++ ": " ++ e.message⟩] }
  else { exit := .error e, log := log }

/-- Prints shader code. A refusal is not answered by an exit code. -/
def printed (printer : Printer) (log : List Record) (code : Text) : Report :=
  match printer code with
  | .ok _ => { exit := .ok 0, output := code, log := log }
  | .error e => { exit := .error e, log := log }

/-- Loads and compiles a graph. -/
def compileGraph (printer : Printer) (files : Files) (configDir graph : String) : Report :=
  let c : Compiler := {}
  let log :=
    [Record.info .command ("Graph: " ++ graph),
     Record.info .command ("Config Directory: " ++ normalPath configDir)]
      ++ Config.loadLog files configDir graph
  match Config.loadGraph files configDir graph with
  | .error e => failed graph log e
  | .ok d =>
    let log := log ++ registryRecord c.registry :: compileLog c d
    match c.compile d with
    | .error e => failed graph log e
    | .ok f =>
      let names := (Data.list (f.attributes.map fun a => .str a.name)).inspect
      printed printer (log ++ [Record.info .command ("Attributes: " ++ names)]) f.code

/-- Runs the command. Only records from the threshold on are shown. -/
def run (printer : Printer) (s : Settings) (files : Files) : Report :=
  let level := Text.upper (s.logLevel.getD "INFO")
  match thresholds.lookup level with
  | none => { exit := .error (.logLevel level) }
  | some rank =>
    let r := compileGraph printer files (s.configDir.getD "config") (s.graph.getD "default")
    { r with log := r.log.filter fun record => rank ≤ record.level.rank }

end Command

end EffectGraph
