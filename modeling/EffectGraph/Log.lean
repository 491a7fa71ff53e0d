/-!
# Log records

What the program reports while it works, by level and by the part of it that
speaks.
-/

namespace EffectGraph

/-- The levels of records that are shown. -/
inductive Level where
  | info
  | warning
  | error
  deriving DecidableEq, Repr

/-- The name of a level. -/
def Level.name : Level → String
  | .info => "INFO"
  | .warning => "WARNING"
  | .error => "ERROR"

/-- The rank of a level. -/
def Level.rank : Level → Nat
  | .info => 20
  | .warning => 30
  | .error => 40

/-- The parts of the program that report. -/
inductive Source where
  | command
  | loader
  | registry
  | builder
  | evaluator
  | compiler
  deriving DecidableEq, Repr

/-- The name a part reports under. -/
def Source.name : Source → String
  | .command => "fxgraph.runtime.main"
  | .loader => "fxgraph.config.loader"
  | .registry => "fxgraph.graph.registry"
  | .builder => "fxgraph.graph.builder"
  | .evaluator => "fxgraph.codegen.evaluator"
  | .compiler => "fxgraph.runtime.compiler"

/-- A record. -/
structure Record where
  level : Level
  source : Source
  message : String
  deriving DecidableEq, Repr

/-- A record of ordinary progress. -/
def Record.info (source : Source) (message : String) : Record := ⟨.info, source, message⟩

/-- The least rank shown for each name of a threshold. -/
def thresholds : List (String × Nat) :=
  [("CRITICAL", 50), ("FATAL", 50), ("ERROR", 40), ("WARN", 30), ("WARNING", 30), ("INFO", 20),
   ("DEBUG", 10), ("NOTSET", 0)]

end EffectGraph
