import EffectGraph.Graph.Slot
import EffectGraph.Module

/-!
# Nodes

A node declares slots and turns the expressions of its inputs into those of its
outputs. It only builds expressions around its inputs; it never computes with
them.
-/

namespace EffectGraph

/-- The arithmetic that a node can do. -/
inductive Arithmetic where
  | add
  | sub
  | mul
  | div
  deriving DecidableEq, Repr

/-- The operator of an arithmetic node. -/
def Arithmetic.operator : Arithmetic → BinaryOp
  | .add => .add
  | .sub => .sub
  | .mul => .mul
  | .div => .div

/-- The name of an arithmetic node. -/
def Arithmetic.nodeName : Arithmetic → String
  | .add => "AddNode"
  | .sub => "SubNode"
  | .mul => "MulNode"
  | .div => "DivNode"

/-- What a custom node returns for one of its outputs: a new literal, if there
is data for one, one of its inputs (counted from the end when negative), or a
given expression. -/
inductive CustomOutput where
  | literal (data : Except Error Data)
  | input (index : Int)
  | handle (id : Int)

/-- A node of an effect graph: one of the kinds that come with the library, or a
custom one, which is all that a caller may register under a type of its own: it
declares any slots, and makes its outputs from what it is given. -/
inductive Node where
  | arithmetic (op : Arithmetic)
  | attribute (attr : Attribute)
  | time
  | normalize
  | custom (slots : List SlotDecl) (outputs : List CustomOutput)

/-- The item of a list at an index, which counts from the end when negative. -/
def itemAt? (xs : List α) (i : Int) : Option α :=
  let i := if i < 0 then i + xs.length else i
  if i < 0 then none else xs[i.toNat]?

namespace Node

/-- The name of the kind of node. -/
def kind : Node → String
  | .arithmetic op => op.nodeName
  | .attribute _ => "AttributeNode"
  | .time => "TimeNode"
  | .normalize => "NormalizeNode"
  | .custom _ _ => "CustomNode"

/-- Shows a node. -/
def inspect : Node → String
  | .attribute a => "AttributeNode(" ++ a.name.quoted ++ ")"
  | n => n.kind ++ "()"

/-- The slots a node declares, in the order that gives inputs and outputs their
meaning. -/
def slots : Node → List SlotDecl
  | .arithmetic _ => [.input "lhs", .input "rhs", .output "result"]
  | .attribute a => [.output a.name (some a.type)]
  | .time => Builtin.all.map fun b => .output b.name (some b.type)
  | .normalize => [.input "in", .output "out"]
  | .custom slots _ => slots

/-- The error of a node that takes so many inputs and got others. -/
def inputCount (n : Node) (expected : Nat) (inputs : List ExprHandle) : Error :=
  .inputCount n.kind expected inputs.length

variable [Stack]

/-- One output of a custom node. -/
def customOutput (inputs : List ExprHandle) : CustomOutput → Build ExprHandle
  | .literal d => do Module.lit (← Module.reading fun _ => d)
  | .input i =>
    match itemAt? inputs i with
    | some h => pure h
    | none => throw .indexRange
  | .handle id => Module.reading fun _ => ExprHandle.ofId id

/-- Builds the output expressions of a node around its inputs. -/
def eval (n : Node) (inputs : List ExprHandle) : Build (List ExprHandle) :=
  match n, inputs with
  | .arithmetic op, [l, r] => do return [← Module.binary op.operator l r]
  | .arithmetic _, _ => throw (n.inputCount 2 inputs)
  | .attribute a, [] => do return [← Module.attr a]
  | .attribute _, _ => throw (n.inputCount 0 inputs)
  | .time, [] => Builtin.all.mapM Module.builtin
  | .time, _ => throw (n.inputCount 0 inputs)
  | .normalize, [x] => do return [← Module.unary .normalize x]
  | .normalize, _ => throw (n.inputCount 1 inputs)
  | .custom _ outputs, _ => outputs.mapM (customOutput inputs)

end Node

end EffectGraph
