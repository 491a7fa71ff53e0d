import EffectGraph.Error

/-!
# Operators

The quantities a simulation provides, and the unary and binary operators of
expressions, with their spelling in shader code and the type of their result.
-/

namespace EffectGraph

/-- A quantity provided by the simulation. -/
inductive Builtin where
  | time
  | deltaTime
  deriving DecidableEq, Repr

namespace Builtin

/-- Every quantity. -/
def all : List Builtin := [.time, .deltaTime]

/-- The name of a quantity. -/
def name : Builtin → String
  | .time => "time"
  | .deltaTime => "delta_time"

/-- A read of the quantity in shader code. -/
def shaderText : Builtin → String
  | .time => "sim_params.time"
  | .deltaTime => "sim_params.delta_time"

/-- The type of a quantity: a float. -/
def type (_ : Builtin) : ValueType := .f32

/-- The quantity with a name. -/
def ofName (name : String) : Except Error Builtin :=
  match all.find? (·.name == name) with
  | some b => .ok b
  | none => .error (.builtinName name)

end Builtin

/-- A binary operator. -/
inductive BinaryOp where
  | add
  | sub
  | mul
  | div
  | min
  | max
  | dot
  | cross
  | distance
  deriving DecidableEq, Repr

namespace BinaryOp

/-- Every binary operator. -/
def all : List BinaryOp := [.add, .sub, .mul, .div, .min, .max, .dot, .cross, .distance]

theorem mem_all (op : BinaryOp) : op ∈ all := by
  cases op <;> decide

/-- The name of an operator. -/
def name : BinaryOp → String
  | .add => "add"
  | .sub => "sub"
  | .mul => "mul"
  | .div => "div"
  | .min => "min"
  | .max => "max"
  | .dot => "dot"
  | .cross => "cross"
  | .distance => "distance"

/-- The sign of an operator written between its operands. -/
def infix? : BinaryOp → Option String
  | .add => some "+"
  | .sub => some "-"
  | .mul => some "*"
  | .div => some "/"
  | _ => none

/-- The operator applied to rendered operands: `(l) + (r)` or `min(l, r)`. -/
def render (op : BinaryOp) (l r : Text) : Text :=
  match op.infix? with
  | some sign => "(" ++ l ++ ") " ++ sign ++ " (" ++ r ++ ")"
  | none => op.name ++ "(" ++ l ++ ", " ++ r ++ ")"

/-- The type of the result, given that of the left operand. -/
def resultType (op : BinaryOp) (left : Option ValueType) : Option ValueType :=
  match op with
  | .dot | .distance => some .f32
  | _ => left

/-- The operator with a name. -/
def find? (name : String) : Option BinaryOp := all.find? (·.name == name)

end BinaryOp

/-- A unary operator. -/
inductive UnaryOp where
  | normalize
  | abs
  | length
  | sin
  | cos
  | any
  | all
  deriving DecidableEq, Repr

namespace UnaryOp

/-- Every unary operator. -/
def every : List UnaryOp := [.normalize, .abs, .length, .sin, .cos, .any, .all]

theorem mem_every (op : UnaryOp) : op ∈ every := by
  cases op <;> decide

/-- The name of an operator. -/
def name : UnaryOp → String
  | .normalize => "normalize"
  | .abs => "abs"
  | .length => "length"
  | .sin => "sin"
  | .cos => "cos"
  | .any => "any"
  | .all => "all"

/-- The operator applied to a rendered operand. -/
def render (op : UnaryOp) (x : Text) : Text := op.name ++ "(" ++ x ++ ")"

/-- The type of the result, given that of the operand. -/
def resultType (op : UnaryOp) (operand : Option ValueType) : Option ValueType :=
  match op with
  | .length => some .f32
  | .any | .all => some (.scalar .bool)
  | _ => operand

/-- The operator with a name. -/
def find? (name : String) : Option UnaryOp := every.find? (·.name == name)

end UnaryOp

/-- An operator of either kind. -/
inductive Operator where
  | binary (op : BinaryOp)
  | unary (op : UnaryOp)
  deriving DecidableEq, Repr

/-- The type of the result, given that of the first operand. -/
def Operator.resultType : Operator → Option ValueType → Option ValueType
  | .binary op => op.resultType
  | .unary op => op.resultType

end EffectGraph
