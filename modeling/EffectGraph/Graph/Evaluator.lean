import EffectGraph.Graph.Order

/-!
# Evaluating graphs

An evaluator turns the nodes of a graph into expressions of a module, each
after the nodes it needs, and remembers the expression of every output slot.
An input slot that reads nothing gives its node no expression, so the node
finds an input missing.
-/

namespace EffectGraph

/-- What an evaluator holds after its last run, finished or not. -/
structure Evaluator where
  needs : Needs := {}
  order : List NodeId := []
  values : List (SlotId × ExprHandle) := []

/-- Work that evaluates into a module; what it did before a failure stays. -/
abbrev Evaluate := EStateM Error (Evaluator × Module)

namespace Evaluator

variable [Stack]

/-- Work on the module alone. -/
def building (f : Build α) : Evaluate α := fun (e, m) =>
  match f m with
  | .ok a m => .ok a (e, m)
  | .error err m => .error err (e, m)

/-- Work that may fail and changes nothing. -/
def checking (r : Except Error α) : Evaluate α := fun s =>
  match r with
  | .ok a => .ok a s
  | .error e => .error e s

/-- Finds out what the nodes need and puts them in order. After a cycle the
needs are the new ones and the order is the one before. -/
def reorder (g : Graph) (e : Evaluator) : EStateM.Result Error Evaluator Unit :=
  match g.allNeeds with
  | .error err => .error err e
  | .ok needs =>
    let e := { e with needs := needs }
    match needs.findCycle with
    | .error err => .error err e
    | .ok _ =>
      match needs.sorted with
      | .error err => .error err e
      | .ok order => .ok () { e with order := order }

/-- Finds the order of evaluation. -/
def build (g : Graph) : Evaluate Unit := fun (e, m) =>
  match reorder g e with
  | .ok _ e => .ok () (e, m)
  | .error err e => .error err (e, m)

/-- The expression that an input slot reads, if it reads a slot. -/
def inputValue (g : Graph) (values : List (SlotId × ExprHandle)) (i : SlotId) :
    Except Error (Option ExprHandle) := do
  match ← g.sourceSlot i with
  | none => return none
  | some source =>
    match values.lookup source with
    | some h => return some h
    | none => throw (.noValue source)

/-- Evaluates a node whose needs have been evaluated. -/
def evaluateNode (g : Graph) (n : NodeId) : Evaluate Unit := do
  let (e, _) ← get
  let node ← checking (g.node n)
  let inputs ← checking (do (← g.inputSlots n).mapM (inputValue g e.values))
  let outputs ← building (node.eval (inputs.filterMap id))
  let slots ← checking (g.outputSlots n)
  if outputs.length ≠ slots.length then
    throw (.outputCount n node.kind outputs.length slots.length)
  modify fun (e, m) => ({ e with values := e.values ++ slots.zip outputs }, m)

/-- The nodes that the given slots need; all nodes if none are given. -/
def required (g : Graph) (e : Evaluator) : Option (List SlotId) → Except Error (List NodeId)
  | none => .ok e.order
  | some targets => do
    let roots ← targets.mapM fun s => do return (← g.slot s).node
    return e.needs.closure roots

/-- Evaluates the nodes that the targets need, or all nodes; returns how many
there are. -/
def evaluate (g : Graph) (targets : Option (List SlotId)) : Evaluate Nat := do
  build g
  let (e, _) ← get
  let wanted ← checking (e.required g targets)
  modify fun (e, m) => ({ e with values := [] }, m)
  (e.order.filter wanted.contains).forM (evaluateNode g)
  return wanted.length

/-- The expression of an output slot in the last evaluation. -/
def outputHandle (e : Evaluator) (s : SlotId) : Except Error ExprHandle :=
  match e.values.lookup s with
  | some h => .ok h
  | none => .error (.notEvaluated s)

end Evaluator

end EffectGraph
