import EffectGraph.Writer

/-!
# Shared expressions

An expression is shared when it is an operand, or a root, more than once. The
count of uses and an order that puts operands first come from one walk.
-/

namespace EffectGraph

/-- The uses of each expression met so far, and the expressions in the order
they were finished, operands before their users. -/
structure Census where
  uses : Table Nat := {}
  finished : List ExprHandle := []

namespace Census

/-- How often an expression was used. -/
def usesOf (s : Census) (h : ExprHandle) : Nat := (s.uses.get? h.index).getD 0

/-- Counts one more use. -/
def use (s : Census) (h : ExprHandle) : Census :=
  { s with uses := s.uses.insert h.index (s.usesOf h + 1) }

/-- Works through a list of tasks: a first visit leads on to the operands, a
later one only counts. -/
def work (m : Module) (tasks : List Task) (s : Census) : Except Error Census :=
  match tasks with
  | [] => .ok s
  | .visit h :: rest =>
    if 0 < s.usesOf h then work m rest (s.use h)
    else if hlt : h.index < m.exprs.size then
      work m (m.exprs[h.index].children.map .visit ++ .emit h m.exprs[h.index] :: rest) (s.use h)
    else .error (.invalidHandle h m.size)
  | .emit h _ :: rest => work m rest { s with finished := s.finished ++ [h] }
termination_by Task.total tasks
decreasing_by
  · have := Task.weight_pos (.visit h)
    simp only [Task.total]
    omega
  · exact Task.total_expand _ h rest fun c hc => m.index_lt_of_mem_children hlt hc
  · simp [Task.total, Task.weight]

end Census

/-- Whether an expression has operands. -/
def Module.isComposite (m : Module) (h : ExprHandle) : Bool :=
  match m.get h with
  | .ok e => !e.children.isEmpty
  | .error _ => false

/-- The expressions with operands that the roots use more than once, operands
before their users. -/
def Module.shared (m : Module) (roots : List ExprHandle) : Except Error (List ExprHandle) := do
  let s ← roots.foldlM (fun s r => Census.work m [.visit r] s) {}
  return s.finished.filter fun h => 1 < s.usesOf h && m.isComposite h

end EffectGraph
