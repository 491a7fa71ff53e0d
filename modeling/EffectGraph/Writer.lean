import EffectGraph.Module
import EffectGraph.Table

/-!
# Shader writers

A writer renders expressions of one module to shader text. It remembers the
text of every expression it has rendered, so each is rendered once; binding an
expression to a local variable replaces its text by the name of the variable.

Rendering works through a list of tasks instead of recursion, so deep chains
of expressions cost no stack.
-/

namespace EffectGraph

/-- The text of an expression, from the texts of its operands. -/
def Expr.render (m : Module) (texts : List Text) : Expr → Except Error Text
  | .literal v => do return ← v.shaderText
  | .attribute a => .ok a.shaderText
  | .builtin b => .ok b.shaderText
  | .property p => do return "properties." ++ (← m.property p).name
  | .binary op _ _ => .ok (op.render (texts.getD 0 "") (texts.getD 1 ""))
  | .unary op _ => .ok (op.render (texts.getD 0 ""))

/-- A line of shader code. -/
inductive Statement where
  | binding (name value : Text)
  | line (text : Text)
  deriving DecidableEq, Repr

/-- The text of a line. -/
def Statement.text : Statement → Text
  | .binding name value => "let " ++ name ++ " = " ++ value ++ ";"
  | .line t => t

/-! ## Rendering -/

/-- What is left to do: look at an expression, or put together the text of one
whose operands have been rendered. -/
inductive Task where
  | visit (handle : ExprHandle)
  | emit (handle : ExprHandle) (expr : Expr)

namespace Task

/-- A bound on the work below a place of an arena: a visit leads to at most two
visits of places before it, and to one emission. -/
def reach : Nat → Nat
  | 0 => 2
  | i + 1 => 3 * reach i

/-- A bound on the work a task leads to. -/
def weight : Task → Nat
  | .visit h => reach h.index
  | .emit _ _ => 1

/-- A bound on the work of a list of tasks. -/
def total : List Task → Nat
  | [] => 0
  | t :: ts => t.weight + total ts

theorem two_le_reach (i : Nat) : 2 ≤ reach i := by
  induction i with
  | zero => exact Nat.le_refl 2
  | succ i ih => simp only [reach]; omega

theorem reach_lt {i j : Nat} (h : i < j) : 3 * reach i ≤ reach j := by
  induction j with
  | zero => omega
  | succ j ih =>
    simp only [reach]
    rcases Nat.lt_succ_iff_lt_or_eq.1 h with hlt | rfl
    · have := ih hlt
      omega
    · exact Nat.le_refl _

theorem weight_pos (t : Task) : 0 < t.weight := by
  cases t with
  | visit h => exact Nat.lt_of_lt_of_le (by decide) (two_le_reach h.index)
  | emit h e => exact Nat.one_pos

/-- Visiting the operands and then emitting is less work than visiting. -/
theorem total_expand (e : Expr) (h : ExprHandle) (ts : List Task)
    (hc : ∀ c ∈ e.children, c.index < h.index) :
    total (e.children.map .visit ++ .emit h e :: ts) < total (.visit h :: ts) := by
  have key : ∀ c ∈ e.children, 2 ≤ reach c.index ∧ 3 * reach c.index ≤ reach h.index :=
    fun c hm => ⟨two_le_reach c.index, reach_lt (hc c hm)⟩
  have own := two_le_reach h.index
  cases e with
  | binary op l r =>
    have hl := key l (by simp [Expr.children])
    have hr := key r (by simp [Expr.children])
    simp only [total, Expr.children, weight, List.map_cons, List.map_nil, List.cons_append,
      List.nil_append]
    omega
  | unary op x =>
    have hx := key x (by simp [Expr.children])
    simp only [total, Expr.children, weight, List.map_cons, List.map_nil, List.cons_append,
      List.nil_append]
    omega
  | _ =>
    simp only [total, Expr.children, weight, List.map_nil, List.nil_append]
    omega

end Task

/-- The texts rendered so far and how many times an expression was rendered. -/
structure Rendering where
  texts : Table Text := {}
  count : Nat := 0

namespace Rendering

/-- The text of an expression; empty before it is rendered. -/
def text (s : Rendering) (h : ExprHandle) : Text := (s.texts.get? h.index).getD ""

/-- Whether an expression has a text. -/
def contains (s : Rendering) (h : ExprHandle) : Bool := s.texts.contains h.index

/-- Records the text of an expression just rendered. -/
def record (s : Rendering) (h : ExprHandle) (t : Text) : Rendering :=
  ⟨s.texts.insert h.index t, s.count + 1⟩

/-- Replaces the text of an expression. -/
def replace (s : Rendering) (h : ExprHandle) (t : Text) : Rendering :=
  { s with texts := s.texts.insert h.index t }

/-- Works through a list of tasks; texts recorded before a failure stay. -/
def work (m : Module) (tasks : List Task) (s : Rendering) : EStateM.Result Error Rendering Unit :=
  match tasks with
  | [] => .ok () s
  | .visit h :: rest =>
    if s.contains h then work m rest s
    else if hlt : h.index < m.exprs.size then
      work m (m.exprs[h.index].children.map .visit ++ .emit h m.exprs[h.index] :: rest) s
    else .error (.invalidHandle h m.size) s
  | .emit h e :: rest =>
    match e.render m (e.children.map s.text) with
    | .ok t => work m rest (s.record h t)
    | .error err => .error err s
termination_by Task.total tasks
decreasing_by
  · have := Task.weight_pos (.visit h)
    simp only [Task.total]
    omega
  · exact Task.total_expand _ h rest fun c hc => m.index_lt_of_mem_children hlt hc
  · simp [Task.total, Task.weight]

end Rendering

/-! ## Writers -/

/-- The state of a pass of shader generation. -/
structure Writer where
  stem : Text := "var"
  arena : Option Nat := none
  rendering : Rendering := {}
  locals : List (ExprHandle × Text) := []
  taken : List Text := []
  reserved : List Text := []
  counter : Nat := 0
  statements : Array Statement := #[]

/-- Work with a writer that may fail; what it did before a failure stays. -/
abbrev Write := EStateM Error Writer

namespace Writer

/-- The shader code written so far, one line for each statement. -/
def code (w : Writer) : Text :=
  ⟨w.statements.toList.flatMap fun s => (s.text ++ ("\n" : Text)).glyphs⟩

/-- Ties the writer to the first module it renders from. -/
def bindModule (m : Module) : Write Unit := fun w =>
  match w.arena with
  | none => .ok () { w with arena := some m.key }
  | some key => if key = m.key then .ok () w else .error .secondModule w

/-- Renders an expression. -/
def eval (m : Module) (h : ExprHandle) : Write Text := do
  bindModule m
  fun w =>
    match w.rendering.work m [.visit h] with
    | .ok _ s => .ok (s.text h) { w with rendering := s }
    | .error e s => .error e { w with rendering := s }

/-- Adds a line of code. -/
def pushStatement (s : Statement) : Write Unit :=
  modify fun w => { w with statements := w.statements.push s }

/-- The name of a local variable with a number. -/
def numbered (stem : Text) (k : Nat) : Text := stem ++ (toString k : Text)

/-- The first number from `k` on whose name is not taken. A name found taken
is dropped from the list: later numbers have other names. -/
def freeNumber (stem : Text) (taken : List Text) (k : Nat) : Nat :=
  if h : numbered stem k ∈ taken then
    have : (taken.erase (numbered stem k)).length < taken.length := by
      have := List.length_pos_of_mem h
      rw [List.length_erase_of_mem h]
      omega
    freeNumber stem (taken.erase (numbered stem k)) (k + 1)
  else k
termination_by taken.length

/-- A new name for a local variable. -/
def freshName : Write Text := fun w =>
  let k := freeNumber w.stem w.taken w.counter
  .ok (numbered w.stem k) { w with counter := k + 1 }

/-- Keeps a name for a later binding. -/
def reserve (name : Text) : Write Unit := fun w =>
  if name ∈ w.taken then .error (.nameTaken name) w
  else .ok () { w with taken := name :: w.taken, reserved := name :: w.reserved }

/-- Claims the name of a new local variable: a fresh one, or the wanted one if
it is reserved or not taken. -/
def claim : Option Text → Write Text
  | none => freshName
  | some name => fun w =>
    if name ∈ w.reserved then .ok name { w with reserved := w.reserved.erase name }
    else if name ∈ w.taken then .error (.nameTaken name) w
    else .ok name w

/-- Declares a local variable that holds an expression. -/
def declare (h : ExprHandle) (name value : Text) : Write Unit :=
  modify fun w =>
    { w with
      taken := w.taken.insert name
      statements := w.statements.push (.binding name value)
      rendering := w.rendering.replace h name
      locals := w.locals ++ [(h, name)] }

/-- Renders an expression into a local variable and returns its name. An
expression that has a variable keeps it. -/
def evalToLocal (m : Module) (h : ExprHandle) (name : Option Text) : Write Text := do
  match (← get).locals.lookup h with
  | some bound => return bound
  | none =>
    let value ← eval m h
    let name ← claim name
    declare h name value
    return name

end Writer

/-- Renders an expression with a writer of its own. -/
def Module.shaderText (m : Module) (h : ExprHandle) : Except Error Text :=
  match (Writer.eval m h).run {} with
  | .ok t _ => .ok t
  | .error e _ => .error e

end EffectGraph
