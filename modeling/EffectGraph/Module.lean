import EffectGraph.Attribute
import EffectGraph.Operator

/-!
# Modules of expressions

A module is an arena: expressions and properties are only ever added, and are
named by their place. An expression names its operands by handle, so one
operand may serve any number of parents; every operand stands before its
parents (`Module.closed`), so walks along operands end.

Each expression is shown to the log once it has been added. Where it cannot be
shown the call fails, and the expression stays.
-/

namespace EffectGraph

/-- An expression over other expressions of the same module. -/
inductive Expr where
  | literal (value : Literal)
  | attribute (attr : Attribute)
  | builtin (op : Builtin)
  | property (handle : PropertyHandle)
  | binary (op : BinaryOp) (left right : ExprHandle)
  | unary (op : UnaryOp) (operand : ExprHandle)

/-- The operands of an expression, in order. -/
def Expr.children : Expr → List ExprHandle
  | .binary _ l r => [l, r]
  | .unary _ x => [x]
  | _ => []

/-- A named property of an effect and its default. -/
structure Property where
  name : Text
  default : Literal

/-- The type of a property is that of its default. -/
def Property.type (p : Property) : ValueType := p.default.type

/-- An arena of expressions and properties. Two modules with different keys are
different arenas, whatever they hold. -/
structure Module where
  key : Nat := 0
  exprs : Array Expr := #[]
  properties : Array Property := #[]
  closed : ∀ (i : Nat) (h : i < exprs.size), ∀ c ∈ exprs[i].children, c.index < i := by simp

/-- Work that adds to a module and may fail; what was added before a failure
stays. -/
abbrev Build := EStateM Error Module

namespace Module

/-- The number of expressions. -/
def size (m : Module) : Nat := m.exprs.size

/-- The handles of all expressions, in order. -/
def handles (m : Module) : List ExprHandle := (List.range m.size).map (⟨·⟩)

/-- The expression of a handle. -/
def get (m : Module) (h : ExprHandle) : Except Error Expr :=
  if hlt : h.index < m.exprs.size then .ok m.exprs[h.index] else .error (.invalidHandle h m.size)

/-- The property of a handle. -/
def property (m : Module) (p : PropertyHandle) : Except Error Property :=
  if hlt : p.index < m.properties.size then .ok m.properties[p.index]
  else .error (.invalidProperty p)

/-- The property with a name. -/
def findProperty? (m : Module) (name : Text) : Option PropertyHandle :=
  (m.properties.findIdx? (·.name == name)).map (⟨·⟩)

/-- The operands of an expression of a module stand before it. -/
theorem index_lt_of_mem_children (m : Module) {h : ExprHandle} (hlt : h.index < m.exprs.size)
    {c : ExprHandle} (hc : c ∈ m.exprs[h.index].children) : c.index < h.index :=
  m.closed h.index hlt c hc

/-- The arena with one more expression, whose operands are all in it. -/
def append (m : Module) (e : Expr) (h : ∀ c ∈ e.children, c.index < m.exprs.size) : Module where
  key := m.key
  exprs := m.exprs.push e
  properties := m.properties
  closed := by
    intro i hi c hc
    rw [Array.getElem_push] at hc
    split at hc
    · exact m.closed i _ c hc
    · have := h c hc
      rw [Array.size_push] at hi
      omega

/-! ## Adding expressions -/

variable [Stack]

/-- Why an expression cannot be shown: it holds a literal that cannot, or the
handle of a property that no module could have. -/
def obstacle? (m : Module) : Expr → Option Data.Obstacle
  | .literal v => (Data.literal v.data v.type).obstacle?
  | .property p =>
    if p.index < m.properties.size then none
    else if Data.isLong p.id then some .longInteger else none
  | _ => none

/-- Adds an expression; its operands must be in the module. The expression is then
shown to the log. -/
def push (e : Expr) : Build ExprHandle := fun m =>
  match h : e.children.find? (fun c => m.exprs.size ≤ c.index) with
  | some c => .error (.invalidHandle c m.size) m
  | none =>
    let m' := m.append e (by simpa using h)
    match m.obstacle? e with
    | none => .ok ⟨m.size⟩ m'
    | some o => .error o.error m'

/-- Work on a module that only looks at it. -/
def reading (f : Module → Except Error α) : Build α := fun m =>
  match f m with
  | .ok a => .ok a m
  | .error e => .error e m

/-- Adds a literal for plain data. -/
def lit (d : Data) : Build ExprHandle := do
  push (.literal (← reading fun _ => Literal.of d))

/-- Adds a read of an attribute. -/
def attr (a : Attribute) : Build ExprHandle := push (.attribute a)

/-- Adds a quantity of the simulation. -/
def builtin (b : Builtin) : Build ExprHandle := push (.builtin b)

/-- Adds a read of a property, which must be declared. -/
def prop (p : PropertyHandle) : Build ExprHandle := do
  let _ ← reading (·.property p)
  push (.property p)

/-- Adds a binary operation. -/
def binary (op : BinaryOp) (l r : ExprHandle) : Build ExprHandle := push (.binary op l r)

/-- Adds a unary operation. -/
def unary (op : UnaryOp) (x : ExprHandle) : Build ExprHandle := push (.unary op x)

/-- Declares a property with a literal as its default; its name must be new. -/
def declareProperty (name : Text) (default : Literal) : Build PropertyHandle := fun m =>
  if (m.findProperty? name).isSome then .error (.duplicateProperty name) m
  else .ok ⟨m.properties.size⟩ { m with properties := m.properties.push ⟨name, default⟩ }

/-- Declares a property with plain data as its default; its name must be new. -/
def addProperty (name : Text) (default : Data) : Build PropertyHandle := fun m =>
  if (m.findProperty? name).isSome then .error (.duplicateProperty name) m
  else
    match Literal.of default with
    | .ok v => declareProperty name v m
    | .error e => .error e m

/-! ## Types -/

/-- Walks down the first operands of an expression to a leaf: the type of the
leaf, and the operators passed on the way, the last one first. -/
def descend (m : Module) (h : ExprHandle) (passed : List Operator) :
    Except Error (Option ValueType × List Operator) :=
  if hlt : h.index < m.exprs.size then
    match he : m.exprs[h.index] with
    | .literal v => .ok (some v.type, passed)
    | .attribute a => .ok (some a.type, passed)
    | .builtin b => .ok (some b.type, passed)
    | .property p => do return (some (← m.property p).type, passed)
    | .binary op l _ =>
      have := m.index_lt_of_mem_children hlt (c := l) (by simp [he, Expr.children])
      m.descend l (.binary op :: passed)
    | .unary op x =>
      have := m.index_lt_of_mem_children hlt (c := x) (by simp [he, Expr.children])
      m.descend x (.unary op :: passed)
  else .error (.invalidHandle h m.size)
termination_by h.index

/-- The type of an expression, found along its first operands without
recursion on the way back, so that it needs no stack. -/
def valueType (m : Module) (h : ExprHandle) : Except Error (Option ValueType) := do
  let (leaf, passed) ← m.descend h []
  return passed.foldl (fun t op => op.resultType t) leaf

/-! ## Types by recursion

An expression also finds its own type, by asking its first operand for one. Each
call takes one of the places that are left on the stack. -/

/-- A call, which leaves one place less to the calls that it makes. -/
def call (body : Nat → Except Error α) : Nat → Except Error α
  | 0 => .error .tooDeep
  | places + 1 => body places

/-- Asks a handle for its place in the arena. -/
def placeCall (index : Nat) : Nat → Except Error Nat := call fun _ => .ok index

/-- Checks that a handle is of the module. -/
def checkCall (m : Module) (h : ExprHandle) : Nat → Except Error Unit :=
  call fun places => do
    if m.size ≤ (← placeCall h.index places) then throw (.invalidHandle h m.size)

/-- Looks an expression up. -/
def getCall (m : Module) (h : ExprHandle) : Nat → Except Error Expr :=
  call fun places => do
    m.checkCall h places
    let _ ← placeCall h.index places
    m.get h

/-- Looks a property up. -/
def propertyCall (m : Module) (p : PropertyHandle) : Nat → Except Error Property :=
  call fun places => do
    let _ ← placeCall p.index places
    m.property p

/-- The type of an expression, from that of its first operand. -/
def typeCall (m : Module) (e : Expr) : Nat → Except Error (Option ValueType)
  | 0 => .error .tooDeep
  | places + 1 =>
    match e with
    | .literal v => .ok (some v.type)
    | .attribute a => .ok (some a.type)
    | .builtin b => call (fun _ => .ok (some b.type)) places
    | .property p => do
      let q ← m.propertyCall p places
      call (fun _ => .ok (some q.type)) places
    | .binary op l _ => do
      let t ← m.typeCall (← m.getCall l places) places
      call (fun _ => .ok (op.resultType t)) places
    | .unary op x => do
      let t ← m.typeCall (← m.getCall x places) places
      call (fun _ => .ok (op.resultType t)) places

/-- The type that an expression of the module finds for itself. -/
def typeOf (m : Module) (h : ExprHandle) : Except Error (Option ValueType) := do
  m.typeCall (← m.getCall h Stack.calls) Stack.calls

end Module

end EffectGraph
