import EffectGraph.Stack
import EffectGraph.Yaml.Tag
import EffectGraph.Yaml.Token

/-!
# Nodes of a YAML document

The tokens of a text make up one document: scalars, sequences and mappings,
each with its type. Nodes refer to one another by number, because an alias is
the node of its anchor, and an anchor may be referred to while its own node is
still being read.
-/

namespace EffectGraph.Yaml

variable [Stack]

/-- A node by its number. -/
abbrev NodeRef := Nat

/-- What a node holds. -/
inductive Content where
  | scalar (text : Text)
  | sequence (items : List NodeRef)
  | mapping (entries : List (NodeRef × NodeRef))

/-- A node: its type and what it holds. -/
structure Node where
  tag : Tag
  content : Content

/-- The node of a place where nothing is written. -/
def Node.empty : Node := ⟨.null, .scalar ""⟩

/-- The nodes of a document, in the order they were met. -/
abbrev Nodes := Array Node

/-- The node with a number. -/
def Nodes.at (ns : Nodes) (n : NodeRef) : Node := ns.getD n Node.empty

/-- The state of reading nodes: the tokens left, the fault that comes after
them, the nodes met, the nodes of anchors, and the number of collections that
are open. -/
structure Reader where
  tokens : List Token
  fault : Option Fault := none
  nodes : Nodes := #[]
  anchors : List (String × NodeRef) := []
  depth : Nat := 0

/-- Work on the tokens. -/
abbrev Parse := StateT Reader (Except Fault)

namespace Parse

/-- The next token, if there is one before the end of the text. -/
def peek : Parse (Option Token) := do
  let r ← get
  match r.tokens, r.fault with
  | t :: _, _ => return some t
  | [], some f => throw f
  | [], none => return none

/-- Drops the next token. -/
def drop : Parse Unit := modify fun r => { r with tokens := r.tokens.tail }

/-- Drops the next token if it is the given one; says whether it was. -/
def accept (t : Token) : Parse Bool := do
  if (← peek) == some t then do drop; return true else return false

/-- Requires the given token. -/
def expect (t : Token) : Parse Unit := do
  if !(← accept t) then throw .malformed

/-- Whether the next token is one of the given ones. -/
def nextIn (ts : List Token) : Parse Bool := do
  match ← peek with
  | some t => return ts.contains t
  | none => return false

/-- Adds a node. -/
def add (node : Node) : Parse NodeRef := fun r =>
  .ok (r.nodes.size, { r with nodes := r.nodes.push node })

/-- Adds the node of a place where nothing is written. -/
def addEmpty : Parse NodeRef := add Node.empty

/-- Gives a new node its anchor, if it has one; the anchor must be new too. -/
def anchored (anchor : Option String) (node : Node) : Parse NodeRef := do
  match anchor with
  | none => add node
  | some a =>
    if ((← get).anchors.lookup a).isSome then throw .malformed
    let n ← add node
    modify fun r => { r with anchors := (a, n) :: r.anchors }
    return n

/-- Opens a collection, unless too many are open. -/
def enter : Parse Unit := do
  let r ← get
  if Stack.composed ≤ r.depth then throw (.failed .tooDeep)
  set { r with depth := r.depth + 1 }

/-- Closes a collection. -/
def leave : Parse Unit := modify fun r => { r with depth := r.depth - 1 }

/-- Reads a collection. Its node is there before its parts are, so that they
can refer to it. -/
def collection (anchor : Option String) (tag : Tag) (parts : Parse Content) : Parse NodeRef := do
  let n ← anchored anchor ⟨tag, .sequence []⟩
  enter
  let content ← parts
  leave
  modify fun r => { r with nodes := r.nodes.setIfInBounds n ⟨tag, content⟩ }
  return n

/-- The node of an alias. -/
def resolveAlias (a : String) : Parse NodeRef := do
  match (← get).anchors.lookup a with
  | some n => return n
  | none => throw .malformed

/-- The full name of a tag, whose handle must be known. -/
def tagName (handles : List (String × String)) : Option String → String → Except Fault String
  | none, suffix => .ok suffix
  | some h, suffix =>
    match handles.lookup h with
    | some start => .ok (start ++ suffix)
    | none => .error .malformed

/-- Takes an anchor, if one stands here. -/
def anchor? : Parse (Option String) := do
  match ← peek with
  | some (.anchor n) => do
    drop
    return some n
  | _ => return none

/-- Takes a tag, if one stands here: its handle and the rest of it. -/
def tag? : Parse (Option (Option String × String)) := do
  match ← peek with
  | some (.tag h s) => do
    drop
    return some (h, s)
  | _ => return none

/-- Takes the anchor and the tag before a node, in either order. -/
def properties (handles : List (String × String)) : Parse (Option String × Option String) := do
  let (anchor, tag) ← match ← anchor? with
    | some a => do pure (some a, ← tag?)
    | none =>
      match ← tag? with
      | some t => do pure (← anchor?, some t)
      | none => pure (none, none)
  match tag with
  | some (h, s) => do return (anchor, some (← tagName handles h s))
  | none => return (anchor, none)

/-- The type of a collection. -/
def collectionTag (tag : Option String) (default : Tag) : Tag :=
  match tag with
  | none => default
  | some "!" => default
  | some t => Tag.ofName t

/-- The type of a scalar. -/
def scalarTag (tag : Option String) (text : Text) (plain : Bool) : Tag :=
  match tag with
  | none => if plain then implicitTag text else .str
  | some "!" => implicitTag text
  | some t => Tag.ofName t

mutual

/-- Reads a node. Block collections may be read if `block`, and a sequence at
the indentation of its parent if `indentless`. -/
def node (handles : List (String × String)) (block indentless : Bool) : Nat → Parse NodeRef
  | 0 => throw .malformed
  | fuel + 1 => do
    match ← peek with
    | some (.alias a) => do
      drop
      resolveAlias a
    | _ => do
      let (anchor, tag) ← properties handles
      match ← peek with
      | some .entry =>
        if indentless then
          collection anchor (collectionTag tag .seq) (.sequence <$> indentlessItems handles fuel)
        else unwritten anchor tag
      | some (.scalar text plain) => do
        drop
        anchored anchor ⟨scalarTag tag text plain, .scalar text⟩
      | some .openSequence => do
        drop
        collection anchor (collectionTag tag .seq) (.sequence <$> flowItems handles true fuel)
      | some .openMapping => do
        drop
        collection anchor (collectionTag tag .map) (.mapping <$> flowEntries handles true fuel)
      | some .blockSequence =>
        if block then do
          drop
          collection anchor (collectionTag tag .seq) (.sequence <$> blockItems handles fuel)
        else unwritten anchor tag
      | some .blockMapping =>
        if block then do
          drop
          collection anchor (collectionTag tag .map) (.mapping <$> blockEntries handles fuel)
        else unwritten anchor tag
      | _ => unwritten anchor tag

/-- A node of which only the anchor or the tag is written. -/
def unwritten (anchor tag : Option String) : Parse NodeRef :=
  if anchor.isSome || tag.isSome then anchored anchor ⟨scalarTag tag "" true, .scalar ""⟩
  else throw .malformed

/-- Reads the items of a block sequence and its end. -/
def blockItems (handles : List (String × String)) : Nat → Parse (List NodeRef)
  | 0 => throw .malformed
  | fuel + 1 => do
    if ← accept .entry then
      let item ←
        if ← nextIn [.entry, .blockEnd] then addEmpty else node handles true false fuel
      return item :: (← blockItems handles fuel)
    else do
      expect .blockEnd
      return []

/-- Reads the items of a sequence at the indentation of its parent. -/
def indentlessItems (handles : List (String × String)) : Nat → Parse (List NodeRef)
  | 0 => throw .malformed
  | fuel + 1 => do
    if ← accept .entry then
      let item ←
        if ← nextIn [.entry, .key, .value, .blockEnd] then addEmpty
        else node handles true false fuel
      return item :: (← indentlessItems handles fuel)
    else return []

/-- Reads the key or the value of a block mapping. -/
def blockPart (handles : List (String × String)) : Nat → Parse NodeRef
  | 0 => throw .malformed
  | fuel + 1 => do
    if ← nextIn [.key, .value, .blockEnd] then addEmpty else node handles true true fuel

/-- Reads the entries of a block mapping and its end. -/
def blockEntries (handles : List (String × String)) : Nat → Parse (List (NodeRef × NodeRef))
  | 0 => throw .malformed
  | fuel + 1 => do
    if ← accept .key then
      let k ← blockPart handles fuel
      let v ← if ← accept .value then blockPart handles fuel else addEmpty
      return (k, v) :: (← blockEntries handles fuel)
    else do
      expect .blockEnd
      return []

/-- Reads a part of a collection in brackets that may be followed by one of
the given tokens instead. -/
def flowPart (handles : List (String × String)) (ends : List Token) : Nat → Parse NodeRef
  | 0 => throw .malformed
  | fuel + 1 => do
    if ← nextIn ends then addEmpty else node handles false false fuel

/-- Reads the value of an entry in brackets. -/
def flowValue (handles : List (String × String)) (close : Token) : Nat → Parse NodeRef
  | 0 => throw .malformed
  | fuel + 1 => do
    if ← accept .value then flowPart handles [.comma, close] fuel else addEmpty

/-- Reads the items of a sequence in brackets and its end. A lone entry of a
mapping is a mapping of its own. -/
def flowItems (handles : List (String × String)) (first : Bool) : Nat → Parse (List NodeRef)
  | 0 => throw .malformed
  | fuel + 1 => do
    if ← accept .closeSequence then return []
    if !first then expect .comma
    if ← accept .key then
      let item ← collection none .map do
        let k ← flowPart handles [.value, .comma, .closeSequence] fuel
        let v ← flowValue handles .closeSequence fuel
        return .mapping [(k, v)]
      return item :: (← flowItems handles false fuel)
    else if ← accept .closeSequence then return []
    else
      let item ← node handles false false fuel
      return item :: (← flowItems handles false fuel)

/-- Reads the entries of a mapping in brackets and its end. -/
def flowEntries (handles : List (String × String)) (first : Bool) :
    Nat → Parse (List (NodeRef × NodeRef))
  | 0 => throw .malformed
  | fuel + 1 => do
    if ← accept .closeMapping then return []
    if !first then expect .comma
    if ← accept .key then
      let k ← flowPart handles [.value, .comma, .closeMapping] fuel
      let v ← flowValue handles .closeMapping fuel
      return (k, v) :: (← flowEntries handles false fuel)
    else if ← accept .closeMapping then return []
    else
      let k ← node handles false false fuel
      let v ← addEmpty
      return (k, v) :: (← flowEntries handles false fuel)

end

/-! ## Documents -/

/-- The tag handles of a document without directives. -/
def defaultHandles : List (String × String) := [("!", "!"), ("!!", tagStart)]

/-- Reads the directives before a document; only version 1 can be read, and
nothing may be declared twice. -/
def directives (versioned : Bool) (handles : List (String × String)) :
    Nat → Parse (List (String × String))
  | 0 => throw .malformed
  | fuel + 1 => do
    match ← peek with
    | some (.directive (.version major)) =>
      if versioned || major != 1 then throw .malformed
      drop
      directives true handles fuel
    | some (.directive (.tag h start)) =>
      if (handles.lookup h).isSome then throw .malformed
      drop
      directives versioned ((h, start) :: handles) fuel
    | some (.directive .other) => do
      drop
      directives versioned handles fuel
    | _ => return handles ++ defaultHandles

/-- Reads what follows the mark of a document, which may be nothing. -/
def markedDocument (handles : List (String × String)) (fuel : Nat) : Parse NodeRef := do
  match ← peek with
  | none | some (.directive _) | some .documentStart | some .documentEnd => addEmpty
  | _ => node handles true false fuel

/-- Skips the marks of the end of a document. -/
def skipEnds : Nat → Parse Unit
  | 0 => throw .malformed
  | fuel + 1 => do if ← accept .documentEnd then skipEnds fuel

/-- Requires the end of the text. A second document is refused once its start
is found. -/
def expectEnd (fuel : Nat) : Parse Unit := do
  skipEnds fuel
  if (← peek).isSome then
    let _ ← directives false [] fuel
    let _ ← peek
    throw .malformed

/-- Reads the only document of a text, if it has one. -/
def document (fuel : Nat) : Parse (Option NodeRef) := do
  let n ← match ← peek with
    | none => return none
    | some (.directive _) | some .documentStart => do
      let handles ← directives false [] fuel
      expect .documentStart
      markedDocument handles fuel
    | _ => node defaultHandles true false fuel
  expectEnd fuel
  return some n

end Parse

/-- The only document of a text, if it has one: its node and all nodes. -/
def Tokens.nodes? (ts : Tokens) : Except Fault (Option (NodeRef × Nodes)) := do
  let (n, r) ←
    (Parse.document (4 * ts.list.length + 4)).run { tokens := ts.list, fault := ts.fault }
  return n.map (·, r.nodes)

end EffectGraph.Yaml
