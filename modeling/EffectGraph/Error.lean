import EffectGraph.Config.Issue
import EffectGraph.Data.Text
import EffectGraph.Definition
import EffectGraph.Handle

/-!
# Errors

Every way a call can fail is a cause with what it needs to be explained;
`Error.message` is the explanation and `Error.kind` the class a caller sorts
errors by. Faults of a definition are `invalid`, faults found while building or
evaluating expressions are `expression`, `evaluation` and `handle`, and misuse
of a graph by its builder is `contract`.
-/

namespace EffectGraph

/-- The classes of errors. -/
inductive ErrorKind where
  | invalid
  | mistyped
  | missingKey
  | unsupported
  | overflow
  | outOfRange
  | expression
  | evaluation
  | handle
  | contract
  | validation
  | syntaxFault
  | recursion
  | system
  | encoding
  deriving DecidableEq, Repr

/-- Why a graph file could not be loaded. -/
inductive LoadFault where
  | unreadable
  | badPath
  | undecodable
  | malformed
  | badScalar
  | notMapping
  | keys (bad : List Data)
  | issues (found : List Config.Issue)

/-- The causes of errors. -/
inductive Error where
  -- numbers and texts
  | intText (got : Data)
  | intDigits (count : Nat)
  | longInteger
  | floatText (got : Data)
  | notReal (kind : String)
  | notInteger (kind : String)
  | intTooLarge
  | infiniteInteger
  | nanInteger
  | unordered (kind : String)
  | notText (kind : String)
  | notIterable (kind : String)
  | notUnpackable (kind : String)
  | tooFew (expected got : Nat)
  | tooMany (expected : Nat)
  | notKeyed (kind : String)
  | listKey (kind : String)
  | textKey
  | missingKey (key : Text)
  | unkeyable (kind : String)
  | indexRange
  | emptyNumber
  | notTime
  | timeKind (kind : String)
  | endlessComparison
  | tooDeep
  | deepData
  | codeTooLarge
  | deepJson (word : String)
  | jsonText
  | notJson (kind : String)
  | jsonKey (kind : String)
  -- types and literals
  | vectorCount (count : Int)
  | scalarName (name : Text)
  | vectorName (name : Text) (cause : Error)
  | typeName (name : Text)
  | literalKind (kind : String)
  | literalCount (count : Nat)
  | mixedVector
  | expectedBool (got : Data)
  | expectedNumber (type : ScalarType) (got : Data)
  | expectedInteger (type : ScalarType) (got : Data)
  | negative (got : Data)
  | expectedComponents (count : Nat) (type : String) (got : Data)
  | attributeName (name : Data) (known : List Text)
  | attributeType (name : Text) (expected : ValueType) (got : Data)
  | builtinName (name : String)
  -- handles and modules
  | oneBased (what : IdKind) (got : Int)
  | invalidHandle (handle : ExprHandle) (size : Nat)
  | invalidProperty (handle : PropertyHandle)
  | duplicateProperty (name : Text)
  -- shader text
  | secondModule
  | nameTaken (name : Text)
  -- graphs
  | invalidNode (node : NodeId)
  | invalidSlot (slot : SlotId)
  | slotDir (slot : SlotId) (name : Text) (dir expected : SlotDir)
  | notInput (slot : SlotId) (name : Text)
  | linkDirs (source : SlotId) (sourceDir : SlotDir) (target : SlotId) (targetDir : SlotDir)
  -- evaluation
  | inputCount (node : String) (expected got : Nat)
  | outputCount (id : NodeId) (node : String) (got expected : Nat)
  | cycle (path : List NodeId)
  | unsorted (nodes : List NodeId)
  | notEvaluated (slot : SlotId)
  | noValue (slot : SlotId)
  -- definitions
  | nodeType (type : Text) (known : List Text)
  | nodeParams (id type : Text) (cause : Error)
  | attributeParam (id : Text)
  | duplicateNode (id : Text)
  | slotRef (ref : Text)
  | unknownNode (ref node : Text)
  | unknownSlot (node slot : Text)
  | sourceDir (ref : Text)
  | targetDir (ref : Text)
  | outputDir (name ref : Text)
  | originParams
  | originProperty (name : Data)
  | modifierType (type : Text) (known : List Text)
  | modifierPass (type : Text) (pass : String)
  -- configurations
  | config (issues : List Config.Issue)
  | conflict (first second : NodeDef)
  | duplicateOutput (name : Text)
  | propertyValue (name : Text) (cause : Error)
  | noDirectory (graph dir : String)
  | noFiles (dir : String)
  | longPath (path : String)
  | load (path : String) (fault : LoadFault)
  | logLevel (name : String)
  -- output
  | unencodable (first : Glyph) (count position : Nat)

namespace Error

/-- The class of an error. -/
def kind : Error → ErrorKind
  | .notReal _ | .notInteger _ | .unordered _ | .notIterable _ | .notUnpackable _ | .notKeyed _
  | .listKey _ | .textKey | .unkeyable _ | .timeKind _ | .notJson _ | .jsonKey _
  | .literalKind _ | .mixedVector => .mistyped
  | .intTooLarge | .infiniteInteger | .codeTooLarge => .overflow
  | .notText _ | .notTime => .unsupported
  | .missingKey _ | .noValue _ => .missingKey
  | .indexRange | .emptyNumber => .outOfRange
  | .endlessComparison | .tooDeep | .deepData | .deepJson _ => .recursion
  | .jsonText => .syntaxFault
  | .invalidHandle _ _ | .invalidProperty _ => .handle
  | .secondModule | .nameTaken _ => .expression
  | .invalidNode _ | .invalidSlot _ | .slotDir _ _ _ _ | .notInput _ _
  | .linkDirs _ _ _ _ => .contract
  | .inputCount _ _ _ | .outputCount _ _ _ _ | .cycle _ | .unsorted _
  | .notEvaluated _ => .evaluation
  | .config _ => .validation
  | .longPath _ => .system
  | .unencodable _ _ _ => .encoding
  | _ => .invalid

/-- Identifiers with the given text between them. -/
def idsText (sep : String) (ids : List NodeId) : String :=
  String.intercalate sep (ids.map fun n => toString n.id)

variable [Stack]

/-- A node definition in a message. -/
def nodeText (n : NodeDef) : String :=
  "id=" ++ n.id.quoted ++ " type=" ++ n.type.quoted ++ " params=" ++ (Data.map n.params).inspect

/-- The message of an integer that is too long to be written out. -/
def longIntegerText : String :=
  "Exceeds the limit (4300 digits) for integer string conversion; use "
    ++ "sys.set_int_max_str_digits() to increase the limit"

/-- A message that shows data. If the data holds an integer that is too long to
be shown, the message can only say that. -/
def showing (ds : List Data) (message : Unit → String) : String :=
  if ds.all Data.isShowable then message () else longIntegerText

/-- An error that shows data; data that is nested too deep to be shown is an
error of its own. -/
def about (ds : List Data) (e : Error) : Error :=
  if ds.findSome? Data.obstacle? = some .depth then .deepData else e

/-- What follows the path in the message of a failed load; the details of a
file that cannot be read or parsed are not part of it. -/
def loadText : LoadFault → String
  | .notMapping => ": top-level YAML value must be a mapping"
  | .keys bad =>
    if bad.all Data.isShowable then
      ": top-level keys must be strings, got " ++ (Data.list bad).inspect
    else ""
  | _ => ""

/-- The explanation of an error. -/
def message : Error → String
  | .intText d =>
    "invalid literal for int() with base 10: " ++ String.ofList (d.inspect.toList.take 200)
  | .intDigits n =>
    "Exceeds the limit (4300 digits) for integer string conversion: value has " ++ toString n
      ++ " digits; use sys.set_int_max_str_digits() to increase the limit"
  | .longInteger => longIntegerText
  | .floatText d => "could not convert string to float: " ++ d.inspect
  | .notReal k => "float() argument must be a string or a real number, not '" ++ k ++ "'"
  | .notInteger k =>
    "int() argument must be a string, a bytes-like object or a real number, not '" ++ k ++ "'"
  | .intTooLarge => "int too large to convert to float"
  | .infiniteInteger => "cannot convert float infinity to integer"
  | .nanInteger => "cannot convert float NaN to integer"
  | .unordered k => "'<' not supported between instances of '" ++ k ++ "' and 'int'"
  | .notText k => "'" ++ k ++ "' object has no attribute 'strip'"
  | .notIterable k => "'" ++ k ++ "' object is not iterable"
  | .notUnpackable k => "cannot unpack non-iterable " ++ k ++ " object"
  | .tooFew expected got =>
    "not enough values to unpack (expected " ++ toString expected ++ ", got " ++ toString got ++ ")"
  | .tooMany expected => "too many values to unpack (expected " ++ toString expected ++ ")"
  | .notKeyed k => "'" ++ k ++ "' object is not subscriptable"
  | .listKey k => k ++ " indices must be integers or slices, not str"
  | .textKey => "string indices must be integers, not 'str'"
  | .missingKey k => k.quoted
  | .unkeyable k => "unhashable type: '" ++ k ++ "'"
  | .indexRange => "list index out of range"
  | .emptyNumber => "string index out of range"
  | .notTime => "'NoneType' object has no attribute 'groupdict'"
  | .timeKind k => "expected string or bytes-like object, got '" ++ k ++ "'"
  | .endlessComparison => "maximum recursion depth exceeded in comparison"
  | .tooDeep => "maximum recursion depth exceeded"
  | .deepData => "maximum recursion depth exceeded while getting the repr of an object"
  | .codeTooLarge => "Python int too large to convert to C int"
  | .deepJson word =>
    "maximum recursion depth exceeded while decoding a JSON " ++ word ++ " from a unicode string"
  | .jsonText => ""
  | .notJson k => "Object of type " ++ k ++ " is not JSON serializable"
  | .jsonKey k => "keys must be str, int, float, bool or None, not " ++ k
  | .vectorCount n => "Invalid vector component count: " ++ Data.intText n
  | .scalarName n => n.quoted ++ " is not a valid ScalarType"
  | .vectorName n e => "Invalid vector type '" ++ n.toString ++ "': " ++ e.message
  | .typeName n => "Unknown value type: '" ++ n.toString ++ "'"
  | .literalKind k => "Unsupported literal value type: " ++ k
  | .literalCount n => "Vector literal must have 2 to 4 components, got " ++ toString n
  | .mixedVector => "Cannot mix bool and numeric vector components"
  | .expectedBool d => showing [d] fun _ => "Expected true or false for bool, got " ++ d.inspect
  | .expectedNumber t d =>
    showing [d] fun _ => "Expected a number for " ++ t.name ++ ", got " ++ d.inspect
  | .expectedInteger t d =>
    showing [d] fun _ => "Expected an integer for " ++ t.name ++ ", got " ++ d.inspect
  | .negative d => showing [d] fun _ => "Unsigned literal cannot be negative: " ++ d.display
  | .expectedComponents n t d =>
    showing [d] fun _ =>
      "Expected " ++ toString n ++ " components for " ++ t ++ ", got " ++ d.inspect
  | .attributeName n known =>
    showing [n] fun _ =>
      "Unknown attribute: " ++ n.display ++ ". Available attributes: " ++ Data.commas (known.map Text.toString)
  | .attributeType n t d =>
    showing [d] fun _ =>
      "Type mismatch for attribute " ++ n.toString ++ ": expected " ++ t.name ++ ", got " ++ d.display
  | .builtinName n => "Unknown built-in operator: " ++ n
  | .oneBased what n => what.words ++ " id must be one-based, got " ++ Data.intText n
  | .invalidHandle h n =>
    "Invalid expression handle ExprHandle(id=" ++ toString h.id ++ ") for module with "
      ++ toString n ++ " expressions"
  | .invalidProperty p => "Invalid property handle PropertyHandle(id=" ++ toString p.id ++ ")"
  | .duplicateProperty n => "Duplicate property name: " ++ n.toString
  | .secondModule => "ShaderWriter used with more than one module"
  | .nameTaken n => "Local variable already defined: " ++ n.toString
  | .invalidNode n => "Invalid node id: NodeId(id=" ++ toString n.id ++ ")"
  | .invalidSlot s => "Invalid slot id: SlotId(id=" ++ toString s.id ++ ")"
  | .slotDir s n dir expected =>
    "Slot " ++ toString s.id ++ " ('" ++ n.toString ++ "') is an " ++ dir.word ++ " slot, expected an "
      ++ expected.word ++ " slot"
  | .notInput s n => "Slot " ++ toString s.id ++ " ('" ++ n.toString ++ "') is not an input slot"
  | .linkDirs o od i id =>
    "Cannot link slot " ++ toString o.id ++ " (" ++ od.word ++ ") to slot " ++ toString i.id ++ " ("
      ++ id.word ++ "): links go from an output slot to an input slot"
  | .inputCount node expected got =>
    "Unexpected input count to " ++ node ++ ".eval(): expected " ++ toString expected ++ ", got "
      ++ toString got
  | .outputCount id node got expected =>
    "Node " ++ toString id.id ++ " (" ++ node ++ ") returned " ++ toString got
      ++ " outputs, expected " ++ toString expected
  | .cycle path => "Cycle detected in graph: " ++ idsText " -> " path
  | .unsorted nodes => "Topological sort failed, unordered nodes: [" ++ idsText ", " nodes ++ "]"
  | .notEvaluated s => "Slot " ++ toString s.id ++ " has no evaluated expression"
  | .noValue s => "SlotId(id=" ++ toString s.id ++ ")"
  | .nodeType t known =>
    "Unknown node type: " ++ t.toString ++ ". Available types: "
      ++ (if known.isEmpty then "none" else Data.commas (known.map Text.toString))
  | .nodeParams id t e =>
    "Cannot create node '" ++ id.toString ++ "' (" ++ t.toString ++ "): " ++ e.message
  | .attributeParam id =>
    "Attribute node '" ++ id.toString ++ "' is missing the 'attribute' param"
  | .duplicateNode id => "Duplicate node id: " ++ id.toString
  | .slotRef r => "Invalid slot reference '" ++ r.toString ++ "', expected '<node>.<slot>'"
  | .unknownNode r n =>
    "Slot reference '" ++ r.toString ++ "' names unknown node: '" ++ n.toString ++ "'"
  | .unknownSlot n s => "Node '" ++ n.toString ++ "' has no slot named '" ++ s.toString ++ "'"
  | .sourceDir r => "Link source '" ++ r.toString ++ "' is not an output slot"
  | .targetDir r => "Link target '" ++ r.toString ++ "' is not an input slot"
  | .outputDir n r =>
    "Graph output '" ++ n.toString ++ "' references input slot '" ++ r.toString ++ "'"
  | .originParams => "FloatingOrigin modifier needs exactly one of 'property' or 'offset'"
  | .originProperty d =>
    showing [d] fun _ => "Unknown property for FloatingOrigin modifier: " ++ d.display
  | .modifierType t known =>
    "Unknown modifier type: " ++ t.toString ++ ". Available types: "
      ++ Data.commas (known.map Text.toString)
  | .modifierPass t pass =>
    "Modifier " ++ t.toString ++ " runs in the " ++ pass
      ++ " pass, only update modifiers are supported"
  | .config _ => ""
  | .conflict first second =>
    showing [.map first.params, .map second.params] fun _ =>
      "Conflicting definitions for node: " ++ second.id.toString ++ "\nFirst: " ++ nodeText first
        ++ "\nSecond: " ++ nodeText second
  | .duplicateOutput n => "Duplicate output name: " ++ n.toString
  | .propertyValue n e => "Invalid value for property " ++ n.toString ++ ": " ++ e.message
  | .noDirectory g dir => "No config directory for graph: " ++ g ++ ". Expected: " ++ dir
  | .noFiles dir => "No YAML files found in " ++ dir
  | .longPath path => "[Errno 36] File name too long: " ++ Text.quoted path
  | .load path fault => "Failed to load " ++ path ++ loadText fault
  | .logLevel n => "Unknown level: " ++ Text.quoted n
  | .unencodable g 1 p =>
    "'utf-8' codec can't encode character '" ++ String.ofList (Text.escapeCode g.code)
      ++ "' in position " ++ toString p ++ ": surrogates not allowed"
  | .unencodable _ n p =>
    "'utf-8' codec can't encode characters in position " ++ toString p ++ "-"
      ++ toString (p + n - 1) ++ ": surrogates not allowed"

end Error

/-- Data as the key of a mapping, if it can be one. -/
def Data.asKey (d : Data) : Except Error Data :=
  match d.unkeyable? with
  | some kind => .error (.unkeyable kind)
  | none => .ok d

/-- The error of data that cannot be shown. -/
def Data.Obstacle.error : Data.Obstacle → Error
  | .longInteger => .longInteger
  | .depth => .deepData

/-- Shows data to the log. Nothing comes of that but the error of data that cannot
be shown. -/
def Data.log [Stack] (d : Data) : Except Error Unit :=
  match d.obstacle? with
  | none => .ok ()
  | some o => .error o.error

/-- A place counted from zero for an identifier counted from one. -/
def placeOf (what : IdKind) (id : Int) : Except Error Nat :=
  if id < 1 then .error (.oneBased what id) else .ok (id.toNat - 1)

/-- The expression with an identifier. -/
def ExprHandle.ofId (id : Int) : Except Error ExprHandle := (placeOf .expression id).map (⟨·⟩)

/-- The property with an identifier. -/
def PropertyHandle.ofId (id : Int) : Except Error PropertyHandle := (placeOf .property id).map (⟨·⟩)

/-- The node with an identifier. -/
def NodeId.ofId (id : Int) : Except Error NodeId := (placeOf .node id).map (⟨·⟩)

/-- The slot with an identifier. -/
def SlotId.ofId (id : Int) : Except Error SlotId := (placeOf .slot id).map (⟨·⟩)

end EffectGraph
