import EffectGraph.Data.Equal
import EffectGraph.Data.Text
import EffectGraph.Config.Issue
import EffectGraph.Definition

/-!
# The schema of graph files

A graph file is a record of six fields, of which only the name is required.
Checking a file collects every issue, field by field in the order declared and
item by item within a field.
-/

namespace EffectGraph.Config

variable [Stack]

/-- A property in a file: its default, and a declared type if it has one. -/
structure PropertyConfig where
  name : Text
  value : Data
  type : Option Text := none

/-- An output in a file: its name and the slot it refers to. -/
structure OutputConfig where
  name : Text
  slot : Text
  deriving DecidableEq, Repr

/-- A graph file, which may hold a part of a graph only. -/
structure GraphConfig where
  name : Text
  nodes : List NodeDef := []
  links : List LinkDef := []
  properties : List PropertyConfig := []
  outputs : List OutputConfig := []
  modifiers : List ModifierDef := []

/-- A checked value, or all issues found. -/
abbrev Checked (α : Type) := Except (List Issue) α

namespace Checked

/-- An issue at the place itself. -/
def fail (f : Fault) : Checked α := .error [⟨[], f⟩]

/-- The issues one step further out. -/
def under (s : Step) (c : Checked α) : Checked α := c.mapError (·.map (Issue.under s))

/-- Both checks, with the issues of both. -/
def both (a : Checked α) (b : Checked β) : Checked (α × β) :=
  match a, b with
  | .ok a, .ok b => .ok (a, b)
  | .error e, .error f => .error (e ++ f)
  | .error e, .ok _ => .error e
  | .ok _, .error f => .error f

/-- A check of every item of a list, with the issues of all. -/
def each (check : Data → Checked α) (i : Nat) : List Data → Checked (List α)
  | [] => .ok []
  | x :: xs =>
    (both (under (.index i) (check x)) (each check (i + 1) xs)).map fun (a, as) => a :: as

end Checked

/-! ## Checks of values -/

/-- A text, or bytes that encode one. -/
def text : Data → Checked Text
  | .str s => .ok s
  | .bytes bs =>
    match String.fromUTF8? ⟨bs.toArray⟩ with
    | some s => .ok s
    | none => Checked.fail .notUnicode
  | _ => Checked.fail .notText

/-- A text, or nothing. -/
def optionalText : Data → Checked (Option Text)
  | .null => .ok none
  | d => (text d).map some

/-- Anything. -/
def anything (d : Data) : Checked Data := .ok d

/-- A list of items that all pass a check. -/
def listOf (check : Data → Checked α) (d : Data) : Checked (List α) :=
  match d.expose with
  | .list xs | .tuple xs | .set xs => Checked.each check 0 xs
  | _ => Checked.fail .notList

/-- How data is shown in a path; what is too long to be shown gives its kind
only. -/
def shownKey (d : Data) : Step :=
  .field (if d.isShowable then d.inspect else "<unprintable " ++ d.kind ++ " object>")

/-- How a key of a mapping is given in a path: an integer of at most 64 bits as
itself, anything else as text. -/
def keyStep : Data → Step
  | .int i =>
    if -9223372036854775808 ≤ i ∧ i ≤ 9223372036854775807 then .index i else shownKey (.int i)
  | .bool b => .index (Data.boolInt b)
  | d => shownKey d

/-- The key of a parameter, which must be a text. -/
def paramKey (k : Data) : Checked Data :=
  (((text k).under (.field "[key]")).under (keyStep k)).map .str

/-- The parameters of a list of entries. -/
def paramEntries : List (Data × Data) → Checked (List (Data × Data))
  | [] => .ok []
  | (k, v) :: es => ((paramKey k).both (paramEntries es)).map fun (k, es) => (k, v) :: es

/-- A mapping whose keys are texts. -/
def params (d : Data) : Checked Params :=
  match d.entries? with
  | some es => (paramEntries es).map Data.ofSettings
  | none => Checked.fail .notMapping

/-! ## Checks of records -/

/-- A required field, which may go by several names; the first name that is
there counts, and a missing field goes by its first name. -/
def required (names : List String) (check : Data → Checked α) (es : List (Data × Data)) :
    Checked α :=
  match names.findSome? (fun n => (Data.lookup n es).map (n, ·)) with
  | some (n, d) => (check d).under (.field n)
  | none => .error [⟨[.field (names.headD "")], .missing⟩]

/-- A field with a default. -/
def optional (name : String) (default : α) (check : Data → Checked α) (es : List (Data × Data)) :
    Checked α :=
  match Data.lookup name es with
  | some d => (check d).under (.field name)
  | none => .ok default

/-- A record. -/
def record (check : List (Data × Data) → Checked α) (d : Data) : Checked α :=
  match d.entries? with
  | some es => check es
  | none => Checked.fail .notRecord

/-- A node. -/
def nodeFields (es : List (Data × Data)) : Checked NodeDef :=
  ((required ["id"] text es).both <| (required ["type"] text es).both
    (optional "params" [] params es)).map fun (id, type, params) => ⟨id, type, params⟩

/-- A link. -/
def linkFields (es : List (Data × Data)) : Checked LinkDef :=
  ((required ["from", "source"] text es).both (required ["to", "target"] text es)).map
    fun (source, target) => ⟨source, target⟩

/-- A property. -/
def propertyFields (es : List (Data × Data)) : Checked PropertyConfig :=
  ((required ["name"] text es).both <| (required ["value"] anything es).both
    (optional "type" none optionalText es)).map fun (name, value, type) => ⟨name, value, type⟩

/-- An output. -/
def outputFields (es : List (Data × Data)) : Checked OutputConfig :=
  ((required ["name"] text es).both (required ["slot"] text es)).map
    fun (name, slot) => ⟨name, slot⟩

/-- A modifier. -/
def modifierFields (es : List (Data × Data)) : Checked ModifierDef :=
  ((required ["type"] text es).both (optional "params" [] params es)).map
    fun (type, params) => ⟨type, params⟩

/-- A graph file. -/
def graphFields (es : List (Data × Data)) : Checked GraphConfig :=
  ((required ["name"] text es).both <|
    (optional "nodes" [] (listOf (record nodeFields)) es).both <|
    (optional "links" [] (listOf (record linkFields)) es).both <|
    (optional "properties" [] (listOf (record propertyFields)) es).both <|
    (optional "outputs" [] (listOf (record outputFields)) es).both
    (optional "modifiers" [] (listOf (record modifierFields)) es)).map
    fun (name, nodes, links, properties, outputs, modifiers) =>
      ⟨name, nodes, links, properties, outputs, modifiers⟩

/-- Checks data against the schema of graph files. -/
def GraphConfig.check (d : Data) : Checked GraphConfig := record graphFields d

end EffectGraph.Config
