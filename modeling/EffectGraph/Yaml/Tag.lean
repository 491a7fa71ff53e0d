import EffectGraph.Yaml.Timestamp

/-!
# Types of YAML nodes

Every node has a type. That of a plain scalar is read off its text: integers
may be binary, octal, decimal, hexadecimal or sexagesimal; a float needs a
point, and its exponent a sign; a time stamp has a day and may have a time.
-/

namespace EffectGraph.Yaml

/-- The types of nodes; `other` stands for all that have no data. -/
inductive Tag where
  | null
  | bool
  | int
  | float
  | str
  | binary
  | timestamp
  | seq
  | map
  | set
  | omap
  | pairs
  | merge
  | value
  | other
  deriving DecidableEq, Repr

/-- What the full name of a type starts with. -/
def tagStart : String := "tag:yaml.org,2002:"

/-- The type with a full name. -/
def Tag.ofName (name : String) : Tag :=
  let known : List (String × Tag) :=
    [("null", .null), ("bool", .bool), ("int", .int), ("float", .float), ("str", .str),
     ("binary", .binary), ("timestamp", .timestamp), ("seq", .seq), ("map", .map), ("set", .set),
     ("omap", .omap), ("pairs", .pairs), ("merge", .merge), ("value", .value)]
  match known.find? (fun (n, _) => tagStart ++ n == name) with
  | some (_, t) => t
  | none => .other

/-! ## Reading the type off a text -/

/-- The words for true and false. -/
def boolWords : List (String × Bool) :=
  [("yes", true), ("no", false), ("true", true), ("false", false), ("on", true), ("off", false)]

/-- A word in lower case, with a capital, or in upper case. -/
def spellings (w : String) : List String := [w, w.capitalize, w.toUpper]

/-- Whether a text is a word for true or false. -/
def isBoolText (s : String) : Bool := boolWords.any fun (w, _) => (spellings w).contains s

/-- Whether a text stands for nothing. -/
def isNullText (s : String) : Bool := s == "~" || (spellings "null").contains s

/-- Whether a text is a run of at least one character of a class. -/
def isRun (p : Char → Bool) (cs : List Char) : Bool := !cs.isEmpty && cs.all p

/-- Whether a character is a digit or an underscore. -/
def isNumeral (c : Char) : Bool := c.isDigit || c == '_'

/-- The parts of a list between the items that pass a test. -/
def splitWhere (p : α → Bool) : List α → List (List α)
  | [] => [[]]
  | x :: xs =>
    if p x then [] :: splitWhere p xs
    else
      match splitWhere p xs with
      | part :: parts => (x :: part) :: parts
      | [] => [[x]]

/-- Whether a text is a number below sixty, in one or two digits. -/
def isSixtieth : List Char → Bool
  | [a] => a.isDigit
  | [a, b] => '0' ≤ a && a ≤ '5' && b.isDigit
  | _ => false

/-- Whether a text starts with a digit, from `1` on if so wanted, and goes on
with digits and underscores. -/
def isWhole (nonzero : Bool) : List Char → Bool
  | c :: cs => c.isDigit && !(nonzero && c == '0') && cs.all isNumeral
  | [] => false

/-- Whether a text has parts to the base sixty. -/
def isSexagesimal (nonzero : Bool) (cs : List Char) : Bool :=
  match splitWhere (· == ':') cs with
  | whole :: parts => isWhole nonzero whole && !parts.isEmpty && parts.all isSixtieth
  | [] => false

/-- Whether a text without its sign is an integer. -/
def isIntBody (cs : List Char) : Bool :=
  match cs with
  | '0' :: 'b' :: ds => isRun (fun c => c == '0' || c == '1' || c == '_') ds
  | '0' :: 'x' :: ds => isRun (fun c => (Reading.hexDigit? c).isSome || c == '_') ds
  | ['0'] => true
  | '0' :: ds => ds.all fun c => ('0' ≤ c && c ≤ '7') || c == '_'
  | _ => isWhole true cs || isSexagesimal true cs

/-- Whether a text is an exponent, which must have a sign, or nothing. -/
def isExponent : List Char → Bool
  | [] => true
  | e :: sign :: ds =>
    (e == 'e' || e == 'E') && (sign == '+' || sign == '-') && isRun Char.isDigit ds
  | _ => false

/-- Splits a text at its first point. -/
def splitPoint (cs : List Char) : List Char × Option (List Char) :=
  match cs.dropWhile (· != '.') with
  | _ :: frac => (cs.takeWhile (· != '.'), some frac)
  | [] => (cs, none)

/-- Whether a text is a float. -/
def isFloatText (cs : List Char) : Bool :=
  let body := (Reading.sign cs).2
  match splitPoint body with
  | (_, none) => false
  | ([], some frac) =>
    let word := String.ofList frac
    (spellings "inf").contains word
      || (body == cs && (["nan", "NaN", "NAN"].contains word
        || (isWhole false (frac.takeWhile isNumeral) && isExponent (frac.dropWhile isNumeral))))
  | (whole, some frac) =>
    (isWhole false whole && isExponent (frac.dropWhile isNumeral))
      || (isSexagesimal false whole && frac.all isNumeral)

/-- Whether a text is a time stamp; a day alone must be wide. -/
def isStampText (cs : List Char) : Bool :=
  (Stamp.read? cs).any fun s => s.time.isSome || s.wide

/-- A text without the line feed that may end it. -/
def dropLineFeed (cs : List Char) : List Char :=
  if cs.getLast? == some '\n' then cs.dropLast else cs

/-- The type of a scalar of which only the characters are known; a line feed at
the end does not count, unless it is all there is. -/
def charsTag (cs : List Char) : Tag :=
  let body := dropLineFeed cs
  let s := String.ofList body
  if isBoolText s then .bool
  else if isFloatText body then .float
  else if isIntBody (Reading.sign body).2 then .int
  else if s == "<<" then .merge
  else if cs.isEmpty || isNullText s then .null
  else if isStampText body then .timestamp
  else if s == "=" then .value
  else if ["!", "&", "*"].contains s then .other
  else .str

/-- The type of a plain scalar. -/
def implicitTag (s : Text) : Tag :=
  match s.chars? with
  | some cs => charsTag cs
  | none => .str

end EffectGraph.Yaml
