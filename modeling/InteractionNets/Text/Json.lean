/-!
# JSON texts

The JSON values that reports are made of, and their two written forms: compact, without any blank,
and pretty, with one field or element a line and two blanks for each level. Object fields are
written in the order in which they stand; `Json.sorted` puts them in the order of their names.
-/

namespace InteractionNets

/-- A JSON value with whole numbers. -/
inductive Json where
  | null
  | bool (b : Bool)
  | num (n : Int)
  | str (s : String)
  | arr (items : List Json)
  | obj (fields : List (String × Json))

namespace Json

/-- A natural number as JSON. -/
def nat (n : Nat) : Json :=
  .num n

/-- A value that may be missing, as JSON: `null` stands for nothing. -/
def option {α : Type} (f : α → Json) : Option α → Json
  | none => .null
  | some a => f a

/-- A list as a JSON array. -/
def list {α : Type} (f : α → Json) (l : List α) : Json :=
  .arr (l.map f)

/-! ### Strings -/

/-- A digit of a number in base 16. -/
def hexDigit (n : Nat) : Char :=
  if n < 10 then Char.ofNat ('0'.toNat + n) else Char.ofNat ('a'.toNat + (n - 10))

/-- A character inside a quoted string: quotes, backslashes and control characters are escaped. -/
def escape (c : Char) : String :=
  if c = '"' then "\\\""
  else if c = '\\' then "\\\\"
  else if c = '\n' then "\\n"
  else if c = '\r' then "\\r"
  else if c = '\t' then "\\t"
  else if c.toNat = 8 then "\\b"
  else if c.toNat = 12 then "\\f"
  else if c.toNat < 32 then
    "\\u00" ++ String.ofList [hexDigit (c.toNat / 16), hexDigit (c.toNat % 16)]
  else c.toString

/-- A string in quotes. -/
def quote (s : String) : String :=
  "\"" ++ String.join (s.toList.map escape) ++ "\""

/-! ### The compact form -/

mutual

/-- A value on one line, without blanks. -/
def compact : Json → String
  | .null => "null"
  | .bool b => if b then "true" else "false"
  | .num n => toString n
  | .str s => quote s
  | .arr items => "[" ++ ",".intercalate (compactItems items) ++ "]"
  | .obj fields => "\x7b" ++ ",".intercalate (compactFields fields) ++ "\x7d"

/-- The elements of an array, each in compact form. -/
def compactItems : List Json → List String
  | [] => []
  | item :: rest => compact item :: compactItems rest

/-- The fields of an object, each in compact form. -/
def compactFields : List (String × Json) → List String
  | [] => []
  | (name, value) :: rest => (quote name ++ ":" ++ compact value) :: compactFields rest

end

/-! ### The pretty form -/

/-- The blanks before a line at the given level. -/
def margin (level : Nat) : String :=
  String.ofList (List.replicate (2 * level) ' ')

/-- Lines between an opening and a closing bracket; with no lines the brackets touch. -/
def bracketed (opening closing : String) (level : Nat) (lines : List String) : String :=
  if lines.isEmpty then opening ++ closing
  else
    let inner := lines.map fun line => margin (level + 1) ++ line
    opening ++ "\n" ++ ",\n".intercalate inner ++ "\n" ++ margin level ++ closing

mutual

/-- A value over several lines, when its first line is at the given level. -/
def prettyAt (level : Nat) : Json → String
  | .null => "null"
  | .bool b => if b then "true" else "false"
  | .num n => toString n
  | .str s => quote s
  | .arr items => bracketed "[" "]" level (prettyItems level items)
  | .obj fields => bracketed "\x7b" "\x7d" level (prettyFields level fields)

/-- The elements of an array one level further in. -/
def prettyItems (level : Nat) : List Json → List String
  | [] => []
  | item :: rest => prettyAt (level + 1) item :: prettyItems level rest

/-- The fields of an object one level further in. -/
def prettyFields (level : Nat) : List (String × Json) → List String
  | [] => []
  | (name, value) :: rest =>
    (quote name ++ ": " ++ prettyAt (level + 1) value) :: prettyFields level rest

end

/-- A value over several lines. -/
def pretty (j : Json) : String :=
  prettyAt 0 j

/-! ### Sorting fields -/

mutual

/-- The value with the fields of every object in it in the order of their names. -/
def sorted : Json → Json
  | .null => .null
  | .bool b => .bool b
  | .num n => .num n
  | .str s => .str s
  | .arr items => .arr (sortedItems items)
  | .obj fields => .obj ((sortedFields fields).mergeSort fun a b => !decide (b.1 < a.1))

/-- The elements of an array, with the fields inside them sorted. -/
def sortedItems : List Json → List Json
  | [] => []
  | item :: rest => sorted item :: sortedItems rest

/-- The fields of an object in their own order, with the fields inside them sorted. -/
def sortedFields : List (String × Json) → List (String × Json)
  | [] => []
  | (name, value) :: rest => (name, sorted value) :: sortedFields rest

end

end Json

end InteractionNets
