/-!
JSON values written over several lines: two blanks for each level, a line for each item
and each field, and nothing inside empty brackets.
-/

namespace ArtifactPlane

/-- A JSON value. -/
inductive JsonValue where
  | null
  | number (literal : String)
  | string (text : String)
  | array (items : List JsonValue)
  | object (fields : List (String × JsonValue))
deriving Inhabited

namespace JsonValue

/-- The number of a natural. -/
def nat (n : Nat) : JsonValue := .number (toString n)

/-- A value, or null where there is none. -/
def ofOption {α : Type} (f : α → JsonValue) : Option α → JsonValue
  | some a => f a
  | none => .null

/-- A character inside quotes. -/
def escape (c : Char) : List Char :=
  if c = '"' then ['\\', '"']
  else if c = '\\' then ['\\', '\\']
  else if c = '\n' then ['\\', 'n']
  else if c = '\r' then ['\\', 'r']
  else if c = '\t' then ['\\', 't']
  else if c = '\x08' then ['\\', 'b']
  else if c = '\x0c' then ['\\', 'f']
  else if c.toNat < 0x20 then
    ['\\', 'u', '0', '0', Nat.digitChar (c.toNat / 16), Nat.digitChar (c.toNat % 16)]
  else [c]

/-- A text between quotes. -/
def quoted (s : String) : String :=
  "\"" ++ String.ofList (s.toList.flatMap escape) ++ "\""

/-- The beginning of a line at a level. -/
def margin (level : Nat) : String :=
  "\n" ++ String.ofList (List.replicate (2 * level) ' ')

mutual

/-- A value whose first line is at a level. -/
def pretty (level : Nat) : JsonValue → String
  | null => "null"
  | number literal => literal
  | string text => quoted text
  | array [] => "[]"
  | array (v :: vs) =>
    "[" ++ margin (level + 1) ++ pretty (level + 1) v ++ moreItems (level + 1) vs ++
      margin level ++ "]"
  | object [] => "\x7b\x7d"
  | object ((k, v) :: fs) =>
    "\x7b" ++ margin (level + 1) ++ quoted k ++ ": " ++ pretty (level + 1) v ++
      moreFields (level + 1) fs ++ margin level ++ "\x7d"

/-- Items after the first. -/
def moreItems (level : Nat) : List JsonValue → String
  | [] => ""
  | v :: vs => "," ++ margin level ++ pretty level v ++ moreItems level vs

/-- Fields after the first. -/
def moreFields (level : Nat) : List (String × JsonValue) → String
  | [] => ""
  | (k, v) :: fs =>
    "," ++ margin level ++ quoted k ++ ": " ++ pretty level v ++ moreFields level fs

end

end JsonValue

end ArtifactPlane
