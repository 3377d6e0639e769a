import ScriptFrontend.Json.Basic

/-!
# JSON as text

Text is laid out with one item or field per line and two more spaces of indentation at each level.
In strings only what has to be escaped is: the quote, the backslash, and the characters below the
space, by their short escapes where they have one.
-/

namespace ScriptFrontend.Json

def hexDigit (n : Nat) : Char := Nat.digitChar (n % 16)

/-- A character as it stands inside a string. -/
def escape (c : Char) : List Char :=
  match c with
  | '"' => ['\\', '"']
  | '\\' => ['\\', '\\']
  | '\x08' => ['\\', 'b']
  | '\x0c' => ['\\', 'f']
  | '\n' => ['\\', 'n']
  | '\r' => ['\\', 'r']
  | '\t' => ['\\', 't']
  | c =>
    if c.toNat < 0x20 then ['\\', 'u', '0', '0', hexDigit (c.toNat / 16), hexDigit c.toNat]
    else [c]

def quote (s : String) : String :=
  String.ofList (['"'] ++ s.toList.flatMap escape ++ ['"'])

/-- The text of a number; one with a fraction gets an exponent. -/
def number (digits : Int) (places : Nat) : String :=
  if places = 0 then toString digits else s!"{digits}e-{places}"

def indentation (depth : Nat) : String := String.ofList (List.replicate (2 * depth) ' ')

/-- Lines between two brackets; nothing comes between the brackets of an empty container. -/
def bracket (depth : Nat) (opening closing : String) : List String → String
  | [] => opening ++ closing
  | lines =>
    opening ++ "\n" ++ ",\n".intercalate (lines.map (indentation (depth + 1) ++ ·)) ++ "\n" ++
      indentation depth ++ closing

mutual

/-- The text of a value whose first line is already indented to `depth`. -/
def prettyAt (depth : Nat) : Json → String
  | .null => "null"
  | .bool value => if value then "true" else "false"
  | .num digits places => number digits places
  | .str value => quote value
  | .arr items => bracket depth "[" "]" (prettyItems (depth + 1) items)
  | .obj fields => bracket depth "\x7b" "\x7d" (prettyFields (depth + 1) fields)

def prettyItems (depth : Nat) : List Json → List String
  | [] => []
  | item :: items => item.prettyAt depth :: prettyItems depth items

def prettyFields (depth : Nat) : List (String × Json) → List String
  | [] => []
  | (key, value) :: fields =>
    (quote key ++ ": " ++ value.prettyAt depth) :: prettyFields depth fields

end

def pretty (j : Json) : String := j.prettyAt 0

end ScriptFrontend.Json
