import WaveDump.Text.Hex

/-!
# JSON text

JSON values and their text in lines: every element and every field on a line of its own, two blanks
deeper than what encloses it. Fields of an object stand in the order of their names.
-/

namespace WaveDump.Text

inductive Json where
  | null
  | bool (value : Bool)
  | number (value : Nat)
  | text (value : String)
  | array (elements : List Json)
  | object (fields : List (String × Json))

namespace Json

def ofFields (fields : List (String × Json)) : Json :=
  .object (fields.mergeSort fun left right => left.1 ≤ right.1)

def ofOption (toJson : α → Json) : Option α → Json
  | none => .null
  | some value => toJson value

def escape (char : Char) : List Char :=
  match char with
  | '"' => ['\\', '"']
  | '\\' => ['\\', '\\']
  | '\n' => ['\\', 'n']
  | '\r' => ['\\', 'r']
  | '\t' => ['\\', 't']
  | '\x08' => ['\\', 'b']
  | '\x0c' => ['\\', 'f']
  | _ =>
    if char.toNat < 0x20 then
      ['\\', 'u', '0', '0', hexDigit (char.toNat / 16), hexDigit (char.toNat % 16)]
    else
      [char]

def quote (text : String) : String :=
  String.ofList ('"' :: (text.toList.flatMap escape ++ ['"']))

def indent (depth : Nat) : String :=
  String.ofList (List.replicate (2 * depth) ' ')

mutual

/-- The text of a value that starts on a line at the given depth. -/
def render (depth : Nat) : Json → String
  | .null => "null"
  | .bool true => "true"
  | .bool false => "false"
  | .number value => value.repr
  | .text value => quote value
  | .array [] => "[]"
  | .array elements => "[\n" ++ renderElements (depth + 1) elements ++ indent depth ++ "]"
  | .object [] => "\x7b\x7d"
  | .object fields => "\x7b\n" ++ renderFields (depth + 1) fields ++ indent depth ++ "\x7d"

def renderElements (depth : Nat) : List Json → String
  | [] => ""
  | [last] => indent depth ++ last.render depth ++ "\n"
  | element :: rest => indent depth ++ element.render depth ++ ",\n" ++ renderElements depth rest

def renderFields (depth : Nat) : List (String × Json) → String
  | [] => ""
  | [(name, last)] => indent depth ++ quote name ++ ": " ++ last.render depth ++ "\n"
  | (name, value) :: rest =>
    indent depth ++ quote name ++ ": " ++ value.render depth ++ ",\n" ++ renderFields depth rest

end

end Json

end WaveDump.Text
