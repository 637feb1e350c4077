import EntityLang.Json.Basic
import EntityLang.Number.Text

/-!
# JSON as text

One printer serves both layouts: `compact` has no blanks, and `pretty` puts each element on a line
of its own with an indent of two blanks. Strings escape quotes, backslashes and control characters
only.
-/

namespace EntityLang.Json

/-- What stands between the parts of a value. -/
structure Layout where
  /-- Starts the line of an element at a given depth. -/
  line : Nat → String
  /-- Stands between a key and its value. -/
  colon : String

/-- No blanks at all. -/
def Layout.compact : Layout := ⟨fun _ => "", ":"⟩

/-- Each element on its own line, two blanks for each level. -/
def Layout.pretty : Layout :=
  ⟨fun depth => "\n" ++ String.ofList (List.replicate (2 * depth) ' '), ": "⟩

/-- A lower-case hexadecimal digit. -/
def hexDigit (n : Nat) : Char := Nat.digitChar (n % 16)

/-- A character as it stands in a quoted string. -/
def escape (c : Char) : String :=
  if c = '"' then "\\\""
  else if c = '\\' then "\\\\"
  else if c = '\n' then "\\n"
  else if c = '\t' then "\\t"
  else if c = '\r' then "\\r"
  else if c.toNat = 8 then "\\b"
  else if c.toNat = 12 then "\\f"
  else if c.toNat < 32 then "\\u00" ++ String.ofList [hexDigit (c.toNat / 16), hexDigit c.toNat]
  else c.toString

/-- A quoted string. -/
def quote (s : String) : String :=
  s.toList.foldl (fun acc c => acc ++ escape c) "\"" ++ "\""

/-- The elements of a container between its brackets. -/
def enclose (layout : Layout) (depth : Nat) (opening closing : String) (parts : List String) :
    String :=
  if parts.isEmpty then opening ++ closing
  else
    let inner := layout.line (depth + 1)
    opening ++ inner ++ ("," ++ inner).intercalate parts ++ layout.line depth ++ closing

mutual

/-- The text of a value at a given depth. -/
def render (layout : Layout) (depth : Nat) : Json → String
  | .null => "null"
  | .bool b => if b then "true" else "false"
  | .int i => toString i
  | .number x => x.text
  | .string s => quote s
  | .array items => enclose layout depth "[" "]" (renderItems layout (depth + 1) items)
  | .object fields => enclose layout depth "\x7b" "\x7d" (renderFields layout (depth + 1) fields)

/-- The texts of the items of an array. -/
def renderItems (layout : Layout) (depth : Nat) : List Json → List String
  | [] => []
  | item :: rest => item.render layout depth :: renderItems layout depth rest

/-- The texts of the fields of an object. -/
def renderFields (layout : Layout) (depth : Nat) : List (String × Json) → List String
  | [] => []
  | (key, value) :: rest =>
    (quote key ++ layout.colon ++ value.render layout depth) :: renderFields layout depth rest

end

/-- The text without blanks. -/
def compact (j : Json) : String := j.render .compact 0

/-- The text with one element on each line. -/
def pretty (j : Json) : String := j.render .pretty 0

end EntityLang.Json
