/-
  File:      Stowplan/Js/Json.lean
  Subject:   THE TEXT OF A VALUE: `JSON.stringify`, and how many bytes it takes.

  Strings are escaped as the language does; the text of a number is the host's. Texts hold no
  lone surrogates, as Lean's strings do not.
-/
import Stowplan.Js.Value
import Stowplan.Js.Text

namespace Stowplan.JsValue

/-- Two hexadecimal digits. -/
def hexPair (n : Nat) : List Char := [Nat.digitChar (n / 16), Nat.digitChar (n % 16)]

/-- A character inside a JSON string. -/
def escapeChar (c : Char) : List Char :=
  if c = '"' then ['\\', '"']
  else if c = '\\' then ['\\', '\\']
  else if c.toNat = 8 then ['\\', 'b']
  else if c.toNat = 9 then ['\\', 't']
  else if c.toNat = 10 then ['\\', 'n']
  else if c.toNat = 12 then ['\\', 'f']
  else if c.toNat = 13 then ['\\', 'r']
  else if c.toNat < 32 then ['\\', 'u', '0', '0'] ++ hexPair c.toNat
  else [c]

/-- `JSON.stringify` of a text. -/
def quoteText (s : String) : String :=
  String.ofList (['"'] ++ s.toList.flatMap escapeChar ++ ['"'])

variable [Host]

mutual

/-- `JSON.stringify(value)` of a value that has a text: `undefined` inside an array and a number
    that is not finite read `null`, an `undefined` property is left out. -/
def stringify : JsValue → String
  | .undefined | .null => "null"
  | .bool b => if b then "true" else "false"
  | .num x => if x.isFinite then Host.numberText x else "null"
  | .str s => quoteText s
  | .arr xs => "[" ++ String.intercalate "," (stringifyList xs) ++ "]"
  | .obj fields => "\x7b" ++ String.intercalate "," (stringifyFields fields) ++ "\x7d"

/-- The texts of the elements of an array. -/
def stringifyList : List JsValue → List String
  | [] => []
  | x :: xs => stringify x :: stringifyList xs

/-- The texts of the fields that are not undefined. -/
def stringifyFields : List (String × JsValue) → List String
  | [] => []
  | (_, .undefined) :: rest => stringifyFields rest
  | (k, v) :: rest => (quoteText k ++ ":" ++ stringify v) :: stringifyFields rest

end

/-- `serializedBytes(value)`, `serializedJsonBytes(value)`: the bytes of the text in UTF-8. -/
def serializedBytes (value : JsValue) : Nat :=
  if value = .undefined then 0 else (stringify value).utf8ByteSize

end Stowplan.JsValue
