import ArchiveIntake.Number.Shortest

/-! JSON to be written: values and their one written form, without spaces. -/

namespace ArchiveIntake.Json

inductive Value where
  | null
  | bool (value : Bool)
  | natural (value : Nat)
  /-- A double; one that is not finite is written as `null`. -/
  | double (value : Double)
  | string (value : String)
  | array (items : List Value)
  | object (members : List (String × Value))

namespace Value

/-- A 32 bit number, written with the digits of the double it equals. -/
def single (value : Single) : Value := .double (value.convert .double)

def optional : Option String → Value
  | none => .null
  | some text => .string text

def strings (texts : List String) : Value := .array (texts.map .string)

end Value

def hexDigit (n : Nat) : Char := if n < 10 then Char.ofNat (0x30 + n) else Char.ofNat (0x57 + n)

/-- A character as it stands between quotes. Quotes, backslashes and control
characters are escaped and nothing else is. -/
def escape (c : Char) : List Char :=
  if c = '"' then ['\\', '"']
  else if c = '\\' then ['\\', '\\']
  else if c = '\x08' then ['\\', 'b']
  else if c = '\x0C' then ['\\', 'f']
  else if c = '\n' then ['\\', 'n']
  else if c = '\r' then ['\\', 'r']
  else if c = '\t' then ['\\', 't']
  else if c.toNat < 0x20 then
    ['\\', 'u', '0', '0', hexDigit (c.toNat / 16), hexDigit (c.toNat % 16)]
  else [c]

def quote (text : List Char) : List Char := '"' :: text.flatMap escape ++ ['"']

def commaSeparated : List (List Char) → List Char
  | [] => []
  | [part] => part
  | part :: rest => part ++ ',' :: commaSeparated rest

namespace Value

mutual

def render : Value → List Char
  | .null => "null".toList
  | .bool true => "true".toList
  | .bool false => "false".toList
  | .natural n => Nat.toDigits 10 n
  | .double d => if d.isFinite then d.pointed.toList else "null".toList
  | .string s => quote s.toList
  | .array items => '[' :: commaSeparated (renderItems items) ++ [']']
  | .object members => '\x7b' :: commaSeparated (renderMembers members) ++ ['\x7d']

def renderItems : List Value → List (List Char)
  | [] => []
  | item :: rest => item.render :: renderItems rest

def renderMembers : List (String × Value) → List (List Char)
  | [] => []
  | (key, value) :: rest => (quote key.toList ++ ':' :: value.render) :: renderMembers rest

end

def text (value : Value) : String := String.ofList value.render

end Value
end ArchiveIntake.Json
