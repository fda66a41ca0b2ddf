import ArchiveIntake.Text.Percent
import ArchiveIntake.Text.Split
import ArchiveIntake.Text.Utf8

/-! Forms as they travel in a query string or a body: pairs of a name and a value,
in which a plus sign is a space and a percent sign with two hexadecimal digits is a
byte. Writing a form escapes every byte that is not a letter, a digit or one of four
marks, so reading it gives the pairs back. -/

namespace ArchiveIntake.Http.Form

open Text

def plainByte (b : UInt8) : UInt8 := if b = 0x2B then 0x20 else b

/-- Takes escapes apart; a percent sign without two digits stays as it is. -/
def unescape : List UInt8 → List UInt8
  | b :: high :: low :: rest =>
    if b = 0x25 then
      match escapedByte? high low with
      | some byte => byte :: unescape rest
      | none => b :: unescape (high :: low :: rest)
    else plainByte b :: unescape (high :: low :: rest)
  | b :: rest => plainByte b :: unescape rest
  | [] => []

def decodeText (bytes : List UInt8) : String := Utf8.lossy (unescape bytes)

/-- One pair; without an equals sign the value is empty. -/
def decodePair (bytes : List UInt8) : String × String :=
  match cut (0x3D : UInt8) bytes with
  | some (name, value) => (decodeText name, decodeText value)
  | none => (decodeText bytes, "")

/-- The pairs of a form, empty stretches between ampersands passed over. -/
def decode (bytes : List UInt8) : List (String × String) :=
  ((pieces (· == 0x26) bytes).filter (!·.isEmpty)).map decodePair

def isUnescaped (b : UInt8) : Bool :=
  (byteChar b).isAlphanum || b == 0x2A || b == 0x2D || b == 0x2E || b == 0x5F

def hexByte (n : Nat) : UInt8 := UInt8.ofNat (if n < 10 then 0x30 + n else 0x37 + n)

def encodeByte (b : UInt8) : List UInt8 :=
  if isUnescaped b then [b]
  else if b = 0x20 then [0x2B]
  else [0x25, hexByte (b.toNat / 16), hexByte (b.toNat % 16)]

def encodeText (text : String) : List UInt8 := (Utf8.encode text.toList).flatMap encodeByte

def encodePair (pair : String × String) : List UInt8 :=
  encodeText pair.1 ++ 0x3D :: encodeText pair.2

def encode : List (String × String) → List UInt8
  | [] => []
  | [pair] => encodePair pair
  | pair :: rest => encodePair pair ++ 0x26 :: encode rest

example : unescape [0x25, 0x32, 0x42, 0x2B, 0x25, 0x7A] = [0x2B, 0x20, 0x25, 0x7A] := by decide

example : unescape ([0x2B, 0x25, 0x00, 0xFF].flatMap encodeByte) = [0x2B, 0x25, 0x00, 0xFF] := by
  decide

end ArchiveIntake.Http.Form
