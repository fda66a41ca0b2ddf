/-! UTF-8, read one byte at a time. A byte sequence that is no character shows up
as `none` once per maximal beginning of a character, so that replacing each
`none` by U+FFFD is the usual lossy reading and refusing any `none` is the strict
one. -/

namespace ArchiveIntake.Text.Utf8

/-- What the reader is in the middle of: nothing, or a character of which `more`
bytes are missing after the next one, which has to lie between `low` and `high`. -/
inductive Pending where
  | start
  | inside (low high more value : Nat)
deriving DecidableEq, Repr

def lead (b : Nat) : List (Option Char) × Pending :=
  if b < 0x80 then ([some (Char.ofNat b)], .start)
  else if b < 0xC2 then ([none], .start)
  else if b < 0xE0 then ([], .inside 0x80 0xBF 0 (b - 0xC0))
  else if b = 0xE0 then ([], .inside 0xA0 0xBF 1 0)
  else if b = 0xED then ([], .inside 0x80 0x9F 1 0xD)
  else if b < 0xF0 then ([], .inside 0x80 0xBF 1 (b - 0xE0))
  else if b = 0xF0 then ([], .inside 0x90 0xBF 2 0)
  else if b < 0xF4 then ([], .inside 0x80 0xBF 2 (b - 0xF0))
  else if b = 0xF4 then ([], .inside 0x80 0x8F 2 4)
  else ([none], .start)

/-- One byte. A byte that does not continue the pending character ends it as
unreadable and begins the next one. -/
def advance : Pending → Nat → List (Option Char) × Pending
  | .start, b => lead b
  | .inside low high more value, b =>
    if low ≤ b ∧ b ≤ high then
      let value := value * 64 + (b - 0x80)
      match more with
      | 0 => ([some (Char.ofNat value)], .start)
      | more + 1 => ([], .inside 0x80 0xBF more value)
    else
      let (out, next) := lead b
      (none :: out, next)

def decodeFrom : Pending → List UInt8 → List (Option Char)
  | .start, [] => []
  | .inside .., [] => [none]
  | state, b :: rest =>
    let (out, next) := advance state b.toNat
    out ++ decodeFrom next rest

/-- The characters of a byte sequence, `none` where there is no character. -/
def decode (bytes : List UInt8) : List (Option Char) := decodeFrom .start bytes

def encode (cs : List Char) : List UInt8 := cs.flatMap String.utf8EncodeChar

/-- The text of a byte sequence, with U+FFFD for what is no character. -/
def lossy (bytes : List UInt8) : String :=
  String.ofList ((decode bytes).map (·.getD '\uFFFD'))

def strict? (bytes : List UInt8) : Option String :=
  ((decode bytes).mapM id).map String.ofList

example : decode [0x41, 0xE2, 0x80, 0x28] = [some 'A', none, some '('] := by decide

example : decode [0xF0, 0x9F, 0x98, 0x80] = [some '😀'] := by decide

example : decode [0xED, 0xA0, 0x80] = [none, none, none] := by decide

end ArchiveIntake.Text.Utf8
