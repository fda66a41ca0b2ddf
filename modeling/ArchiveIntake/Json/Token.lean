import ArchiveIntake.Json.Number

/-! JSON text as tokens. The reader takes one character at a time and remembers
only what it is in the middle of, so a text is read in one pass over its
characters. After the first token that cannot be read nothing more is reported. -/

namespace ArchiveIntake.Json

inductive Token where
  | openArray
  | closeArray
  | openObject
  | closeObject
  | comma
  | colon
  | null
  | bool (value : Bool)
  | number (text : NumberText)
  /-- A string, without its text if that is not valid Unicode. -/
  | string (text : Option String)
  | unreadable
deriving DecidableEq, Repr

/-- What stands between the quotes of a string, escapes taken apart. -/
inductive Piece where
  | char (c : Char)
  /-- A code unit written with `\u`. -/
  | unit (code : Nat)
  /-- Bytes that are no character. -/
  | undecodable
deriving DecidableEq, Repr

namespace Piece

def isHighSurrogate (code : Nat) : Bool := 0xD800 ≤ code && code < 0xDC00

def isLowSurrogate (code : Nat) : Bool := 0xDC00 ≤ code && code < 0xE000

/-- The text of a string: surrogates have to come in pairs. -/
def text? : List Piece → Option (List Char)
  | [] => some []
  | .char c :: rest => (text? rest).map (c :: ·)
  | .undecodable :: _ => none
  | .unit high :: rest =>
    if isHighSurrogate high then
      match rest with
      | .unit low :: rest =>
        if isLowSurrogate low then
          let code := 0x10000 + (high - 0xD800) * 0x400 + (low - 0xDC00)
          (text? rest).map (Char.ofNat code :: ·)
        else none
      | _ => none
    else if isLowSurrogate high then none
    else (text? rest).map (Char.ofNat high :: ·)

end Piece

inductive NumberPhase where
  | sign
  | zero
  | whole
  | point
  | fraction
  | exponentMark
  | exponentSign
  | exponent
deriving DecidableEq, Repr

/-- What a character does to a number: it belongs to it, stands after it, or
makes it unreadable. -/
inductive NumberStep where
  | more (phase : NumberPhase) (text : NumberText)
  | ends
  | fails

namespace NumberText

def pushWhole (n : NumberText) (d : Nat) : NumberText := { n with whole := n.whole ++ [d] }

def pushFraction (n : NumberText) (d : Nat) : NumberText := { n with fraction := n.fraction ++ [d] }

def startExponent (n : NumberText) (negative : Bool) : NumberText :=
  { n with exponent := some (negative, []) }

def pushExponent (n : NumberText) (d : Nat) : NumberText :=
  { n with exponent := n.exponent.map fun (negative, digits) => (negative, digits ++ [d]) }

end NumberText

/-- A point or an exponent mark after a complete whole part. -/
def afterWhole (n : NumberText) (c : Char) : NumberStep :=
  if c = '.' then .more .point n
  else if c = 'e' ∨ c = 'E' then .more .exponentMark (n.startExponent false)
  else .ends

def NumberPhase.step (phase : NumberPhase) (n : NumberText) (c : Char) : NumberStep :=
  match phase, Text.digitValue? c with
  | .sign, some d => .more (if d = 0 then .zero else .whole) (n.pushWhole d)
  | .sign, none => .fails
  | .zero, some _ => .fails
  | .zero, none => afterWhole n c
  | .whole, some d => .more .whole (n.pushWhole d)
  | .whole, none => afterWhole n c
  | .point, some d => .more .fraction (n.pushFraction d)
  | .point, none => .fails
  | .fraction, some d => .more .fraction (n.pushFraction d)
  | .fraction, none =>
    if c = 'e' ∨ c = 'E' then .more .exponentMark (n.startExponent false) else .ends
  | .exponentMark, some d => .more .exponent (n.pushExponent d)
  | .exponentMark, none =>
    if c = '+' then .more .exponentSign n
    else if c = '-' then .more .exponentSign (n.startExponent true)
    else .fails
  | .exponentSign, some d => .more .exponent (n.pushExponent d)
  | .exponentSign, none => .fails
  | .exponent, some d => .more .exponent (n.pushExponent d)
  | .exponent, none => .ends

def NumberPhase.complete : NumberPhase → Bool
  | .zero | .whole | .fraction | .exponent => true
  | .sign | .point | .exponentMark | .exponentSign => false

/-- What the reader is in the middle of. The pieces of a string are held last first. -/
inductive Mode where
  | between
  | word (rest : List Char) (token : Token)
  | string (pieces : List Piece)
  | escape (pieces : List Piece)
  | code (pieces : List Piece) (missing value : Nat)
  | number (phase : NumberPhase) (text : NumberText)
  | stopped

namespace Mode

def isSpace (c : Char) : Bool := c = ' ' || c = '\n' || c = '\t' || c = '\r'

def escaped? : Char → Option Char
  | '"' => some '"'
  | '\\' => some '\\'
  | '/' => some '/'
  | 'b' => some '\x08'
  | 'f' => some '\x0C'
  | 'n' => some '\n'
  | 'r' => some '\r'
  | 't' => some '\t'
  | _ => none

def fail : List Token × Mode := ([.unreadable], .stopped)

def start (c : Char) : List Token × Mode :=
  if isSpace c then ([], .between)
  else
    match c with
    | '[' => ([.openArray], .between)
    | ']' => ([.closeArray], .between)
    | '\x7b' => ([.openObject], .between)
    | '\x7d' => ([.closeObject], .between)
    | ',' => ([.comma], .between)
    | ':' => ([.colon], .between)
    | '"' => ([], .string [])
    | 'n' => ([], .word ['u', 'l', 'l'] .null)
    | 't' => ([], .word ['r', 'u', 'e'] (.bool true))
    | 'f' => ([], .word ['a', 'l', 's', 'e'] (.bool false))
    | '-' => ([], .number .sign ⟨true, [], [], none⟩)
    | c =>
      match NumberPhase.step .sign ⟨false, [], [], none⟩ c with
      | .more phase text => ([], .number phase text)
      | _ => fail

/-- One character, `none` standing for bytes that are no character. -/
def advance : Mode → Option Char → List Token × Mode
  | .between, some c => start c
  | .between, none => fail
  | .word (next :: rest) token, some c =>
    if c ≠ next then fail
    else if rest.isEmpty then ([token], .between)
    else ([], .word rest token)
  | .word .., _ => fail
  | .string pieces, none => ([], .string (.undecodable :: pieces))
  | .string pieces, some c =>
    if c = '"' then ([.string ((Piece.text? pieces.reverse).map String.ofList)], .between)
    else if c = '\\' then ([], .escape pieces)
    else if c.toNat < 0x20 then fail
    else ([], .string (.char c :: pieces))
  | .escape _, none => fail
  | .escape pieces, some c =>
    if c = 'u' then ([], .code pieces 3 0)
    else
      match escaped? c with
      | some c => ([], .string (.char c :: pieces))
      | none => fail
  | .code .., none => fail
  | .code pieces missing value, some c =>
    match Text.hexValue? c with
    | none => fail
    | some digit =>
      let value := value * 16 + digit
      match missing with
      | 0 => ([], .string (.unit value :: pieces))
      | missing + 1 => ([], .code pieces missing value)
  | .number phase text, none => if phase.complete then ([.number text, .unreadable], .stopped) else fail
  | .number phase text, some c =>
    match phase.step text c with
    | .more phase text => ([], .number phase text)
    | .fails => fail
    | .ends => let (out, next) := start c; (.number text :: out, next)
  | .stopped, _ => ([], .stopped)

def finish : Mode → List Token
  | .between | .stopped => []
  | .number phase text => if phase.complete then [.number text] else [.unreadable]
  | .word .. | .string _ | .escape _ | .code .. => [.unreadable]

def run : Mode → List (Option Char) → List Token
  | mode, [] => mode.finish
  | mode, c :: rest =>
    let (out, next) := mode.advance c
    out ++ run next rest

end Mode

def tokens (text : List (Option Char)) : List Token := Mode.between.run text

example : tokens ("[1-2]".toList.map some) =
    [.openArray, .number ⟨false, [1], [], none⟩, .number ⟨true, [2], [], none⟩, .closeArray] := by
  decide

end ArchiveIntake.Json
