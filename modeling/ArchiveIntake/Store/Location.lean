import ArchiveIntake.Text.Percent
import ArchiveIntake.Text.Split
import ArchiveIntake.Text.Utf8

/-! Where a database lies. A name that begins with `file:` is an address, which has a
path and options and may escape bytes of both; any other name is the path itself.
The options can narrow what the database may be used for, but not widen it. -/

namespace ArchiveIntake

inductive DatabaseAccess where
  | read
  | write
  /-- Writing, and making the database if it is not there. -/
  | create
  /-- Everything, in a database that is kept in memory. -/
  | memory
deriving DecidableEq, Repr

namespace DatabaseAccess

def name : DatabaseAccess → String
  | .read => "ro"
  | .write => "rw"
  | .create => "rwc"
  | .memory => "memory"

def all : List DatabaseAccess := [.read, .write, .create, .memory]

def ofName? (name : String) : Option DatabaseAccess := all.find? fun access => access.name = name

/-- Whether an access may be asked for after another: it has to stay within it. A
database in memory may always be asked for, and after it anything. -/
def admits : DatabaseAccess → DatabaseAccess → Bool
  | _, .memory | .memory, _ | _, .read | .create, _ | .write, .write => true
  | _, _ => false

end DatabaseAccess

structure DatabaseLocation where
  path : List UInt8
  access : DatabaseAccess
  /-- The file system that the path belongs to. -/
  system : String
  /-- Whether what lies at the path is said never to change. -/
  fixed : Bool
deriving DecidableEq, Repr

namespace DatabaseLocation

open Text

/-- The file system whose files are kept in memory. -/
def memorySystem : String := "memdb"

/-- The path of a database that has no file. -/
def memoryPath : List UInt8 := Utf8.encode ":memory:".toList

def systems : List String := ["unix", "unix-none", "unix-dotfile", "unix-excl", memorySystem]

def ofPath (path : List UInt8) : DatabaseLocation := ⟨path, .create, "unix", false⟩

/-- Takes escapes apart. A percent sign without two digits stays as it is, and an
escaped zero ends the text. -/
def unescape : List UInt8 → List UInt8
  | b :: high :: low :: rest =>
    if b = 0x25 then
      match escapedByte? high low with
      | some byte => if byte = 0 then [] else byte :: unescape rest
      | none => b :: unescape (high :: low :: rest)
    else b :: unescape (high :: low :: rest)
  | bytes => bytes

def decodeBytes (part : List Char) : List UInt8 := unescape (Utf8.encode part)

def decodeText (part : List Char) : String := Utf8.lossy (decodeBytes part)

/-- What follows the host of an address, which can only be this one. -/
def afterHost? : List Char → Option (List Char)
  | '/' :: '/' :: rest =>
    let host := rest.takeWhile (· ≠ '/')
    if host = [] ∨ host = "localhost".toList then some (rest.drop host.length) else none
  | rest => some rest

/-- One option; without an equals sign the value is empty. -/
def option (text : List Char) : String × String :=
  match cut '=' text with
  | some (name, value) => (decodeText name, decodeText value)
  | none => (decodeText text, "")

/-- The number that digits at the beginning of a text go on with. -/
def goOn (digit? : Char → Option Nat) (base : Nat) : Nat → List Char → Nat
  | n, [] => n
  | n, c :: rest =>
    match digit? c with
    | some digit => goOn digit? base (base * n + digit) rest
    | none => n

/-- The number at the beginning of a text, in hexadecimal digits after a `0x`. -/
def leadingNumber : List Char → Nat
  | '0' :: 'x' :: rest | '0' :: 'X' :: rest => goOn hexValue? 16 0 rest
  | text => goOn digitValue? 10 0 text

/-- Whether a switch is on: by a word, or by a number that fits 32 bits with its sign
and of which the lowest byte is not zero. -/
def isOn (value : String) : Bool :=
  let number := leadingNumber value.toList
  String.ofList (value.toList.map Char.toLower) ∈ ["on", "yes", "true"] ||
    (number < UInt32.size / 2 && number % 256 ≠ 0)

/-- Applies an option, if its value is one that it can have. Options of other names,
and those without a name, mean nothing. -/
def withOption (location : DatabaseLocation) (option : String × String) : Option DatabaseLocation :=
  if option.1 = "mode" then do
    let access ← DatabaseAccess.ofName? option.2
    if location.access.admits access then some { location with access } else none
  else if option.1 = "cache" then
    if option.2 = "shared" ∨ option.2 = "private" then some location else none
  else if option.1 = "vfs" then some { location with system := option.2 }
  else some location

/-- Reads an address after its `file:`, of which a part after a number sign means nothing. -/
def ofAddress? (address : List Char) : Option DatabaseLocation := do
  let text := (← afterHost? address).takeWhile (· ≠ '#')
  let (path, options) := (cut '?' text).getD (text, [])
  let options := (pieces (· == '&') options).map option
  let fixed := ((options.lookup "immutable").map isOn).getD false
  let location ← options.foldlM withOption { ofPath (decodeBytes path) with fixed }
  if location.system ∈ systems then some location else none

/-- Reads the name of a database, in which there is no zero. -/
def ofName? (name : String) : Option DatabaseLocation :=
  if name.toList.contains '\x00' then none
  else
    match name.toList with
    | 'f' :: 'i' :: 'l' :: 'e' :: ':' :: address => ofAddress? address
    | path => some (ofPath (Utf8.encode path))

/-- Whether the database has no file. One without a path lies in a file that nobody
else sees, which makes no difference. -/
def isFileless (location : DatabaseLocation) : Bool :=
  location.path = [] || location.path = memoryPath || location.access = .memory

def maxPathSize : Nat := 1016

def isInMemory (location : DatabaseLocation) : Bool :=
  location.isFileless ||
    (location.system = memorySystem && location.path.length ≤ maxPathSize)

/-- Whether tables can be made. Only a file can be said never to change. -/
def isWritable (location : DatabaseLocation) : Bool :=
  location.access ≠ .read && (location.isFileless || !location.fixed)

example : (ofName? "file:%3Amemory:?mode=rw#x").map (·.isInMemory) = some true := by decide +kernel

example : (ofName? "file:x?vfs=memdb&immutable=Yes").map (·.isWritable) = some false := by
  decide +kernel

example : ofName? "file://elsewhere/x" = none := by decide +kernel

example : ofName? "file:x?mode=ro&mode=rw" = none := by decide +kernel

end DatabaseLocation
end ArchiveIntake
