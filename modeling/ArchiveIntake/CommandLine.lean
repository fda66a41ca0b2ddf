import ArchiveIntake.Text.Digit
import ArchiveIntake.Text.Split

/-! The command line of the gateway. An option that takes a value takes it from its
own argument, after an equals sign or right after its letter, or else from the next
argument, unless that looks like an option. A value is looked at only when the next
option comes or the arguments end. -/

namespace ArchiveIntake

structure Options where
  /-- Where requests arrive. -/
  tcpPort : UInt16 := 17665
  bind : String := "0.0.0.0"
  database : String := "pvarch.db"
  configPath : Option String := none
  logLevel : String := "info"
  autoStart : Bool := false
deriving DecidableEq, Repr

inductive UsageError where
  | unknownArgument
  | missingValue
  | invalidValue
  | repeated
  | unneededValue
  | help
  | version
deriving DecidableEq, Repr

namespace CommandLine

inductive Switch where
  | tcpPort
  | bind
  | database
  | config
  | logLevel
  | autoStart
  | help
  | version
deriving DecidableEq, Repr

namespace Switch

def all : List Switch :=
  [.tcpPort, .bind, .database, .config, .logLevel, .autoStart, .help, .version]

def long : Switch → String
  | .tcpPort => "port"
  | .bind => "bind"
  | .database => "db"
  | .config => "config"
  | .logLevel => "log-level"
  | .autoStart => "auto-start"
  | .help => "help"
  | .version => "version"

def letter? : Switch → Option Char
  | .tcpPort => some 'p'
  | .bind => some 'b'
  | .config => some 'c'
  | .help => some 'h'
  | .version => some 'V'
  | _ => none

def takesValue : Switch → Bool
  | .autoStart | .help | .version => false
  | _ => true

def ofLong? (name : List Char) : Option Switch :=
  all.find? fun switch => switch.long.toList = name

def ofLetter? (c : Char) : Option Switch := all.find? fun switch => switch.letter? = some c

end Switch

/-- What an argument says by itself. -/
inductive Argument where
  /-- Two dashes: all that follows is no option. -/
  | endOfOptions
  | option (switch : Switch) (value : Option String)
  | unknown
  | plain (text : String)
deriving DecidableEq, Repr

namespace Argument

/-- The value after a letter, an equals sign before it taken off. -/
def afterLetter : List Char → Option String
  | [] => none
  | '=' :: value => some (String.ofList value)
  | value => some (String.ofList value)

/-- An argument after two dashes. -/
def ofLong (text : List Char) : Argument :=
  let (name, value) :=
    match Text.cut '=' text with
    | some (name, value) => (name, some (String.ofList value))
    | none => (text, none)
  match Switch.ofLong? name with
  | some switch => .option switch value
  | none => .unknown

/-- An argument after one dash. An option without a value settles it by its first letter. -/
def ofLetters (c : Char) (rest : List Char) : Argument :=
  match Switch.ofLetter? c with
  | some switch => .option switch (if switch.takesValue then afterLetter rest else none)
  | none => .unknown

def ofText (text : String) : Argument :=
  match text.toList with
  | ['-', '-'] => .endOfOptions
  | '-' :: '-' :: rest => ofLong rest
  | '-' :: c :: rest => ofLetters c rest
  | _ => .plain text

end Argument

/-- A 16 bit number: decimal digits with an optional sign. -/
def tcpPort? (text : String) : Option UInt16 :=
  let (negative, digits) :=
    match text.toList with
    | '-' :: rest => (true, rest)
    | '+' :: rest => (false, rest)
    | digits => (false, digits)
  match Text.takeDigits digits with
  | (first :: rest, []) =>
    let value := (first :: rest).foldl (fun n d => 10 * n + d) 0
    if value < UInt16.size ∧ (negative → value = 0) then some (UInt16.ofNat value) else none
  | _ => none

def store (options : Options) (switch : Switch) (value : String) : Except UsageError Options :=
  match switch with
  | .tcpPort =>
    match tcpPort? value with
    | some tcpPort => .ok { options with tcpPort }
    | none => .error .invalidValue
  | .bind => .ok { options with bind := value }
  | .database => .ok { options with database := value }
  | .config => .ok { options with configPath := some value }
  | .logLevel => .ok { options with logLevel := value }
  | .autoStart | .help | .version => .error .unneededValue

structure Progress where
  options : Options
  given : List Switch
  /-- The option looked at last, with its value if that has come. -/
  pending : Option (Switch × Option String)

namespace Progress

def start : Progress := ⟨{}, [], none⟩

def assign (progress : Progress) (switch : Switch) (value : String) :
    Except UsageError Progress := do
  if progress.given.contains switch then throw .repeated
  return ⟨← store progress.options switch value, switch :: progress.given, none⟩

def settle (progress : Progress) : Except UsageError Progress :=
  match progress.pending with
  | none => .ok progress
  | some (_, none) => .error .missingValue
  | some (switch, some value) => progress.assign switch value

def raise (progress : Progress) (switch : Switch) : Except UsageError Progress := do
  match switch with
  | .help => throw .help
  | .version => throw .version
  | _ =>
    if progress.given.contains switch then throw .repeated
    return ⟨{ progress.options with autoStart := true }, switch :: progress.given, none⟩

/-- One argument before the end of the options. -/
def take (progress : Progress) : Argument → Except UsageError Progress
  | .endOfOptions => .ok progress
  | .unknown => .error .unknownArgument
  | .plain text =>
    match progress.pending with
    | some (switch, none) => .ok { progress with pending := some (switch, some text) }
    | _ => .error .unknownArgument
  | .option switch none => do
    let progress ← progress.settle
    if switch.takesValue then return { progress with pending := some (switch, none) }
    else progress.raise switch
  | .option switch (some value) => do
    if switch.takesValue then (← progress.settle).assign switch value else throw .unneededValue

end Progress

/-- Reads arguments; nothing may follow the end of the options. -/
def read (progress : Progress) : List String → Except UsageError Options
  | [] => progress.settle.map (·.options)
  | text :: rest =>
    match Argument.ofText text with
    | .endOfOptions => if rest.isEmpty then progress.settle.map (·.options) else .error .unknownArgument
    | argument =>
      match progress.take argument with
      | .ok progress => read progress rest
      | .error e => .error e

def parse (arguments : List String) : Except UsageError Options := read .start arguments

example : parse [] = .ok {} := by rfl

end CommandLine
end ArchiveIntake
