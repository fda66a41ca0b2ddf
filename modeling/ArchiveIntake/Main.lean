import Std.Time.DateTime.Timestamp
import ArchiveIntake.CommandLine
import ArchiveIntake.Config.Toml
import ArchiveIntake.EngineTask
import ArchiveIntake.Gateway
import ArchiveIntake.Http.Wire

/-! The program: it reads its options and its settings, and then serves the requests
of one connection, on its standard input and output. -/

namespace ArchiveIntake.Main

def usage : String :=
  "Usage: " ++ Gateway.name ++ " [--port PORT] [--bind ADDRESS] [--db PATH] [--config FILE]\n" ++
    "         [--log-level LEVEL] [--auto-start]\n\n" ++
    "Answers HTTP requests on its standard streams. The only database is :memory:."

def describe : UsageError → String
  | .unknownArgument => "unexpected argument"
  | .missingValue => "a value is missing"
  | .invalidValue => "the port is not a number from 0 to 65535"
  | .repeated => "an option is given more than once"
  | .unneededValue => "an option takes no value"
  | .help | .version => ""

def fileContent (path : String) : IO (Option (List UInt8)) := do
  try
    return some (← IO.FS.readBinFile path).toList
  catch _ =>
    return none

def settings (options : Options) : IO (Except ConfigError AdmissionConfig) := do
  match options.configPath with
  | none => return .ok .default
  | some path => return AdmissionConfig.ofFile (← fileContent path)

/-- Nanoseconds since the beginning of 1970. -/
def now : IO Time := do
  return (← Std.Time.Timestamp.now).toNanosecondsSinceUnixEpoch.val

partial def readHead (input : IO.FS.Stream) : IO (List String) := do
  let line ← input.getLine
  let text := line.trimAsciiEnd.toString
  if text.isEmpty then return []
  return text :: (← readHead input)

partial def readBody (input : IO.FS.Stream) (size : Nat) : IO (List UInt8) := do
  if size = 0 then return []
  let chunk ← input.read size.toUSize
  if chunk.isEmpty then return []
  return chunk.toList ++ (← readBody input (size - chunk.size))

partial def serve (options : Options) (config : AdmissionConfig) (input output : IO.FS.Stream)
    (world : World) : IO Unit := do
  match ← readHead input with
  | [] => return
  | lines =>
    match Http.Wire.request? lines with
    | none =>
      output.putStr (Http.Wire.render (.empty 400))
      output.flush
    | some request =>
      let body ← readBody input (Http.Wire.bodySize request)
      let surroundings := Surroundings.calm (← now)
      let (response, world) :=
        (Gateway.respond config { request with body }).run surroundings world
      output.putStr (Http.Wire.render response)
      output.flush
      let (_, world) := EngineTask.run surroundings options.autoStart world
      serve options config input output world

def start (options : Options) (config : AdmissionConfig) : IO UInt32 := do
  match DatabaseStore.openAt options.database with
  | .error failure =>
    IO.eprintln failure.message
    return 1
  | .ok db =>
    let (_, store) := ConfigStore.ofStatement (DatabaseStore.seed config) db
    serve options config (← IO.getStdin) (← IO.getStdout) (.fresh store .channelled)
    return 0

def run (arguments : List String) : IO UInt32 := do
  match CommandLine.parse arguments with
  | .error .help =>
    IO.println usage
    return 0
  | .error .version =>
    IO.println (Gateway.name ++ " " ++ Gateway.version)
    return 0
  | .error e =>
    IO.eprintln (describe e ++ "\n\n" ++ usage)
    return 2
  | .ok options =>
    match (← settings options).bind fun config => config.validate.map fun _ => config with
    | .error e =>
      IO.eprintln e.message
      return 1
    | .ok config => start options config

end ArchiveIntake.Main

def main (arguments : List String) : IO UInt32 := ArchiveIntake.Main.run arguments
