import ArchiveIntake.Http.Message
import ArchiveIntake.Text.Blank
import ArchiveIntake.Text.Digit

/-! Requests and responses as they travel: a line that says what is asked or how it
went, header lines, an empty line, and a body as long as a header says. -/

namespace ArchiveIntake.Http.Wire

def requestLine? (line : String) : Option (String × String) := do
  let (method, rest) ← Text.cut ' ' (Text.trimChars line.toList)
  let (target, _) ← Text.cut ' ' rest
  return (String.ofList method, String.ofList target)

/-- Name and value of a header, without the blanks around the value. -/
def header? (line : String) : Option (String × String) := do
  let (name, value) ← Text.cut ':' line.toList
  return (String.ofList name, String.ofList (Text.trimChars value))

/-- The request whose head consists of these lines, still without its body. -/
def request? : List String → Option Request
  | [] => none
  | first :: headers => do
    let (method, target) ← requestLine? first
    return { method, target, headers := ← headers.mapM header?, body := [] }

def bodySize (request : Request) : Nat :=
  match Text.takeDigits ((request.header? "content-length").getD "").toList with
  | (digits, []) => digits.foldl (fun n d => 10 * n + d) 0
  | _ => 0

def reason : Nat → String
  | 200 => "OK"
  | 400 => "Bad Request"
  | 404 => "Not Found"
  | 405 => "Method Not Allowed"
  | 413 => "Payload Too Large"
  | 422 => "Unprocessable Entity"
  | _ => "Internal Server Error"

def content : Content → String × String
  | .text value => ("text/plain; charset=utf-8", value)
  | .json value => ("application/json", value.text)

def render (response : Response) : String :=
  let (mediaType, body) := content response.content
  String.intercalate "\r\n" [
    "HTTP/1.1 " ++ toString response.status ++ " " ++ reason response.status,
    "content-type: " ++ mediaType,
    "content-length: " ++ toString body.utf8ByteSize,
    "",
    body]

end ArchiveIntake.Http.Wire
