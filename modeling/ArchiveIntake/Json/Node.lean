import ArchiveIntake.Json.Token

/-! What a JSON text holds, as far as it can be read. A text that breaks off or
is malformed still has a tree: the place where reading stopped is marked
`unreadable`, and nothing follows it. Decoders walk the tree in the order of the
text, so the first fault in the text is the one they report, whether it is a
malformed token or a value of the wrong type. -/

namespace ArchiveIntake.Json

/-- A value as read. A key or string without text is one that is not valid
Unicode; an `unreadable` value is where reading stopped. -/
inductive Node where
  | null
  | bool (value : Bool)
  | number (text : NumberText)
  | string (text : Option String)
  | array (items : List Node)
  | object (members : List (Option String × Node))
  | unreadable
deriving Repr

/-- A value, and whether anything but space stands after it. -/
structure Document where
  root : Node
  trailing : Bool
deriving Repr

/-- A container not yet closed, its contents last first. -/
inductive Frame where
  | array (items : List Node)
  | object (members : List (Option String × Node))
  /-- An object with a key whose value is still to come. -/
  | member (members : List (Option String × Node)) (key : Option String)

inductive Expected where
  | value
  | itemOrClose
  | keyOrClose
  | key
  | colon
  | separator

inductive ReadState where
  | reading (next : Expected) (frames : List Frame)
  | finished (root : Node) (trailing : Bool)

namespace ReadState

/-- Puts the node where reading stopped into the containers around it. -/
def abandon : List Frame → Node → Node
  | [], node => node
  | .array items :: frames, node => abandon frames (.array (items.reverse ++ [node]))
  | .object members :: frames, node => abandon frames (.object (members.reverse ++ [(none, node)]))
  | .member members key :: frames, node =>
    abandon frames (.object (members.reverse ++ [(key, node)]))

def stop (frames : List Frame) : ReadState := .finished (abandon frames .unreadable) false

def complete (node : Node) : List Frame → ReadState
  | [] => .finished node false
  | .array items :: frames => .reading .separator (.array (node :: items) :: frames)
  | .member members key :: frames => .reading .separator (.object ((key, node) :: members) :: frames)
  | frames => stop frames

def value (frames : List Frame) : Token → ReadState
  | .openArray => .reading .itemOrClose (.array [] :: frames)
  | .openObject => .reading .keyOrClose (.object [] :: frames)
  | .null => complete .null frames
  | .bool b => complete (.bool b) frames
  | .number text => complete (.number text) frames
  | .string text => complete (.string text) frames
  | _ => stop frames

def key (frames : List Frame) : Token → ReadState
  | .string text =>
    match frames with
    | .object members :: frames => .reading .colon (.member members text :: frames)
    | frames => stop frames
  | _ => stop frames

def closeArray : List Frame → ReadState
  | .array items :: frames => complete (.array items.reverse) frames
  | frames => stop frames

def closeObject : List Frame → ReadState
  | .object members :: frames => complete (.object members.reverse) frames
  | frames => stop frames

def step : ReadState → Token → ReadState
  | .finished root _, _ => .finished root true
  | .reading .value frames, token => value frames token
  | .reading .itemOrClose frames, .closeArray => closeArray frames
  | .reading .itemOrClose frames, token => value frames token
  | .reading .keyOrClose frames, .closeObject => closeObject frames
  | .reading .keyOrClose frames, token => key frames token
  | .reading .key frames, token => key frames token
  | .reading .colon frames, .colon => .reading .value frames
  | .reading .separator (.array items :: frames), .comma => .reading .value (.array items :: frames)
  | .reading .separator (.object members :: frames), .comma =>
    .reading .key (.object members :: frames)
  | .reading .separator frames, .closeArray => closeArray frames
  | .reading .separator frames, .closeObject => closeObject frames
  | .reading _ frames, _ => stop frames

def document : ReadState → Document
  | .finished root trailing => ⟨root, trailing⟩
  | .reading _ frames => ⟨abandon frames .unreadable, false⟩

end ReadState

def Document.ofTokens (tokens : List Token) : Document :=
  (tokens.foldl ReadState.step (.reading .value [])).document

def Document.ofChars (text : List (Option Char)) : Document := .ofTokens (tokens text)

def Document.ofText (text : String) : Document := .ofChars (text.toList.map some)

end ArchiveIntake.Json
