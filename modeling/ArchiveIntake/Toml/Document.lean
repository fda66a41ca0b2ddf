import ArchiveIntake.Toml.DateTime
import ArchiveIntake.Toml.Number
import ArchiveIntake.Toml.Value

/-! Settings files: values, and the lines that put them into tables. -/

namespace ArchiveIntake.Toml

open Text

/-- The items of an array, a comma allowed after the last. -/
def arrayItems (item : Reader Value) : Reader (List Value) := do
  let items ← Reader.optional <|
    Reader.separated (do spacing; let item ← item; spacing; return item) (Reader.char ',')
  if items.isSome then
    let _ ← Reader.optional (Reader.char ',')
  spacing
  return items.getD []

def pair (value : Reader Value) : Reader ((List String × String) × Value) := do
  let key ← key
  Reader.char '='
  blanks
  return (key, ← value)

def inlineMembers (value : Reader Value) : Reader Members := do
  let pairs ← Reader.optional <|
    Reader.separated (do let pair ← pair value; blanks; return pair) (Reader.char ',')
  blanks
  Reader.check <| (pairs.getD []).foldlM
    (fun (members : Members) ((path, key), value) => members.addAt .header path key value) []

/-- A value that holds no other. -/
def scalar : Reader Value :=
  (do return .string (← string)) <|>
    (do return .dateTime (← dateTime)) <|>
    (do return .float (← float)) <|>
    (do return .integer (← integer)) <|>
    (do Reader.word "true".toList; return .bool true) <|>
    (do Reader.word "false".toList; return .bool false)

/-- A value. Brackets and braces are nested up to a depth, with or without content. -/
def value : Nat → Reader Value
  | 0 => scalar
  | depth + 1 =>
    scalar <|>
      (do
        Reader.char '['
        let items ← arrayItems (value depth)
        Reader.char ']'
        return .array items) <|>
      (do
        Reader.char '\x7b'
        let members ← inlineMembers (value depth)
        Reader.char '\x7d'
        return .table .inline members)

inductive Statement where
  | nothing
  | header (path : List String) (key : String)
  | nextHeader (path : List String) (key : String)
  | pair (path : List String) (key : String) (value : Value)

def headerLine : Reader Statement := do
  Reader.char '['
  let (path, key) ← key
  Reader.char ']'
  trailing
  return .header path key

def nextHeaderLine : Reader Statement := do
  Reader.word ['[', '[']
  let (path, key) ← key
  Reader.word [']', ']']
  trailing
  return .nextHeader path key

def pairLine : Reader Statement := do
  let ((path, key), value) ← pair (value (maxDepth - 1))
  trailing
  return .pair path key value

def statement : Reader Statement := do
  let statement ←
    (do newline; return .nothing) <|>
      (do comment; lineEnd; return .nothing) <|>
      nextHeaderLine <|> headerLine <|> pairLine
  blanks
  return statement

/-- The lines of a file, after a byte order mark if there is one. -/
def statements : Reader (List Statement) := do
  let _ ← Reader.optional (Reader.char '\uFEFF')
  blanks
  Reader.many statement

/-- The tables read so far, and the one that values go to. -/
structure Draft where
  root : Members
  current : List String

namespace Draft

def empty : Draft := ⟨[], []⟩

def apply (draft : Draft) : Statement → Option Draft
  | .nothing => some draft
  | .header path key =>
    (draft.root.changeNamed (fun _ members => members.openTable key) path).map fun root =>
      ⟨root, path ++ [key]⟩
  | .nextHeader path key =>
    (draft.root.changeNamed (fun _ members => members.openNext key) path).map fun root =>
      ⟨root, path ++ [key]⟩
  | .pair path key value =>
    (draft.root.changeNamed (fun origin members => members.addAt origin path key value)
      draft.current).map fun root => ⟨root, draft.current⟩

end Draft

def document? (text : String) : Option Members := do
  let statements ← Reader.run? statements text.toList
  let draft ← statements.foldlM Draft.apply Draft.empty
  return draft.root

end ArchiveIntake.Toml
