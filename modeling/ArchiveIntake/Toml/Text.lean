import ArchiveIntake.Text.Digit
import ArchiveIntake.Text.Reader

/-! Blanks, comments, strings and keys of a settings file. Lines end with a line
feed, which a carriage return may precede, and a string of several lines holds
line feeds however its lines ended. -/

namespace ArchiveIntake.Toml

open Text

def isBlank (c : Char) : Bool := c == ' ' || c == '\t'

/-- A character that may stand in a comment or a string: no control character of
ASCII but the tab. -/
def isPlain (c : Char) : Bool := c == '\t' || (0x20 ≤ c.toNat && c.toNat ≠ 0x7F)

def blanks : Reader Unit := do let _ ← Reader.span isBlank

def newline : Reader Unit := Reader.char '\n' <|> Reader.word ['\r', '\n']

def comment : Reader Unit := do
  Reader.char '#'
  let _ ← Reader.span isPlain

def lineEnd : Reader Unit := newline <|> Reader.atEnd

def trailing : Reader Unit := do
  blanks
  let _ ← Reader.optional comment
  lineEnd

/-- Blanks, comments and line ends between the items of an array. -/
def spacing : Reader Unit := do
  let _ ← Reader.many (newline <|> (do comment; newline) <|> (do let _ ← Reader.one isBlank))

def codePoint : Nat → Nat → Reader Char
  | 0, code => Reader.check (if code.isValidChar then some (Char.ofNat code) else none)
  | missing + 1, code => do
    let digit ← Reader.check (hexValue? (← Reader.one fun _ => true))
    codePoint missing (code * 16 + digit)

def escaped : Reader Char := do
  match ← Reader.one fun _ => true with
  | 'b' => return '\x08'
  | 't' => return '\t'
  | 'n' => return '\n'
  | 'f' => return '\x0C'
  | 'r' => return '\r'
  | '"' => return '"'
  | '\\' => return '\\'
  | 'u' => codePoint 4 0
  | 'U' => codePoint 8 0
  | _ => failure

def basicChar : Reader Char :=
  Reader.one (fun c => isPlain c && c ≠ '"' && c ≠ '\\') <|> do Reader.char '\\'; escaped

def basicString : Reader (List Char) := do
  Reader.char '"'
  let text ← Reader.many basicChar
  Reader.char '"'
  return text

def literalString : Reader (List Char) := do
  Reader.char '\''
  let text ← Reader.span fun c => isPlain c && c ≠ '\''
  Reader.char '\''
  return text

/-- A backslash at the end of a line, which takes the blanks and line ends after it. -/
def continuation : Reader (List Char) := do
  Reader.char '\\'
  blanks
  newline
  let _ ← Reader.many (newline <|> do let _ ← Reader.one isBlank)
  return []

/-- A line end, which counts as a line feed. -/
def lineFeed : Reader (List Char) := do newline; return ['\n']

/-- A part of a text between two triples of quotes: content, or one or two quotes
with content after them. -/
def multilinePart (quote : Char) (content : Reader (List Char)) : Reader (List Char) :=
  content <|>
    (do Reader.word [quote, quote]; return quote :: quote :: (← content)) <|>
    (do Reader.char quote; return quote :: (← content))

/-- The closing triple of quotes; one or two more before it belong to the text. -/
def multilineEnd (quote : Char) : Reader (List Char) :=
  (do Reader.word (List.replicate 5 quote); return [quote, quote]) <|>
    (do Reader.word (List.replicate 4 quote); return [quote]) <|>
    (do Reader.word (List.replicate 3 quote); return [])

/-- Text between two triples of quotes; a line end right after the first is dropped. -/
def multiline (quote : Char) (content : Reader (List Char)) : Reader (List Char) := do
  Reader.word (List.replicate 3 quote)
  let _ ← Reader.optional newline
  let parts ← Reader.many (multilinePart quote content)
  return parts.flatten ++ (← multilineEnd quote)

def multilineBasicString : Reader (List Char) :=
  multiline '"' (continuation <|> (do return [← basicChar]) <|> lineFeed)

def multilineLiteralString : Reader (List Char) :=
  multiline '\'' ((do return [← Reader.one fun c => isPlain c && c ≠ '\'']) <|> lineFeed)

def string : Reader String := do
  return String.ofList
    (← multilineBasicString <|> basicString <|> multilineLiteralString <|> literalString)

def isBareChar (c : Char) : Bool := c.isAlphanum || c == '-' || c == '_'

def keyPart : Reader String := do
  blanks
  let part ← basicString <|> literalString <|> Reader.spanSome isBareChar
  blanks
  return String.ofList part

/-- Keys and values are nested less than this deep. -/
def maxDepth : Nat := 80

/-- A key: the names of the tables on the way, and the name in the last of them. -/
def key : Reader (List String × String) := do
  let parts ← Reader.separated keyPart (Reader.char '.')
  let last ← Reader.check parts.getLast?
  if parts.length < maxDepth then return (parts.dropLast, last) else failure

end ArchiveIntake.Toml
