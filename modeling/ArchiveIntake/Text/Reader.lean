/-! Readers: what a text begins with, and the rest of it. A reader that fails takes
nothing, so an alternative starts at the same place. -/

namespace ArchiveIntake.Text

/-- Reads a value off the front of a text. -/
abbrev Reader (α : Type) := StateT (List Char) Option α

namespace Reader

def one (accepts : Char → Bool) : Reader Char
  | c :: rest => if accepts c then some (c, rest) else none
  | [] => none

def char (c : Char) : Reader Unit := do let _ ← one (· == c)

def word : List Char → Reader Unit
  | [] => pure ()
  | c :: rest => do char c; word rest

/-- All characters up to the first that is not accepted. -/
def span (accepts : Char → Bool) : Reader (List Char) := fun cs =>
  some (cs.takeWhile accepts, cs.dropWhile accepts)

def spanSome (accepts : Char → Bool) : Reader (List Char) := do
  let found ← span accepts
  if found.isEmpty then failure else return found

/-- As many items as there are. An item that takes nothing off the text is the last. -/
def manyOf (item : Reader α) (cs : List Char) : List α × List Char :=
  match item cs with
  | none => ([], cs)
  | some (value, rest) =>
    if rest.length < cs.length then
      let (values, rest) := manyOf item rest
      (value :: values, rest)
    else ([value], rest)
termination_by cs.length

def many (item : Reader α) : Reader (List α) := fun cs => some (manyOf item cs)

def optional (item : Reader α) : Reader (Option α) := do
  (do return some (← item)) <|> return none

def separated (item : Reader α) (separator : Reader Unit) : Reader (List α) := do
  let first ← item
  let others ← many do separator; item
  return first :: others

/-- A value that a function may refuse. -/
def check (value : Option α) : Reader α := fun cs => value.map fun value => (value, cs)

def atEnd : Reader Unit
  | [] => some ((), [])
  | _ => none

/-- Reads all of a text. -/
def run? (reader : Reader α) (cs : List Char) : Option α :=
  match reader cs with
  | some (value, []) => some value
  | _ => none

end Reader
end ArchiveIntake.Text
