import ArchiveIntake.Number.Binary

/-! Values of a settings file, and how tables grow. A table that is named on the way
to another is open for more; one that was given under a header or written in one
piece is not, except that a header may name a table which so far is only implied. -/

namespace ArchiveIntake.Toml

inductive Origin where
  /-- Written in one piece, and complete. -/
  | inline
  /-- Opened by a header, or the whole file. -/
  | header
  /-- Named on the way to the table of a header. -/
  | implied
  /-- Named on the way to a value, in a key of several parts. -/
  | dotted
deriving DecidableEq, Repr

inductive Value where
  | integer (value : Int)
  | float (value : Double)
  | bool (value : Bool)
  | string (text : String)
  | dateTime (text : String)
  | array (items : List Value)
  | table (origin : Origin) (members : List (String × Value))
  /-- The tables of a repeated header; the last one is open. -/
  | tables (earlier : List (List (String × Value))) (last : List (String × Value))

/-- The members of a table, in the order in which they were named. -/
abbrev Members := List (String × Value)

namespace Members

def get? (members : Members) (key : String) : Option Value := members.lookup key

def replace (members : Members) (key : String) (value : Value) : Members :=
  members.map fun member => if member.1 = key then (key, value) else member

/-- Changes the table at the end of a path. Tables that are missing on the way are
made, and those that are there have to admit it. -/
def change (made : Origin) (admits : Origin → Bool) (f : Origin → Members → Option Members) :
    List String → Origin → Members → Option Members
  | [], origin, members => f origin members
  | key :: path, _, members =>
    match members.get? key with
    | none => (change made admits f path made []).map fun inner =>
        members ++ [(key, .table made inner)]
    | some (.table origin inner) =>
      if admits origin then
        (change made admits f path origin inner).map fun inner =>
          members.replace key (.table origin inner)
      else none
    | some (.tables earlier last) =>
      (change made admits f path .header last).map fun last =>
        members.replace key (.tables earlier last)
    | some _ => none

def add (members : Members) (key : String) (value : Value) : Option Members :=
  if (members.get? key).isSome then none else some (members ++ [(key, value)])

/-- Whether a key of several parts may lead through a table. -/
def isExtensible (origin : Origin) : Bool := origin = .implied || origin = .dotted

/-- Adds a value under a key. If the key has several parts the value goes to a table
that such keys made. -/
def addAt (origin : Origin) (members : Members) (path : List String) (key : String)
    (value : Value) : Option Members :=
  change .dotted isExtensible
    (fun origin members =>
      if path.isEmpty || origin = .dotted then members.add key value else none)
    path origin members

def openTable (members : Members) (key : String) : Option Members :=
  match members.get? key with
  | none => some (members ++ [(key, .table .header [])])
  | some (.table .implied inner) => some (members.replace key (.table .header inner))
  | some _ => none

def openNext (members : Members) (key : String) : Option Members :=
  match members.get? key with
  | none => some (members ++ [(key, .tables [] [])])
  | some (.tables earlier last) => some (members.replace key (.tables (earlier ++ [last]) []))
  | some _ => none

/-- Changes the table that a header names, or the one around it. -/
def changeNamed (f : Origin → Members → Option Members) (path : List String)
    (members : Members) : Option Members :=
  change .implied (· ≠ .inline) f path .header members

end Members
end ArchiveIntake.Toml
