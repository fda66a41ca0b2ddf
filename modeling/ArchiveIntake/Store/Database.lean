import ArchiveIntake.Config
import ArchiveIntake.Record.Json
import ArchiveIntake.Store.Location

/-! The configuration store kept in a database. The sets of a record are stored as
JSON texts and its time as a signed 64 bit count of nanoseconds, so what is read
back depends on those texts. Tables may be missing. Operations of several
statements run as a transaction. -/

namespace ArchiveIntake

/-- A row of the active records: two JSON arrays and a time. -/
structure ActiveRow where
  archivedFields : String
  aliases : String
  modified : Nat
deriving DecidableEq, Repr

/-- The tables, each of which may be missing. -/
structure DatabaseStore where
  activeRecords : Option (Table ActiveRow)
  aliases : Option (Table String)
  properties : Option (Table String)
  standardFields : Option NameSet
deriving DecidableEq

/-- Statements of a database. What a statement changed stays changed when a later
one fails, unless they run as a transaction. -/
abbrev Statement (α : Type) := DatabaseStore → Except Failure α × DatabaseStore

namespace Statement

def pure (value : α) : Statement α := fun db => (.ok value, db)

def query (read : DatabaseStore → Except Failure α) : Statement α := fun db => (read db, db)

def fail (failure : Failure) : Statement α := fun db => (.error failure, db)

def andThen (first : Statement α) (second : α → Statement β) : Statement β := fun db =>
  match first db with
  | (.ok value, db) => second value db
  | (.error failure, db) => (.error failure, db)

def each (f : α → Statement Unit) : List α → Statement Unit
  | [] => pure ()
  | a :: rest => (f a).andThen fun _ => each f rest

/-- Runs statements so that nothing stays if one of them fails. -/
def transaction (statement : Statement α) : Statement α := fun db =>
  match statement db with
  | (.ok value, db) => (.ok value, db)
  | (.error failure, _) => (.error failure, db)

end Statement

namespace DatabaseStore

def maxTime : Nat := UInt64.size / 2 - 1

/-- The time as stored: what lies before 1970 becomes its beginning, and what lies
too late becomes the latest time. -/
def storedTime (time : Time) : Nat := min time.toNat maxTime

def setText (names : NameSet) : String := names.toJson.text

def readSet? (text : String) : Option NameSet :=
  ((Json.Document.ofText text).decode NameSet.ofNode).toOption

def empty : DatabaseStore := ⟨some ∅, some ∅, some ∅, some ∅⟩

/-- Opens the database of a name and makes its tables. The only databases there are
are kept in memory. -/
def openAt (name : String) : Except Failure DatabaseStore :=
  match DatabaseLocation.ofName? name with
  | none => .error (.cannotOpen name)
  | some location =>
    if ¬location.isInMemory then .error (.cannotOpen name)
    else if location.isWritable then .ok empty
    else .error .readOnlyDatabase

def createMissing (db : DatabaseStore) : DatabaseStore where
  activeRecords := some (db.activeRecords.getD ∅)
  aliases := some (db.aliases.getD ∅)
  properties := some (db.properties.getD ∅)
  standardFields := some (db.standardFields.getD ∅)

def row (record : ActiveRecord) : ActiveRow where
  archivedFields := setText record.archivedFields
  aliases := setText record.aliases
  modified := storedTime record.modificationTime

/-- Reads a row under the name it was looked up by, the fields first. -/
def readRow (pv : String) (row : ActiveRow) : Except Failure ActiveRecord :=
  match readSet? row.archivedFields with
  | none => .error (.corruptFields pv)
  | some fields =>
    match readSet? row.aliases with
    | none => .error (.corruptAliases pv)
    | some aliases => .ok ⟨pv, fields, aliases, row.modified⟩

def activeTable (db : DatabaseStore) : Except Failure (Table ActiveRow) :=
  match db.activeRecords with
  | some table => .ok table
  | none => .error (.missingTable .activeRecords)

def putActiveTable (table : Table ActiveRow) : Statement Unit := fun db =>
  (.ok (), { db with activeRecords := some table })

def putRow (pv : String) (row : ActiveRow) : Statement Unit :=
  (Statement.query activeTable).andThen fun table => putActiveTable (table.insert pv row)

def putAlias (name pv : String) : Statement Unit := fun db =>
  match db.aliases with
  | some table => (.ok (), { db with aliases := some (table.insert name pv) })
  | none => (.error (.missingTable .aliases), db)

def putProperty (key value : String) : Statement Unit := fun db =>
  match db.properties with
  | some table => (.ok (), { db with properties := some (table.insert key value) })
  | none => (.error (.missingTable .installationProperties), db)

def clearStandardFields : Statement Unit := fun db =>
  match db.standardFields with
  | some _ => (.ok (), { db with standardFields := some ∅ })
  | none => (.error (.missingTable .standardFields), db)

def putStandardField (field : String) : Statement Unit := fun db =>
  match db.standardFields with
  | some fields => (.ok (), { db with standardFields := some (fields.insert field) })
  | none => (.error (.missingTable .standardFields), db)

def activeRecord (db : DatabaseStore) (pv : String) : Except Failure (Option ActiveRecord) := do
  match (← db.activeTable)[pv]? with
  | none => return none
  | some row => return some (← readRow pv row)

def updateActiveRecord (pv : String) (record : ActiveRecord) : Statement Unit :=
  putRow pv (row record)

/-- Registers an alias, and adds it to the stored aliases of the variable if it has a row. -/
def addAlias (name pv : String) : Statement Unit :=
  .transaction <|
    (putAlias name pv).andThen fun _ =>
      (Statement.query activeTable).andThen fun table =>
        match table[pv]? with
        | none => .pure ()
        | some row =>
          match readSet? row.aliases with
          | none => .fail (.corruptAliases pv)
          | some aliases =>
            if aliases.contains name then .pure ()
            else putRow pv { row with aliases := setText (aliases.insert name) }

/-- A property that cannot be read counts as not set. -/
def property (db : DatabaseStore) (key : String) : Option String :=
  db.properties.bind fun table => table[key]?

def setProperty (key value : String) : Statement Unit := putProperty key value

def standardFieldList (db : DatabaseStore) : Except Failure (List String) :=
  match db.standardFields with
  | some fields => .ok fields.toList
  | none => .error (.missingTable .standardFields)

def resolveAlias (db : DatabaseStore) (name : String) : Except Failure (Option String) :=
  match db.aliases with
  | some table => .ok table[name]?
  | none => .error (.missingTable .aliases)

def activeCount (db : DatabaseStore) : Except Failure Nat := do return (← db.activeTable).size

def seed (config : AdmissionConfig) : Statement Unit :=
  .transaction <|
    clearStandardFields.andThen fun _ =>
      (Statement.each putStandardField config.standardFields).andThen fun _ =>
        Statement.each (fun (key, value) => putProperty key value) config.properties.toList

inductive TextColumn where
  | archivedFields
  | aliases
deriving DecidableEq, Repr

/-- Overwrites a text of a row; answers how many rows there were to change. -/
def overwrite (pv : String) (column : TextColumn) (text : String) : Statement Nat :=
  (Statement.query activeTable).andThen fun table =>
    match table[pv]? with
    | none => .pure 0
    | some row =>
      let row :=
        match column with
        | .archivedFields => { row with archivedFields := text }
        | .aliases => { row with aliases := text }
      (putRow pv row).andThen fun _ => .pure 1

def dropTable (table : DatabaseTable) : Statement Unit := fun db =>
  let missing := (.error (.missingTable table), db)
  match table with
  | .activeRecords =>
    if db.activeRecords.isNone then missing else (.ok (), { db with activeRecords := none })
  | .aliases => if db.aliases.isNone then missing else (.ok (), { db with aliases := none })
  | .installationProperties =>
    if db.properties.isNone then missing else (.ok (), { db with properties := none })
  | .standardFields =>
    if db.standardFields.isNone then missing else (.ok (), { db with standardFields := none })

end DatabaseStore
end ArchiveIntake
