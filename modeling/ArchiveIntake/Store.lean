import ArchiveIntake.Store.Database
import ArchiveIntake.Store.Memory

/-! The configuration store: either kind, behind the operations that admission
uses. -/

namespace ArchiveIntake

inductive ConfigStore where
  | memory (store : MemoryStore)
  | database (store : DatabaseStore)
deriving DecidableEq

namespace ConfigStore

def ofStatement (statement : Statement α) (db : DatabaseStore) : Except Failure α × ConfigStore :=
  let (result, db) := statement db
  (result, .database db)

def activeRecord (store : ConfigStore) (pv : String) : Except Failure (Option ActiveRecord) :=
  match store with
  | .memory store => .ok (store.activeRecord pv)
  | .database db => db.activeRecord pv

def updateActiveRecord (pv : String) (record : ActiveRecord) :
    ConfigStore → Except Failure Unit × ConfigStore
  | .memory store => (.ok (), .memory (store.updateActiveRecord pv record))
  | .database db => ofStatement (DatabaseStore.updateActiveRecord pv record) db

def addAlias (name pv : String) : ConfigStore → Except Failure Unit × ConfigStore
  | .memory store => (.ok (), .memory (store.addAlias name pv))
  | .database db => ofStatement (DatabaseStore.addAlias name pv) db

def property (store : ConfigStore) (key : String) : Option String :=
  match store with
  | .memory store => store.properties[key]?
  | .database db => db.property key

def standardFields : ConfigStore → Except Failure (List String)
  | .memory store => .ok store.standardFields
  | .database db => db.standardFieldList

def setProperty (key value : String) : ConfigStore → Except Failure Unit × ConfigStore
  | .memory store => (.ok (), .memory (store.setProperty key value))
  | .database db => ofStatement (DatabaseStore.setProperty key value) db

def resolveAlias (store : ConfigStore) (name : String) : Except Failure (Option String) :=
  match store with
  | .memory store => .ok store.aliases[name]?
  | .database db => db.resolveAlias name

def activeCount : ConfigStore → Except Failure Nat
  | .memory store => .ok store.records.size
  | .database db => db.activeCount

def memoryOf (config : AdmissionConfig) : ConfigStore := .memory (.ofConfig config)

def databaseOf (config : AdmissionConfig) : ConfigStore :=
  .database (DatabaseStore.seed config .empty).2

end ConfigStore
end ArchiveIntake
