import ArchiveIntake.Config
import ArchiveIntake.Record

/-! The configuration store held in memory: live records, an index from aliases to
variables, the properties, and the standard fields as configured. -/

namespace ArchiveIntake

structure MemoryStore where
  records : Table ActiveRecord
  aliases : Table String
  properties : Table String
  standardFields : List String
deriving DecidableEq

namespace MemoryStore

def empty : MemoryStore := ⟨∅, ∅, ∅, []⟩

def ofConfig (config : AdmissionConfig) : MemoryStore :=
  ⟨∅, ∅, config.properties, config.standardFields⟩

def activeRecord (store : MemoryStore) (pv : String) : Option ActiveRecord := store.records[pv]?

def updateActiveRecord (store : MemoryStore) (pv : String) (record : ActiveRecord) : MemoryStore :=
  { store with records := store.records.insert pv record }

/-- Registers an alias, and adds it to the record of the variable if there is one. -/
def addAlias (store : MemoryStore) (name pv : String) : MemoryStore where
  records :=
    match store.records[pv]? with
    | some record => store.records.insert pv (record.withAlias name)
    | none => store.records
  aliases := store.aliases.insert name pv
  properties := store.properties
  standardFields := store.standardFields

def setProperty (store : MemoryStore) (key value : String) : MemoryStore :=
  { store with properties := store.properties.insert key value }

end MemoryStore
end ArchiveIntake
