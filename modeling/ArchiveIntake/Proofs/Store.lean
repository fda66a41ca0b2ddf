import ArchiveIntake.Proofs.Json.Reading
import ArchiveIntake.Proofs.Table
import ArchiveIntake.Store

/-! What the operations of the configuration store do to the records that can be looked
up. Both kinds of store agree, because the texts in a database read back as the sets
that were written. -/

namespace ArchiveIntake

namespace Statement
variable {db after : DatabaseStore} {β : Type}

theorem andThen_eq_ok {first : Statement α} {second : α → Statement β} {value : β} :
    first.andThen second db = (.ok value, after) ↔
      ∃ read middle, first db = (.ok read, middle) ∧ second read middle = (.ok value, after) := by
  unfold andThen
  constructor
  · intro ran
    split at ran
    next read middle begun => exact ⟨read, middle, begun, ran⟩
    next => cases ran
  · rintro ⟨read, middle, begun, rest⟩
    rw [begun]
    exact rest

theorem transaction_eq_ok {statement : Statement α} {value : α} :
    statement.transaction db = (.ok value, after) ↔ statement db = (.ok value, after) := by
  unfold transaction
  constructor
  · intro ran
    split at ran
    next ended => rw [ended]; exact ran
    next => cases ran
  · intro ran
    rw [ran]

end Statement

namespace DatabaseStore

theorem readSet?_setText (names : NameSet) : readSet? (setText names) = some names := by
  have listed : NameSet.ofList names.toList = names := by
    apply Std.ExtTreeSet.ext_mem
    simp
  unfold readSet? setText NameSet.toJson NameSet.ofNode
  rw [Json.Document.decode_map, Json.decode_strings]
  simp [Except.map, Except.toOption, listed]

variable {db after : DatabaseStore} {table : Table ActiveRow} {pv name : String}

theorem readRow_row (pv : String) (record : ActiveRecord) :
    readRow pv (row record) =
      .ok ⟨pv, record.archivedFields, record.aliases, storedTime record.modificationTime⟩ := by
  simp [readRow, row, readSet?_setText]

theorem query_activeTable_eq_ok :
    Statement.query activeTable db = (.ok table, after) ↔
      db.activeRecords = some table ∧ after = db := by
  unfold Statement.query activeTable
  cases db.activeRecords <;> simp [eq_comm]

theorem putRow_eq_ok {row : ActiveRow} :
    putRow pv row db = (.ok (), after) ↔
      ∃ table, db.activeRecords = some table ∧
        after = { db with activeRecords := some (table.insert pv row) } := by
  unfold putRow
  rw [Statement.andThen_eq_ok]
  constructor
  · rintro ⟨table, middle, read, written⟩
    obtain ⟨found, rfl⟩ := query_activeTable_eq_ok.mp read
    exact ⟨table, found, by cases written; rfl⟩
  · rintro ⟨table, found, rfl⟩
    exact ⟨table, db, query_activeTable_eq_ok.mpr ⟨found, rfl⟩, rfl⟩

theorem putAlias_eq_ok :
    putAlias name pv db = (.ok (), after) ↔
      ∃ names, db.aliases = some names ∧
        after = { db with aliases := some (names.insert name pv) } := by
  unfold putAlias
  cases db.aliases <;> simp [eq_comm]

theorem activeRecord_of_table (found : db.activeRecords = some table) (pv : String) :
    db.activeRecord pv =
      match table[pv]? with
      | none => .ok none
      | some row => (readRow pv row).map some := by
  unfold activeRecord activeTable
  rw [found]
  change (match table[pv]? with
    | none => Except.ok none
    | some row => readRow pv row >>= fun record => Except.ok (some record)) = _
  cases table[pv]? with
  | none => rfl
  | some row => cases h : readRow pv row <;> simp [h] <;> rfl

theorem exists_row_of_activeRecord {record : ActiveRecord}
    (found : db.activeRecord pv = .ok (some record)) :
    ∃ table row, db.activeRecords = some table ∧ table[pv]? = some row ∧
      readSet? row.aliases = some record.aliases ∧ record.pvName = pv := by
  cases present : db.activeRecords with
  | none =>
    unfold activeRecord activeTable at found
    rw [present] at found
    cases found
  | some table =>
    rw [activeRecord_of_table present] at found
    cases held : table[pv]? with
    | none => simp [held] at found
    | some row =>
      cases fields : readSet? row.archivedFields <;> cases aliases : readSet? row.aliases <;>
        simp [held, readRow, fields, aliases, Except.map] at found
      rw [← found]
      exact ⟨table, row, rfl, held, aliases, rfl⟩

theorem activeRecord_pvName {record : ActiveRecord}
    (found : db.activeRecord pv = .ok (some record)) : record.pvName = pv := by
  obtain ⟨_, _, _, _, _, named⟩ := exists_row_of_activeRecord found
  exact named

/-- What registering an alias does to the rows: the row of the variable gets it, if there
is such a row and it does not have it yet. -/
inductive AliasedRows (name pv : String) (table : Table ActiveRow) : Table ActiveRow → Prop
  | absent (absent : table[pv]? = none) : AliasedRows name pv table table
  | known (row : ActiveRow) (aliases : NameSet) (found : table[pv]? = some row)
      (read : readSet? row.aliases = some aliases) (member : name ∈ aliases) :
      AliasedRows name pv table table
  | added (row : ActiveRow) (aliases : NameSet) (found : table[pv]? = some row)
      (read : readSet? row.aliases = some aliases) (new : name ∉ aliases) :
      AliasedRows name pv table
        (table.insert pv { row with aliases := setText (aliases.insert name) })

theorem exists_aliasedRows {row : ActiveRow} {aliases : NameSet} (name : String)
    (held : table[pv]? = some row) (read : readSet? row.aliases = some aliases) :
    ∃ rows, AliasedRows name pv table rows := by
  by_cases known : name ∈ aliases
  · exact ⟨_, .known row aliases held read known⟩
  · exact ⟨_, .added row aliases held read known⟩

/-- An alias is registered in the index first and then in the row of its variable. -/
theorem addAlias_eq_ok :
    addAlias name pv db = (.ok (), after) ↔
      ∃ table rows names, db.activeRecords = some table ∧ db.aliases = some names ∧
        AliasedRows name pv table rows ∧
        after = { db with activeRecords := some rows, aliases := some (names.insert name pv) } := by
  rw [addAlias, Statement.transaction_eq_ok, Statement.andThen_eq_ok]
  constructor
  · intro ran
    obtain ⟨_, middle, indexed, rest⟩ := ran
    obtain ⟨names, index, rfl⟩ := putAlias_eq_ok.mp indexed
    obtain ⟨table, _, read, rest⟩ := Statement.andThen_eq_ok.mp rest
    obtain ⟨found, rfl⟩ := query_activeTable_eq_ok.mp read
    cases held : table[pv]? with
    | none =>
      simp only [held] at rest
      cases rest
      exact ⟨table, table, names, found, index, .absent held, by rw [found]⟩
    | some row =>
      cases readable : readSet? row.aliases with
      | none =>
        simp only [held, readable] at rest
        cases rest
      | some aliases =>
        simp only [held, readable] at rest
        by_cases known : name ∈ aliases
        · rw [if_pos (by simpa using known)] at rest
          cases rest
          exact ⟨table, table, names, found, index, .known row aliases held readable known, by rw [found]⟩
        · rw [if_neg (by simpa using known)] at rest
          obtain ⟨same, here, rfl⟩ := putRow_eq_ok.mp rest
          cases found.symm.trans here
          exact ⟨table, _, names, found, index, .added row aliases held readable known, rfl⟩
  · intro effect
    obtain ⟨table, rows, names, found, index, aliased, rfl⟩ := effect
    refine ⟨(), _, putAlias_eq_ok.mpr ⟨names, index, rfl⟩, ?_⟩
    refine Statement.andThen_eq_ok.mpr ⟨table, _, query_activeTable_eq_ok.mpr ⟨found, rfl⟩, ?_⟩
    cases aliased with
    | absent absent =>
      simp only [absent, Statement.pure, found]
    | known row aliases held readable member =>
      simp only [held, readable]
      rw [if_pos (by simpa using member), Statement.pure, found]
    | added row aliases held readable new =>
      simp only [held, readable]
      rw [if_neg (by simpa using new)]
      exact putRow_eq_ok.mpr ⟨table, found, rfl⟩

/-- The record of the variable gets the alias, and no other record changes. -/
theorem AliasedRows.activeRecord {rows : Table ActiveRow} (effect : AliasedRows name pv table rows)
    (found : db.activeRecords = some table) (present : after.activeRecords = some rows)
    (other : String) :
    after.activeRecord other =
      if other = pv then (db.activeRecord pv).map (·.map (·.withAlias name))
      else db.activeRecord other := by
  rw [activeRecord_of_table found, activeRecord_of_table found, activeRecord_of_table present]
  by_cases here : other = pv
  · subst here
    rw [if_pos rfl]
    cases effect with
    | absent absent => simp [absent, Except.map]
    | known row aliases held read member =>
      cases fields : readSet? row.archivedFields <;>
        simp [held, readRow, fields, read, Except.map, ActiveRecord.withAlias,
          NameSet.insert_eq_self member]
    | added row aliases held read new =>
      cases fields : readSet? row.archivedFields <;>
        simp [held, readRow, fields, read, Except.map, ActiveRecord.withAlias, readSet?_setText]
  · rw [if_neg here]
    cases effect with
    | absent | known => rfl
    | added row aliases held read => rw [Table.getElem?_insert_iff, if_neg here]

end DatabaseStore

namespace ConfigStore

def kept (pv : String) (record : ActiveRecord) : ConfigStore → ActiveRecord
  | .memory _ => record
  | .database _ =>
    { record with pvName := pv, modificationTime := DatabaseStore.storedTime record.modificationTime }

variable {store after : ConfigStore} {pv : String}

theorem ofStatement_eq_ok {statement : Statement α} {db : DatabaseStore} {value : α} :
    ofStatement statement db = (.ok value, after) ↔
      ∃ db', statement db = (.ok value, db') ∧ after = .database db' := by
  unfold ofStatement
  constructor
  · intro ran
    exact ⟨(statement db).2, by grind, by grind⟩
  · rintro ⟨db', ran, rfl⟩
    rw [ran]

theorem activeRecord_updateActiveRecord {record : ActiveRecord}
    (written : store.updateActiveRecord pv record = (.ok (), after)) (other : String) :
    after.activeRecord other =
      if other = pv then .ok (some (store.kept pv record)) else store.activeRecord other := by
  cases store with
  | memory store =>
    cases written
    by_cases same : pv = other
    · subst same
      simp [activeRecord, MemoryStore.updateActiveRecord, MemoryStore.activeRecord, kept]
    · simp [activeRecord, MemoryStore.updateActiveRecord, MemoryStore.activeRecord,
        Std.ExtTreeMap.getElem?_insert, same, Ne.symm same]
  | database db =>
    simp only [updateActiveRecord] at written
    obtain ⟨db', ran, rfl⟩ := ofStatement_eq_ok.mp written
    obtain ⟨table, found, rfl⟩ := DatabaseStore.putRow_eq_ok.mp ran
    simp only [activeRecord]
    rw [DatabaseStore.activeRecord_of_table rfl, DatabaseStore.activeRecord_of_table found]
    by_cases same : pv = other
    · subst same
      simp [DatabaseStore.readRow_row, Except.map, kept]
    · simp [Std.ExtTreeMap.getElem?_insert, same, Ne.symm same]

theorem activeRecord_addAlias {name : String} (written : store.addAlias name pv = (.ok (), after))
    (other : String) :
    after.activeRecord other =
      if other = pv then (store.activeRecord pv).map (·.map (·.withAlias name))
      else store.activeRecord other := by
  cases store with
  | memory store =>
    cases written
    by_cases same : other = pv
    · subst same
      cases held : store.records[other]? <;>
        simp [activeRecord, MemoryStore.addAlias, MemoryStore.activeRecord, held, Except.map]
    · cases held : store.records[pv]? <;>
        simp [activeRecord, MemoryStore.addAlias, MemoryStore.activeRecord, held,
          Table.getElem?_insert_iff, same]
  | database db =>
    simp only [addAlias] at written
    obtain ⟨db', ran, rfl⟩ := ofStatement_eq_ok.mp written
    obtain ⟨table, rows, names, found, -, effect, rfl⟩ := DatabaseStore.addAlias_eq_ok.mp ran
    exact effect.activeRecord found rfl other

structure SameSettings (before after : ConfigStore) : Prop where
  properties : ∀ key, after.property key = before.property key
  standardFields : after.standardFields = before.standardFields

variable {middle : ConfigStore} {name : String}

theorem SameSettings.refl (store : ConfigStore) : SameSettings store store := ⟨fun _ => rfl, rfl⟩

theorem SameSettings.trans (first : SameSettings store middle) (second : SameSettings middle after) :
    SameSettings store after :=
  ⟨fun key => (second.properties key).trans (first.properties key),
    second.standardFields.trans first.standardFields⟩

theorem updateActiveRecord_settings {record : ActiveRecord}
    (written : store.updateActiveRecord pv record = (.ok (), after)) : SameSettings store after := by
  cases store with
  | memory store => cases written; exact ⟨fun _ => rfl, rfl⟩
  | database db =>
    simp only [updateActiveRecord] at written
    obtain ⟨db', ran, rfl⟩ := ofStatement_eq_ok.mp written
    obtain ⟨table, -, rfl⟩ := DatabaseStore.putRow_eq_ok.mp ran
    exact ⟨fun _ => rfl, rfl⟩

theorem addAlias_settings (written : store.addAlias name pv = (.ok (), after)) :
    SameSettings store after := by
  cases store with
  | memory store => cases written; exact ⟨fun _ => rfl, rfl⟩
  | database db =>
    simp only [addAlias] at written
    obtain ⟨db', ran, rfl⟩ := ofStatement_eq_ok.mp written
    obtain ⟨_, _, _, _, _, _, rfl⟩ := DatabaseStore.addAlias_eq_ok.mp ran
    exact ⟨fun _ => rfl, rfl⟩

/-! The index of aliases. Only the registration of an alias changes it. -/

/-- The index from aliases to variables; in a database its table may be missing. -/
def aliasIndex : ConfigStore → Option (Table String)
  | .memory store => some store.aliases
  | .database db => db.aliases

theorem resolveAlias_eq (store : ConfigStore) (name : String) :
    store.resolveAlias name =
      match store.aliasIndex with
      | some index => .ok index[name]?
      | none => .error (.missingTable .aliases) := by
  cases store with
  | memory store => rfl
  | database db =>
    obtain ⟨_, aliases, _, _⟩ := db
    cases aliases <;> rfl

theorem aliasIndex_updateActiveRecord {record : ActiveRecord}
    (written : store.updateActiveRecord pv record = (.ok (), after)) :
    after.aliasIndex = store.aliasIndex := by
  cases store with
  | memory store =>
    cases written
    rfl
  | database db =>
    simp only [updateActiveRecord] at written
    obtain ⟨final, ran, rfl⟩ := ofStatement_eq_ok.mp written
    obtain ⟨table, -, rfl⟩ := DatabaseStore.putRow_eq_ok.mp ran
    rfl

theorem aliasIndex_addAlias (written : store.addAlias name pv = (.ok (), after)) :
    ∃ index, store.aliasIndex = some index ∧ after.aliasIndex = some (index.insert name pv) := by
  cases store with
  | memory store =>
    cases written
    exact ⟨store.aliases, rfl, rfl⟩
  | database db =>
    simp only [addAlias] at written
    obtain ⟨final, ran, rfl⟩ := ofStatement_eq_ok.mp written
    obtain ⟨_, _, names, _, index, _, rfl⟩ := DatabaseStore.addAlias_eq_ok.mp ran
    exact ⟨names, index, rfl⟩

theorem resolveAlias_updateActiveRecord {record : ActiveRecord}
    (written : store.updateActiveRecord pv record = (.ok (), after)) (other : String) :
    after.resolveAlias other = store.resolveAlias other := by
  rw [resolveAlias_eq, resolveAlias_eq, aliasIndex_updateActiveRecord written]

theorem resolveAlias_addAlias (written : store.addAlias name pv = (.ok (), after)) (other : String) :
    after.resolveAlias other = if other = name then .ok (some pv) else store.resolveAlias other := by
  obtain ⟨index, before, later⟩ := aliasIndex_addAlias written
  simp only [resolveAlias_eq, before, later, Table.getElem?_insert_iff]
  split <;> rfl

def reindex (entries : List (String × String)) : ConfigStore → ConfigStore
  | .memory store => .memory { store with aliases := Table.insertAll store.aliases entries }
  | .database db =>
    .database { db with aliases := db.aliases.map fun index => Table.insertAll index entries }

section Reindex
variable (entries : List (String × String)) (store : ConfigStore)

@[simp] theorem activeRecord_reindex (pv : String) :
    (store.reindex entries).activeRecord pv = store.activeRecord pv := by
  cases store <;> rfl

@[simp] theorem property_reindex (key : String) :
    (store.reindex entries).property key = store.property key := by
  cases store <;> rfl

@[simp] theorem aliasIndex_reindex :
    (store.reindex entries).aliasIndex =
      store.aliasIndex.map fun index => Table.insertAll index entries := by
  cases store <;> rfl

@[simp] theorem reindex_nil : store.reindex [] = store := by
  cases store with
  | memory store => rfl
  | database db =>
    obtain ⟨_, aliases, _, _⟩ := db
    cases aliases <;> rfl

theorem reindex_reindex (more : List (String × String)) :
    (store.reindex entries).reindex more = store.reindex (entries ++ more) := by
  cases store with
  | memory store => simp only [reindex, Table.insertAll_append]
  | database db => simp only [reindex, Option.map_map, Function.comp_def, Table.insertAll_append]

end Reindex

theorem reindex_eq_self {before : Option (Table String)} {entries : List (String × String)}
    (indexed : store.aliasIndex = before.map fun index => Table.insertAll index entries) :
    store.reindex entries = store := by
  cases store with
  | memory store =>
    obtain ⟨index, -, same⟩ := Option.map_eq_some_iff.mp indexed.symm
    simp only [reindex, ← same, Table.insertAll_insertAll]
    rw [same]
  | database db =>
    obtain ⟨records, aliases, properties, fields⟩ := db
    change aliases = _ at indexed
    subst indexed
    cases before <;> simp [reindex, Table.insertAll_insertAll]

/-- An alias that its variable has is registered in the index alone. -/
theorem addAlias_of_mem {record : ActiveRecord} {index : Table String}
    (found : store.activeRecord pv = .ok (some record)) (known : name ∈ record.aliases)
    (indexed : store.aliasIndex = some index) :
    store.addAlias name pv = (.ok (), store.reindex [(name, pv)]) := by
  cases store with
  | memory store =>
    have held : store.records[pv]? = some record := Except.ok.inj found
    have unchanged : record.withAlias name = record := by
      simp only [ActiveRecord.withAlias, NameSet.insert_eq_self known]
    simp only [addAlias, MemoryStore.addAlias, held, unchanged, Table.insert_eq_self held]
    rfl
  | database db =>
    obtain ⟨table, row, present, held, aliases, -⟩ := DatabaseStore.exists_row_of_activeRecord found
    have written := DatabaseStore.addAlias_eq_ok.mpr
      ⟨table, table, index, present, indexed, .known row _ held aliases known, rfl⟩
    have indexed : db.aliases = some index := indexed
    simp only [addAlias, ofStatement, written, reindex, indexed, present, Option.map_some]
    rfl

/-! A record that can be looked up can be written, and its variable can get an alias if there is an
index for it. -/

theorem kept_updateActiveRecord {record : ActiveRecord}
    (written : store.updateActiveRecord pv record = (.ok (), after)) (other : String)
    (read : ActiveRecord) : after.kept other read = store.kept other read := by
  cases store with
  | memory store =>
    cases written
    rfl
  | database db =>
    simp only [updateActiveRecord] at written
    obtain ⟨final, -, rfl⟩ := ofStatement_eq_ok.mp written
    rfl

theorem kept_addAlias (written : store.addAlias name pv = (.ok (), after)) (other : String)
    (read : ActiveRecord) : after.kept other read = store.kept other read := by
  cases store with
  | memory store =>
    cases written
    rfl
  | database db =>
    simp only [addAlias] at written
    obtain ⟨final, -, rfl⟩ := ofStatement_eq_ok.mp written
    rfl

theorem exists_updateActiveRecord {found : ActiveRecord}
    (present : store.activeRecord pv = .ok (some found)) (record : ActiveRecord) :
    ∃ after, store.updateActiveRecord pv record = (.ok (), after) := by
  cases store with
  | memory store => exact ⟨_, rfl⟩
  | database db =>
    obtain ⟨table, -, rows, -⟩ := DatabaseStore.exists_row_of_activeRecord present
    exact ⟨_, ofStatement_eq_ok.mpr ⟨_, DatabaseStore.putRow_eq_ok.mpr ⟨table, rows, rfl⟩, rfl⟩⟩

theorem exists_addAlias {found : ActiveRecord} {index : Table String}
    (present : store.activeRecord pv = .ok (some found)) (indexed : store.aliasIndex = some index)
    (name : String) : ∃ after, store.addAlias name pv = (.ok (), after) := by
  cases store with
  | memory store => exact ⟨_, rfl⟩
  | database db =>
    obtain ⟨table, row, rows, held, aliases, -⟩ := DatabaseStore.exists_row_of_activeRecord present
    obtain ⟨others, effect⟩ := DatabaseStore.exists_aliasedRows name held aliases
    exact ⟨_, ofStatement_eq_ok.mpr
      ⟨_, DatabaseStore.addAlias_eq_ok.mpr ⟨table, others, index, rows, indexed, effect, rfl⟩, rfl⟩⟩

end ConfigStore
end ArchiveIntake
