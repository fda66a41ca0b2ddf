import ArchiveIntake.Proofs.Store

/-! A store in memory beside one in a database. They mirror each other when every row of the
database holds the texts of a record in memory and all else is the same. Whatever is done to
both keeps them so, and both answer alike. How much the two times of a record may differ is a
parameter: a database keeps only what fits into its column. -/

namespace ArchiveIntake

/-- Two records that differ at most in their times, and in these only as allowed. -/
structure AlikeRecord (same : Time → Time → Prop) (record other : ActiveRecord) : Prop where
  pvName : other.pvName = record.pvName
  archivedFields : other.archivedFields = record.archivedFields
  aliases : other.aliases = record.aliases
  modificationTime : same record.modificationTime other.modificationTime

/-- Two outcomes that fail in the same way, or give values that are related. -/
inductive AlikeOutcome {ε : Type} (related : α → β → Prop) : Except ε α → Except ε β → Prop
  | ok (value : α) (other : β) (alike : related value other) :
      AlikeOutcome related (.ok value) (.ok other)
  | error (e : ε) : AlikeOutcome related (.error e) (.error e)

namespace AlikeOutcome
variable {ε β : Type} {related : α → β → Prop}

theorem refl (result : Except ε α) : AlikeOutcome Eq result result := by
  cases result with
  | ok value => exact .ok value value rfl
  | error e => exact .error e

theorem map_eq {g : α → γ} {h : β → γ} {result : Except ε α} {other : Except ε β}
    (alike : AlikeOutcome related result other)
    (equal : ∀ value likeness, related value likeness → g value = h likeness) :
    result.map g = other.map h := by
  cases alike with
  | ok value likeness alike => simp only [Except.map, equal value likeness alike]
  | error e => rfl

theorem eq {result other : Except ε α} (alike : AlikeOutcome Eq result other) : result = other := by
  cases alike with
  | ok value likeness same => rw [same]
  | error e => rfl

end AlikeOutcome

/-- What is found under a name in memory, and what is found there in a database. -/
inductive AlikeFound (same : Time → Time → Prop) (pv : String) :
    Option ActiveRecord → Option ActiveRecord → Prop
  | absent : AlikeFound same pv none none
  | present (record other : ActiveRecord) (named : record.pvName = pv)
      (alike : AlikeRecord same record other) : AlikeFound same pv (some record) (some other)

namespace AlikeRecord
variable {same : Time → Time → Prop} {record other : ActiveRecord}

theorem withField (alike : AlikeRecord same record other) (field : String) {now later : Time}
    (timed : same now later) : AlikeRecord same (record.withField field now) (other.withField field later) := by
  refine ⟨alike.pvName, ?_, alike.aliases, timed⟩
  simp only [ActiveRecord.withField, alike.archivedFields]

theorem withAlias (alike : AlikeRecord same record other) (name : String) :
    AlikeRecord same (record.withAlias name) (other.withAlias name) := by
  refine ⟨alike.pvName, alike.archivedFields, ?_, alike.modificationTime⟩
  simp only [ActiveRecord.withAlias, alike.aliases]

end AlikeRecord

/-- A row that mirrors a record: its name is the key, and it has the texts of its sets. -/
inductive MirroredRow (same : Time → Time → Prop) (pv : String) :
    Option ActiveRecord → Option ActiveRow → Prop
  | absent : MirroredRow same pv none none
  | present (record : ActiveRecord) (modified : Nat) (named : record.pvName = pv)
      (timed : same record.modificationTime modified) :
      MirroredRow same pv (some record) (some ⟨DatabaseStore.setText record.archivedFields,
        DatabaseStore.setText record.aliases, modified⟩)

structure MirroredRows (same : Time → Time → Prop) (records : Table ActiveRecord)
    (rows : Table ActiveRow) : Prop where
  size : rows.size = records.size
  row : ∀ pv, MirroredRow same pv records[pv]? rows[pv]?

structure Mirrors (same : Time → Time → Prop) (store : MemoryStore) (db : DatabaseStore) : Prop where
  rows : ∃ rows, db.activeRecords = some rows ∧ MirroredRows same store.records rows
  aliases : db.aliases = some store.aliases
  properties : db.properties = some store.properties
  standardFields : db.standardFields = some (.ofList store.standardFields)

variable {same : Time → Time → Prop} {pv name : String}

namespace MirroredRows
variable {records : Table ActiveRecord} {rows : Table ActiveRow}

theorem absent (mirrored : MirroredRows same records rows) (missing : records[pv]? = none) :
    rows[pv]? = none := by
  have row := mirrored.row pv
  rw [missing] at row
  generalize rows[pv]? = found at row
  cases row
  rfl

theorem present (mirrored : MirroredRows same records rows) {record : ActiveRecord}
    (held : records[pv]? = some record) :
    ∃ modified : Nat, rows[pv]? = some ⟨DatabaseStore.setText record.archivedFields,
      DatabaseStore.setText record.aliases, modified⟩ ∧ record.pvName = pv ∧
        same record.modificationTime modified := by
  have row := mirrored.row pv
  rw [held] at row
  generalize rows[pv]? = found at row
  cases row with
  | present _ modified named timed => exact ⟨modified, rfl, named, timed⟩

theorem contains_eq (mirrored : MirroredRows same records rows) (pv : String) :
    rows.contains pv = records.contains pv := by
  rw [Std.ExtTreeMap.contains_eq_isSome_getElem?, Std.ExtTreeMap.contains_eq_isSome_getElem?]
  cases held : records[pv]? with
  | none => rw [mirrored.absent held]; rfl
  | some record =>
    obtain ⟨modified, found, -⟩ := mirrored.present held
    rw [found]
    rfl

theorem insert (mirrored : MirroredRows same records rows) (record : ActiveRecord) (modified : Nat)
    (named : record.pvName = pv) (timed : same record.modificationTime modified) :
    MirroredRows same (records.insert pv record) (rows.insert pv
      ⟨DatabaseStore.setText record.archivedFields, DatabaseStore.setText record.aliases, modified⟩) := by
  constructor
  · rw [Std.ExtTreeMap.size_insert, Std.ExtTreeMap.size_insert, mirrored.size]
    rw [mirrored.contains_eq]
  · intro other
    rw [Table.getElem?_insert_iff, Table.getElem?_insert_iff]
    by_cases here : other = pv
    · subst here
      rw [if_pos rfl, if_pos rfl]
      exact .present record modified named timed
    · rw [if_neg here, if_neg here]
      exact mirrored.row other

end MirroredRows

namespace Mirrors
variable {store : MemoryStore} {db : DatabaseStore}

theorem activeRecord (mirrors : Mirrors same store db) (pv : String) :
    ∃ found, db.activeRecord pv = .ok found ∧ AlikeFound same pv (store.activeRecord pv) found := by
  obtain ⟨rows, present, mirrored⟩ := mirrors.rows
  rw [DatabaseStore.activeRecord_of_table present]
  unfold MemoryStore.activeRecord
  cases held : store.records[pv]? with
  | none =>
    rw [mirrored.absent held]
    exact ⟨none, rfl, .absent⟩
  | some record =>
    obtain ⟨modified, found, named, timed⟩ := mirrored.present held
    rw [found]
    refine ⟨some ⟨pv, record.archivedFields, record.aliases, modified⟩, ?_, ?_⟩
    · simp [DatabaseStore.readRow, DatabaseStore.readSet?_setText, Except.map]
    · exact .present _ _ named ⟨named.symm, rfl, rfl, timed⟩

theorem updateActiveRecord (mirrors : Mirrors same store db) {record other : ActiveRecord}
    (alike : AlikeRecord same record other) (named : record.pvName = pv)
    (timed : same record.modificationTime (DatabaseStore.storedTime other.modificationTime)) :
    ∃ after, DatabaseStore.updateActiveRecord pv other db = (.ok (), after) ∧
      Mirrors same (store.updateActiveRecord pv record) after := by
  obtain ⟨rows, present, mirrored⟩ := mirrors.rows
  have written := mirrored.insert record _ named timed
  refine ⟨_, DatabaseStore.putRow_eq_ok.mpr ⟨rows, present, rfl⟩, ?_⟩
  refine ⟨⟨_, rfl, ?_⟩, mirrors.aliases, mirrors.properties, mirrors.standardFields⟩
  simpa only [DatabaseStore.row, alike.archivedFields, alike.aliases,
    MemoryStore.updateActiveRecord] using written

/-- Registering an alias in both. The database does not write a row that has the alias. -/
theorem addAlias (mirrors : Mirrors same store db) (name pv : String) :
    ∃ after, DatabaseStore.addAlias name pv db = (.ok (), after) ∧
      Mirrors same (store.addAlias name pv) after := by
  obtain ⟨rows, present, mirrored⟩ := mirrors.rows
  have indexed {later : Table ActiveRow} (effect : DatabaseStore.AliasedRows name pv rows later) :=
    DatabaseStore.addAlias_eq_ok.mpr ⟨rows, later, _, present, mirrors.aliases, effect, rfl⟩
  cases held : store.records[pv]? with
  | none =>
    have found := mirrored.absent held
    refine ⟨_, indexed (.absent found), ⟨rows, rfl, ?_⟩, rfl, mirrors.properties, mirrors.standardFields⟩
    simpa only [MemoryStore.addAlias, held] using mirrored
  | some record =>
    obtain ⟨modified, found, named, timed⟩ := mirrored.present held
    have readable := DatabaseStore.readSet?_setText record.aliases
    by_cases known : name ∈ record.aliases
    · refine ⟨_, indexed (.known _ _ found readable known), ⟨rows, rfl, ?_⟩, rfl, mirrors.properties,
        mirrors.standardFields⟩
      have unchanged : record.withAlias name = record := by
        simp only [ActiveRecord.withAlias, NameSet.insert_eq_self known]
      simpa only [MemoryStore.addAlias, held, unchanged, Table.insert_eq_self held] using mirrored
    · refine ⟨_, indexed (.added _ _ found readable known), ⟨_, rfl, ?_⟩, rfl, mirrors.properties,
        mirrors.standardFields⟩
      have written := mirrored.insert (record.withAlias name) modified named timed
      simpa only [MemoryStore.addAlias, held, ActiveRecord.withAlias] using written

theorem setProperty (mirrors : Mirrors same store db) (key value : String) :
    ∃ after, DatabaseStore.setProperty key value db = (.ok (), after) ∧
      Mirrors same (store.setProperty key value) after := by
  refine ⟨{ db with properties := some (store.properties.insert key value) }, ?_, ?_⟩
  · unfold DatabaseStore.setProperty DatabaseStore.putProperty
    rw [mirrors.properties]
  · exact ⟨mirrors.rows, mirrors.aliases, rfl, mirrors.standardFields⟩

end Mirrors

/-! What a database holds once it is seeded: what the configuration says. -/

namespace DatabaseStore
variable {db : DatabaseStore}

theorem each_putStandardField {names : NameSet} (present : db.standardFields = some names)
    (fields : List String) :
    Statement.each putStandardField fields db =
      (.ok (), { db with standardFields := some (fields.foldl (·.insert ·) names) }) := by
  induction fields generalizing db names with
  | nil => simp [Statement.each, Statement.pure, ← present]
  | cons field rest ih =>
    have written : putStandardField field db =
        (.ok (), { db with standardFields := some (names.insert field) }) := by
      simp only [putStandardField, present]
    simp only [Statement.each, Statement.andThen, written, List.foldl_cons]
    exact ih rfl

theorem each_putProperty {table : Table String} (present : db.properties = some table)
    (entries : List (String × String)) :
    Statement.each (fun entry => putProperty entry.1 entry.2) entries db =
      (.ok (), { db with properties := some (table.insertAll entries) }) := by
  induction entries generalizing db table with
  | nil => simp [Statement.each, Statement.pure, Table.insertAll, ← present]
  | cons entry rest ih =>
    have written : putProperty entry.1 entry.2 db =
        (.ok (), { db with properties := some (table.insert entry.1 entry.2) }) := by
      simp only [putProperty, present]
    simp only [Statement.each, Statement.andThen, written]
    exact ih rfl

theorem seed_empty (config : AdmissionConfig) :
    seed config empty =
      (.ok (), ⟨some ∅, some ∅, some config.properties, some (.ofList config.standardFields)⟩) := by
  have fields := each_putStandardField (rfl : empty.standardFields = some ∅) config.standardFields
  let filled : DatabaseStore := { empty with standardFields := some (.ofList config.standardFields) }
  have properties := each_putProperty (rfl : filled.properties = some ∅) config.properties.toList
  rw [Table.insertAll_toList] at properties
  refine Statement.transaction_eq_ok.mpr (Statement.andThen_eq_ok.mpr ⟨(), empty, rfl, ?_⟩)
  exact Statement.andThen_eq_ok.mpr ⟨(), _, fields, properties⟩

end DatabaseStore
/-- A store in memory that is mirrored by one in a database. -/
inductive ConfigStore.Mirrored (same : Time → Time → Prop) : ConfigStore → ConfigStore → Prop
  | intro (store : MemoryStore) (db : DatabaseStore) (mirrors : Mirrors same store db) :
      ConfigStore.Mirrored same (.memory store) (.database db)

namespace ConfigStore.Mirrored
variable {store other : ConfigStore}

theorem initial (same : Time → Time → Prop) (config : AdmissionConfig) :
    Mirrored same (memoryOf config) (databaseOf config) := by
  unfold databaseOf
  rw [DatabaseStore.seed_empty]
  refine .intro _ _ ⟨⟨∅, rfl, rfl, ?_⟩, rfl, rfl, rfl⟩
  intro pv
  exact .absent

theorem activeRecord (mirrored : Mirrored same store other) (pv : String) :
    AlikeOutcome (AlikeFound same pv) (store.activeRecord pv) (other.activeRecord pv) := by
  obtain ⟨store, db, mirrors⟩ := mirrored
  obtain ⟨found, looked, alike⟩ := mirrors.activeRecord pv
  simp only [ConfigStore.activeRecord, looked]
  exact .ok _ _ alike

theorem updateActiveRecord (mirrored : Mirrored same store other) {record likeness : ActiveRecord}
    (alike : AlikeRecord same record likeness) (named : record.pvName = pv)
    (timed : same record.modificationTime (DatabaseStore.storedTime likeness.modificationTime)) :
    (store.updateActiveRecord pv record).1 = (other.updateActiveRecord pv likeness).1 ∧
      Mirrored same (store.updateActiveRecord pv record).2 (other.updateActiveRecord pv likeness).2 := by
  obtain ⟨store, db, mirrors⟩ := mirrored
  obtain ⟨after, written, mirrors⟩ := mirrors.updateActiveRecord alike named timed
  simp only [ConfigStore.updateActiveRecord, ofStatement, written]
  exact ⟨trivial, .intro _ _ mirrors⟩

theorem addAlias (mirrored : Mirrored same store other) (name pv : String) :
    (store.addAlias name pv).1 = (other.addAlias name pv).1 ∧
      Mirrored same (store.addAlias name pv).2 (other.addAlias name pv).2 := by
  obtain ⟨store, db, mirrors⟩ := mirrored
  obtain ⟨after, written, mirrors⟩ := mirrors.addAlias name pv
  simp only [ConfigStore.addAlias, ofStatement, written]
  exact ⟨trivial, .intro _ _ mirrors⟩

theorem setProperty (mirrored : Mirrored same store other) (key value : String) :
    (store.setProperty key value).1 = (other.setProperty key value).1 ∧
      Mirrored same (store.setProperty key value).2 (other.setProperty key value).2 := by
  obtain ⟨store, db, mirrors⟩ := mirrored
  obtain ⟨after, written, mirrors⟩ := mirrors.setProperty key value
  simp only [ConfigStore.setProperty, ofStatement, written]
  exact ⟨trivial, .intro _ _ mirrors⟩

theorem property (mirrored : Mirrored same store other) (key : String) :
    store.property key = other.property key := by
  obtain ⟨store, db, mirrors⟩ := mirrored
  simp only [ConfigStore.property, DatabaseStore.property, mirrors.properties, Option.bind_some]

theorem resolveAlias (mirrored : Mirrored same store other) (name : String) :
    store.resolveAlias name = other.resolveAlias name := by
  obtain ⟨store, db, mirrors⟩ := mirrored
  simp only [ConfigStore.resolveAlias, DatabaseStore.resolveAlias, mirrors.aliases]

theorem activeCount (mirrored : Mirrored same store other) : store.activeCount = other.activeCount := by
  obtain ⟨store, db, mirrors⟩ := mirrored
  obtain ⟨rows, present, mirrored⟩ := mirrors.rows
  simp only [ConfigStore.activeCount, DatabaseStore.activeCount, DatabaseStore.activeTable, present]
  rw [← mirrored.size]
  rfl

theorem standardFields (mirrored : Mirrored same store other) :
    AlikeOutcome (fun fields listed => NameSet.ofList fields = NameSet.ofList listed)
      store.standardFields other.standardFields := by
  obtain ⟨store, db, mirrors⟩ := mirrored
  simp only [ConfigStore.standardFields, DatabaseStore.standardFieldList, mirrors.standardFields]
  refine .ok _ _ ?_
  apply Std.ExtTreeSet.ext_mem
  simp

end ConfigStore.Mirrored
end ArchiveIntake
