import ArchiveIntake.Proofs.Mirror
import ArchiveIntake.Proofs.Outage

/-! Writes of several statements. An alias goes into the index and into the row of its variable, and a
seed replaces the catalog and sets properties one by one. Whatever table is missing and whatever the
rows hold, all of it is done or nothing is. -/

namespace ArchiveIntake

/-- A statement that is done when it can be, and leaves no trace when it cannot. -/
inductive Statement.AllOrNothing (statement : Statement Unit) (db : DatabaseStore) (possible : Prop)
    (done : DatabaseStore → Prop) : Prop
  | all (after : DatabaseStore) (can : possible) (ran : statement db = (.ok (), after)) (holds : done after)
  | nothing (failure : Failure) (cannot : ¬possible) (ran : statement db = (.error failure, db))

theorem Statement.Atomic.allOrNothing {statement : Statement Unit} {db : DatabaseStore} {possible : Prop}
    {done : DatabaseStore → Prop} (atomic : statement.Atomic)
    (succeeds : possible → ∃ after, statement db = (.ok (), after))
    (holds : ∀ after, statement db = (.ok (), after) → possible ∧ done after) :
    statement.AllOrNothing db possible done := by
  rcases ran : statement db with ⟨failure | ⟨⟩, after⟩
  · refine .nothing failure ?_ (by rw [ran, atomic db failure after ran])
    intro can
    obtain ⟨other, done⟩ := succeeds can
    cases ran.symm.trans done
  · obtain ⟨can, done⟩ := holds after ran
    exact .all after can ran done

theorem Table.getElem?_insertAll_toList (table written : Table α) (key : String) :
    (table.insertAll written.toList)[key]? = written[key]?.or table[key]? := by
  have own := getElem?_insertAll ∅ written.toList key
  rw [insertAll_toList, Std.ExtTreeMap.getElem?_empty, Option.or_none] at own
  rw [getElem?_insertAll, ← own]

namespace DatabaseStore

variable {db after : DatabaseStore} {table rows : Table ActiveRow} {name pv : String}
  {config : AdmissionConfig}

/-- The row of a variable as it is stored, whether its texts can be read or not. -/
def row? (db : DatabaseStore) (pv : String) : Option ActiveRow :=
  db.activeRecords.bind fun table => table[pv]?

theorem row?_of_table (found : db.activeRecords = some table) (pv : String) : db.row? pv = table[pv]? := by
  rw [row?, found, Option.bind_some]

/-- An alias needs both tables and, if its variable has a row, aliases that can be read. -/
structure CanAddAlias (pv : String) (db : DatabaseStore) : Prop where
  activeRecords : db.activeRecords.isSome
  aliases : db.aliases.isSome
  readable : ∀ row, db.row? pv = some row → (readSet? row.aliases).isSome

/-- What the registration of an alias has done. -/
structure AliasAdded (name pv : String) (db after : DatabaseStore) : Prop where
  resolves : after.resolveAlias name = .ok (some pv)
  otherAliases : ∀ other, other ≠ name → after.resolveAlias other = db.resolveAlias other
  record : after.activeRecord pv = (db.activeRecord pv).map (·.map (·.withAlias name))
  otherRecords : ∀ other, other ≠ pv → after.activeRecord other = db.activeRecord other
  /-- In the row of the variable another text stands for its aliases, with the new one among them. -/
  row : ∀ row, db.row? pv = some row → ∃ text aliases, readSet? row.aliases = some aliases ∧
    readSet? text = some (aliases.insert name) ∧ after.row? pv = some { row with aliases := text }
  absent : db.row? pv = none → after.row? pv = none
  otherRows : ∀ other, other ≠ pv → after.row? other = db.row? other
  properties : after.properties = db.properties
  standardFields : after.standardFields = db.standardFields

theorem AliasedRows.row (effect : AliasedRows name pv table rows) {row : ActiveRow}
    (held : table[pv]? = some row) :
    ∃ text aliases, readSet? row.aliases = some aliases ∧ readSet? text = some (aliases.insert name) ∧
      rows[pv]? = some { row with aliases := text } := by
  cases effect with
  | absent absent => cases held.symm.trans absent
  | known _ aliases found read member =>
    cases held.symm.trans found
    exact ⟨row.aliases, aliases, read, by rw [NameSet.insert_eq_self member]; exact read, held⟩
  | added _ aliases found read new =>
    cases held.symm.trans found
    exact ⟨_, aliases, read, readSet?_setText _, by rw [Table.getElem?_insert_iff, if_pos rfl]⟩

theorem AliasedRows.absent_of_absent (effect : AliasedRows name pv table rows)
    (absent : table[pv]? = none) : rows[pv]? = none := by
  cases effect with
  | absent => exact absent
  | known _ _ held | added _ _ held => cases held.symm.trans absent

theorem AliasedRows.otherRow (effect : AliasedRows name pv table rows) {other : String}
    (apart : other ≠ pv) : rows[other]? = table[other]? := by
  cases effect with
  | absent | known => rfl
  | added => rw [Table.getElem?_insert_iff, if_neg apart]

theorem AliasedRows.readable (effect : AliasedRows name pv table rows) {row : ActiveRow}
    (held : table[pv]? = some row) : (readSet? row.aliases).isSome := by
  cases effect with
  | absent absent => cases held.symm.trans absent
  | known _ _ found read | added _ _ found read =>
    cases held.symm.trans found
    rw [read, Option.isSome_some]

theorem aliasAdded_of_ok (ran : addAlias name pv db = (.ok (), after)) :
    CanAddAlias pv db ∧ AliasAdded name pv db after := by
  obtain ⟨table, rows, names, found, index, effect, rfl⟩ := addAlias_eq_ok.mp ran
  let after : DatabaseStore := { db with activeRecords := some rows, aliases := some (names.insert name pv) }
  have present : after.activeRecords = some rows := rfl
  have read := effect.activeRecord found present
  refine ⟨⟨by rw [found]; rfl, by rw [index]; rfl, ?_⟩, ?_⟩
  · intro row held
    rw [row?_of_table found] at held
    exact effect.readable held
  · constructor
    case resolves => simp [resolveAlias]
    case otherAliases =>
      intro other apart
      simp only [resolveAlias, index, Table.getElem?_insert_iff, if_neg apart]
    case record => exact (read pv).trans (if_pos rfl)
    case otherRecords => exact fun other apart => (read other).trans (if_neg apart)
    case row =>
      rw [row?_of_table found, row?_of_table present]
      exact fun row held => effect.row held
    case absent =>
      rw [row?_of_table found, row?_of_table present]
      exact effect.absent_of_absent
    case otherRows =>
      intro other apart
      rw [row?_of_table found, row?_of_table present, effect.otherRow apart]
    case properties | standardFields => rfl

theorem CanAddAlias.exists_addAlias (can : CanAddAlias pv db) (name : String) :
    ∃ after, addAlias name pv db = (.ok (), after) := by
  obtain ⟨table, found⟩ := Option.isSome_iff_exists.mp can.activeRecords
  obtain ⟨names, index⟩ := Option.isSome_iff_exists.mp can.aliases
  have aliased : ∃ rows, AliasedRows name pv table rows := by
    cases held : table[pv]? with
    | none => exact ⟨_, .absent held⟩
    | some row =>
      obtain ⟨aliases, read⟩ :=
        Option.isSome_iff_exists.mp (can.readable row (row?_of_table found pv ▸ held))
      exact exists_aliasedRows name held read
  obtain ⟨rows, effect⟩ := aliased
  exact ⟨_, addAlias_eq_ok.mpr ⟨table, rows, names, found, index, effect, rfl⟩⟩

/-- A seed needs the catalog, and the properties if it has any to set. -/
structure CanSeed (config : AdmissionConfig) (db : DatabaseStore) : Prop where
  standardFields : db.standardFields.isSome
  properties : config.properties = ∅ ∨ db.properties.isSome

/-- What a seed has done. -/
structure Seeded (config : AdmissionConfig) (db after : DatabaseStore) : Prop where
  standardFields : ∃ listed, after.standardFieldList = .ok listed ∧
    ∀ field, field ∈ listed ↔ field ∈ config.standardFields
  properties : ∀ key, after.property key = config.properties[key]?.or (db.property key)
  activeRecords : after.activeRecords = db.activeRecords
  aliases : after.aliases = db.aliases

theorem clearStandardFields_eq_ok :
    clearStandardFields db = (.ok (), after) ↔
      db.standardFields.isSome ∧ after = { db with standardFields := some ∅ } := by
  unfold clearStandardFields
  cases db.standardFields <;> simp [eq_comm]

theorem each_putProperty_eq_ok (entries : List (String × String)) :
    Statement.each (fun entry => putProperty entry.1 entry.2) entries db = (.ok (), after) ↔
      (entries = [] ∨ db.properties.isSome) ∧
        after = { db with properties := db.properties.map (·.insertAll entries) } := by
  cases present : db.properties with
  | some table => simp [each_putProperty present, eq_comm]
  | none =>
    cases entries with
    | cons entry rest => simp [Statement.each, Statement.andThen, putProperty, present]
    | nil =>
      have same : db = { db with properties := none } := by rw [← present]
      simp only [Statement.each, Statement.pure, Option.map_none, ← same]
      simp [eq_comm]

theorem seed_eq_ok :
    seed config db = (.ok (), after) ↔ CanSeed config db ∧
      after = { db with
        standardFields := some (.ofList config.standardFields)
        properties := db.properties.map (·.insertAll config.properties.toList) } := by
  have unset : config.properties.toList = [] ↔ config.properties = ∅ := by
    rw [← List.isEmpty_iff, Std.ExtTreeMap.isEmpty_toList, Std.ExtTreeMap.isEmpty_iff]
  rw [seed, Statement.transaction_eq_ok, Statement.andThen_eq_ok]
  constructor
  · rintro ⟨_, cleared, clear, rest⟩
    obtain ⟨present, rfl⟩ := clearStandardFields_eq_ok.mp clear
    obtain ⟨_, filled, fields, rest⟩ := Statement.andThen_eq_ok.mp rest
    cases (each_putStandardField rfl config.standardFields).symm.trans fields
    obtain ⟨can, rfl⟩ := (each_putProperty_eq_ok config.properties.toList).mp rest
    exact ⟨⟨present, can.imp_left unset.mp⟩, rfl⟩
  · rintro ⟨can, rfl⟩
    refine ⟨(), _, clearStandardFields_eq_ok.mpr ⟨can.standardFields, rfl⟩, ?_⟩
    refine Statement.andThen_eq_ok.mpr ⟨(), _, each_putStandardField rfl config.standardFields, ?_⟩
    exact (each_putProperty_eq_ok config.properties.toList).mpr ⟨can.properties.imp_left unset.mpr, rfl⟩

theorem seeded_of_ok (ran : seed config db = (.ok (), after)) :
    CanSeed config db ∧ Seeded config db after := by
  obtain ⟨can, rfl⟩ := seed_eq_ok.mp ran
  refine ⟨can, ⟨_, rfl, fun field => by simp⟩, fun key => ?_, rfl, rfl⟩
  cases present : db.properties with
  | some table =>
    simp only [property, present, Option.map_some, Option.bind_some, Table.getElem?_insertAll_toList]
  | none =>
    have unset : config.properties = ∅ := can.properties.resolve_right (by simp [present])
    simp [property, present, unset]

end DatabaseStore

open DatabaseStore

/-- Whatever tables a database lacks and whatever its rows hold, an alias is registered and a configuration
is seeded in full when they can be, and else they fail and the database is what it was. -/
theorem transactions_are_all_or_nothing (db : DatabaseStore) :
    (∀ name pv, (addAlias name pv).AllOrNothing db (CanAddAlias pv db) (AliasAdded name pv db)) ∧
      ∀ config, (seed config).AllOrNothing db (CanSeed config db) (Seeded config db) := by
  constructor
  · intro name pv
    exact (Statement.atomic_transaction _).allOrNothing (fun can => can.exists_addAlias name)
      fun _ => aliasAdded_of_ok
  · intro config
    exact (Statement.atomic_transaction _).allOrNothing (fun can => ⟨_, seed_eq_ok.mpr ⟨can, rfl⟩⟩)
      fun _ => seeded_of_ok

end ArchiveIntake
