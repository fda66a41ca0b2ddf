import ArchiveIntake.Proofs.Lookup
import ArchiveIntake.Proofs.Store

/-! When nothing is out of order, nothing fails, as long as the engine runs and the tables
of a database are there with rows that can be read. This is so in a fresh world and stays
so whatever is asked. -/

namespace ArchiveIntake

namespace DatabaseStore

def IsReadable (row : ActiveRow) : Prop :=
  (∃ fields, readSet? row.archivedFields = some fields) ∧ ∃ aliases, readSet? row.aliases = some aliases

def AllReadable (table : Table ActiveRow) : Prop :=
  ∀ (pv : String) (row : ActiveRow), table[pv]? = some row → IsReadable row

structure Sound (db : DatabaseStore) : Prop where
  records : ∃ table, db.activeRecords = some table ∧ AllReadable table
  aliases : ∃ table, db.aliases = some table
  properties : ∃ table, db.properties = some table
  standardFields : ∃ fields, db.standardFields = some fields

theorem isReadable_row (record : ActiveRecord) : IsReadable (row record) :=
  ⟨⟨_, readSet?_setText _⟩, _, readSet?_setText _⟩

theorem Sound.activeRecord {db : DatabaseStore} (sound : db.Sound) (pv : String) :
    ∃ found, db.activeRecord pv = .ok found := by
  obtain ⟨table, present, readable⟩ := sound.records
  rw [activeRecord_of_table present]
  cases held : table[pv]? with
  | none => exact ⟨none, rfl⟩
  | some row =>
    obtain ⟨⟨fields, readFields⟩, aliases, readAliases⟩ := readable pv row held
    simp [readRow, readFields, readAliases, Except.map]

end DatabaseStore

namespace Statement
open DatabaseStore
variable {first : Statement α} {post : α → Prop}

/-- On a sound database the statement succeeds, leaves a sound database and gives such a value. -/
def Succeeds (statement : Statement α) (post : α → Prop) : Prop :=
  ∀ db : DatabaseStore, db.Sound →
    ∃ value after, statement db = (.ok value, after) ∧ post value ∧ after.Sound

theorem Succeeds.andThen {second : α → Statement β} {final : β → Prop} (begins : first.Succeeds post)
    (goes_on : ∀ value, post value → (second value).Succeeds final) :
    (first.andThen second).Succeeds final := by
  intro db sound
  obtain ⟨read, middle, begun, holds, sound⟩ := begins db sound
  obtain ⟨value, after, ended, holds, sound⟩ := goes_on read holds middle sound
  exact ⟨value, after, andThen_eq_ok.mpr ⟨read, middle, begun, ended⟩, holds, sound⟩

theorem Succeeds.transaction (succeeds : first.Succeeds post) : first.transaction.Succeeds post := by
  intro db sound
  obtain ⟨value, after, ran, holds, sound⟩ := succeeds db sound
  exact ⟨value, after, transaction_eq_ok.mpr ran, holds, sound⟩

theorem Succeeds.pure {value : α} (holds : post value) : (Statement.pure value).Succeeds post :=
  fun db sound => ⟨value, db, rfl, holds, sound⟩

theorem Succeeds.each {f : α → Statement Unit} (all : ∀ a, (f a).Succeeds fun _ => True)
    (items : List α) : (Statement.each f items).Succeeds fun _ => True := by
  induction items with
  | nil => exact .pure trivial
  | cons a rest ih => exact .andThen (all a) fun _ _ => ih

end Statement

namespace DatabaseStore
open Statement

theorem activeTable_succeeds : (query activeTable).Succeeds AllReadable := by
  intro db sound
  obtain ⟨table, present, readable⟩ := sound.records
  exact ⟨table, db, query_activeTable_eq_ok.mpr ⟨present, rfl⟩, readable, sound⟩

theorem putRow_succeeds {pv : String} {row : ActiveRow} (readable : IsReadable row) :
    (putRow pv row).Succeeds fun _ => True := by
  refine .andThen activeTable_succeeds ?_
  intro table others db sound
  refine ⟨(), _, rfl, trivial, ⟨_, rfl, ?_⟩, sound.aliases, sound.properties, sound.standardFields⟩
  intro other held found
  rw [Table.getElem?_insert_iff] at found
  split at found
  · cases found
    exact readable
  · exact others other held found

theorem putAlias_succeeds (name pv : String) : (putAlias name pv).Succeeds fun _ => True := by
  intro db sound
  obtain ⟨names, index⟩ := sound.aliases
  exact ⟨(), _, putAlias_eq_ok.mpr ⟨names, index, rfl⟩, trivial, sound.records, ⟨_, rfl⟩,
    sound.properties, sound.standardFields⟩

theorem addAlias_succeeds (name pv : String) : (addAlias name pv).Succeeds fun _ => True := by
  refine .transaction (.andThen (putAlias_succeeds name pv) fun _ _ =>
    .andThen activeTable_succeeds ?_)
  intro table readable
  cases held : table[pv]? with
  | none => exact .pure trivial
  | some row =>
    obtain ⟨fields, aliases, read⟩ := readable pv row held
    simp only [read]
    split
    · exact .pure trivial
    · exact putRow_succeeds ⟨fields, _, readSet?_setText _⟩

theorem putProperty_succeeds (key value : String) : (putProperty key value).Succeeds fun _ => True := by
  intro db sound
  obtain ⟨table, present⟩ := sound.properties
  refine ⟨(), { db with properties := some (table.insert key value) }, ?_, trivial, sound.records,
    sound.aliases, ⟨_, rfl⟩, sound.standardFields⟩
  simp [putProperty, present]

theorem clearStandardFields_succeeds : clearStandardFields.Succeeds fun _ => True := by
  intro db sound
  obtain ⟨fields, present⟩ := sound.standardFields
  refine ⟨(), { db with standardFields := some ∅ }, ?_, trivial, sound.records, sound.aliases,
    sound.properties, ⟨_, rfl⟩⟩
  simp [clearStandardFields, present]

theorem putStandardField_succeeds (field : String) :
    (putStandardField field).Succeeds fun _ => True := by
  intro db sound
  obtain ⟨fields, present⟩ := sound.standardFields
  refine ⟨(), { db with standardFields := some (fields.insert field) }, ?_, trivial, sound.records,
    sound.aliases, sound.properties, ⟨_, rfl⟩⟩
  simp [putStandardField, present]

theorem seed_succeeds (config : AdmissionConfig) : (seed config).Succeeds fun _ => True := by
  refine .transaction (.andThen clearStandardFields_succeeds fun _ _ =>
    .andThen (.each putStandardField_succeeds _) fun _ _ => .each ?_ _)
  intro (key, value)
  exact putProperty_succeeds key value

theorem sound_empty : empty.Sound := by
  refine ⟨⟨∅, rfl, ?_⟩, ⟨∅, rfl⟩, ⟨∅, rfl⟩, ⟨∅, rfl⟩⟩
  intro pv row found
  simp at found

end DatabaseStore

namespace ConfigStore

def Sound : ConfigStore → Prop
  | .memory _ => True
  | .database db => db.Sound

variable {store : ConfigStore}

theorem Sound.ofStatement {statement : Statement α} {post : α → Prop} {db : DatabaseStore}
    (succeeds : statement.Succeeds post) (sound : db.Sound) :
    (∃ value, (ofStatement statement db).1 = .ok value) ∧ (ofStatement statement db).2.Sound := by
  obtain ⟨value, after, ran, -, sound⟩ := succeeds db sound
  unfold ConfigStore.ofStatement
  rw [ran]
  exact ⟨⟨value, rfl⟩, sound⟩

theorem Sound.activeRecord (sound : store.Sound) (pv : String) :
    ∃ found, store.activeRecord pv = .ok found := by
  cases store with
  | memory store => exact ⟨_, rfl⟩
  | database db => exact DatabaseStore.Sound.activeRecord sound pv

theorem Sound.updateActiveRecord (sound : store.Sound) (pv : String) (record : ActiveRecord) :
    (∃ value, (store.updateActiveRecord pv record).1 = .ok value) ∧
      (store.updateActiveRecord pv record).2.Sound := by
  cases store with
  | memory store => exact ⟨⟨(), rfl⟩, trivial⟩
  | database db =>
    exact Sound.ofStatement (DatabaseStore.putRow_succeeds (DatabaseStore.isReadable_row record)) sound

theorem Sound.addAlias (sound : store.Sound) (name pv : String) :
    (∃ value, (store.addAlias name pv).1 = .ok value) ∧ (store.addAlias name pv).2.Sound := by
  cases store with
  | memory store => exact ⟨⟨(), rfl⟩, trivial⟩
  | database db => exact Sound.ofStatement (DatabaseStore.addAlias_succeeds name pv) sound

theorem Sound.standardFields (sound : store.Sound) : ∃ fields, store.standardFields = .ok fields := by
  cases store with
  | memory store => exact ⟨_, rfl⟩
  | database db =>
    obtain ⟨fields, present⟩ := DatabaseStore.Sound.standardFields sound
    exact ⟨fields.toList, by simp [ConfigStore.standardFields, DatabaseStore.standardFieldList, present]⟩

theorem Sound.activeCount (sound : store.Sound) : ∃ count, store.activeCount = .ok count := by
  cases store with
  | memory store => exact ⟨_, rfl⟩
  | database db =>
    obtain ⟨table, present, -⟩ := DatabaseStore.Sound.records sound
    refine ⟨table.size, ?_⟩
    simp only [ConfigStore.activeCount]
    unfold DatabaseStore.activeCount DatabaseStore.activeTable
    rw [present]
    rfl

theorem sound_memoryOf (config : AdmissionConfig) : (memoryOf config).Sound := trivial

theorem sound_databaseOf (config : AdmissionConfig) : (databaseOf config).Sound := by
  obtain ⟨_, after, ran, -, sound⟩ := DatabaseStore.seed_succeeds config _ DatabaseStore.sound_empty
  unfold databaseOf
  rw [ran]
  exact sound

end ConfigStore

namespace World

structure Sound (world : World) : Prop where
  store : world.store.Sound
  running : world.engine.running = true

theorem Sound.answer {world : World} (sound : world.Sound) (clock : Nat → Time) (request : Request) :
    request.failure? (world.answer clock request).1 = none ∧ (world.answer clock request).2.Sound := by
  cases request with
  | activeRecord pv => exact ⟨failureIn_eq_none.mpr (sound.store.activeRecord pv), sound⟩
  | updateActiveRecord pv record =>
    obtain ⟨fine, store⟩ := sound.store.updateActiveRecord pv record
    exact ⟨failureIn_eq_none.mpr fine, store, sound.running⟩
  | addAlias name pv =>
    obtain ⟨fine, store⟩ := sound.store.addAlias name pv
    exact ⟨failureIn_eq_none.mpr fine, store, sound.running⟩
  | standardFields => exact ⟨failureIn_eq_none.mpr sound.store.standardFields, sound⟩
  | activeCount => exact ⟨failureIn_eq_none.mpr sound.store.activeCount, sound⟩
  | property key => exact ⟨rfl, sound⟩
  | hasPending key => exact ⟨rfl, sound⟩
  | pendingRecord key => exact ⟨rfl, sound⟩
  | pendingNames => exact ⟨rfl, sound⟩
  | queueLength => exact ⟨rfl, sound⟩
  | takePending key => exact ⟨rfl, sound.store, sound.running⟩
  | readClock => exact ⟨rfl, sound.store, sound.running⟩
  | updatePending key edits =>
    refine ⟨rfl, ?_⟩
    change (world.updatePending key edits).2.Sound
    unfold World.updatePending
    cases world.queue[key]? with
    | none => exact sound
    | some record => exact ⟨sound.store, sound.running⟩
  | insertIfAbsent key record =>
    refine ⟨rfl, ?_⟩
    change (world.insertIfAbsent key record).2.Sound
    unfold World.insertIfAbsent
    split
    · exact sound
    · exact ⟨sound.store, sound.running⟩
  | startWorkflow pv =>
    change failureIn (world.startWorkflow pv).1 = none ∧ (world.startWorkflow pv).2.Sound
    unfold World.startWorkflow Engine.start
    rw [if_pos sound.running]
    exact ⟨rfl, sound.store, sound.running⟩

theorem sound_fresh {store : ConfigStore} {engine : Engine} (sound : store.Sound)
    (running : engine.running = true) : (fresh store engine).Sound :=
  ⟨sound, running⟩

end World

variable {surroundings : Surroundings} {world : World}

/-- Whatever is asked of a sound world when nothing is out of order, nothing fails. -/
theorem Program.faults_eq_nil (calm : surroundings.FaultFree) (sound : world.Sound)
    (program : Program α) :
    program.faults surroundings world = [] ∧ (program.run surroundings world).2.Sound := by
  induction program generalizing world with
  | done value => exact ⟨rfl, sound⟩
  | ask request next ih =>
    obtain ⟨fine, still⟩ := sound.answer surroundings.clock request
    rw [faults, run_ask, calm.respond]
    obtain ⟨steady, last⟩ := ih (world.answer surroundings.clock request).1 still
    refine ⟨?_, last⟩
    simp [World.fault?, calm request, fine, steady]

end ArchiveIntake
