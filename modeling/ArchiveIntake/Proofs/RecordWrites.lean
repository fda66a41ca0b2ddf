import ArchiveIntake.Proofs.Interchange

/-! What a database keeps of an active record. The sets of the record go through JSON texts and its
time through a column of signed 64 bit numbers; both come back as they were written, the time as long
as it fits. -/

namespace ArchiveIntake.DatabaseStore

variable {db : DatabaseStore} {table : Table ActiveRow} {pv : String} {record : ActiveRecord}

def nearestTime (time : Time) : Time := max 0 (min time 0x7FFFFFFFFFFFFFFF)

theorem storedTime_eq (time : Time) : (storedTime time : Time) = nearestTime time := by
  have limit : (maxTime : Int) = 0x7FFFFFFFFFFFFFFF := by decide
  change ((storedTime time : Nat) : Int) = max (0 : Int) (min (time : Int) 0x7FFFFFFFFFFFFFFF)
  unfold storedTime
  omega

theorem activeCount_of_table (found : db.activeRecords = some table) : db.activeCount = .ok table.size := by
  unfold activeCount activeTable
  rw [found]
  rfl

theorem activeRecord_eq_none_iff (found : db.activeRecords = some table) :
    db.activeRecord pv = .ok none ↔ pv ∉ table := by
  rw [activeRecord_of_table found, ← Table.getElem?_eq_none_iff]
  cases table[pv]? with
  | none => simp
  | some row => cases h : readRow pv row <;> simp [h, Except.map]

/-- A record as it is kept under a name. -/
def asKept (pv : String) (record : ActiveRecord) : ActiveRecord :=
  { record with pvName := pv, modificationTime := nearestTime record.modificationTime }

theorem row_asKept (pv : String) (record : ActiveRecord) : row (asKept pv record) = row record := by
  simp only [row, asKept, ← storedTime_eq, storedTime_storedTime]

theorem asKept_of_activeRecord (found : db.activeRecord pv = .ok (some record))
    (storable : Storable record.modificationTime) : asKept pv record = record := by
  simp only [asKept, ← storedTime_eq, storedTime_of_storable storable, ← activeRecord_pvName found]

/-- What the write of a record has done to a database with so many active records. -/
structure RecordWritten (pv : String) (record : ActiveRecord) (db : DatabaseStore) (count : Nat)
    (after : DatabaseStore) : Prop where
  read : after.activeRecord pv = .ok (some (asKept pv record))
  others : ∀ other, other ≠ pv → after.activeRecord other = db.activeRecord other
  aliases : after.aliases = db.aliases
  properties : after.properties = db.properties
  standardFields : after.standardFields = db.standardFields
  added : db.activeRecord pv = .ok none → after.activeCount = .ok (count + 1)
  replaced : db.activeRecord pv ≠ .ok none → after.activeCount = .ok count
  /-- What is read now can be written once more without a trace. -/
  writtenBack : ∀ read, after.activeRecord pv = .ok (some read) →
    updateActiveRecord pv read after = (.ok (), after)
  /-- If this was what had been read before, nothing else is read now. The texts of the row may have
  changed, because a set can be spelled in many ways. -/
  unchanged : db.activeRecord pv = .ok (some record) → Storable record.modificationTime →
    ∀ other, after.activeRecord other = db.activeRecord other

theorem recordWritten_insert (found : db.activeRecords = some table) (pv : String) (record : ActiveRecord) :
    RecordWritten pv record db table.size
      { db with activeRecords := some (table.insert pv (row record)) } := by
  let after : DatabaseStore := { db with activeRecords := some (table.insert pv (row record)) }
  have present : after.activeRecords = some (table.insert pv (row record)) := rfl
  have held : (table.insert pv (row record))[pv]? = some (row record) :=
    Table.getElem?_insert_iff.trans (if_pos rfl)
  have read : after.activeRecord pv = .ok (some (asKept pv record)) := by
    simp only [activeRecord_of_table present, held, readRow_row, storedTime_eq]
    rfl
  have others (other : String) (apart : other ≠ pv) : after.activeRecord other = db.activeRecord other := by
    rw [activeRecord_of_table present, activeRecord_of_table found, Table.getElem?_insert_iff, if_neg apart]
  have counted : after.activeCount =
      .ok (if pv ∈ table then table.size else table.size + 1) := by
    rw [activeCount_of_table present, Std.ExtTreeMap.size_insert]
    rfl
  constructor
  case read => exact read
  case others => exact others
  case aliases | properties | standardFields => rfl
  case added =>
    intro absent
    exact counted.trans (by rw [if_neg ((activeRecord_eq_none_iff found).mp absent)])
  case replaced =>
    intro known
    have inside : pv ∈ table := Decidable.of_not_not fun absent =>
      known ((activeRecord_eq_none_iff found).mpr absent)
    exact counted.trans (by rw [if_pos inside])
  case writtenBack =>
    intro kept again
    cases read.symm.trans again
    refine putRow_eq_ok.mpr ⟨_, present, ?_⟩
    rw [row_asKept, Table.insert_eq_self held]
  case unchanged =>
    intro known storable other
    by_cases here : other = pv
    · subst here
      rw [known]
      exact read.trans (by rw [asKept_of_activeRecord known storable])
    · exact others other here

/-- Whatever strings are in its sets and whatever its time is, a record that is written reads back as it
was, under the name it was written by and at the nearest time that can be kept. All other records and
tables stay as they are, there is one more record exactly if there was none of that name, and what has
been read can be written back without a trace. -/
theorem written_record_is_read_back (db : DatabaseStore) (pv : String) (record : ActiveRecord)
    (inPlace : db.activeRecords.isSome) :
    ∃ after count, updateActiveRecord pv record db = (.ok (), after) ∧ db.activeCount = .ok count ∧
      RecordWritten pv record db count after := by
  obtain ⟨table, found⟩ := Option.isSome_iff_exists.mp inPlace
  refine ⟨_, table.size, putRow_eq_ok.mpr ⟨table, found, rfl⟩, activeCount_of_table found, ?_⟩
  exact recordWritten_insert found pv record

/-- Names with a quote, a backslash, a control character, an astral character and nothing at all, just
before the first time that can be kept and just after the last. -/
theorem written_record_is_read_back_at_limits :
    let record (pvName : String) (time : Time) : ActiveRecord :=
      ⟨pvName, .ofList ["\"\\", "\x01\n", ""], .ofList ["😀", "é/"], time⟩
    let keeps (time nearest : Time) : Prop :=
      ∃ after, updateActiveRecord "A" (record "B" time) empty = (.ok (), after) ∧
        after.activeRecord "A" = .ok (some (record "A" nearest)) ∧ after.activeCount = .ok 1
    keeps (-1) 0 ∧ keeps 0x8000000000000000 0x7FFFFFFFFFFFFFFF := by
  intro record keeps
  have kept (time nearest : Time) (same : nearestTime time = nearest) : keeps time nearest := by
    obtain ⟨after, count, written, counted, kept⟩ :=
      written_record_is_read_back empty "A" (record "B" time) rfl
    cases (rfl : empty.activeCount = .ok 0).symm.trans counted
    refine ⟨after, written, ?_, kept.added rfl⟩
    rw [kept.read, asKept, same]
  exact ⟨kept _ _ (by decide), kept _ _ (by decide)⟩

end ArchiveIntake.DatabaseStore
