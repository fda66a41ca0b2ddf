import ArchiveIntake.Proofs.Outage

/-! A world as a family of cells, the active record of each name, its entry in the index of aliases
and the request queued under it, beside settings that no request changes. A request is about few cells: its answer,
and what these cells hold afterwards, depends on them alone, and no other cell changes. -/

namespace ArchiveIntake

/-- A place in a world that belongs to one name. -/
inductive Cell where
  | record (pv : String)
  | entry (aliasName : String)
  | request (key : String)
deriving DecidableEq

inductive Cell.Content where
  | record (found : Option ActiveRecord)
  | row (found : Option ActiveRow)
  | entry (found : Option String)
  | request (found : Option PendingRecord)

namespace ConfigStore

def recordContent (pv : String) : ConfigStore → Cell.Content
  | .memory store => .record store.records[pv]?
  | .database db => .row (db.activeRecords.bind fun table => table[pv]?)

def aliasContent (name : String) (store : ConfigStore) : Option String :=
  store.aliasIndex.bind fun index => index[name]?

/-- A store without its records and aliases: its kind, its settings, and which tables there are. -/
def bare : ConfigStore → ConfigStore
  | .memory store => .memory { store with records := ∅, aliases := ∅ }
  | .database db =>
    .database { db with
      activeRecords := db.activeRecords.map fun _ => ∅
      aliases := db.aliases.map fun _ => ∅ }

private theorem both_present {first second : Option (Table α)}
    (bare : (first.map fun _ => (∅ : Table α)) = second.map fun _ => ∅) :
    first = none ∧ second = none ∨ ∃ table twin, first = some table ∧ second = some twin := by
  cases first <;> cases second <;> simp at bare ⊢

private theorem table_eq {first second : Option (Table α)}
    (bare : (first.map fun _ => (∅ : Table α)) = second.map fun _ => ∅)
    (same : ∀ key : String,
      (first.bind fun table => table[key]?) = second.bind fun table => table[key]?) :
    first = second := by
  rcases both_present bare with ⟨rfl, rfl⟩ | ⟨table, twin, rfl, rfl⟩
  · rfl
  · exact congrArg some (Std.ExtTreeMap.ext_getElem? same)

inductive Alike : ConfigStore → ConfigStore → Prop
  | memory (store twin : MemoryStore) : Alike (.memory store) (.memory twin)
  | database (db twin : DatabaseStore)
      (rows : db.activeRecords = none ∧ twin.activeRecords = none ∨
        ∃ table other, db.activeRecords = some table ∧ twin.activeRecords = some other)
      (aliases : db.aliases = none ∧ twin.aliases = none ∨
        ∃ index other, db.aliases = some index ∧ twin.aliases = some other) :
      Alike (.database db) (.database twin)

theorem alike_of_bare {store twin : ConfigStore} (bare : store.bare = twin.bare) : Alike store twin := by
  cases store with
  | memory store =>
    cases twin with
    | memory twin => exact .memory store twin
    | database twin => cases bare
  | database db =>
    cases twin with
    | memory twin => cases bare
    | database twin =>
      have same := ConfigStore.database.inj bare
      exact .database db twin (both_present (congrArg DatabaseStore.activeRecords same))
        (both_present (congrArg DatabaseStore.aliases same))

theorem eq_of_content {store twin : ConfigStore} (bare : store.bare = twin.bare)
    (records : ∀ pv, store.recordContent pv = twin.recordContent pv)
    (aliases : ∀ name, store.aliasContent name = twin.aliasContent name) : store = twin := by
  cases alike_of_bare bare with
  | memory store twin =>
    obtain ⟨table, index, properties, fields⟩ := store
    obtain ⟨_, _, _, _⟩ := twin
    cases bare
    cases Std.ExtTreeMap.ext_getElem? fun pv => Cell.Content.record.inj (records pv)
    cases Std.ExtTreeMap.ext_getElem? aliases
    rfl
  | database db twin =>
    have same := ConfigStore.database.inj bare
    have rows := table_eq (congrArg DatabaseStore.activeRecords same)
      fun pv => Cell.Content.row.inj (records pv)
    have names := table_eq (congrArg DatabaseStore.aliases same) aliases
    obtain ⟨_, _, _, _⟩ := db
    obtain ⟨_, _, _, _⟩ := twin
    cases rows
    cases names
    cases same
    rfl

theorem resolveAlias_same {store twin : ConfigStore} {name : String} (bare : store.bare = twin.bare)
    (known : store.aliasContent name = twin.aliasContent name) :
    store.resolveAlias name = twin.resolveAlias name := by
  rw [resolveAlias_eq, resolveAlias_eq]
  cases alike_of_bare bare with
  | memory store twin => exact congrArg Except.ok known
  | database db twin rows aliases =>
    rcases aliases with ⟨first, second⟩ | ⟨names, twinNames, first, second⟩
    · simp only [aliasIndex, first, second]
    · simp only [aliasContent, aliasIndex, first, second, Option.bind_some] at known ⊢
      rw [known]

end ConfigStore

namespace World

def content (world : World) : Cell → Cell.Content
  | .record pv => world.store.recordContent pv
  | .entry name => .entry (world.store.aliasContent name)
  | .request key => .request world.queue[key]?

structure AgreeOn (cells : Cell → Prop) (world other : World) : Prop where
  bare : world.store.bare = other.store.bare
  running : world.engine.running = other.engine.running
  content : ∀ cell, cells cell → world.content cell = other.content cell

namespace AgreeOn
variable {cells : Cell → Prop} {world middle other : World}

theorem refl (cells : Cell → Prop) (world : World) : AgreeOn cells world world :=
  ⟨rfl, rfl, fun _ _ => rfl⟩

theorem symm (agree : AgreeOn cells world other) : AgreeOn cells other world :=
  ⟨agree.bare.symm, agree.running.symm, fun cell inside => (agree.content cell inside).symm⟩

theorem trans (first : AgreeOn cells world middle) (second : AgreeOn cells middle other) :
    AgreeOn cells world other :=
  ⟨first.bare.trans second.bare, first.running.trans second.running,
    fun cell inside => (first.content cell inside).trans (second.content cell inside)⟩

theorem mono {fewer : Cell → Prop} (agree : AgreeOn cells world other)
    (inside : ∀ cell, fewer cell → cells cell) : AgreeOn fewer world other :=
  ⟨agree.bare, agree.running, fun cell held => agree.content cell (inside cell held)⟩

theorem request {key : String} (agree : AgreeOn cells world other) (inside : cells (.request key)) :
    world.queue[key]? = other.queue[key]? :=
  Cell.Content.request.inj (agree.content (.request key) inside)

theorem resolveAlias {name : String} (agree : AgreeOn cells world other) (inside : cells (.entry name)) :
    world.store.resolveAlias name = other.store.resolveAlias name :=
  ConfigStore.resolveAlias_same agree.bare (Cell.Content.entry.inj (agree.content (.entry name) inside))

theorem store_eq (agree : AgreeOn (fun _ => True) world other) :
    world.store = other.store ∧ world.queue = other.queue := by
  obtain ⟨store, queue, _, _⟩ := world
  obtain ⟨twin, _, _, _⟩ := other
  have bare : store.bare = twin.bare := agree.bare
  have records (pv : String) : store.recordContent pv = twin.recordContent pv :=
    agree.content (.record pv) trivial
  have aliases (name : String) : store.aliasContent name = twin.aliasContent name :=
    Cell.Content.entry.inj (agree.content (.entry name) trivial)
  refine ⟨?_, Std.ExtTreeMap.ext_getElem? fun key => ?_⟩
  · exact ConfigStore.eq_of_content bare records aliases
  · exact Cell.Content.request.inj (agree.content (.request key) trivial)

end AgreeOn

end World

namespace Request

/-- Whether a request is about nothing but these cells, the settings and the engine. -/
def Within (cells : Cell → Prop) : Request → Prop
  | .activeRecord pv | .updateActiveRecord pv _ => cells (.record pv)
  | .addAlias name pv => cells (.entry name) ∧ cells (.record pv)
  | .hasPending key | .pendingRecord key | .updatePending key _ | .insertIfAbsent key _
  | .takePending key => cells (.request key)
  | .activeCount | .pendingNames | .queueLength => False
  | .property _ | .standardFields | .startWorkflow _ | .readClock => True

theorem Within.mono {cells more : Cell → Prop} {request : Request} (within : request.Within cells)
    (inside : ∀ cell, cells cell → more cell) : request.Within more := by
  cases request with
  | addAlias name pv => exact ⟨inside _ within.1, inside _ within.2⟩
  | activeRecord _ | updateActiveRecord _ _ | hasPending _ | pendingRecord _ | updatePending _ _
  | insertIfAbsent _ _ | takePending _ => exact inside _ within
  | activeCount | pendingNames | queueLength => exact within
  | property _ | standardFields | startWorkflow _ | readClock => trivial

end Request

/-! A write depends on the settings and on the cells it is about, and changes no other cell. -/

namespace DatabaseStore

def aliasedRow (name pv : String) : Option ActiveRow → Except Failure (Option ActiveRow)
  | none => .ok none
  | some row =>
    match readSet? row.aliases with
    | none => .error (.corruptAliases pv)
    | some aliases =>
      .ok (some (if aliases.contains name then row
        else { row with aliases := setText (aliases.insert name) }))

variable {db : DatabaseStore} {name pv : String}

theorem updateActiveRecord_run (record : ActiveRecord) :
    updateActiveRecord pv record db =
      match db.activeRecords with
      | none => (.error (.missingTable .activeRecords), db)
      | some table => (.ok (), { db with activeRecords := some (table.insert pv (row record)) }) := by
  unfold updateActiveRecord putRow Statement.andThen Statement.query activeTable
  cases db.activeRecords <;> rfl

theorem addAlias_run :
    addAlias name pv db =
      match db.aliases, db.activeRecords with
      | none, _ => (.error (.missingTable .aliases), db)
      | some _, none => (.error (.missingTable .activeRecords), db)
      | some names, some table =>
        match aliasedRow name pv table[pv]? with
        | .error failure => (.error failure, db)
        | .ok row =>
          (.ok (), { db with
            activeRecords := some (row.elim table fun row => table.insert pv row)
            aliases := some (names.insert name pv) }) := by
  obtain ⟨records, aliases, properties, fields⟩ := db
  unfold addAlias Statement.transaction Statement.andThen Statement.query activeTable putAlias
  cases aliases with
  | none => rfl
  | some names =>
    cases records with
    | none => rfl
    | some table =>
      cases held : table[pv]? with
      | none => simp [held, aliasedRow, Statement.pure]
      | some row =>
        cases read : readSet? row.aliases with
        | none => simp [held, read, aliasedRow, Statement.fail]
        | some known =>
          by_cases member : known.contains name = true
          · simp [held, read, aliasedRow, member, Statement.pure, Table.insert_eq_self held]
          · simp [held, read, aliasedRow, member, putRow, Statement.andThen, Statement.query, activeTable,
              putActiveTable]

end DatabaseStore

namespace ConfigStore
variable {store twin : ConfigStore} {name pv : String}

theorem property_bare (store : ConfigStore) (key : String) :
    store.bare.property key = store.property key := by
  cases store <;> rfl

theorem standardFields_bare (store : ConfigStore) :
    store.bare.standardFields = store.standardFields := by
  cases store <;> rfl

theorem SameSettings.of_bare (same : twin.bare = store.bare) : SameSettings store twin := by
  constructor
  · intro key
    rw [← property_bare, same, property_bare]
  · rw [← standardFields_bare, same, standardFields_bare]

theorem activeRecord_same (bare : store.bare = twin.bare)
    (held : store.recordContent pv = twin.recordContent pv) :
    store.activeRecord pv = twin.activeRecord pv := by
  cases alike_of_bare bare with
  | memory store twin => exact congrArg Except.ok (Cell.Content.record.inj held)
  | database db twin rows =>
    have held := Cell.Content.row.inj held
    rcases rows with ⟨first, second⟩ | ⟨table, twinTable, first, second⟩
    · simp [activeRecord, DatabaseStore.activeRecord, DatabaseStore.activeTable, first, second]
    · simp only [first, second, Option.bind_some] at held
      simp only [activeRecord, DatabaseStore.activeRecord_of_table first,
        DatabaseStore.activeRecord_of_table second, held]

theorem updateActiveRecord_elsewhere (pv : String) (record : ActiveRecord) (store : ConfigStore) :
    (store.updateActiveRecord pv record).2.bare = store.bare ∧
      (store.updateActiveRecord pv record).2.aliasIndex = store.aliasIndex ∧
      ∀ other, other ≠ pv →
        (store.updateActiveRecord pv record).2.recordContent other = store.recordContent other := by
  cases store with
  | memory store =>
    refine ⟨rfl, rfl, fun other apart => ?_⟩
    simp [updateActiveRecord, MemoryStore.updateActiveRecord, recordContent, Table.getElem?_insert_iff,
      apart]
  | database db =>
    simp only [updateActiveRecord, ofStatement, DatabaseStore.updateActiveRecord_run]
    cases present : db.activeRecords with
    | none => exact ⟨rfl, rfl, fun _ _ => rfl⟩
    | some table =>
      refine ⟨by simp [bare, present], rfl, fun other apart => ?_⟩
      simp [recordContent, present, Table.getElem?_insert_iff, apart]

theorem updateActiveRecord_same (pv : String) (record : ActiveRecord) (bare : store.bare = twin.bare) :
    (store.updateActiveRecord pv record).1 = (twin.updateActiveRecord pv record).1 ∧
      (store.updateActiveRecord pv record).2.recordContent pv =
        (twin.updateActiveRecord pv record).2.recordContent pv := by
  cases alike_of_bare bare with
  | memory store twin => simp [updateActiveRecord, MemoryStore.updateActiveRecord, recordContent]
  | database db twin rows =>
    simp only [updateActiveRecord, ofStatement, DatabaseStore.updateActiveRecord_run]
    rcases rows with ⟨first, second⟩ | ⟨table, twinTable, first, second⟩ <;>
      simp [recordContent, first, second]

theorem addAlias_elsewhere (name pv : String) (store : ConfigStore) :
    (store.addAlias name pv).2.bare = store.bare ∧
      (∀ other, other ≠ pv →
        (store.addAlias name pv).2.recordContent other = store.recordContent other) ∧
      ∀ known, known ≠ name →
        (store.addAlias name pv).2.aliasContent known = store.aliasContent known := by
  cases store with
  | memory store =>
    refine ⟨rfl, fun other apart => ?_, fun known apart => ?_⟩
    · cases held : store.records[pv]? <;>
        simp [addAlias, MemoryStore.addAlias, held, recordContent, Table.getElem?_insert_iff, apart]
    · simp [addAlias, MemoryStore.addAlias, aliasContent, aliasIndex, Table.getElem?_insert_iff, apart]
  | database db =>
    simp only [addAlias, ofStatement, DatabaseStore.addAlias_run]
    split
    next => exact ⟨rfl, fun _ _ => rfl, fun _ _ => rfl⟩
    next => exact ⟨rfl, fun _ _ => rfl, fun _ _ => rfl⟩
    next names table index present =>
      split
      next => exact ⟨rfl, fun _ _ => rfl, fun _ _ => rfl⟩
      next row _ =>
        refine ⟨by simp [bare, present, index], fun other apart => ?_, fun known apart => ?_⟩
        · cases row <;> simp [recordContent, present, Table.getElem?_insert_iff, apart]
        · simp [aliasContent, aliasIndex, index, Table.getElem?_insert_iff, apart]

theorem addAlias_same (bare : store.bare = twin.bare)
    (record : store.recordContent pv = twin.recordContent pv)
    (known : store.aliasContent name = twin.aliasContent name) :
    (store.addAlias name pv).1 = (twin.addAlias name pv).1 ∧
      (store.addAlias name pv).2.recordContent pv = (twin.addAlias name pv).2.recordContent pv ∧
      (store.addAlias name pv).2.aliasContent name = (twin.addAlias name pv).2.aliasContent name := by
  cases alike_of_bare bare with
  | memory store twin =>
    have held : store.records[pv]? = twin.records[pv]? := Cell.Content.record.inj record
    cases found : twin.records[pv]? <;>
      simp [addAlias, MemoryStore.addAlias, recordContent, aliasContent, aliasIndex, held, found]
  | database db twin rows aliases =>
    have held := Cell.Content.row.inj record
    simp only [addAlias, ofStatement, DatabaseStore.addAlias_run]
    rcases aliases with ⟨first, second⟩ | ⟨names, twinNames, first, second⟩
    · simp [first, second, record, known]
    rcases rows with ⟨present, twinPresent⟩ | ⟨table, twinTable, present, twinPresent⟩
    · simp [first, second, present, twinPresent, record, known]
    have held : table[pv]? = twinTable[pv]? := by simpa [present, twinPresent] using held
    simp only [first, second, present, twinPresent, held]
    cases aliased : DatabaseStore.aliasedRow name pv twinTable[pv]? with
    | error failure => exact ⟨rfl, record, known⟩
    | ok row => cases row <;> simp [recordContent, aliasContent, aliasIndex, held]

end ConfigStore

namespace World
variable {cells : Cell → Prop} {world twin after : World}

theorem AgreeOn.of_store {store : ConfigStore} (bare : store.bare = world.store.bare)
    (records : ∀ pv, cells (.record pv) → store.recordContent pv = world.store.recordContent pv)
    (aliases : ∀ name, cells (.entry name) → store.aliasContent name = world.store.aliasContent name) :
    AgreeOn cells world { world with store } := by
  refine ⟨bare.symm, rfl, ?_⟩
  intro cell inside
  cases cell with
  | record pv => exact (records pv inside).symm
  | entry name => exact congrArg Cell.Content.entry (aliases name inside).symm
  | request key => rfl

theorem AgreeOn.of_queue {queue : Table PendingRecord}
    (requests : ∀ key, cells (.request key) → queue[key]? = world.queue[key]?) :
    AgreeOn cells world { world with queue } := by
  refine ⟨rfl, rfl, ?_⟩
  intro cell inside
  cases cell with
  | request key => exact congrArg Cell.Content.request (requests key inside).symm
  | record _ | entry _ => rfl

/-- A collaborator changes only the cells that it is asked about. -/
theorem answer_elsewhere {request : Request} (within : request.Within cells) (clock : Nat → Time)
    (world : World) : AgreeOn (fun cell => ¬ cells cell) world (world.answer clock request).2 := by
  have other {key known : String} (here : cells (.request key)) (there : ¬ cells (.request known)) :
      known ≠ key := by
    rintro rfl
    exact there here
  cases request with
  | updateActiveRecord pv record =>
    obtain ⟨bare, aliases, records⟩ := ConfigStore.updateActiveRecord_elsewhere pv record world.store
    refine .of_store bare (fun other outside => records other ?_) fun name _ => ?_
    · rintro rfl
      exact outside within
    · rw [ConfigStore.aliasContent, aliases]
      rfl
  | addAlias name pv =>
    obtain ⟨bare, records, aliases⟩ := ConfigStore.addAlias_elsewhere name pv world.store
    refine .of_store bare (fun other outside => records other ?_) fun known outside => aliases known ?_
    · rintro rfl
      exact outside within.2
    · rintro rfl
      exact outside within.1
  | updatePending key edits =>
    simp only [answer, updatePending]
    cases world.queue[key]? with
    | none => exact .refl _ _
    | some record =>
      refine .of_queue fun known outside => ?_
      rw [Table.getElem?_insert_iff, if_neg (other within outside)]
  | insertIfAbsent key record =>
    simp only [answer, insertIfAbsent]
    split
    · exact .refl _ _
    · refine .of_queue fun known outside => ?_
      rw [Table.getElem?_insert_iff, if_neg (other within outside)]
  | takePending key =>
    refine .of_queue fun known outside => ?_
    rw [Std.ExtTreeMap.getElem?_erase, if_neg]
    exact fun same => other within outside (Std.compare_eq_iff_eq.mp same).symm
  | startWorkflow pv =>
    simp only [answer, startWorkflow, Engine.start]
    split <;> exact ⟨rfl, rfl, fun cell _ => by cases cell <;> rfl⟩
  | readClock => exact ⟨rfl, rfl, fun cell _ => by cases cell <;> rfl⟩
  | activeRecord _ | property _ | standardFields | hasPending _ | pendingRecord _ => exact .refl _ _
  | activeCount | pendingNames | queueLength => exact within.elim

/-- No request changes a setting. -/
theorem respond_bare (surroundings : Surroundings) (world : World) (request : Request) :
    (world.respond surroundings request).2.store.bare = world.store.bare := by
  unfold respond
  split
  · rfl
  · cases request with
    | updateActiveRecord pv record => exact (ConfigStore.updateActiveRecord_elsewhere pv record world.store).1
    | addAlias name pv => exact (ConfigStore.addAlias_elsewhere name pv world.store).1
    | updatePending key edits =>
      simp only [answer, updatePending]
      cases world.queue[key]? <;> rfl
    | insertIfAbsent key record =>
      simp only [answer, insertIfAbsent]
      split <;> rfl
    | activeRecord _ | property _ | standardFields | activeCount | hasPending _ | pendingRecord _
    | takePending _ | pendingNames | queueLength | startWorkflow _ | readClock => rfl

theorem respond_elsewhere {request : Request} (within : request.Within cells) (surroundings : Surroundings)
    (world : World) : AgreeOn (fun cell => ¬ cells cell) world (world.respond surroundings request).2 := by
  unfold respond
  split
  · exact .refl _ _
  · exact answer_elsewhere within surroundings.clock world

/-- Worlds that agree on some cells still do so once both have answered, if they agree on the
cells that are asked about: no other cell has changed. -/
theorem AgreeOn.answer {own : Cell → Prop} {request : Request} {clock : Nat → Time}
    (agree : AgreeOn cells world twin) (about : request.Within own)
    (here : ∀ cell, own cell →
      (world.answer clock request).2.content cell = (twin.answer clock request).2.content cell) :
    AgreeOn cells (world.answer clock request).2 (twin.answer clock request).2 := by
  have first := answer_elsewhere about clock world
  have second := answer_elsewhere about clock twin
  refine ⟨?_, ?_, fun cell inside => ?_⟩
  · rw [← first.bare, agree.bare, second.bare]
  · rw [← first.running, agree.running, second.running]
  · by_cases mine : own cell
    · exact here cell mine
    · rw [← first.content cell mine, agree.content cell inside, second.content cell mine]

/-- What a collaborator answers, and what is then in the cells it was asked about, depends on these
cells alone, as long as the clock stands still. -/
theorem answer_same {request : Request} {clock : Nat → Time}
    (still : ∀ reading other, clock reading = clock other) (within : request.Within cells)
    (agree : AgreeOn cells world twin) :
    (world.answer clock request).1 = (twin.answer clock request).1 ∧
      AgreeOn cells (world.answer clock request).2 (twin.answer clock request).2 := by
  have queued {key : String} (inside : cells (.request key)) := agree.request inside
  cases request with
  | activeRecord pv =>
    exact ⟨ConfigStore.activeRecord_same agree.bare (agree.content (.record pv) within), agree⟩
  | updateActiveRecord pv record =>
    obtain ⟨reply, written⟩ := ConfigStore.updateActiveRecord_same pv record agree.bare
    have about : (Request.updateActiveRecord pv record).Within (· = .record pv) := rfl
    refine ⟨reply, agree.answer about ?_⟩
    rintro cell rfl
    exact written
  | addAlias name pv =>
    obtain ⟨reply, written, known⟩ := ConfigStore.addAlias_same agree.bare
      (agree.content (.record pv) within.2) (Cell.Content.entry.inj (agree.content (.entry name) within.1))
    have about : (Request.addAlias name pv).Within fun cell => cell = .entry name ∨ cell = .record pv :=
      ⟨.inl rfl, .inr rfl⟩
    refine ⟨reply, agree.answer about ?_⟩
    rintro cell (rfl | rfl)
    · exact congrArg Cell.Content.entry known
    · exact written
  | property key =>
    refine ⟨?_, agree⟩
    simp only [World.answer, ← ConfigStore.property_bare world.store,
      ← ConfigStore.property_bare twin.store, agree.bare]
  | standardFields =>
    refine ⟨?_, agree⟩
    simp only [World.answer, ← ConfigStore.standardFields_bare world.store,
      ← ConfigStore.standardFields_bare twin.store, agree.bare]
  | hasPending key =>
    refine ⟨?_, agree⟩
    simp only [World.answer, Std.ExtTreeMap.contains_eq_isSome_getElem?, queued within]
  | pendingRecord key => exact ⟨congrArg Except.ok (queued within), agree⟩
  | updatePending key edits =>
    have about : (Request.updatePending key edits).Within (· = .request key) := rfl
    refine ⟨?_, agree.answer about ?_⟩
    · simp only [World.answer, updatePending, queued within]
      cases twin.queue[key]? <;> rfl
    · rintro cell rfl
      simp only [World.answer, updatePending, queued within]
      cases found : twin.queue[key]? <;> simp [content, queued within]
  | insertIfAbsent key record =>
    have about : (Request.insertIfAbsent key record).Within (· = .request key) := rfl
    have taken : world.queue.contains key = twin.queue.contains key := by
      simp only [Std.ExtTreeMap.contains_eq_isSome_getElem?, queued within]
    refine ⟨?_, agree.answer about ?_⟩
    · simp only [World.answer, insertIfAbsent, taken]
      split <;> rfl
    · rintro cell rfl
      simp only [World.answer, insertIfAbsent, taken]
      split <;> simp [content, queued within]
  | takePending key =>
    have about : (Request.takePending key).Within (· = .request key) := rfl
    refine ⟨congrArg Except.ok (queued within), agree.answer about ?_⟩
    rintro cell rfl
    simp [content, World.answer, takePending]
  | startWorkflow pv =>
    have about : (Request.startWorkflow pv).Within fun _ => False := trivial
    refine ⟨?_, agree.answer about fun _ none => none.elim⟩
    simp only [World.answer, startWorkflow, Engine.start, agree.running]
    split <;> rfl
  | readClock =>
    have about : Request.readClock.Within fun _ => False := trivial
    exact ⟨still _ _, agree.answer about fun _ none => none.elim⟩
  | activeCount | pendingNames | queueLength => exact within.elim

theorem respond_same {request : Request} {surroundings : Surroundings}
    (still : ∀ reading other, surroundings.clock reading = surroundings.clock other)
    (within : request.Within cells) (agree : AgreeOn cells world twin) :
    (world.respond surroundings request).1 = (twin.respond surroundings request).1 ∧
      AgreeOn cells (world.respond surroundings request).2 (twin.respond surroundings request).2 := by
  unfold respond
  split
  · exact ⟨rfl, agree⟩
  · exact answer_same still within agree

end World

end ArchiveIntake
