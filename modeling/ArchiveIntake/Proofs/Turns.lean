import ArchiveIntake.Proofs.Floor

/-! Items that take turns: each is worked on alone, in the world that the one before has left, with a
time of its own. What one turn does is told by what is known of its variable then: an active
variable gets its record rewritten, a queued one its request, and any other a request of its own
unless its key is taken. -/

namespace ArchiveIntake

namespace Item

def bare (item : Item) : Item := ⟨⟨item.name.baseName, .none⟩, { item.spec with aliasName := none }⟩

def fielded (item : Item) (now : Time) (store : ConfigStore) (record : ActiveRecord) : ActiveRecord :=
  match item.name.standardField with
  | none => record
  | some field =>
    if record.isFieldArchived field then record
    else store.kept item.name.baseName (record.withField field now)

def aliased (item : Item) (record : ActiveRecord) : ActiveRecord :=
  match item.spec.aliasName with
  | none => record
  | some aliasName => record.withAlias aliasName

end Item

theorem ConfigStore.exists_aliasIndex {store : ConfigStore} {name : String} {found : Option String}
    (resolves : store.resolveAlias name = .ok found) : ∃ index, store.aliasIndex = some index := by
  rw [resolveAlias_eq] at resolves
  cases present : store.aliasIndex with
  | some index => exact ⟨index, rfl⟩
  | none =>
    rw [present] at resolves
    cases resolves

/-- One record is written, and its variable may get a name in the index, and all else stays. -/
structure ConfigStore.Rewrites (pv : String) (record : ActiveRecord) (name : Option String)
    (before after : ConfigStore) : Prop where
  kept : ∀ other read, after.kept other read = before.kept other read
  property : ∀ key, after.property key = before.property key
  record : ∀ other, after.activeRecord other =
    if other = pv then .ok (some record) else before.activeRecord other
  aliases : ∀ other, after.resolveAlias other =
    if name = some other then .ok (some pv) else before.resolveAlias other

namespace ConfigStore.Rewrites
variable {pv aliasName : String} {record written : ActiveRecord} {name : Option String}
  {store middle after : ConfigStore}

theorem refl (found : store.activeRecord pv = .ok (some record)) :
    Rewrites pv record none store store where
  kept _ _ := rfl
  property _ := rfl
  record other := by
    split
    next same => rw [same, found]
    next => rfl
  aliases _ := rfl

theorem of_updateActiveRecord (updated : store.updateActiveRecord pv record = (.ok (), after)) :
    Rewrites pv (store.kept pv record) none store after where
  kept := kept_updateActiveRecord updated
  property := (updateActiveRecord_settings updated).properties
  record := activeRecord_updateActiveRecord updated
  aliases := resolveAlias_updateActiveRecord updated

theorem of_addAlias (found : store.activeRecord pv = .ok (some record))
    (added : store.addAlias aliasName pv = (.ok (), after)) :
    Rewrites pv (record.withAlias aliasName) (some aliasName) store after where
  kept := kept_addAlias added
  property := (addAlias_settings added).properties
  record other := by
    rw [activeRecord_addAlias added, found]
    rfl
  aliases other := by
    rw [resolveAlias_addAlias added]
    simp only [Option.some.injEq, @eq_comm _ other]

theorem trans (first : Rewrites pv record none store middle)
    (second : Rewrites pv written name middle after) : Rewrites pv written name store after where
  kept other read := (second.kept other read).trans (first.kept other read)
  property key := (second.property key).trans (first.property key)
  record other := by
    rw [second.record, first.record]
    split <;> rfl
  aliases other := by
    rw [second.aliases, first.aliases]
    rfl

theorem aliasIndex {index : Table String} (rewrites : Rewrites pv record name store after)
    (present : store.aliasIndex = some index) : ∃ index, after.aliasIndex = some index := by
  have resolves := rewrites.aliases ""
  rw [resolveAlias_eq store, present] at resolves
  split at resolves
  · exact exists_aliasIndex resolves
  · exact exists_aliasIndex resolves

end ConfigStore.Rewrites

namespace Stage
variable {defaultPeriod : Single} {clock : Nat → Time} {item : Item} {world : World}
  {record : ActiveRecord}

theorem ends_ofAlias (defaultPeriod : Single) (clock : Nat → Time) (world : World)
    (found : world.store.activeRecord item.name.baseName = .ok (some record))
    (indexed : ∀ aliasName ∈ item.spec.aliasName, ∃ index, world.store.aliasIndex = some index) :
    ∃ store, Ends defaultPeriod clock item world (ofAlias item) (.ok .alreadySubmitted)
        { world with store } ∧
      ConfigStore.Rewrites item.name.baseName (item.aliased record) item.spec.aliasName world.store
        store := by
  unfold ofAlias Item.aliased
  cases given : item.spec.aliasName with
  | none => exact ⟨world.store, .answered _ _, .refl found⟩
  | some aliasName =>
    obtain ⟨index, present⟩ := indexed aliasName given
    obtain ⟨store, added⟩ := ConfigStore.exists_addAlias found present aliasName
    exact ⟨store, .moves (.registered aliasName store added) (.answered _ _), .of_addAlias found added⟩

theorem ends_of_active (defaultPeriod : Single) (usable : first item = .checking)
    (found : world.store.activeRecord item.name.baseName = .ok (some record))
    (indexed : ∀ aliasName ∈ item.spec.aliasName, ∃ index, world.store.aliasIndex = some index)
    (now : Time) :
    ∃ store readings, Ends defaultPeriod (fun _ => now) item world (first item) (.ok .alreadySubmitted)
        { world with store, readings } ∧
      ConfigStore.Rewrites item.name.baseName (item.aliased (item.fielded now world.store record))
        item.spec.aliasName world.store store := by
  rw [usable]
  have known (same : item.fielded now world.store record = record)
      (next : ofRecord item record = ofAlias item) :
      ∃ store readings, Ends defaultPeriod (fun _ => now) item world .checking (.ok .alreadySubmitted)
          { world with store, readings } ∧
        ConfigStore.Rewrites item.name.baseName (item.aliased (item.fielded now world.store record))
          item.spec.aliasName world.store store := by
    obtain ⟨store, ends, rewrites⟩ := ends_ofAlias defaultPeriod (fun _ => now) world found indexed
    rw [← next] at ends
    rw [same]
    exact ⟨store, world.readings, .moves (.active record found) ends, rewrites⟩
  cases part : item.name.standardField with
  | none => exact known (by simp [Item.fielded, part]) (by simp [ofRecord, part])
  | some field =>
    by_cases archived : record.isFieldArchived field = true
    · exact known (by simp [Item.fielded, part, archived]) (by simp [ofRecord, part, archived])
    · obtain ⟨store, updated⟩ := ConfigStore.exists_updateActiveRecord found (record.withField field now)
      have first := ConfigStore.Rewrites.of_updateActiveRecord updated
      have present := (first.record item.name.baseName).trans (if_pos rfl)
      obtain ⟨last, ends, second⟩ := ends_ofAlias defaultPeriod (fun _ => now)
        { world with store, readings := world.readings + 1 } present
        fun aliasName given => first.aliasIndex (indexed aliasName given).choose_spec
      have next : ofRecord item record = .timing record field := by simp [ofRecord, part, archived]
      have new : item.fielded now world.store record =
          world.store.kept item.name.baseName (record.withField field now) := by
        simp [Item.fielded, part, archived]
      refine ⟨last, world.readings + 1, .moves (.active record found) ?_, ?_⟩
      · rw [next]
        exact .moves (.timed record field) (.moves (.written _ store updated) ends)
      · rw [new]
        exact first.trans second

/-- What an item comes to, once its policy is settled. -/
inductive Resolved (defaultPeriod : Single) (property : Option String) (item : Item) : Stage → Prop
  | unusable (e : AdmissionError) (unreadable : item.spec.effectivePolicy defaultPeriod property = .error e) :
      Resolved defaultPeriod property item (.answered (.error e))
  | usable (policy : EffectivePolicy)
      (resolved : item.spec.effectivePolicy defaultPeriod property = .ok policy) :
      Resolved defaultPeriod property item (.inserting policy)

theorem resolved_ofFloor {asked : Override} (given : item.spec.override = .ok (some asked))
    (property : Option String) :
    Resolved defaultPeriod property item (ofFloor item asked (readMinimumPeriod property)) := by
  cases read : readMinimumPeriod property with
  | error e => exact .unusable e (by simp [ArchiveSpec.effectivePolicy, given, read, Except.map])
  | ok floor => exact .usable _ (by simp [ArchiveSpec.effectivePolicy, given, read, Except.map])

theorem ofUnknown_cases (defaultPeriod : Single) (item : Item) (property : Option String) :
    Resolved defaultPeriod property item (ofUnknown defaultPeriod item) ∨
      ∃ asked, item.spec.override = .ok (some asked) ∧ ofUnknown defaultPeriod item = .reading asked := by
  unfold ofUnknown
  cases given : item.spec.override with
  | error e => exact .inl (.unusable e (by simp [ArchiveSpec.effectivePolicy, given]))
  | ok asked =>
    cases asked with
    | none => exact .inl (.usable _ (by simp [ArchiveSpec.effectivePolicy, given]))
    | some asked => exact .inr ⟨asked, rfl, rfl⟩

section Inactive
variable (usable : first item = .checking)
  (inactive : world.store.activeRecord item.name.baseName = .ok none)
include usable inactive

theorem ends_of_pending (defaultPeriod : Single) (clock : Nat → Time) {record : PendingRecord}
    (found : world.queue[item.name.baseName]? = some record) :
    Ends defaultPeriod clock item world (first item) (.ok .alreadySubmitted)
      { world with
        queue := world.queue.insert item.name.baseName
          (record.applyAll (Admission.pendingEdits item.name item.spec.aliasName)).1 } := by
  rw [usable]
  exact .moves (.inactive inactive) (.moves (.merged record found) (.answered _ _))

variable (absent : world.queue[item.name.baseName]? = none)
include absent

theorem ends_of_resolved {result : Except AdmissionError ArchiveStatus} {after : World}
    (ends : ∀ stage, Resolved defaultPeriod (world.store.property minimumPeriodProperty) item stage →
      Ends defaultPeriod clock item world stage result after) :
    Ends defaultPeriod clock item world (first item) result after := by
  rw [usable]
  refine .moves (.inactive inactive) (.moves (.absent absent) ?_)
  rcases ofUnknown_cases defaultPeriod item (world.store.property minimumPeriodProperty) with
    resolved | ⟨asked, given, next⟩
  · exact ends _ resolved
  · rw [next]
    exact .moves (.read asked) (ends _ (resolved_ofFloor given _))

theorem ends_of_unusable (clock : Nat → Time) {e : AdmissionError}
    (unreadable : item.spec.effectivePolicy defaultPeriod
      (world.store.property minimumPeriodProperty) = .error e) :
    Ends defaultPeriod clock item world (first item) (.error e) world := by
  refine ends_of_resolved usable inactive absent fun stage resolved => ?_
  cases resolved with
  | unusable other same =>
    cases unreadable.symm.trans same
    exact .answered _ _
  | usable policy same => cases unreadable.symm.trans same

theorem ends_of_taken (clock : Nat → Time) {policy : EffectivePolicy}
    (resolved : item.spec.effectivePolicy defaultPeriod
      (world.store.property minimumPeriodProperty) = .ok policy)
    (taken : item.name.queueKey ∈ world.queue) :
    Ends defaultPeriod clock item world (first item) (.ok .alreadySubmitted) world := by
  refine ends_of_resolved usable inactive absent fun stage settled => ?_
  cases settled with
  | unusable e same => cases resolved.symm.trans same
  | usable policy same => exact .moves (.refused policy taken) (.answered _ _)

theorem ends_of_free (clock : Nat → Time) {policy : EffectivePolicy}
    (resolved : item.spec.effectivePolicy defaultPeriod
      (world.store.property minimumPeriodProperty) = .ok policy)
    (free : item.name.queueKey ∉ world.queue) (running : world.engine.running = true) :
    Ends defaultPeriod clock item world (first item) (.ok .submitted)
      { world with
        queue := world.queue.insert item.name.queueKey
          (.ofRequest item.name policy item.spec.aliasName)
        engine := world.engine.told [item.name.baseName] } := by
  refine ends_of_resolved usable inactive absent fun stage settled => ?_
  cases settled with
  | unusable e same => cases resolved.symm.trans same
  | usable other same =>
    cases resolved.symm.trans same
    exact .moves (.inserted policy free) (.moves (.started running) (.answered _ _))

end Inactive
end Stage

def Stage.decision? : Stage → Option (Except AdmissionError ArchiveStatus)
  | .starting => some (.ok .submitted)
  | .answered result => some result
  | .checking | .timing _ _ | .writing _ | .registering _ | .merging | .reading _ | .inserting _ => none

/-- An item when its turn comes, with the time that the clock shows then, and its answer. -/
structure Turn where
  item : Item
  now : Time
  /-- Another item has taken its key after it was looked up, and it is worked on without its field
  and its alias. -/
  overtaken : Bool
  result : Except AdmissionError ArchiveStatus

namespace Turn

def taken (turn : Turn) : Item := if turn.overtaken then turn.item.bare else turn.item

def finished (turn : Turn) : Finished := .of turn.item turn.result

theorem taken_baseName (turn : Turn) : turn.taken.name.baseName = turn.item.name.baseName := by
  unfold taken
  split <;> rfl

theorem first_taken (turn : Turn) (usable : Stage.first turn.item = .checking) :
    Stage.first turn.taken = .checking := by
  unfold taken
  split <;> exact usable

end Turn

/-- Items one after another, each worked on alone, and nothing fails. -/
inductive World.InTurn (defaultPeriod : Single) : World → List Turn → World → Prop
  | nil (world : World) : InTurn defaultPeriod world [] world
  | cons {world middle after : World} {turn : Turn} {rest : List Turn}
      (ran : (archiveNamed defaultPeriod turn.taken.name turn.taken.spec).Completes (.calm turn.now)
        world turn.finished.result middle)
      (others : InTurn defaultPeriod middle rest after) :
      InTurn defaultPeriod world (turn :: rest) after

namespace World.InTurn
variable {defaultPeriod : Single} {world middle after : World} {turn : Turn} {turns more : List Turn}

theorem append (first : InTurn defaultPeriod world turns middle)
    (second : InTurn defaultPeriod middle more after) : InTurn defaultPeriod world (turns ++ more) after := by
  induction first with
  | nil world => exact second
  | cons ran _ ih => exact .cons ran (ih second)

/-- An item that comes to its answer has its turn. -/
theorem of_ends
    (ends : Stage.Ends defaultPeriod (fun _ => turn.now) turn.taken world (Stage.first turn.taken)
      turn.result middle)
    (others : InTurn defaultPeriod middle turns after) : InTurn defaultPeriod world (turn :: turns) after := by
  refine .cons ?_ others
  have completed := ends.archiveNamed
  rw [turn.taken_baseName] at completed
  exact completed

theorem concat (first : InTurn defaultPeriod world turns middle)
    (ends : Stage.Ends defaultPeriod (fun _ => turn.now) turn.taken middle (Stage.first turn.taken)
      turn.result after) : InTurn defaultPeriod world (turns ++ [turn]) after :=
  first.append (.of_ends ends (.nil after))

theorem pair {other : Turn} (inTurn : InTurn defaultPeriod world [turn, other] after) :
    after = ((archiveNamed defaultPeriod other.taken.name other.taken.spec).run (.calm other.now)
      ((archiveNamed defaultPeriod turn.taken.name turn.taken.spec).run (.calm turn.now) world).2).2 := by
  cases inTurn with
  | cons first rest =>
    cases rest with
    | cons second last =>
      cases last
      unfold Attempt.run
      rw [first.1, second.1]

end World.InTurn
end ArchiveIntake
