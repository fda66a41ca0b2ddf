import ArchiveIntake.Proofs.Turns

/-! Records and aliases while items are in hand. The store is as the items that are through with it
leave it when they take turns, but for the records of items between their field and their alias.
Nobody else looks at such a record, since work on an item excludes other work under its base
name, so an item can take its turn at its last write. -/

namespace ArchiveIntake

theorem Item.fielded_congr {item : Item} {store other : ConfigStore} (now : Time)
    (same : ∀ pv read, store.kept pv read = other.kept pv read) (record : ActiveRecord) :
    item.fielded now store record = item.fielded now other record := by
  simp only [fielded, same]

namespace Stage

/-- Whether an item may have written its field and has not written its alias. -/
def isRegistering : Stage → Bool
  | .registering _ => true
  | _ => false

/-- What is known of an item at a stage: of the store that the turns so far leave, and of the store as
it is. -/
def Overlaid (clock : Nat → Time) (alone real : ConfigStore) (item : Item) : Stage → Prop
  | .timing record field =>
    alone.activeRecord item.name.baseName = .ok (some record) ∧
      item.name.standardField = some field ∧ record.isFieldArchived field = false
  | .writing written =>
    ∃ record reading, alone.activeRecord item.name.baseName = .ok (some record) ∧
      item.fielded (clock reading) alone record = alone.kept item.name.baseName written
  | .registering aliasName =>
    item.spec.aliasName = some aliasName ∧
      ∃ record reading, alone.activeRecord item.name.baseName = .ok (some record) ∧
        real.activeRecord item.name.baseName = .ok (some (item.fielded (clock reading) alone record))
  | .merging | .reading _ | .inserting _ => alone.activeRecord item.name.baseName = .ok none
  | .checking | .starting | .answered _ => True

theorem Overlaid.congr {clock : Nat → Time} {alone real other store : ConfigStore} {item : Item}
    {stage : Stage} (overlaid : stage.Overlaid clock alone real item)
    (kept : ∀ pv read, other.kept pv read = alone.kept pv read)
    (sameAlone : other.activeRecord item.name.baseName = alone.activeRecord item.name.baseName)
    (sameReal : store.activeRecord item.name.baseName = real.activeRecord item.name.baseName) :
    stage.Overlaid clock other store item := by
  cases stage with
  | timing record field => exact ⟨sameAlone.trans overlaid.1, overlaid.2⟩
  | writing written =>
    obtain ⟨record, reading, found, same⟩ := overlaid
    refine ⟨record, reading, sameAlone.trans found, ?_⟩
    rw [Item.fielded_congr _ kept, kept, same]
  | registering aliasName =>
    obtain ⟨given, record, reading, found, present⟩ := overlaid
    refine ⟨given, record, reading, sameAlone.trans found, ?_⟩
    rw [sameReal, present, Item.fielded_congr _ kept]
  | merging | reading | inserting => exact sameAlone.trans overlaid
  | checking | starting | answered => trivial

end Stage

/-- The store as it is, beside the store that the turns so far leave. -/
structure Overlay (clock : Nat → Time) (current : List (Item × Stage)) (alone real : ConfigStore) :
    Prop where
  kept : ∀ pv read, real.kept pv read = alone.kept pv read
  property : ∀ key, real.property key = alone.property key
  aliases : ∀ name, real.resolveAlias name = alone.resolveAlias name
  elsewhere : ∀ pv, (∀ work ∈ current, work.2.isRegistering = true → work.1.name.baseName ≠ pv) →
    real.activeRecord pv = alone.activeRecord pv
  stages : ∀ work ∈ current, work.2.Overlaid clock alone real work.1

namespace Overlay
variable {clock : Nat → Time} {current moved : List (Item × Stage)} {alone real other store : ConfigStore}
  {item : Item} {stage next : Stage} {record written : ActiveRecord}

theorem refl (clock : Nat → Time) (store : ConfigStore) : Overlay clock [] store store where
  kept _ _ := rfl
  property _ := rfl
  aliases _ := rfl
  elsewhere _ _ := rfl
  stages _ member := absurd member List.not_mem_nil

theorem perm (overlay : Overlay clock current alone real) (same : current.Perm moved) :
    Overlay clock moved alone real where
  kept := overlay.kept
  property := overlay.property
  aliases := overlay.aliases
  elsewhere pv apart := overlay.elsewhere pv fun work member => apart work (same.mem_iff.mp member)
  stages work member := overlay.stages work (same.mem_iff.mpr member)

theorem finish (overlay : Overlay clock ((item, stage) :: current) alone real)
    (registered : stage.isRegistering = false) : Overlay clock current alone real where
  kept := overlay.kept
  property := overlay.property
  aliases := overlay.aliases
  elsewhere pv apart := by
    refine overlay.elsewhere pv fun work member => ?_
    rcases List.mem_cons.mp member with rfl | member
    · simp [registered]
    · exact apart work member
  stages work member := overlay.stages work (List.mem_cons_of_mem _ member)

theorem begin (overlay : Overlay clock current alone real)
    (overlaid : stage.Overlaid clock alone real item) :
    Overlay clock ((item, stage) :: current) alone real where
  kept := overlay.kept
  property := overlay.property
  aliases := overlay.aliases
  elsewhere pv apart := overlay.elsewhere pv fun work member => apart work (List.mem_cons_of_mem _ member)
  stages := List.forall_mem_cons.mpr ⟨overlaid, overlay.stages⟩

section Head
variable (overlay : Overlay clock ((item, stage) :: current) alone real)
  (apart : ∀ work ∈ current, work.1.name.baseName ≠ item.name.baseName)
include overlay apart

theorem here (registered : stage.isRegistering = false) :
    real.activeRecord item.name.baseName = alone.activeRecord item.name.baseName := by
  refine overlay.elsewhere _ fun work member registering => ?_
  rcases List.mem_cons.mp member with rfl | member
  · rw [registered] at registering
    cases registering
  · exact apart work member

/-- Only the record of the item in front changes, in the store as it is and in the other one. -/
theorem step (kept : ∀ pv read, other.kept pv read = alone.kept pv read)
    (keptReal : ∀ pv read, store.kept pv read = real.kept pv read)
    (property : ∀ key, store.property key = other.property key)
    (aliases : ∀ name, store.resolveAlias name = other.resolveAlias name)
    (elseAlone : ∀ pv, pv ≠ item.name.baseName → other.activeRecord pv = alone.activeRecord pv)
    (elseReal : ∀ pv, pv ≠ item.name.baseName → store.activeRecord pv = real.activeRecord pv)
    (same : next.isRegistering = false →
      store.activeRecord item.name.baseName = other.activeRecord item.name.baseName)
    (overlaid : next.Overlaid clock other store item) :
    Overlay clock ((item, next) :: current) other store where
  kept pv read := (keptReal pv read).trans ((overlay.kept pv read).trans (kept pv read).symm)
  property := property
  aliases := aliases
  elsewhere pv away := by
    by_cases own : pv = item.name.baseName
    · rw [own]
      refine same ?_
      cases registering : next.isRegistering with
      | false => rfl
      | true => exact absurd own.symm (away _ List.mem_cons_self registering)
    · rw [elseReal pv own, elseAlone pv own]
      refine overlay.elsewhere pv fun work member registering => ?_
      rcases List.mem_cons.mp member with rfl | member
      · exact Ne.symm own
      · exact away work (List.mem_cons_of_mem _ member) registering
  stages := by
    refine List.forall_mem_cons.mpr ⟨overlaid, fun work member => ?_⟩
    have different := apart work member
    exact (overlay.stages work (List.mem_cons_of_mem _ member)).congr kept (elseAlone _ different)
      (elseReal _ different)

theorem goes (registered : stage.isRegistering = false)
    (overlaid : Stage.Overlaid clock alone real item next) :
    Overlay clock ((item, next) :: current) alone real :=
  overlay.step apart (fun _ _ => rfl) (fun _ _ => rfl) overlay.property overlay.aliases (fun _ _ => rfl)
    (fun _ _ => rfl) (fun _ => overlay.here apart registered) overlaid

end Head
end Overlay

/-- An item in front either goes on, or its turn leaves a store that the store as it is overlays. -/
inductive Overlay.Advance (defaultPeriod : Single) (clock : Nat → Time) (item : Item) (next : Stage)
    (current : List (Item × Stage)) (alone : World) (real : ConfigStore) : Prop
  | goes (undecided : next.decision? = none)
      (overlay : Overlay clock ((item, next) :: current) alone.store real)
  | ends (store : ConfigStore) (reading readings : Nat)
      (answered : next = .answered (.ok .alreadySubmitted))
      (ends : Stage.Ends defaultPeriod (fun _ => clock reading) item alone (.first item)
        (.ok .alreadySubmitted) { alone with store, readings })
      (inactive : ∀ pv, alone.store.activeRecord pv = .ok none → store.activeRecord pv = .ok none)
      (property : ∀ key, store.property key = alone.store.property key)
      (overlay : Overlay clock ((item, next) :: current) store real)

namespace Overlay
variable {defaultPeriod : Single} {clock : Nat → Time} {current : List (Item × Stage)} {alone : World}
  {real store : ConfigStore} {item : Item} {stage : Stage} {record : ActiveRecord}

section Head
variable (overlay : Overlay clock ((item, stage) :: current) alone.store real)
  (apart : ∀ work ∈ current, work.1.name.baseName ≠ item.name.baseName)
  (usable : Stage.first item = .checking)
include overlay apart usable

theorem advance_ofAlias (reading : Nat)
    (found : alone.store.activeRecord item.name.baseName = .ok (some record))
    (kept : ∀ pv read, store.kept pv read = real.kept pv read)
    (property : ∀ key, store.property key = real.property key)
    (aliases : ∀ name, store.resolveAlias name = real.resolveAlias name)
    (elsewhere : ∀ pv, pv ≠ item.name.baseName → store.activeRecord pv = real.activeRecord pv)
    (wrote : store.activeRecord item.name.baseName =
      .ok (some (item.fielded (clock reading) alone.store record))) :
    Advance defaultPeriod clock item (.ofAlias item) current alone store := by
  cases given : item.spec.aliasName with
  | none =>
    have next : Stage.ofAlias item = .answered (.ok .alreadySubmitted) := by simp [Stage.ofAlias, given]
    obtain ⟨last, readings, ends, rewrites⟩ := Stage.ends_of_active defaultPeriod usable found
      (by simp [given]) (clock reading)
    have unnamed (name : String) : last.resolveAlias name = alone.store.resolveAlias name := by
      rw [rewrites.aliases, given]
      rfl
    have same : last.activeRecord item.name.baseName = store.activeRecord item.name.baseName := by
      rw [rewrites.record, if_pos rfl, wrote]
      simp [Item.aliased, given]
    refine .ends last reading readings next ends ?_ rewrites.property ?_
    · intro pv inactive
      rw [rewrites.record, if_neg, inactive]
      rintro rfl
      cases found.symm.trans inactive
    · refine overlay.step apart rewrites.kept kept ?_ ?_ ?_ elsewhere (fun _ => same.symm) ?_
      · exact fun key => (property key).trans ((overlay.property key).trans (rewrites.property key).symm)
      · exact fun name => (aliases name).trans ((overlay.aliases name).trans (unnamed name).symm)
      · exact fun pv different => (rewrites.record pv).trans (if_neg different)
      · rw [next]
        trivial
  | some aliasName =>
    have next : Stage.ofAlias item = .registering aliasName := by simp [Stage.ofAlias, given]
    -- The record is ahead of the store of the turns until the alias is registered.
    refine .goes (by rw [next]; rfl) ?_
    refine overlay.step apart (fun _ _ => rfl) kept ?_ ?_ (fun _ _ => rfl) elsewhere ?_ ?_
    · exact fun key => (property key).trans (overlay.property key)
    · exact fun name => (aliases name).trans (overlay.aliases name)
    · rw [next]
      exact nofun
    · rw [next]
      exact ⟨given, record, reading, found, wrote⟩

end Head

section Moves
variable (apart : ∀ work ∈ current, work.1.name.baseName ≠ item.name.baseName)
include apart

theorem advance_timed {field : String}
    (overlay : Overlay clock ((item, .timing record field) :: current) alone.store real) (reading : Nat) :
    Advance defaultPeriod clock item (.writing (record.withField field (clock reading))) current alone
      real := by
  obtain ⟨found, part, new⟩ := overlay.stages _ List.mem_cons_self
  refine .goes rfl (overlay.goes apart rfl ⟨record, reading, found, ?_⟩)
  simp [Item.fielded, part, new]

variable (usable : Stage.first item = .checking)
include usable

theorem advance_active (overlay : Overlay clock ((item, .checking) :: current) alone.store real)
    (found : real.activeRecord item.name.baseName = .ok (some record)) :
    Advance defaultPeriod clock item (.ofRecord item record) current alone real := by
  have present := (overlay.here apart rfl).symm.trans found
  have known (next : Stage.ofRecord item record = .ofAlias item)
      (same : item.fielded (clock 0) alone.store record = record) :
      Advance defaultPeriod clock item (.ofRecord item record) current alone real := by
    rw [next]
    refine overlay.advance_ofAlias apart usable 0 present (fun _ _ => rfl) (fun _ => rfl) (fun _ => rfl)
      (fun _ _ => rfl) ?_
    rw [same]
    exact found
  cases part : item.name.standardField with
  | none => exact known (by simp [Stage.ofRecord, part]) (by simp [Item.fielded, part])
  | some field =>
    by_cases archived : record.isFieldArchived field = true
    · exact known (by simp [Stage.ofRecord, part, archived]) (by simp [Item.fielded, part, archived])
    · have next : Stage.ofRecord item record = .timing record field := by
        simp [Stage.ofRecord, part, archived]
      rw [next]
      exact .goes rfl (overlay.goes apart rfl ⟨present, part, by simpa using archived⟩)

theorem advance_written (overlay : Overlay clock ((item, .writing record) :: current) alone.store real)
    (updated : real.updateActiveRecord item.name.baseName record = (.ok (), store)) :
    Advance defaultPeriod clock item (.ofAlias item) current alone store := by
  obtain ⟨found, reading, present, fielded⟩ := overlay.stages _ List.mem_cons_self
  have seen := ConfigStore.activeRecord_updateActiveRecord updated
  refine overlay.advance_ofAlias apart usable reading present
    (ConfigStore.kept_updateActiveRecord updated)
    (ConfigStore.updateActiveRecord_settings updated).properties
    (ConfigStore.resolveAlias_updateActiveRecord updated)
    (fun pv different => (seen pv).trans (if_neg different)) ?_
  rw [seen, if_pos rfl, overlay.kept, fielded]

theorem advance_registered {aliasName : String}
    (overlay : Overlay clock ((item, .registering aliasName) :: current) alone.store real)
    (added : real.addAlias aliasName item.name.baseName = (.ok (), store)) :
    Advance defaultPeriod clock item (.answered (.ok .alreadySubmitted)) current alone store := by
  obtain ⟨given, found, reading, present, fielded⟩ := overlay.stages _ List.mem_cons_self
  have given : item.spec.aliasName = some aliasName := given
  obtain ⟨index, indexed, -⟩ := ConfigStore.aliasIndex_addAlias added
  have resolves : alone.store.resolveAlias "" = .ok index[""]? := by
    rw [← overlay.aliases, ConfigStore.resolveAlias_eq, indexed]
  obtain ⟨last, readings, ends, rewrites⟩ := Stage.ends_of_active defaultPeriod usable present
    (fun _ _ => ConfigStore.exists_aliasIndex resolves) (clock reading)
  have seen := ConfigStore.activeRecord_addAlias added
  refine .ends last reading readings rfl ends ?_ rewrites.property ?_
  · intro pv inactive
    rw [rewrites.record, if_neg, inactive]
    rintro rfl
    cases present.symm.trans inactive
  · refine overlay.step apart rewrites.kept (ConfigStore.kept_addAlias added) ?_ ?_ ?_ ?_ ?_ trivial
    · intro key
      rw [(ConfigStore.addAlias_settings added).properties, overlay.property, rewrites.property]
    · intro name
      rw [ConfigStore.resolveAlias_addAlias added, rewrites.aliases, given, overlay.aliases]
      simp only [Option.some.injEq, @eq_comm _ name]
    · exact fun pv different => (rewrites.record pv).trans (if_neg different)
    · exact fun pv different => (seen pv).trans (if_neg different)
    · intro _
      rw [seen, if_pos rfl, rewrites.record, if_pos rfl, fielded]
      simp [Except.map, Item.aliased, given]

end Moves
end Overlay
end ArchiveIntake
