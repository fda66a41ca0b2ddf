import ArchiveIntake.Proofs.Faults
import ArchiveIntake.Proofs.Store

/-! Merging fields and aliases into the active record of a variable. Only this record
changes, and it only grows. An item merges at most one of each, and a promotion
merges all the aliases of a request. -/

namespace ArchiveIntake

structure RecordMerge (pv : String) (fields aliases : List String) (before after : ConfigStore) :
    Prop where
  settings : before.SameSettings after
  elsewhere : ∀ other, other ≠ pv → after.activeRecord other = before.activeRecord other
  here : ∀ record, before.activeRecord pv = .ok (some record) →
    ∃ merged, after.activeRecord pv = .ok (some merged) ∧ merged.pvName = record.pvName ∧
      (∀ name, name ∈ merged.archivedFields ↔ name ∈ record.archivedFields ∨ name ∈ fields) ∧
      (∀ name, name ∈ merged.aliases ↔ name ∈ record.aliases ∨ name ∈ aliases)

namespace RecordMerge
variable {pv : String} {fields aliases : List String} {store middle after : ConfigStore}

theorem refl (pv : String) (store : ConfigStore) : RecordMerge pv [] [] store store :=
  ⟨.refl store, fun _ _ => rfl, fun record found => ⟨record, found, rfl, by simp, by simp⟩⟩

theorem trans {moreFields moreAliases : List String}
    (first : RecordMerge pv fields aliases store middle)
    (second : RecordMerge pv moreFields moreAliases middle after) :
    RecordMerge pv (fields ++ moreFields) (aliases ++ moreAliases) store after := by
  refine ⟨first.settings.trans second.settings, ?_, ?_⟩
  · intro other apart
    rw [second.elsewhere other apart, first.elsewhere other apart]
  · intro record found
    obtain ⟨merged, found, name, sameFields, sameAliases⟩ := first.here record found
    obtain ⟨last, found, sameName, lastFields, lastAliases⟩ := second.here merged found
    refine ⟨last, found, sameName.trans name, ?_, ?_⟩
    · intro name
      simp [lastFields, sameFields, or_assoc]
    · intro name
      simp [lastAliases, sameAliases, or_assoc]

theorem of_updateActiveRecord {record : ActiveRecord} {added : String} {now : Time}
    (found : store.activeRecord pv = .ok (some record))
    (written : store.updateActiveRecord pv (record.withField added now) = (.ok (), after)) :
    RecordMerge pv [added] [] store after := by
  have seen := ConfigStore.activeRecord_updateActiveRecord written
  refine ⟨ConfigStore.updateActiveRecord_settings written, ?_, ?_⟩
  · intro other apart
    rw [seen, if_neg apart]
  · intro same held
    cases found.symm.trans held
    refine ⟨_, (seen pv).trans (if_pos rfl), ?_, ?_, ?_⟩
    · cases store with
      | memory store => rfl
      | database db => exact (DatabaseStore.activeRecord_pvName found).symm
    · intro name
      cases store <;>
        simp only [ConfigStore.kept, ActiveRecord.withField, NameSet.mem_insert_iff,
          List.mem_singleton]
    · intro name
      cases store <;> simp [ConfigStore.kept, ActiveRecord.withField]

theorem of_addAlias {added : String} (written : store.addAlias added pv = (.ok (), after)) :
    RecordMerge pv [] [added] store after := by
  have seen := ConfigStore.activeRecord_addAlias written
  refine ⟨ConfigStore.addAlias_settings written, ?_, ?_⟩
  · intro other apart
    rw [seen, if_neg apart]
  · intro record found
    refine ⟨record.withAlias added, ?_, rfl, ?_, ?_⟩
    · rw [seen, if_pos rfl, found]
      rfl
    · intro name
      simp [ActiveRecord.withAlias]
    · intro name
      simp only [ActiveRecord.withAlias, NameSet.mem_insert_iff, List.mem_singleton]

theorem inactive_iff {record : ActiveRecord} (merge : RecordMerge pv fields aliases store after)
    (found : store.activeRecord pv = .ok (some record)) (other : String) :
    after.activeRecord other = .ok none ↔ store.activeRecord other = .ok none := by
  by_cases same : other = pv
  · subst same
    obtain ⟨merged, present, -⟩ := merge.here record found
    simp [found, present]
  · rw [merge.elsewhere other same]

theorem active_of_active (merge : RecordMerge pv fields aliases store after) {other : String}
    (active : ∃ record, store.activeRecord other = .ok (some record)) :
    ∃ record, after.activeRecord other = .ok (some record) := by
  obtain ⟨record, found⟩ := active
  by_cases same : other = pv
  · subst same
    obtain ⟨merged, present, -⟩ := merge.here record found
    exact ⟨merged, present⟩
  · exact ⟨record, by rw [merge.elsewhere other same, found]⟩

end RecordMerge

theorem registerAliases_effect {surroundings : Surroundings} {pv : String} {names : List String}
    {world after : World} {result : Except Failure Unit}
    (completed : (registerAliases pv names).Completes surroundings world result after) :
    ∃ store, result = .ok () ∧ after = { world with store } ∧
      RecordMerge pv [] names world.store store := by
  induction names generalizing world with
  | nil =>
    obtain ⟨rfl, rfl⟩ := Program.completes_done.mp completed
    exact ⟨_, rfl, rfl, .refl _ _⟩
  | cons name rest ih =>
    obtain ⟨fine, remaining⟩ := Program.completes_ask.mp completed
    obtain ⟨_, same⟩ := failureIn_eq_none.mp (World.respond_of_fault?_eq_none fine).2
    rw [same] at remaining
    obtain ⟨store, rfl, rfl, merge⟩ := ih remaining
    exact ⟨store, rfl, rfl, (RecordMerge.of_addAlias (Prod.ext same rfl)).trans merge⟩

end ArchiveIntake
