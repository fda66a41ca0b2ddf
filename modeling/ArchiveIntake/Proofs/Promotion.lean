import ArchiveIntake.Proofs.Merge

/-! What a promotion does when no request fails. A key that is not queued changes
nothing; otherwise the request leaves the queue and is the active record of its
variable, whatever record was there before. -/

namespace ArchiveIntake

/-- A request has become the active record of a variable. -/
structure Promoted (pv : String) (pending : PendingRecord) (before after : ConfigStore) : Prop where
  settings : before.SameSettings after
  elsewhere : ∀ other, other ≠ pv → after.activeRecord other = before.activeRecord other
  here : ∃ record, after.activeRecord pv = .ok (some record) ∧ record.pvName = pv ∧
    (∀ name, name ∈ record.archivedFields ↔ name ∈ pending.requestedFields) ∧
    (∀ name, name ∈ record.aliases ↔ name ∈ pending.aliases)

/-- What a promotion does, with its answer. -/
inductive PromoteEffect (key pv : String) (world : World) : Bool → World → Prop
  | absent (absent : world.queue[key]? = none) : PromoteEffect key pv world false world
  | moved (pending : PendingRecord) (store : ConfigStore) (readings : Nat)
      (found : world.queue[key]? = some pending) (promoted : Promoted pv pending world.store store) :
      PromoteEffect key pv world true
        { world with store, readings, queue := world.queue.erase key }

variable {surroundings : Surroundings} {world after : World} {key pv : String}

theorem Promoted.of_steps {pending : PendingRecord} {store middle final : ConfigStore} {now : Time}
    (written : store.updateActiveRecord pv
      { ActiveRecord.new pv now with archivedFields := pending.requestedFields } = (.ok (), middle))
    (aliases : RecordMerge pv [] pending.aliases middle final) :
    Promoted pv pending store final := by
  have seen := ConfigStore.activeRecord_updateActiveRecord written
  refine ⟨(ConfigStore.updateActiveRecord_settings written).trans aliases.settings, ?_, ?_⟩
  · intro other apart
    rw [aliases.elsewhere other apart, seen, if_neg apart]
  · obtain ⟨record, found, named, fields, registered⟩ :=
      aliases.here _ ((seen pv).trans (if_pos rfl))
    refine ⟨record, found, ?_, ?_, ?_⟩
    · rw [named]
      cases store <;> rfl
    · intro name
      rw [fields]
      cases store <;> simp [ConfigStore.kept]
    · intro name
      rw [registered]
      cases store <;> simp [ConfigStore.kept, ActiveRecord.new]

theorem promote_effect {result : Except Failure Bool}
    (completed : (promote key pv).Completes surroundings world result after) :
    ∃ moved, result = .ok moved ∧ PromoteEffect key pv world moved after := by
  obtain ⟨-, taken⟩ := Program.completes_ask.mp completed
  cases queued : world.queue[key]? with
  | none =>
    simp only [World.answer, World.takePending, queued] at taken
    obtain ⟨rfl, rfl⟩ := Program.completes_done.mp taken
    rw [Table.erase_eq_self (Table.getElem?_eq_none_iff.mp queued)]
    exact ⟨false, rfl, .absent queued⟩
  | some pending =>
    simp only [World.answer, World.takePending, queued] at taken
    obtain ⟨-, timed⟩ := Program.completes_ask.mp taken
    obtain ⟨fine, updated⟩ := Program.completes_ask.mp timed
    obtain ⟨_, same⟩ := failureIn_eq_none.mp (World.respond_of_fault?_eq_none fine).2
    rw [same] at updated
    obtain ⟨reply, middle, registered, ended⟩ := Program.completes_bind.mp updated
    obtain ⟨store, rfl, rfl, merge⟩ := registerAliases_effect registered
    obtain ⟨rfl, rfl⟩ := Program.completes_done.mp ended
    exact ⟨true, rfl, .moved pending store _ queued (.of_steps (Prod.ext same rfl) merge)⟩

theorem confirmStarted_effect {result : Except AdmissionError Bool}
    (completed : (confirmStarted pv).Completes surroundings world result after) :
    ∃ moved, result = .ok moved ∧ PromoteEffect (Name.queueKey pv) pv world moved after := by
  obtain ⟨reply, promoted, rfl⟩ := Attempt.completes_await.mp completed
  obtain ⟨moved, rfl, effect⟩ := promote_effect promoted
  exact ⟨moved, rfl, effect⟩

end ArchiveIntake
