import ArchiveIntake.Proofs.Calm
import ArchiveIntake.Proofs.Item
import ArchiveIntake.Proofs.Promotion
import ArchiveIntake.Proofs.Session

/-! Conservation of requests. Every step either leaves queue and engine as they are, or
queues one key and starts one name with this key, or takes one key out of the queue.
So for each key the starts and the promotions of a run balance what the queue holds
before and after it. -/

namespace ArchiveIntake

/-- How often a key is queued. -/
def World.queuedCount (world : World) (key : String) : Nat := if key ∈ world.queue then 1 else 0

/-- The key that an operation moved out of the queue, if it says that there was one. -/
def Performed.promotedKey? : Performed → Option String
  | ⟨.confirmStarted pv, .ok true⟩ => some (Name.queueKey pv)
  | ⟨.promote key _, .ok true⟩ => some key
  | _ => none

/-- From one world to another, these names were started and these keys were promoted, and
every key is balanced. -/
structure Conserves (world : World) (started promoted : List String) (after : World) : Prop where
  accepted : after.engine.accepted = world.engine.accepted ++ started
  balance : ∀ key, world.queuedCount key + (started.map Name.queueKey).count key =
    promoted.count key + after.queuedCount key

namespace Conserves
variable {world middle after : World} {started promoted : List String}

theorem idle (engine : after.engine = world.engine)
    (keys : ∀ key, key ∈ after.queue ↔ key ∈ world.queue) : Conserves world [] [] after := by
  refine ⟨by simp [engine], ?_⟩
  intro key
  simp [World.queuedCount, keys]

theorem refl (world : World) : Conserves world [] [] world := idle rfl fun _ => Iff.rfl

theorem trans {moreStarted morePromoted : List String}
    (first : Conserves world started promoted middle)
    (second : Conserves middle moreStarted morePromoted after) :
    Conserves world (started ++ moreStarted) (promoted ++ morePromoted) after := by
  refine ⟨?_, ?_⟩
  · rw [second.accepted, first.accepted, List.append_assoc]
  · intro key
    have before := first.balance key
    have later := second.balance key
    rw [List.map_append, List.count_append, List.count_append]
    omega

theorem queued {pv : String} {record : PendingRecord} (free : Name.queueKey pv ∉ world.queue)
    (running : world.engine.running = true) :
    Conserves world [pv] []
      { world with
        queue := world.queue.insert (Name.queueKey pv) record
        engine := (world.engine.start pv).2 } := by
  refine ⟨by simp [Engine.start, running], ?_⟩
  intro key
  by_cases same : Name.queueKey pv = key
  · subst same
    simp [World.queuedCount, free]
  · simp [World.queuedCount, same]

theorem dequeued {key : String} {store : ConfigStore} {readings : Nat} (held : key ∈ world.queue) :
    Conserves world [] [key] { world with store, readings, queue := world.queue.erase key } := by
  refine ⟨by simp, ?_⟩
  intro other
  by_cases same : key = other
  · subst same
    simp [World.queuedCount, held]
  · simp [World.queuedCount, same]

end Conserves

variable {defaultPeriod : Single} {surroundings : Surroundings} {world after : World}

theorem Conserves.edited {key : String} {old new : PendingRecord}
    (found : world.queue[key]? = some old) :
    Conserves world [] [] { world with queue := world.queue.insert key new } :=
  .idle rfl fun _ => Table.mem_insert_of_mem (Table.mem_of_getElem? found)

theorem Admission.CheckEffect.conserves {name : NormalizedName} {aliasName : Option String}
    {result : Except AdmissionError Admission}
    (effect : CheckEffect name aliasName world result after) :
    Conserves world [] [] after := by
  cases effect with
  | active record merged store readings found merge => exact .idle rfl fun _ => Iff.rfl
  | pending record merged inactive found merge => exact .edited found
  | unknown inactive absent => exact .refl _

theorem SubmitEffect.conserves {name : NormalizedName} {policy : EffectivePolicy}
    {aliasName : Option String} {result : Except AdmissionError Submission}
    (effect : SubmitEffect name policy aliasName world result after) :
    ∃ started, Conserves world started [] after := by
  cases effect with
  | refused taken => exact ⟨[], .refl _⟩
  | queued free running => exact ⟨[name.baseName], .queued free running⟩

theorem ItemEffect.conserves {name : NormalizedName} {spec : ArchiveSpec}
    {result : Except AdmissionError ArchiveStatus}
    (effect : ItemEffect defaultPeriod name spec world result after) :
    ∃ started, Conserves world started [] after := by
  cases effect with
  | invalid e unusable => exact ⟨[], .refl _⟩
  | active record store readings usable found merge => exact ⟨[], .idle rfl fun _ => Iff.rfl⟩
  | pending record usable inactive found => exact ⟨[], .edited found⟩
  | unresolved e usable inactive absent unreadable => exact ⟨[], .refl _⟩
  | refused usable inactive absent taken => exact ⟨[], .refl _⟩
  | queued policy usable inactive absent resolved free running =>
    exact ⟨[name.baseName], .queued free running⟩

theorem PromoteEffect.conserves {key pv : String} {moved : Bool}
    (effect : PromoteEffect key pv world moved after) :
    Conserves world [] (if moved then [key] else []) after := by
  cases effect with
  | absent absent => exact .refl _
  | moved pending store readings found promoted =>
    exact .dequeued (Table.mem_of_getElem? found)

theorem archivePv_conserves {catalog : Catalog} {spec : ArchiveSpec}
    {result : Except AdmissionError ArchiveOutcome}
    (completed : (archivePv defaultPeriod catalog spec).Completes surroundings world result after) :
    ∃ started, Conserves world started [] after := by
  rcases archivePv_effect completed with ⟨_, _, _, rfl⟩ | ⟨name, status, _, effect, _⟩
  · exact ⟨[], .refl _⟩
  · exact effect.conserves

theorem archiveItems_conserves {catalog : Catalog} {specs : List ArchiveSpec}
    {result : Except AdmissionError (List ArchiveOutcome)}
    (completed : (archiveItems defaultPeriod catalog specs).Completes surroundings world result after) :
    ∃ started, Conserves world started [] after := by
  induction specs generalizing world result after with
  | nil =>
    obtain ⟨-, rfl⟩ := Attempt.completes_pure.mp completed
    exact ⟨[], .refl _⟩
  | cons spec rest ih =>
    rcases Attempt.completes_bind.mp completed with ⟨_, failed, -⟩ | ⟨_, middle, item, others⟩
    · exact archivePv_conserves failed
    obtain ⟨started, first⟩ := archivePv_conserves item
    rcases Attempt.completes_bind.mp others with ⟨_, failed, -⟩ | ⟨_, last, others, ended⟩
    · obtain ⟨more, second⟩ := ih failed
      exact ⟨_, first.trans second⟩
    · obtain ⟨-, rfl⟩ := Attempt.completes_pure.mp ended
      obtain ⟨more, second⟩ := ih others
      exact ⟨_, first.trans second⟩

theorem archiveBatch_conserves {specs : List ArchiveSpec}
    {result : Except AdmissionError (List ArchiveOutcome)}
    (completed : (archiveBatch defaultPeriod specs).Completes surroundings world result after) :
    ∃ started, Conserves world started [] after := by
  rcases Attempt.completes_bind.mp completed with ⟨_, failed, -⟩ | ⟨_, middle, loaded, items⟩
  · obtain ⟨_, _, same⟩ := Attempt.completes_lift.mp failed
    cases same
  · obtain ⟨_, loaded, -⟩ := Attempt.completes_lift.mp loaded
    have same := loadCatalog_onlyLooks.run surroundings world
    rw [loaded.1] at same
    subst same
    exact archiveItems_conserves items

theorem Attempt.ofExcept_archiveBatch_conserves {read : Except AdmissionError (List ArchiveSpec)}
    {result : Except AdmissionError (List ArchiveOutcome)}
    (completed : (Attempt.ofExcept read >>= archiveBatch defaultPeriod).Completes surroundings world
      result after) :
    ∃ started, Conserves world started [] after := by
  rcases Attempt.completes_bind.mp completed with ⟨_, failed, -⟩ | ⟨_, middle, read, batch⟩
  · obtain ⟨-, rfl⟩ := Attempt.completes_ofExcept.mp failed
    exact ⟨[], .refl _⟩
  · obtain ⟨-, rfl⟩ := Attempt.completes_ofExcept.mp read
    exact archiveBatch_conserves batch

/-- One operation balances every key, if it promotes what it says that it promoted. -/
theorem operation_conserves {operation : Operation} {answer : operation.Answer}
    (completed : (operation.program defaultPeriod).Completes surroundings world answer after) :
    ∃ started, Conserves world started (Performed.promotedKey? ⟨operation, answer⟩).toList after := by
  cases operation with
  | archivePlain request => exact Attempt.ofExcept_archiveBatch_conserves completed
  | archiveStructured body => exact Attempt.ofExcept_archiveBatch_conserves completed
  | archiveBatch specs => exact archiveBatch_conserves completed
  | archivePv catalog spec => exact archivePv_conserves completed
  | submit name policy aliasName => exact (submit_effect completed).conserves
  | check name aliasName => exact ⟨[], (Admission.check_effect completed).conserves⟩
  | status raw =>
    have same := (status_onlyLooks raw).run surroundings world
    have ran : (ExceptT.run (status raw)).run surroundings world = (answer, after) := completed.1
    rw [ran] at same
    subst same
    exact ⟨[], .refl _⟩
  | confirmStarted pv =>
    obtain ⟨moved, rfl, effect⟩ := confirmStarted_effect completed
    refine ⟨[], ?_⟩
    cases moved <;> exact effect.conserves
  | promote key pv =>
    obtain ⟨moved, rfl, effect⟩ := promote_effect completed
    refine ⟨[], ?_⟩
    cases moved <;> exact effect.conserves

theorem session_conserves {operations : List Operation} {performed : List Performed}
    (completed : (session defaultPeriod operations).Completes surroundings world performed after) :
    ∃ started, Conserves world started (performed.filterMap Performed.promotedKey?) after := by
  induction operations generalizing world performed after with
  | nil =>
    obtain ⟨rfl, rfl⟩ := Program.completes_done.mp completed
    exact ⟨[], .refl _⟩
  | cons operation rest ih =>
    obtain ⟨answer, middle, first, others⟩ := Program.completes_bind.mp completed
    obtain ⟨performed, last, others, ended⟩ := Program.completes_bind.mp others
    obtain ⟨rfl, rfl⟩ := Program.completes_done.mp ended
    obtain ⟨started, one⟩ := operation_conserves first
    obtain ⟨more, many⟩ := ih others
    refine ⟨started ++ more, ?_⟩
    have all := one.trans many
    rw [List.filterMap_cons]
    cases key : Performed.promotedKey? ⟨operation, answer⟩ <;> simpa [key] using all

/-- At every moment of a fault-free session, the promotions of each key and what is queued
under it make up for what was queued at first and for the names with this key that were
started since. The queue lists exactly the keys whose promotions are behind. -/
theorem requests_are_conserved (defaultPeriod : Single) (surroundings : Surroundings)
    (world now : World) (operations soFar : List Operation) (performed : List Performed)
    (steady : (session defaultPeriod operations).faults surroundings world = [])
    (moment : soFar <+: operations)
    (ran : (session defaultPeriod soFar).run surroundings world = (performed, now)) :
    ∃ started, now.engine.accepted = world.engine.accepted ++ started ∧
      (∀ key, world.queuedCount key + (started.map Name.queueKey).count key =
        (performed.filterMap Performed.promotedKey?).count key + now.queuedCount key) ∧
      ∃ names, (now.answer surroundings.clock .pendingNames).1 = .ok names ∧
        names.Pairwise (· < ·) ∧
        ∀ key, key ∈ names ↔ world.queuedCount key + (started.map Name.queueKey).count key ≠
          (performed.filterMap Performed.promotedKey?).count key := by
  have completed := session_conserves ⟨ran, session_faults_of_prefix moment steady⟩
  obtain ⟨started, conserves⟩ := completed
  refine ⟨started, conserves.accepted, conserves.balance, now.queue.keys, rfl, ?_, ?_⟩
  · exact now.queue.ordered_keys.imp compareOfLessAndEq_eq_lt.mp
  · intro key
    have balance := conserves.balance key
    rw [Std.ExtTreeMap.mem_keys]
    by_cases queued : key ∈ now.queue
    · have held : now.queuedCount key = 1 := if_pos queued
      refine ⟨fun _ => ?_, fun _ => queued⟩
      omega
    · have held : now.queuedCount key = 0 := if_neg queued
      refine ⟨fun held => absurd held queued, fun behind => ?_⟩
      omega

theorem requests_are_conserved_across_marks :
    let now := ((session AdmissionConfig.default.defaultPeriod
      [.archiveBatch [{ pv := "pva://SRC" }, { pv := "SRC" }], .confirmStarted "SRC"]).run (.calm 0)
        (.fresh (.memoryOf .default) .noting)).2
    ∃ started, now.engine.accepted = [] ++ started ∧
      (∀ key, World.queuedCount (.fresh (.memoryOf .default) .noting) key +
          (started.map Name.queueKey).count key =
        ["SRC"].count key + now.queuedCount key) ∧
      ∃ names, (now.answer (fun _ => 0) .pendingNames).1 = .ok names ∧ names.Pairwise (· < ·) ∧
        ∀ key, key ∈ names ↔ World.queuedCount (.fresh (.memoryOf .default) .noting) key +
          (started.map Name.queueKey).count key ≠ ["SRC"].count key :=
  requests_are_conserved _ (.calm 0) _ _ _ _ _
    (Program.faults_eq_nil (fun _ => rfl) (World.sound_fresh (ConfigStore.sound_memoryOf _) rfl) _).1
    (List.prefix_refl _) rfl

end ArchiveIntake
