import ArchiveIntake.Proofs.Acceptance
import ArchiveIntake.Proofs.Serial

/-! Items for one key that clients work on at the same time. In turns, the first item queues the
request, and whatever the others do is done to that request. So one item is accepted, the engine is
told of one name, and there is one request, under whichever names the items came. -/

namespace ArchiveIntake

theorem archiveNamed_effect {surroundings : Surroundings} {defaultPeriod : Single}
    {name : NormalizedName} {spec : ArchiveSpec} {world after : World}
    {result : Except AdmissionError ArchiveOutcome}
    (completed : (archiveNamed defaultPeriod name spec).Completes surroundings world result after) :
    ∃ answer, ItemEffect defaultPeriod name spec world answer after ∧
      result = outcomeOf name.baseName answer := by
  obtain ⟨answer, middle, admitted, ended⟩ := Program.completes_bind.mp completed
  obtain ⟨rfl, rfl⟩ := Program.completes_done.mp ended
  exact ⟨answer, admitItem_effect admitted, rfl⟩

/-- An item that can be queued under a key: it asks for nothing invalid, and nothing is known of its
variable. -/
structure Item.Competes (key : String) (start : World) (item : Item) : Prop where
  valid : item.spec.overridesAreValid = true
  own : item.name.queueKey = key
  inactive : start.store.activeRecord item.name.baseName = .ok none
  unqueued : item.name.baseName ∉ start.queue

/-- A world where a request has been queued under a key for an item with this base name, and that is
otherwise as before. -/
structure World.Won (key baseName : String) (start world : World) : Prop where
  store : world.store = start.store
  engine : world.engine = start.engine.told [baseName]
  queued : key ∈ world.queue
  elsewhere : ∀ other, other ≠ key → world.queue[other]? = start.queue[other]?

section Race
variable {defaultPeriod minimum : Single} {key baseName : String} {start world after : World}
  {item : Item} {turn : Turn} {turns : List Turn} {answer : Except AdmissionError ArchiveStatus}

theorem Item.Competes.taken (competes : turn.item.Competes key start) : turn.taken.Competes key start := by
  unfold Turn.taken
  split
  · exact ⟨competes.valid, competes.own, competes.inactive, competes.unqueued⟩
  · exact competes

section Readable
variable (readable : readMinimumPeriod (start.store.property minimumPeriodProperty) = .ok minimum)
include readable

theorem Item.Competes.wins (competes : item.Competes key start) (free : key ∉ start.queue)
    (effect : ItemEffect defaultPeriod item.name item.spec start answer after) :
    answer = .ok .submitted ∧ start.Won key item.name.baseName after := by
  cases effect with
  | invalid e unusable => cases competes.valid.symm.trans unusable
  | active record store readings usable found => cases competes.inactive.symm.trans found
  | pending record usable inactive found => exact absurd (Table.mem_of_getElem? found) competes.unqueued
  | unresolved e usable inactive absent unreadable =>
    obtain ⟨policy, resolved⟩ := ArchiveSpec.exists_effectivePolicy defaultPeriod usable readable
    cases resolved.symm.trans unreadable
  | refused usable inactive absent taken => exact absurd (competes.own ▸ taken) free
  | queued policy usable inactive absent resolved unqueued running =>
    obtain rfl := competes.own
    refine ⟨rfl, rfl, ?_, Table.mem_insert_iff.mpr (.inr rfl), ?_⟩
    · rw [Engine.start_of_running running]
    · intro other different
      exact (Table.getElem?_insert_iff).trans (if_neg different)

theorem World.Won.later (won : start.Won key baseName world) (competes : item.Competes key start)
    (effect : ItemEffect defaultPeriod item.name item.spec world answer after) :
    answer = .ok .alreadySubmitted ∧ start.Won key baseName after := by
  cases effect with
  | invalid e unusable => cases competes.valid.symm.trans unusable
  | active record store readings usable found =>
    rw [won.store, competes.inactive] at found
    cases found
  | pending record usable inactive found =>
    have here : item.name.baseName = key := by
      by_contra different
      rw [won.elsewhere _ different] at found
      exact competes.unqueued (Table.mem_of_getElem? found)
    have kept {written : PendingRecord} : key ∈ world.queue.insert item.name.baseName written :=
      (Table.mem_insert_of_mem (Table.mem_of_getElem? found)).mpr won.queued
    refine ⟨rfl, won.store, won.engine, kept, fun other different => ?_⟩
    rw [here, Table.getElem?_insert_iff, if_neg different]
    exact won.elsewhere other different
  | unresolved e usable inactive absent unreadable =>
    rw [won.store] at unreadable
    obtain ⟨policy, resolved⟩ := ArchiveSpec.exists_effectivePolicy defaultPeriod usable readable
    cases resolved.symm.trans unreadable
  | refused => exact ⟨rfl, won⟩
  | queued policy usable inactive absent resolved free running =>
    rw [competes.own] at free
    exact absurd won.queued free

/-- By induction on the turns. -/
theorem World.Won.inTurn (won : start.Won key baseName world)
    (competing : ∀ turn ∈ turns, turn.item.Competes key start)
    (inTurn : world.InTurn defaultPeriod turns after) :
    (∀ turn ∈ turns, turn.result = .ok .alreadySubmitted) ∧ start.Won key baseName after := by
  induction inTurn with
  | nil world => exact ⟨by simp, won⟩
  | @cons world middle after turn rest ran others ih =>
    obtain ⟨here, competing⟩ := List.forall_mem_cons.mp competing
    obtain ⟨answer, effect, same⟩ := archiveNamed_effect ran
    obtain ⟨rfl, won⟩ := won.later readable here.taken effect
    obtain ⟨answered, won⟩ := ih won competing
    rw [turn.taken_baseName] at same
    exact ⟨List.forall_mem_cons.mpr ⟨outcomeOf_eq_ok same nofun, answered⟩, won⟩

theorem World.InTurn.race (free : key ∉ start.queue)
    (competing : ∀ other ∈ turn :: turns, other.item.Competes key start)
    (inTurn : start.InTurn defaultPeriod (turn :: turns) after) :
    turn.result = .ok .submitted ∧ (∀ other ∈ turns, other.result = .ok .alreadySubmitted) ∧
      start.Won key turn.item.name.baseName after := by
  obtain ⟨here, competing⟩ := List.forall_mem_cons.mp competing
  cases inTurn with
  | cons ran others =>
    obtain ⟨answer, effect, same⟩ := archiveNamed_effect ran
    obtain ⟨rfl, won⟩ := here.taken.wins readable free effect
    rw [turn.taken_baseName] at same won
    obtain ⟨answered, won⟩ := won.inTurn readable competing others
    exact ⟨outcomeOf_eq_ok same nofun, answered, won⟩

end Readable
end Race

theorem Engine.told_injective (engine : Engine) : Function.Injective engine.told := by
  intro names more same
  exact List.append_cancel_left (congrArg Engine.accepted same)

/-- Whatever the schedule, of items for one key that clients work on at the same time one is accepted
and all others find the request that it has queued. -/
theorem one_submission_wins (surroundings : Surroundings) (defaultPeriod minimum : Single)
    (start : World) (key : String) (lists : List (List Item)) (schedule : List Nat) (crowd : Crowd)
    (nonempty : lists.flatten ≠ []) (competing : ∀ item ∈ lists.flatten, item.Competes key start)
    (free : key ∉ start.queue)
    (readable : readMinimumPeriod (start.store.property minimumPeriodProperty) = .ok minimum)
    (ran : Crowd.run surroundings defaultPeriod ⟨start, lists.map Client.ofItems⟩ schedule = crowd)
    (steady : Crowd.faults surroundings defaultPeriod ⟨start, lists.map Client.ofItems⟩ schedule = [])
    (done : ∀ client ∈ crowd.clients, client.isDone = true) :
    crowd.clients.map (fun client => client.finished.map (·.item)) = lists ∧
      ∃ winner others,
        (crowd.clients.flatMap Client.finished).Perm (winner :: others) ∧
        winner.result = .ok ⟨winner.item.name.baseName, .submitted⟩ ∧
        (∀ other ∈ others, other.result = .ok ⟨other.item.name.baseName, .alreadySubmitted⟩) ∧
        (∃ record, crowd.world.queue[key]? = some record) ∧
        (∀ other, other ≠ key → crowd.world.queue[other]? = start.queue[other]?) ∧
        crowd.world.engine = start.engine.told [winner.item.name.baseName] := by
  obtain ⟨items, turns, alone, serialized, all⟩ := Crowd.serialized steady (ran ▸ done)
  rw [ran] at items serialized
  have competes : ∀ turn ∈ turns, turn.item.Competes key start :=
    fun turn member => competing _ (all.mem_iff.mpr (List.mem_map_of_mem member))
  cases turns with
  | nil => exact absurd (List.perm_nil.mp all) nonempty
  | cons turn rest =>
    obtain ⟨accepted, others, won⟩ := serialized.inTurn.race readable free competes
    refine ⟨items, turn.finished, rest.map Turn.finished, serialized.answers, ?_, ?_, ?_, ?_, ?_⟩
    · exact congrArg (outcomeOf _) accepted
    · intro other member
      obtain ⟨turn, among, rfl⟩ := List.mem_map.mp member
      exact congrArg (outcomeOf _) (others turn among)
    · rw [serialized.queue]
      exact Option.isSome_iff_exists.mp (Std.ExtTreeMap.mem_iff_isSome_getElem?.mp won.queued)
    · rw [serialized.queue]
      exact won.elsewhere
    · obtain ⟨names, more, same, told, toldAlone⟩ := serialized.engine
      obtain rfl := start.engine.told_injective (toldAlone.symm.trans won.engine)
      rw [told, List.perm_singleton.mp same]
      rfl

theorem one_submission_wins_of_rivals :
    let start : World := .fresh (.memory .empty) .noting
    let period := AdmissionConfig.default.defaultPeriod
    let crowd := Crowd.run (.calm 0) period ⟨start, rivals.map Client.ofItems⟩ overtaking
    ∃ winner others,
      (crowd.clients.flatMap Client.finished).Perm (winner :: others) ∧
      winner.result = .ok ⟨winner.item.name.baseName, .submitted⟩ ∧
      (∀ other ∈ others, other.result = .ok ⟨other.item.name.baseName, .alreadySubmitted⟩) ∧
      crowd.world.engine = start.engine.told [winner.item.name.baseName] := by
  intro start period crowd
  have calm : (Surroundings.calm 0).FaultFree := fun _ => rfl
  have sound : start.Sound := World.sound_fresh trivial rfl
  have competing : ∀ item ∈ rivals.flatten, item.Competes "SRC" start := by
    simp only [rivals, List.flatten_cons, List.flatten_nil, List.cons_append, List.nil_append,
      List.forall_mem_cons]
    exact ⟨⟨rfl, by decide, rfl, by decide⟩, ⟨rfl, by decide, rfl, by decide⟩, by simp⟩
  have fine : (readMinimumPeriod (start.store.property minimumPeriodProperty)).isOk = true := by
    decide +kernel
  cases readable : readMinimumPeriod (start.store.property minimumPeriodProperty) with
  | error e =>
    rw [readable] at fine
    cases fine
  | ok minimum =>
    obtain ⟨-, winner, others, same, accepted, refused, -, -, told⟩ := one_submission_wins (.calm 0)
      period minimum start "SRC" rivals overtaking crowd (by simp [rivals]) competing (by decide) readable
      rfl (Crowd.faults_eq_nil calm sound _) (by decide +kernel)
    exact ⟨winner, others, same, accepted, refused, told⟩

end ArchiveIntake
