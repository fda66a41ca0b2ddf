import ArchiveIntake.Proofs.Ledger
import Mathlib.Data.List.Permutation

/-! Clients that work at the same time leave what items leave that take turns. There is an order in
which the same items get the same answers and leave the same queue, records and aliases, each
worked on alone. Only an item that is overtaken counts there without its field and its alias: it
finds nothing queued, and before it queues its own request an item for the same variable with the
mark takes its key. -/

namespace ArchiveIntake

/-- Turns of the items that clients have finished, and the world that the turns leave, beside the
world that the clients leave. -/
structure World.Serialized (defaultPeriod : Single) (clock : Nat → Time) (start after : World)
    (finished : List Finished) (turns : List Turn) (alone : World) : Prop where
  inTurn : start.InTurn defaultPeriod turns alone
  answers : finished.Perm (turns.map Turn.finished)
  timed : ∀ turn ∈ turns, ∃ reading, turn.now = clock reading
  overtaken : ∀ turn ∈ turns, turn.overtaken = true →
    Name.isMarked turn.item.name.baseName = false ∧ turn.result = .ok .alreadySubmitted ∧
      ∃ other ∈ turns, other.result = .ok .submitted ∧
        other.item.name.baseName = Name.marked turn.item.name.baseName
  queue : after.queue = alone.queue
  records : ∀ pv, after.store.activeRecord pv = alone.store.activeRecord pv
  aliases : ∀ name, after.store.resolveAlias name = alone.store.resolveAlias name
  engine : ∃ names others, names.Perm others ∧ after.engine = start.engine.told names ∧
    alone.engine = start.engine.told others

namespace Ledger.Tracks
variable {defaultPeriod : Single} {clock : Nat → Time} {start world : World} {finished : List Finished}
  {ledger : Ledger}

section Rounds
variable (tracks : ledger.Tracks defaultPeriod clock start ⟨world, [], finished⟩)
include tracks

/-- The second round: the items that found nothing, in an order in which they are answered so. -/
theorem exists_news : ∃ news, news.Perm ledger.news ∧
    ledger.alone.InTurn defaultPeriod news
      (ledger.alone.withNews defaultPeriod (start.store.property minimumPeriodProperty) news) := by
  obtain ⟨names, -, told, running⟩ := tracks.started
  have newcomers := tracks.queueing.newcomers
  rw [← tracks.property, ← tracks.queue] at newcomers
  rw [← tracks.property]
  refine World.exists_inTurn newcomers ?_ ?_
  · exact fun turn member => tracks.inactive turn (List.mem_append_left _ member)
  · intro turn member accepted
    rw [tracks.engine]
    -- An engine that was told a name listens, and it was told the names of all accepted items.
    apply running
    rintro rfl
    have none : Turn.acceptedNames ledger.news = [] := List.nil_perm.mp told
    simp only [Turn.acceptedNames, List.map_eq_nil_iff, List.filter_eq_nil_iff] at none
    exact none turn member accepted

/-- The third round: the items that find a request. -/
theorem merges_inTurn {news : List Turn} (same : news.Perm ledger.news) :
    (ledger.alone.withNews defaultPeriod (start.store.property minimumPeriodProperty) news).InTurn
      defaultPeriod ledger.merges
      { ledger.alone.withNews defaultPeriod (start.store.property minimumPeriodProperty) news with
        queue := world.queue } := by
  have newcomers := tracks.queueing.newcomers.perm same.symm
  have queued : world.queue = ledger.merges.foldl Turn.merged
      (ledger.alone.withNews defaultPeriod (start.store.property minimumPeriodProperty) news).queue := by
    rw [tracks.queueing.queue, tracks.queueing.newcomers.foldl_queued_perm same.symm, ← tracks.queue]
    rfl
  rw [queued]
  refine World.inTurn_of_merges ?_ ?_ ?_ ?_
  · exact fun turn member => (tracks.queueing.late turn member).usable
  · exact fun turn member => (tracks.queueing.late turn member).answered
  · exact fun turn member => tracks.inactive turn (List.mem_append_right _ member)
  · intro turn member
    have found := (tracks.queueing.late turn member).found
    simp only [World.withNews, tracks.queue]
    rw [Turn.mem_foldl_queued newcomers.newly]
    simpa only [same.mem_iff] using found

/-- When nobody has anything in hand, the three rounds are the turns of all items. -/
theorem serialized : ∃ turns alone,
    World.Serialized defaultPeriod clock start world finished turns alone := by
  obtain ⟨news, same, inTurn⟩ := tracks.exists_news
  have all : (ledger.records ++ (news ++ ledger.merges)).Perm ledger.turns := by
    rw [Ledger.turns, List.append_assoc]
    exact (same.append_right _).append_left _
  refine ⟨ledger.records ++ (news ++ ledger.merges), _, {
    inTurn := tracks.inTurn.append (inTurn.append (tracks.merges_inTurn same))
    answers := ?_
    timed := fun turn member => tracks.timed turn (all.mem_iff.mp member)
    overtaken := ?_
    queue := rfl
    records := fun pv => tracks.overlay.elsewhere pv (by simp)
    aliases := tracks.overlay.aliases
    engine := ?_ }⟩
  · have logged : finished.Perm (ledger.turns.map Turn.finished) := by simpa using tracks.logged
    exact logged.trans (all.symm.map _)
  · intro turn member was
    simp only [List.mem_append] at member
    rcases member with member | member | member
    · cases (tracks.plain turn member).symm.trans was
    · cases (tracks.queueing.newcomers.plain turn (same.mem_iff.mp member)).symm.trans was
    · have late := tracks.queueing.late turn member
      obtain ⟨plain, other, among, accepted, marked⟩ := late.overtaken was
      have there := same.mem_iff.mpr among
      exact ⟨plain, late.answered, other, by simp [there], Turn.isSubmitted_iff.mp accepted, marked⟩
  · obtain ⟨names, told, perm, -⟩ := tracks.started
    refine ⟨names, Turn.acceptedNames news, ?_, told, ?_⟩
    · have accepted : (Turn.acceptedNames news).Perm (Turn.acceptedNames ledger.news) :=
        (same.filter _).map _
      simp only [Stage.startingNames, List.filter_nil, List.map_nil, List.append_nil] at perm
      exact perm.trans accepted.symm
    · exact congrArg (Engine.told · _) tracks.engine

end Rounds
end Ledger.Tracks

theorem World.Serialized.items {defaultPeriod : Single} {clock : Nat → Time} {start after alone : World}
    {finished : List Finished} {turns : List Turn}
    (serialized : World.Serialized defaultPeriod clock start after finished turns alone) :
    (finished.map (·.item)).Perm (turns.map (·.item)) := by
  have same := serialized.answers.map (·.item)
  rwa [List.map_map] at same

theorem Crowd.serialized {surroundings : Surroundings} {defaultPeriod : Single} {start : World}
    {lists : List (List Item)} {schedule : List Nat}
    (steady : faults surroundings defaultPeriod ⟨start, lists.map Client.ofItems⟩ schedule = [])
    (done : ∀ client ∈ (run surroundings defaultPeriod ⟨start, lists.map Client.ofItems⟩ schedule).clients,
      client.isDone = true) :
    let crowd := run surroundings defaultPeriod ⟨start, lists.map Client.ofItems⟩ schedule
    crowd.clients.map (fun client => client.finished.map (·.item)) = lists ∧
      ∃ turns alone,
        World.Serialized defaultPeriod surroundings.clock start crowd.world
          (crowd.clients.flatMap Client.finished) turns alone ∧
        lists.flatten.Perm (turns.map (·.item)) := by
  intro crowd
  have items : crowd.clients.map (fun client => client.finished.map (·.item)) = lists := by
    rw [← itemsOf_of_isDone done, run_itemsOf, itemsOf_ofItems]
  constructor
  · exact items
  · have shows : Shows defaultPeriod ⟨start, lists.map Client.ofItems⟩ ⟨start, [], []⟩ := by
      refine ⟨rfl, seats_ofItems lists, ?_⟩
      simp [Client.ofItems]
    obtain ⟨⟨world, current, finished⟩, steps, ⟨rfl, seats, same⟩⟩ := run_reaches shows steady
    obtain rfl := seats.eq_nil done
    obtain ⟨ledger, tracks⟩ := Floor.orderly_of_steps steps
    obtain ⟨turns, alone, serialized⟩ := tracks.serialized
    have serialized := { serialized with answers := same.trans serialized.answers }
    have all : lists.flatten = (crowd.clients.flatMap Client.finished).map (·.item) := by
      rw [← items, List.map_flatMap, List.flatMap_def]
    exact ⟨turns, alone, serialized, all ▸ serialized.items⟩

theorem World.Serialized.taken_eq {defaultPeriod : Single} {clock : Nat → Time}
    {start after alone : World} {finished : List Finished} {turns : List Turn} {turn : Turn}
    (serialized : Serialized defaultPeriod clock start after finished turns alone)
    (member : turn ∈ turns)
    (unrivalled : ∀ other ∈ turns,
      other.item.name.baseName ≠ Name.marked turn.item.name.baseName) : turn.taken = turn.item := by
  have kept : turn.overtaken = false := by
    rw [Bool.eq_false_iff]
    intro was
    obtain ⟨-, -, other, among, -, marked⟩ := serialized.overtaken turn member was
    exact unrivalled other among marked
  simp [Turn.taken, kept]

/-- Whatever the schedule, clients that work on items at the same time answer them and leave the
queue, the records and the aliases as the same items do that take turns. The field and the alias
of an item count, unless it is overtaken by an item for the same variable with the mark. -/
theorem concurrent_items_take_turns (surroundings : Surroundings) (defaultPeriod : Single)
    (start : World) (lists : List (List Item)) (schedule : List Nat) (crowd : Crowd)
    (ran : Crowd.run surroundings defaultPeriod ⟨start, lists.map Client.ofItems⟩ schedule = crowd)
    (steady : Crowd.faults surroundings defaultPeriod ⟨start, lists.map Client.ofItems⟩ schedule = [])
    (done : ∀ client ∈ crowd.clients, client.isDone = true) :
    crowd.clients.map (fun client => client.finished.map (·.item)) = lists ∧
      ∃ turns alone,
        World.Serialized defaultPeriod surroundings.clock start crowd.world
          (crowd.clients.flatMap Client.finished) turns alone ∧
        ((∀ item ∈ lists.flatten, ∀ other ∈ lists.flatten,
            other.name.baseName ≠ Name.marked item.name.baseName) →
          ∀ turn ∈ turns, turn.taken = turn.item) := by
  obtain ⟨items, turns, alone, serialized, all⟩ := Crowd.serialized steady (ran ▸ done)
  rw [ran] at items serialized
  have given {turn : Turn} (member : turn ∈ turns) : turn.item ∈ lists.flatten :=
    all.mem_iff.mpr (List.mem_map_of_mem member)
  refine ⟨items, turns, alone, serialized, fun unrivalled turn member => ?_⟩
  exact serialized.taken_eq member fun other among => unrivalled _ (given member) _ (given among)

/-- An item that asks for a field, and one for the same variable with the mark. -/
def rivals : List (List Item) :=
  [[⟨⟨"SRC", .standard "HIHI"⟩, { pv := "SRC.HIHI" }⟩], [⟨⟨"pva://SRC", .none⟩, { pv := "pva://SRC" }⟩]]

/-- The first item finds nothing queued, the second is worked on, and then the first goes on. -/
def overtaking : List Nat := [0, 0, 0, 1, 1, 1, 1, 1, 1, 0, 0]

theorem concurrent_items_take_turns_of_overtaking :
    let start : World := .fresh (.memory .empty) .noting
    let period := AdmissionConfig.default.defaultPeriod
    let crowd := Crowd.run (.calm 0) period ⟨start, rivals.map Client.ofItems⟩ overtaking
    crowd.clients.map (fun client => client.finished.map (·.item)) = rivals ∧
      ∃ turns alone, World.Serialized period (fun _ => 0) start crowd.world
        (crowd.clients.flatMap Client.finished) turns alone := by
  intro start period crowd
  have calm : (Surroundings.calm 0).FaultFree := fun _ => rfl
  have sound : start.Sound := World.sound_fresh trivial rfl
  obtain ⟨items, turns, alone, serialized, -⟩ := concurrent_items_take_turns (.calm 0) period start rivals
    overtaking crowd rfl (Crowd.faults_eq_nil calm sound _) (by decide +kernel)
  exact ⟨items, turns, alone, serialized⟩

theorem rivals_keep_field {turns : List Turn} {alone : World}
    (same : (turns.map (·.item)).Perm rivals.flatten)
    (plain : ∀ turn ∈ turns, turn.overtaken = false)
    (inTurn : World.InTurn AdmissionConfig.default.defaultPeriod (.fresh (.memory .empty) .noting)
      turns alone) :
    alone.queue["SRC"]?.map (·.requestedFields.toList) = some ["HIHI"] := by
  have shape := List.perm_pair.mp same
  simp only [List.map_eq_cons_iff, List.map_eq_nil_iff] at shape
  have itself {turn : Turn} (member : turn ∈ turns) : turn.taken = turn.item := by
    simp [Turn.taken, plain turn member]
  rcases shape with ⟨turn, _, rfl, first, other, _, rfl, second, rfl⟩ |
    ⟨turn, _, rfl, first, other, _, rfl, second, rfl⟩
  · rw [inTurn.pair, itself (by simp), itself (by simp), first, second]
    rfl
  · rw [inTurn.pair, itself (by simp), itself (by simp), first, second]
    rfl

/-- No order of turns loses the field of the first item, but this schedule does. -/
theorem overtaken_item_loses_its_field :
    let start : World := .fresh (.memory .empty) .noting
    let period := AdmissionConfig.default.defaultPeriod
    let crowd := Crowd.run (.calm 0) period ⟨start, rivals.map Client.ofItems⟩ overtaking
    Crowd.faults (.calm 0) period ⟨start, rivals.map Client.ofItems⟩ overtaking = [] ∧
      (∀ client ∈ crowd.clients, client.isDone = true) ∧
      ∀ turns alone, (turns.map (·.item)).Perm rivals.flatten →
        (∀ turn ∈ turns, turn.overtaken = false) → start.InTurn period turns alone →
        crowd.world.queue ≠ alone.queue := by
  intro start period crowd
  have calm : (Surroundings.calm 0).FaultFree := fun _ => rfl
  have sound : start.Sound := World.sound_fresh trivial rfl
  refine ⟨Crowd.faults_eq_nil calm sound _, by decide +kernel, ?_⟩
  intro turns alone same plain inTurn equal
  have lost : crowd.world.queue["SRC"]?.map (·.requestedFields.toList) = some [] := by decide +kernel
  rw [equal, rivals_keep_field same plain inTurn] at lost
  cases lost

end ArchiveIntake
