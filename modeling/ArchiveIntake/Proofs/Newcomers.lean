import ArchiveIntake.Proofs.Name
import ArchiveIntake.Proofs.Turns
import Mathlib.Data.List.Induction
import Mathlib.Data.List.Pairwise

/-! Items that look their variable up while others queue theirs. An item that finds nothing may find
its key taken later, by an item for the same variable with the mark. In turns such items go by
the length of their names: then nobody finds what others have queued after it was looked up,
since only the longer name, with the mark, puts something under a name. -/

namespace ArchiveIntake

namespace Turn

def isSubmitted (turn : Turn) : Bool :=
  match turn.result with
  | .ok .submitted => true
  | _ => false

def acceptedNames (turns : List Turn) : List String :=
  (turns.filter isSubmitted).map (·.item.name.baseName)

def queued (defaultPeriod : Single) (property : Option String) (queue : Table PendingRecord)
    (turn : Turn) : Table PendingRecord :=
  match turn.result, turn.item.spec.effectivePolicy defaultPeriod property with
  | .ok .submitted, .ok policy =>
    queue.insert turn.item.name.queueKey
      (.ofRequest turn.item.name policy turn.item.spec.aliasName)
  | _, _ => queue

def merged (queue : Table PendingRecord) (turn : Turn) : Table PendingRecord :=
  match queue[turn.item.name.baseName]? with
  | some record =>
    queue.insert turn.item.name.baseName
      (record.applyAll (Admission.pendingEdits turn.taken.name turn.taken.spec.aliasName)).1
  | none => queue

inductive Newly (defaultPeriod : Single) (property : Option String) (start : Table PendingRecord)
    (news : List Turn) (turn : Turn) : Prop
  | unresolved (e : AdmissionError) (answered : turn.result = .error e)
      (unreadable : turn.item.spec.effectivePolicy defaultPeriod property = .error e)
  | accepted (policy : EffectivePolicy) (answered : turn.result = .ok .submitted)
      (resolved : turn.item.spec.effectivePolicy defaultPeriod property = .ok policy)
      (free : turn.item.name.queueKey ∉ start)
  | refused (policy : EffectivePolicy) (answered : turn.result = .ok .alreadySubmitted)
      (resolved : turn.item.spec.effectivePolicy defaultPeriod property = .ok policy)
      (marked : Name.isMarked turn.item.name.baseName = true)
      (taken : turn.item.name.queueKey ∈ start ∨
        ∃ other ∈ news, other.isSubmitted = true ∧ other.item.name.queueKey = turn.item.name.queueKey)

/-- Items for shorter names come first. Of the items for one name those come first that queue
nothing, and those last that find their key taken. -/
def rank (turn : Turn) : Nat :=
  3 * turn.item.name.baseName.toList.length +
    match turn.result with
    | .error _ => 0
    | .ok .submitted => 1
    | .ok _ => 2

variable {defaultPeriod : Single} {property : Option String} {start queue : Table PendingRecord}
  {turn other : Turn} {news more turns : List Turn} {key : String}

theorem isSubmitted_iff : turn.isSubmitted = true ↔ turn.result = .ok .submitted := by
  unfold isSubmitted
  split
  next answered => simp [answered]
  next other => simpa using other

section Rank

theorem rank_of_error {e : AdmissionError} (answered : turn.result = .error e) :
    turn.rank = 3 * turn.item.name.baseName.toList.length := by
  simp [rank, answered]

theorem rank_of_submitted (answered : turn.result = .ok .submitted) :
    turn.rank = 3 * turn.item.name.baseName.toList.length + 1 := by
  simp [rank, answered]

theorem rank_of_alreadySubmitted (answered : turn.result = .ok .alreadySubmitted) :
    turn.rank = 3 * turn.item.name.baseName.toList.length + 2 := by
  simp [rank, answered]

theorem rank_le (turn : Turn) : turn.rank ≤ 3 * turn.item.name.baseName.toList.length + 2 := by
  unfold rank
  split <;> omega

end Rank

theorem queued_of_not_isSubmitted (turned : turn.isSubmitted = false) :
    queued defaultPeriod property queue turn = queue := by
  unfold queued
  split
  next answered _ =>
    rw [isSubmitted_iff.mpr answered] at turned
    cases turned
  next => rfl

theorem queued_of_isSubmitted {policy : EffectivePolicy} (accepted : turn.isSubmitted = true)
    (resolved : turn.item.spec.effectivePolicy defaultPeriod property = .ok policy) :
    queued defaultPeriod property queue turn =
      queue.insert turn.item.name.queueKey
        (.ofRequest turn.item.name policy turn.item.spec.aliasName) := by
  unfold queued
  rw [isSubmitted_iff.mp accepted, resolved]

theorem Newly.resolved (newly : turn.Newly defaultPeriod property start news)
    (accepted : turn.isSubmitted = true) :
    ∃ policy, turn.item.spec.effectivePolicy defaultPeriod property = .ok policy := by
  cases newly with
  | unresolved e answered => simp [isSubmitted, answered] at accepted
  | accepted policy _ resolved | refused policy _ resolved => exact ⟨policy, resolved⟩

theorem Newly.mono (newly : turn.Newly defaultPeriod property start news) (subset : news ⊆ more) :
    turn.Newly defaultPeriod property start more := by
  cases newly with
  | unresolved e answered unreadable => exact .unresolved e answered unreadable
  | accepted policy answered resolved free => exact .accepted policy answered resolved free
  | refused policy answered resolved marked taken =>
    refine .refused policy answered resolved marked (taken.imp_right ?_)
    rintro ⟨other, member, accepted, same⟩
    exact ⟨other, subset member, accepted, same⟩

theorem mem_foldl_queued (newly : ∀ turn ∈ turns, turn.Newly defaultPeriod property start news) :
    key ∈ turns.foldl (queued defaultPeriod property) queue ↔
      key ∈ queue ∨ ∃ turn ∈ turns, turn.isSubmitted = true ∧ turn.item.name.queueKey = key := by
  induction turns generalizing queue with
  | nil => simp
  | cons turn rest ih =>
    obtain ⟨here, others⟩ := List.forall_mem_cons.mp newly
    simp only [List.foldl_cons, ih others, List.mem_cons, or_and_right, exists_or, exists_eq_left]
    cases accepted : turn.isSubmitted with
    | false => simp [queued_of_not_isSubmitted accepted]
    | true =>
      obtain ⟨policy, resolved⟩ := here.resolved accepted
      rw [queued_of_isSubmitted accepted resolved, Table.mem_insert_iff, @eq_comm _ key]
      simp [or_assoc]

theorem queued_comm (accepted : turn.isSubmitted = true → other.isSubmitted = true →
      turn.item.name.queueKey ≠ other.item.name.queueKey)
    (newly : turn.Newly defaultPeriod property start news)
    (also : other.Newly defaultPeriod property start news) (queue : Table PendingRecord) :
    queued defaultPeriod property (queued defaultPeriod property queue turn) other =
      queued defaultPeriod property (queued defaultPeriod property queue other) turn := by
  cases first : turn.isSubmitted with
  | false => simp only [queued_of_not_isSubmitted first]
  | true =>
    cases second : other.isSubmitted with
    | false => simp only [queued_of_not_isSubmitted second]
    | true =>
      obtain ⟨policy, resolved⟩ := newly.resolved first
      obtain ⟨another, settled⟩ := also.resolved second
      have different := accepted first second
      simp only [queued_of_isSubmitted first resolved, queued_of_isSubmitted second settled]
      apply Std.ExtTreeMap.ext_getElem?
      intro key
      simp only [Table.getElem?_insert_iff]
      by_cases here : key = turn.item.name.queueKey
      · simp [here, different]
      · simp [here]

end Turn

structure Newcomers (defaultPeriod : Single) (property : Option String) (start : Table PendingRecord)
    (news : List Turn) : Prop where
  plain : ∀ turn ∈ news, turn.overtaken = false
  usable : ∀ turn ∈ news, Stage.first turn.item = .checking
  absent : ∀ turn ∈ news, turn.item.name.baseName ∉ start
  newly : ∀ turn ∈ news, turn.Newly defaultPeriod property start news
  distinct : news.Pairwise fun turn other => turn.isSubmitted = true → other.isSubmitted = true →
    turn.item.name.queueKey ≠ other.item.name.queueKey

namespace Newcomers
variable {defaultPeriod : Single} {property : Option String} {start : Table PendingRecord}
  {turn other : Turn} {news moved lower upper : List Turn}

theorem perm (newcomers : Newcomers defaultPeriod property start news) (same : news.Perm moved) :
    Newcomers defaultPeriod property start moved where
  plain turn member := newcomers.plain turn (same.mem_iff.mpr member)
  usable turn member := newcomers.usable turn (same.mem_iff.mpr member)
  absent turn member := newcomers.absent turn (same.mem_iff.mpr member)
  newly turn member := (newcomers.newly turn (same.mem_iff.mpr member)).mono same.subset
  distinct := by
    refine (same.pairwise_iff ?_).mp newcomers.distinct
    intro turn other different second first
    exact (different first second).symm

theorem foldl_queued_perm (newcomers : Newcomers defaultPeriod property start news)
    (same : news.Perm moved) (queue : Table PendingRecord) :
    news.foldl (Turn.queued defaultPeriod property) queue =
      moved.foldl (Turn.queued defaultPeriod property) queue := by
  let Commute (turn other : Turn) : Prop := ∀ queue,
    Turn.queued defaultPeriod property (Turn.queued defaultPeriod property queue turn) other =
      Turn.queued defaultPeriod property (Turn.queued defaultPeriod property queue other) turn
  have symmetric : Std.Symm Commute := ⟨fun _ _ commute queue => (commute queue).symm⟩
  have commute : news.Pairwise Commute := newcomers.distinct.imp_of_mem fun first second different =>
    Turn.queued_comm different (newcomers.newly _ first) (newcomers.newly _ second)
  refine same.foldl_eq' (fun turn member other also queue => ?_) queue
  exact commute.forall_of_forall (fun _ _ _ => rfl) member also queue

section Sorted
variable (newcomers : Newcomers defaultPeriod property start (lower ++ turn :: upper))
  (sorted : (lower ++ turn :: upper).Pairwise fun turn other => turn.rank ≤ other.rank)
include newcomers sorted

/-- Whoever queues something under the name of an item has a longer name, or comes after it. -/
theorem absent_of_sorted :
    turn.item.name.baseName ∉ lower.foldl (Turn.queued defaultPeriod property) start := by
  have member : turn ∈ lower ++ turn :: upper := by simp
  rw [Turn.mem_foldl_queued fun other inside => newcomers.newly other (List.mem_append_left _ inside)]
  rintro (held | ⟨other, inside, accepted, same⟩)
  · exact newcomers.absent turn member held
  obtain ⟨-, -, ordered⟩ := List.pairwise_append.mp sorted
  have ranks := ordered other inside turn List.mem_cons_self
  rw [Turn.rank_of_submitted (Turn.isSubmitted_iff.mp accepted)] at ranks
  rcases Name.queueKey_eq_iff.mp same with long | ⟨own, plain⟩
  · rw [long, Name.length_marked] at ranks
    have bound := turn.rank_le
    omega
  · rw [own] at ranks
    cases newcomers.newly turn member with
    | unresolved e answered =>
      rw [Turn.rank_of_error answered] at ranks
      omega
    | accepted policy answered =>
      obtain ⟨-, -, distinct⟩ := List.pairwise_append.mp newcomers.distinct
      refine distinct other inside turn List.mem_cons_self accepted (Turn.isSubmitted_iff.mpr answered) ?_
      exact same.trans (Name.queueKey_of_not_isMarked plain).symm
    | refused policy answered resolved marked =>
      rw [plain] at marked
      cases marked

theorem taken_of_sorted (answered : turn.result = .ok .alreadySubmitted) :
    turn.item.name.queueKey ∈ lower.foldl (Turn.queued defaultPeriod property) start := by
  have member : turn ∈ lower ++ turn :: upper := by simp
  rw [Turn.mem_foldl_queued fun other inside => newcomers.newly other (List.mem_append_left _ inside)]
  cases newcomers.newly turn member with
  | unresolved e other | accepted policy other => cases answered.symm.trans other
  | refused policy _ resolved marked taken =>
    refine taken.imp_right ?_
    rintro ⟨other, inside, accepted, same⟩
    refine ⟨other, (List.mem_append.mp inside).resolve_right fun later => ?_, accepted, same⟩
    have submitted := Turn.isSubmitted_iff.mp accepted
    rcases List.mem_cons.mp later with rfl | later
    · cases answered.symm.trans submitted
    obtain ⟨-, ordered, -⟩ := List.pairwise_append.mp sorted
    have ranks := List.rel_of_pairwise_cons ordered later
    rw [Turn.rank_of_alreadySubmitted answered, Turn.rank_of_submitted submitted,
      Name.eq_marked_queueKey marked, Name.length_marked] at ranks
    rcases Name.queueKey_eq_iff.mp same with long | ⟨short, -⟩
    · rw [long, Name.length_marked, NormalizedName.queueKey] at ranks
      omega
    · rw [short, NormalizedName.queueKey] at ranks
      omega

end Sorted
end Newcomers

namespace World
variable {defaultPeriod : Single} {property : Option String} {start : Table PendingRecord} {world : World}

def withNews (defaultPeriod : Single) (property : Option String) (world : World) (turns : List Turn) :
    World :=
  { world with
    queue := turns.foldl (Turn.queued defaultPeriod property) world.queue
    engine := world.engine.told (Turn.acceptedNames turns) }

theorem withNews_concat_of_accepted {turn : Turn} (turns : List Turn) {policy : EffectivePolicy}
    (accepted : turn.isSubmitted = true)
    (resolved : turn.item.spec.effectivePolicy defaultPeriod property = .ok policy) :
    world.withNews defaultPeriod property (turns ++ [turn]) =
      { world.withNews defaultPeriod property turns with
        queue := (world.withNews defaultPeriod property turns).queue.insert turn.item.name.queueKey
          (.ofRequest turn.item.name policy turn.item.spec.aliasName)
        engine := (world.withNews defaultPeriod property turns).engine.told
          [turn.item.name.baseName] } := by
  simp [withNews, Turn.acceptedNames, Turn.queued_of_isSubmitted accepted resolved, accepted,
    Engine.told_told]

theorem withNews_concat {turn : Turn} (turns : List Turn) (answered : turn.isSubmitted = false) :
    world.withNews defaultPeriod property (turns ++ [turn]) =
      world.withNews defaultPeriod property turns := by
  simp [withNews, Turn.acceptedNames, Turn.queued_of_not_isSubmitted answered, answered]

variable {news : List Turn}
  (newcomers : Newcomers defaultPeriod (world.store.property minimumPeriodProperty) world.queue news)
  (inactive : ∀ turn ∈ news, world.store.activeRecord turn.item.name.baseName = .ok none)
  (running : ∀ turn ∈ news, turn.isSubmitted = true → world.engine.running = true)
include newcomers inactive running

/-- In order of rank, items are answered as they were. By induction on how many have had their turn. -/
theorem inTurn_of_sorted {turns upper : List Turn} (cut : news = turns ++ upper)
    (sorted : news.Pairwise fun turn other => turn.rank ≤ other.rank) :
    world.InTurn defaultPeriod turns
      (world.withNews defaultPeriod (world.store.property minimumPeriodProperty) turns) := by
  induction turns using List.reverseRecOn generalizing upper with
  | nil =>
    simp only [withNews, Turn.acceptedNames, List.filter_nil, List.map_nil, Engine.told_nil,
      List.foldl_nil]
    exact .nil world
  | append_singleton lower turn ih =>
    rw [List.append_assoc, List.singleton_append] at cut
    subst cut
    have member : turn ∈ lower ++ turn :: upper := by simp
    have itself : turn.taken = turn.item := by simp [Turn.taken, newcomers.plain turn member]
    have usable := newcomers.usable turn member
    let before := world.withNews defaultPeriod (world.store.property minimumPeriodProperty) lower
    have idle : before.store.activeRecord turn.item.name.baseName = .ok none := inactive turn member
    have absent : before.queue[turn.item.name.baseName]? = none :=
      Table.getElem?_eq_none_iff.mpr (newcomers.absent_of_sorted sorted)
    refine (ih rfl).concat ?_
    rw [itself]
    cases newcomers.newly turn member with
    | unresolved e answered unreadable =>
      rw [withNews_concat lower (by simp [Turn.isSubmitted, answered]), answered]
      exact Stage.ends_of_unusable usable idle absent _ unreadable
    | accepted policy answered resolved free =>
      have accepted := Turn.isSubmitted_iff.mpr answered
      rw [withNews_concat_of_accepted lower accepted resolved, answered]
      refine Stage.ends_of_free usable idle absent _ resolved ?_
        (running turn member accepted)
      change turn.item.name.queueKey ∉ lower.foldl _ world.queue
      rw [Turn.mem_foldl_queued fun other inside => newcomers.newly other (List.mem_append_left _ inside)]
      rintro (held | ⟨other, inside, also, same⟩)
      · exact free held
      · obtain ⟨-, -, distinct⟩ := List.pairwise_append.mp newcomers.distinct
        exact distinct other inside turn List.mem_cons_self also accepted same
    | refused policy answered resolved marked taken =>
      rw [withNews_concat lower (by simp [Turn.isSubmitted, answered]), answered]
      exact Stage.ends_of_taken usable idle absent _ resolved
        (newcomers.taken_of_sorted sorted answered)

theorem exists_inTurn :
    ∃ turns, turns.Perm news ∧ world.InTurn defaultPeriod turns
      (world.withNews defaultPeriod (world.store.property minimumPeriodProperty) turns) := by
  let turns := news.mergeSort fun turn other => turn.rank ≤ other.rank
  have same : turns.Perm news := List.mergeSort_perm _ _
  have sorted : turns.Pairwise fun turn other => turn.rank ≤ other.rank := by
    refine (List.pairwise_mergeSort ?_ ?_ news).imp of_decide_eq_true
    · intro first second third before after
      simp only [decide_eq_true_eq] at before after ⊢
      exact Nat.le_trans before after
    · intro first second
      simp only [Bool.or_eq_true, decide_eq_true_eq]
      exact Nat.le_total _ _
  refine ⟨turns, same, inTurn_of_sorted (newcomers.perm same.symm) ?_ ?_ (List.append_nil _).symm sorted⟩
  · exact fun turn member => inactive turn (same.mem_iff.mp member)
  · exact fun turn member => running turn (same.mem_iff.mp member)

end World

theorem Turn.mem_merged {queue : Table PendingRecord} {turn : Turn} {key : String} :
    key ∈ turn.merged queue ↔ key ∈ queue := by
  unfold Turn.merged
  split
  next record found => exact Table.mem_insert_of_mem (Table.mem_of_getElem? found)
  next => rfl

theorem Turn.mem_foldl_merged {queue : Table PendingRecord} {turns : List Turn} {key : String} :
    key ∈ turns.foldl Turn.merged queue ↔ key ∈ queue := by
  induction turns generalizing queue with
  | nil => rfl
  | cons turn rest ih => rw [List.foldl_cons, ih, Turn.mem_merged]

theorem World.inTurn_of_merges {defaultPeriod : Single} {world : World} {turns : List Turn}
    (usable : ∀ turn ∈ turns, Stage.first turn.item = .checking)
    (answered : ∀ turn ∈ turns, turn.result = .ok .alreadySubmitted)
    (inactive : ∀ turn ∈ turns, world.store.activeRecord turn.item.name.baseName = .ok none)
    (queued : ∀ turn ∈ turns, turn.item.name.baseName ∈ world.queue) :
    world.InTurn defaultPeriod turns { world with queue := turns.foldl Turn.merged world.queue } := by
  induction turns generalizing world with
  | nil => exact .nil world
  | cons turn rest ih =>
    obtain ⟨hereUsable, usable⟩ := List.forall_mem_cons.mp usable
    obtain ⟨hereAnswered, answered⟩ := List.forall_mem_cons.mp answered
    obtain ⟨hereInactive, inactive⟩ := List.forall_mem_cons.mp inactive
    obtain ⟨hereQueued, queued⟩ := List.forall_mem_cons.mp queued
    obtain ⟨record, found⟩ :=
      Option.isSome_iff_exists.mp (Std.ExtTreeMap.mem_iff_isSome_getElem?.mp hereQueued)
    have others : InTurn defaultPeriod { world with queue := turn.merged world.queue } rest
        { world with queue := (turn :: rest).foldl Turn.merged world.queue } :=
      ih usable answered inactive fun other inside => Turn.mem_merged.mpr (queued other inside)
    refine .of_ends ?_ others
    have own := turn.taken_baseName
    rw [← own] at hereInactive found
    have merged : turn.merged world.queue = world.queue.insert turn.taken.name.baseName
        (record.applyAll (Admission.pendingEdits turn.taken.name turn.taken.spec.aliasName)).1 := by
      rw [Turn.merged, ← own, found]
    rw [hereAnswered, merged]
    exact Stage.ends_of_pending (turn.first_taken hereUsable) hereInactive defaultPeriod _ found

end ArchiveIntake
