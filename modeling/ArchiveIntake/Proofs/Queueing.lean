import ArchiveIntake.Proofs.Newcomers

/-! The queue while items are in hand. It has the requests of the items that found nothing, and what
later items have merged into them. An item that found nothing and has not queued its request yet
can only be overtaken by an item for the same variable with the mark, for work under its own base
name excludes it. -/

namespace ArchiveIntake

/-- Nothing was queued under the base name of an item when it was looked up, and no other item has
queued its own request there since. -/
structure Item.Unseen (start : Table PendingRecord) (news : List Turn) (item : Item) : Prop where
  absent : item.name.baseName ∉ start
  others : ∀ turn ∈ news, turn.isSubmitted = true → turn.item.name.queueKey = item.name.baseName →
    turn.item.name.baseName ≠ item.name.baseName

/-- What is known of an item at a stage that has found nothing. -/
def Stage.Seeking (defaultPeriod : Single) (property : Option String) (start : Table PendingRecord)
    (news : List Turn) (item : Item) : Stage → Prop
  | .reading asked => item.spec.override = .ok (some asked) ∧ item.Unseen start news
  | .inserting policy =>
    item.spec.effectivePolicy defaultPeriod property = .ok policy ∧ item.Unseen start news
  | _ => True

/-- The turn of an item that is worked on after the items that found nothing: it has found its
variable queued, or was overtaken. -/
structure Turn.Late (start : Table PendingRecord) (news : List Turn) (turn : Turn) : Prop where
  usable : Stage.first turn.item = .checking
  answered : turn.result = .ok .alreadySubmitted
  found : turn.item.name.baseName ∈ start ∨
    ∃ other ∈ news, other.isSubmitted = true ∧ other.item.name.queueKey = turn.item.name.baseName
  overtaken : turn.overtaken = true → Name.isMarked turn.item.name.baseName = false ∧
    ∃ other ∈ news, other.isSubmitted = true ∧
      other.item.name.baseName = Name.marked turn.item.name.baseName

theorem Turn.Late.mono {start : Table PendingRecord} {news more : List Turn} {turn : Turn}
    (late : turn.Late start news) (subset : news ⊆ more) : turn.Late start more where
  usable := late.usable
  answered := late.answered
  found := late.found.imp_right fun ⟨other, member, queued⟩ => ⟨other, subset member, queued⟩
  overtaken was := by
    obtain ⟨plain, other, member, queued⟩ := late.overtaken was
    exact ⟨plain, other, subset member, queued⟩

/-- What merges into other requests does not see that a further one is queued. -/
theorem Turn.merged_insert {queue : Table PendingRecord} {turn : Turn} {key : String}
    (record : PendingRecord) (different : turn.item.name.baseName ≠ key) :
    turn.merged (queue.insert key record) = (turn.merged queue).insert key record := by
  have lookup : (queue.insert key record)[turn.item.name.baseName]? =
      queue[turn.item.name.baseName]? := by
    rw [Table.getElem?_insert_iff, if_neg different]
  unfold Turn.merged
  rw [lookup]
  split
  next found held =>
    apply Std.ExtTreeMap.ext_getElem?
    intro other
    simp only [Table.getElem?_insert_iff]
    by_cases here : other = key
    · simp [here, Ne.symm different]
    · simp [here]
  next => rfl

theorem Turn.foldl_merged_insert {queue : Table PendingRecord} {turns : List Turn} {key : String}
    (record : PendingRecord) (different : ∀ turn ∈ turns, turn.item.name.baseName ≠ key) :
    turns.foldl Turn.merged (queue.insert key record) =
      (turns.foldl Turn.merged queue).insert key record := by
  induction turns generalizing queue with
  | nil => rfl
  | cons turn rest ih =>
    obtain ⟨here, others⟩ := List.forall_mem_cons.mp different
    rw [List.foldl_cons, List.foldl_cons, Turn.merged_insert record here, ih others]

theorem Stage.Seeking.mono {defaultPeriod : Single} {property : Option String}
    {start : Table PendingRecord} {news : List Turn} {item : Item} {stage : Stage} {turn : Turn}
    (seeking : stage.Seeking defaultPeriod property start news item)
    (different : turn.item.name.baseName ≠ item.name.baseName) :
    stage.Seeking defaultPeriod property start (news ++ [turn]) item := by
  have unseen (before : item.Unseen start news) : item.Unseen start (news ++ [turn]) := by
    refine ⟨before.absent, fun other member => ?_⟩
    rcases List.mem_append.mp member with member | member
    · exact before.others other member
    · intro _ _
      exact List.mem_singleton.mp member ▸ different
  cases stage with
  | reading | inserting => exact ⟨seeking.1, unseen seeking.2⟩
  | checking | timing | writing | registering | merging | starting | answered => trivial

/-- The queue as it is, beside the turns of the items that are through with it. -/
structure Queueing (defaultPeriod : Single) (property : Option String) (start : Table PendingRecord)
    (current : List (Item × Stage)) (news merges : List Turn) (queue : Table PendingRecord) : Prop where
  newcomers : Newcomers defaultPeriod property start news
  queue : queue = merges.foldl Turn.merged (news.foldl (Turn.queued defaultPeriod property) start)
  late : ∀ turn ∈ merges, turn.Late start news
  stages : ∀ work ∈ current, work.2.Seeking defaultPeriod property start news work.1

namespace Queueing
variable {defaultPeriod : Single} {property : Option String} {start queue : Table PendingRecord}
  {current moved : List (Item × Stage)} {news merges : List Turn} {item : Item} {stage next : Stage}
  {key : String}

theorem initial (defaultPeriod : Single) (property : Option String) (start : Table PendingRecord) :
    Queueing defaultPeriod property start [] [] [] start where
  newcomers := ⟨by simp, by simp, by simp, by simp, .nil⟩
  queue := rfl
  late := by simp
  stages := by simp

theorem perm (queueing : Queueing defaultPeriod property start current news merges queue)
    (same : current.Perm moved) : Queueing defaultPeriod property start moved news merges queue :=
  { queueing with stages := fun work member => queueing.stages work (same.mem_iff.mpr member) }

theorem finish (queueing : Queueing defaultPeriod property start ((item, stage) :: current) news merges
    queue) : Queueing defaultPeriod property start current news merges queue :=
  { queueing with stages := fun work member => queueing.stages work (List.mem_cons_of_mem _ member) }

theorem begin (queueing : Queueing defaultPeriod property start current news merges queue)
    (seeking : stage.Seeking defaultPeriod property start news item) :
    Queueing defaultPeriod property start ((item, stage) :: current) news merges queue :=
  { queueing with stages := List.forall_mem_cons.mpr ⟨seeking, queueing.stages⟩ }

theorem mem_queue (queueing : Queueing defaultPeriod property start current news merges queue) :
    key ∈ queue ↔ key ∈ start ∨
      ∃ turn ∈ news, turn.isSubmitted = true ∧ turn.item.name.queueKey = key := by
  rw [queueing.queue, Turn.mem_foldl_merged, Turn.mem_foldl_queued queueing.newcomers.newly]

theorem unseen (queueing : Queueing defaultPeriod property start current news merges queue)
    (absent : queue[item.name.baseName]? = none) : item.Unseen start news := by
  have free := Table.getElem?_eq_none_iff.mp absent
  rw [queueing.mem_queue] at free
  refine ⟨fun held => free (.inl held), ?_⟩
  intro turn member accepted same
  exact absurd (.inr ⟨turn, member, accepted, same⟩) free

theorem merge {turn : Turn} (queueing : Queueing defaultPeriod property start current news merges queue)
    (late : turn.Late start news) :
    Queueing defaultPeriod property start current news (merges ++ [turn]) (turn.merged queue) where
  newcomers := queueing.newcomers
  queue := by rw [List.foldl_concat, ← queueing.queue]
  late other member := by
    rcases List.mem_append.mp member with member | member
    · exact queueing.late other member
    · exact List.mem_singleton.mp member ▸ late
  stages := queueing.stages

/-- One more item that found nothing. Whatever is merged into other requests, its own comes last. -/
theorem enroll (queueing : Queueing defaultPeriod property start current news merges queue) (turn : Turn)
    (apart : ∀ work ∈ current, work.1.name.baseName ≠ turn.item.name.baseName)
    (plain : turn.overtaken = false) (usable : Stage.first turn.item = .checking)
    (absent : turn.item.name.baseName ∉ start) (newly : turn.Newly defaultPeriod property start news)
    (free : turn.isSubmitted = true → turn.item.name.queueKey ∉ queue) :
    Queueing defaultPeriod property start current (news ++ [turn]) merges
      (turn.queued defaultPeriod property queue) := by
  have subset : news ⊆ news ++ [turn] := List.subset_append_left _ _
  have both {P : Turn → Prop} (before : ∀ other ∈ news, P other) (here : P turn) :
      ∀ other ∈ news ++ [turn], P other := by
    intro other member
    rcases List.mem_append.mp member with member | member
    · exact before other member
    · exact List.mem_singleton.mp member ▸ here
  refine ⟨⟨both queueing.newcomers.plain plain, both queueing.newcomers.usable usable,
    both queueing.newcomers.absent absent, ?_, ?_⟩, ?_, ?_, ?_⟩
  · exact both (fun other member => (queueing.newcomers.newly other member).mono subset) (newly.mono subset)
  · refine List.pairwise_append.mpr ⟨queueing.newcomers.distinct, List.pairwise_singleton _ _, ?_⟩
    intro other member last only accepted also same
    cases List.mem_singleton.mp only
    exact free also (queueing.mem_queue.mpr (.inr ⟨other, member, accepted, same⟩))
  · rw [List.foldl_concat]
    cases accepted : turn.isSubmitted with
    | false =>
      rw [Turn.queued_of_not_isSubmitted accepted, Turn.queued_of_not_isSubmitted accepted]
      exact queueing.queue
    | true =>
      obtain ⟨policy, resolved⟩ := newly.resolved accepted
      rw [Turn.queued_of_isSubmitted accepted resolved, Turn.queued_of_isSubmitted accepted resolved,
        Turn.foldl_merged_insert, ← queueing.queue]
      intro other member same
      exact free accepted (same ▸ queueing.mem_queue.mpr (queueing.late other member).found)
  · exact fun other member => (queueing.late other member).mono subset
  · exact fun work member => (queueing.stages work member).mono (apart work member).symm

inductive Advance (defaultPeriod : Single) (property : Option String) (start : Table PendingRecord)
    (now : Time) (item : Item) (next : Stage) (current : List (Item × Stage)) (news merges : List Turn)
    (queue : Table PendingRecord) : Prop
  | goes (undecided : next.decision? = none)
      (queueing : Queueing defaultPeriod property start ((item, next) :: current) news merges queue)
  | newly (result : Except AdmissionError ArchiveStatus) (decided : next.decision? = some result)
      (queueing : Queueing defaultPeriod property start ((item, next) :: current)
        (news ++ [⟨item, now, false, result⟩]) merges queue)
  | late (result : Except AdmissionError ArchiveStatus) (overtaken : Bool)
      (decided : next.decision? = some result)
      (queueing : Queueing defaultPeriod property start ((item, next) :: current) news
        (merges ++ [⟨item, now, overtaken, result⟩]) queue)

section Head
variable (queueing : Queueing defaultPeriod property start ((item, stage) :: current) news merges queue)
  (usable : Stage.first item = .checking) (now : Time)
include queueing usable

theorem advance_merged {record : PendingRecord} (found : queue[item.name.baseName]? = some record) :
    Advance defaultPeriod property start now item (.answered (.ok .alreadySubmitted)) current news merges
      (queue.insert item.name.baseName
        (record.applyAll (Admission.pendingEdits item.name item.spec.aliasName)).1) := by
  let turn : Turn := ⟨item, now, false, .ok .alreadySubmitted⟩
  have late : turn.Late start news :=
    ⟨usable, rfl, queueing.mem_queue.mp (Table.mem_of_getElem? found), nofun⟩
  have merged : turn.merged queue = queue.insert item.name.baseName
      (record.applyAll (Admission.pendingEdits item.name item.spec.aliasName)).1 := by
    rw [Turn.merged, found]
    rfl
  rw [← merged]
  exact .late _ false rfl ((queueing.finish.merge late).begin trivial)

variable (apart : ∀ work ∈ current, work.1.name.baseName ≠ item.name.baseName)
include apart

theorem advance_resolved (unseen : item.Unseen start news)
    (resolved : Stage.Resolved defaultPeriod property item next) :
    Advance defaultPeriod property start now item next current news merges queue := by
  cases resolved with
  | usable policy resolved => exact .goes rfl (queueing.finish.begin ⟨resolved, unseen⟩)
  | unusable e unreadable =>
    let turn : Turn := ⟨item, now, false, .error e⟩
    have enrolled := queueing.finish.enroll turn apart rfl usable unseen.absent
      (.unresolved e rfl unreadable) nofun
    exact .newly _ rfl (enrolled.begin trivial)

theorem advance_absent (absent : queue[item.name.baseName]? = none) :
    Advance defaultPeriod property start now item (.ofUnknown defaultPeriod item) current news merges
      queue := by
  have unseen := queueing.unseen absent
  rcases Stage.ofUnknown_cases defaultPeriod item property with resolved | ⟨asked, given, next⟩
  · exact queueing.advance_resolved usable now apart unseen resolved
  · rw [next]
    exact .goes rfl (queueing.finish.begin ⟨given, unseen⟩)

variable {policy : EffectivePolicy}
  (seeking : (Stage.inserting policy).Seeking defaultPeriod property start news item)
include seeking

theorem advance_inserted (free : item.name.queueKey ∉ queue) :
    Advance defaultPeriod property start now item .starting current news merges
      (queue.insert item.name.queueKey (.ofRequest item.name policy item.spec.aliasName)) := by
  obtain ⟨resolved, unseen⟩ := seeking
  let turn : Turn := ⟨item, now, false, .ok .submitted⟩
  have start : item.name.queueKey ∉ start := fun held => free (queueing.mem_queue.mpr (.inl held))
  have enrolled := queueing.finish.enroll turn apart rfl usable unseen.absent
    (.accepted policy rfl resolved start) fun _ => free
  have accepted : turn.isSubmitted = true := rfl
  rw [Turn.queued_of_isSubmitted accepted resolved] at enrolled
  exact .newly _ rfl (enrolled.begin trivial)

/-- A marked item is refused as in its turn, and any other has been overtaken: its key is its base
name, and nothing was queued there when it was looked up. -/
theorem advance_refused (taken : item.name.queueKey ∈ queue) :
    Advance defaultPeriod property start now item (.answered (.ok .alreadySubmitted)) current news merges
      queue := by
  obtain ⟨resolved, unseen⟩ := seeking
  have held := queueing.mem_queue.mp taken
  cases mark : Name.isMarked item.name.baseName with
  | true =>
    let turn : Turn := ⟨item, now, false, .ok .alreadySubmitted⟩
    have enrolled := queueing.finish.enroll turn apart rfl usable unseen.absent
      (.refused policy rfl resolved mark held) nofun
    exact .newly _ rfl (enrolled.begin trivial)
  | false =>
    have own : item.name.queueKey = item.name.baseName := Name.queueKey_of_not_isMarked mark
    rw [own] at held
    obtain ⟨other, member, accepted, same⟩ := held.resolve_left unseen.absent
    -- The lock kept others with its base name away, so its key was taken by the marked name.
    have marked : other.item.name.baseName = Name.marked item.name.baseName := by
      rcases Name.queueKey_eq_iff.mp same with marked | ⟨equal, -⟩
      · exact marked
      · exact absurd equal (unseen.others other member accepted same)
    let turn : Turn := ⟨item, now, true, .ok .alreadySubmitted⟩
    have late : turn.Late start news :=
      ⟨usable, rfl, .inr ⟨other, member, accepted, same⟩, fun _ => ⟨mark, other, member, accepted, marked⟩⟩
    have unchanged : turn.merged queue = queue := by
      unfold Turn.merged
      split
      next record found => exact Table.insert_eq_self found
      next => rfl
    have merged := queueing.finish.merge late
    rw [unchanged] at merged
    exact .late _ true rfl (merged.begin trivial)

end Head
end Queueing
end ArchiveIntake
