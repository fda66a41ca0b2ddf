import ArchiveIntake.Proofs.Overlay
import ArchiveIntake.Proofs.Queueing

/-! The order in which clients that work at the same time could have taken turns, kept while they
work. Items with active variables have their turns first, in the order of their last writes; then
come the items that found nothing, and last those that found a request or were overtaken. -/

namespace ArchiveIntake

namespace Stage

def isStarting : Stage → Bool
  | .starting => true
  | _ => false

/-- An item in hand with its answer, as soon as that is certain. -/
def settled? (work : Item × Stage) : Option Finished := work.2.decision?.map (Finished.of work.1)

def startingNames (current : List (Item × Stage)) : List String :=
  (current.filter (·.2.isStarting)).map (·.1.name.baseName)

variable {item : Item} {stage : Stage} {current : List (Item × Stage)} {finished : List Finished}

theorem isStarting_of_undecided (undecided : stage.decision? = none) : stage.isStarting = false := by
  cases stage with
  | starting => cases undecided
  | checking | timing | writing | registering | merging | reading | inserting | answered => rfl

theorem isStarting_iff {result : Except AdmissionError ArchiveStatus}
    (decided : stage.decision? = some result) (unstarted : stage ≠ .answered (.ok .submitted)) :
    stage.isStarting = true ↔ result = .ok .submitted := by
  cases stage with
  | starting =>
    cases decided
    exact ⟨fun _ => rfl, fun _ => rfl⟩
  | answered other =>
    cases decided
    exact ⟨nofun, fun same => absurd (congrArg answered same) unstarted⟩
  | checking | timing | writing | registering | merging | reading | inserting => cases decided

theorem startingNames_cons (item : Item) (current : List (Item × Stage)) (other : stage.isStarting = false) :
    startingNames ((item, stage) :: current) = startingNames current := by
  simp [startingNames, other]

theorem settled?_cons (item : Item) (current : List (Item × Stage)) (undecided : stage.decision? = none) :
    ((item, stage) :: current).filterMap settled? = current.filterMap settled? := by
  simp [settled?, undecided]

end Stage

/-- The items that have had their turns, in three rounds, and the world that the first round leaves. -/
structure Ledger where
  /-- Those that found their variable active, or were refused for what they ask. -/
  records : List Turn
  /-- Those that found nothing. -/
  news : List Turn
  /-- Those that found a request, and those that were overtaken. -/
  merges : List Turn
  alone : World

namespace Ledger

def turns (ledger : Ledger) : List Turn := ledger.records ++ ledger.news ++ ledger.merges

variable {ledger : Ledger} {turn : Turn}

theorem turns_records (ledger : Ledger) (turn : Turn) (alone : World) :
    ({ ledger with records := ledger.records ++ [turn], alone } : Ledger).turns.Perm
      (turn :: ledger.turns) := by
  simp [turns]

theorem turns_news (ledger : Ledger) (turn : Turn) :
    ({ ledger with news := ledger.news ++ [turn] } : Ledger).turns.Perm (turn :: ledger.turns) := by
  have moved : ((ledger.records ++ ledger.news) ++ turn :: ledger.merges).Perm
      (turn :: ((ledger.records ++ ledger.news) ++ ledger.merges)) := List.perm_middle
  simpa [turns] using moved

theorem turns_merges (ledger : Ledger) (turn : Turn) :
    ({ ledger with merges := ledger.merges ++ [turn] } : Ledger).turns.Perm (turn :: ledger.turns) := by
  have moved : (ledger.turns ++ turn :: []).Perm (turn :: (ledger.turns ++ [])) := List.perm_middle
  simpa [turns] using moved

/-- What the turns of a ledger have in common with what the items in hand have really done. -/
structure Tracks (defaultPeriod : Single) (clock : Nat → Time) (start : World) (floor : Floor)
    (ledger : Ledger) : Prop where
  apart : floor.current.Pairwise fun work other => work.1.name.baseName ≠ other.1.name.baseName
  usable : ∀ work ∈ floor.current, work.2.decision? = none → Stage.first work.1 = .checking
  /-- Who is certain of an answer has had a turn, and nobody else has. -/
  logged : (floor.finished ++ floor.current.filterMap Stage.settled?).Perm
    (ledger.turns.map Turn.finished)
  timed : ∀ turn ∈ ledger.turns, ∃ reading, turn.now = clock reading
  plain : ∀ turn ∈ ledger.records, turn.overtaken = false
  inTurn : start.InTurn defaultPeriod ledger.records ledger.alone
  queue : ledger.alone.queue = start.queue
  engine : ledger.alone.engine = start.engine
  property : ledger.alone.store.property minimumPeriodProperty =
    start.store.property minimumPeriodProperty
  overlay : Overlay clock floor.current ledger.alone.store floor.world.store
  queueing : Queueing defaultPeriod (start.store.property minimumPeriodProperty) start.queue
    floor.current ledger.news ledger.merges floor.world.queue
  inactive : ∀ turn ∈ ledger.news ++ ledger.merges,
    ledger.alone.store.activeRecord turn.item.name.baseName = .ok none
  /-- The engine has been told of the accepted items, but for those that are about to tell it. -/
  started : ∃ names, floor.world.engine = start.engine.told names ∧
    (names ++ Stage.startingNames floor.current).Perm (Turn.acceptedNames ledger.news) ∧
    (names ≠ [] → start.engine.running = true)

namespace Tracks
variable {defaultPeriod : Single} {clock : Nat → Time} {start world : World} {item : Item}
  {stage next : Stage} {current moved : List (Item × Stage)} {finished others : List Finished}

theorem initial (defaultPeriod : Single) (clock : Nat → Time) (start : World) :
    (⟨[], [], [], start⟩ : Ledger).Tracks defaultPeriod clock start ⟨start, [], []⟩ where
  apart := .nil
  usable := by simp
  logged := .refl _
  timed := by simp [turns]
  plain := by simp
  inTurn := .nil start
  queue := rfl
  engine := rfl
  property := rfl
  overlay := .refl clock start.store
  queueing := .initial defaultPeriod _ start.queue
  inactive := by simp
  started := ⟨[], (Engine.told_nil _).symm, .refl _, fun some => absurd rfl some⟩

theorem shuffle (tracks : ledger.Tracks defaultPeriod clock start ⟨world, current, finished⟩)
    (sameCurrent : current.Perm moved) (sameFinished : finished.Perm others) :
    ledger.Tracks defaultPeriod clock start ⟨world, moved, others⟩ :=
  { tracks with
    apart := (sameCurrent.pairwise_iff fun different => different.symm).mp tracks.apart
    usable := fun work member => tracks.usable work (sameCurrent.mem_iff.mpr member)
    logged := (sameFinished.symm.append (sameCurrent.symm.filterMap _)).trans tracks.logged
    overlay := tracks.overlay.perm sameCurrent
    queueing := tracks.queueing.perm sameCurrent
    started := by
      obtain ⟨names, told, same, running⟩ := tracks.started
      have starting : (Stage.startingNames moved).Perm (Stage.startingNames current) :=
        (sameCurrent.symm.filter _).map _
      exact ⟨names, told, (starting.append_left names).trans same, running⟩ }

theorem finish {result : Except AdmissionError ArchiveStatus}
    (tracks : ledger.Tracks defaultPeriod clock start
      ⟨world, (item, .answered result) :: current, finished⟩) :
    ledger.Tracks defaultPeriod clock start ⟨world, current, .of item result :: finished⟩ :=
  { tracks with
    apart := (List.pairwise_cons.mp tracks.apart).2
    usable := fun work member => tracks.usable work (List.mem_cons_of_mem _ member)
    logged := List.perm_middle.symm.trans tracks.logged
    overlay := tracks.overlay.finish rfl
    queueing := tracks.queueing.finish
    started := tracks.started }

theorem begin (tracks : ledger.Tracks defaultPeriod clock start ⟨world, current, finished⟩)
    (free : ∀ work ∈ current, work.1.name.baseName ≠ item.name.baseName)
    (usable : Stage.first item = .checking) :
    ledger.Tracks defaultPeriod clock start ⟨world, (item, .checking) :: current, finished⟩ :=
  { tracks with
    apart := List.pairwise_cons.mpr ⟨fun work member => (free work member).symm, tracks.apart⟩
    usable := List.forall_mem_cons.mpr ⟨fun _ => usable, tracks.usable⟩
    logged := tracks.logged
    overlay := tracks.overlay.begin trivial
    queueing := tracks.queueing.begin trivial
    started := tracks.started }

theorem logged_turn {more : Ledger}
    (logged : (finished ++ current.filterMap Stage.settled?).Perm (ledger.turns.map Turn.finished))
    (same : more.turns.Perm (turn :: ledger.turns)) (decided : next.decision? = some turn.result) :
    (finished ++ ((turn.item, next) :: current).filterMap Stage.settled?).Perm
      (more.turns.map Turn.finished) := by
  have settled : Stage.settled? (turn.item, next) = some turn.finished := by
    simp [Stage.settled?, decided, Turn.finished]
  rw [List.filterMap_cons_some settled]
  exact List.perm_middle.trans ((logged.cons _).trans (same.map Turn.finished).symm)

theorem timed_turn {more : Ledger} {floor : Floor} {reading : Nat}
    (tracks : ledger.Tracks defaultPeriod clock start floor)
    (same : more.turns.Perm (turn :: ledger.turns)) (now : turn.now = clock reading) :
    ∀ other ∈ more.turns, ∃ reading, other.now = clock reading := by
  intro other member
  rcases List.mem_cons.mp (same.mem_iff.mp member) with rfl | member
  · exact ⟨reading, now⟩
  · exact tracks.timed other member

theorem starting_turn {names : List String} {news : List Turn}
    (others : (names ++ Stage.startingNames current).Perm (Turn.acceptedNames news))
    (starting : next.isStarting = turn.isSubmitted) :
    (names ++ Stage.startingNames ((turn.item, next) :: current)).Perm
      (Turn.acceptedNames (news ++ [turn])) := by
  cases accepted : turn.isSubmitted with
  | false =>
    rw [Stage.startingNames_cons turn.item current (starting.trans accepted)]
    simpa [Turn.acceptedNames, accepted] using others
  | true =>
    have first : Stage.startingNames ((turn.item, next) :: current) =
        turn.item.name.baseName :: Stage.startingNames current := by
      simp [Stage.startingNames, starting.trans accepted]
    have last : Turn.acceptedNames (news ++ [turn]) =
        Turn.acceptedNames news ++ [turn.item.name.baseName] := by
      simp [Turn.acceptedNames, accepted]
    rw [first, last]
    exact List.perm_middle.trans ((others.cons _).trans (List.perm_append_singleton _ _).symm)

/-- An item that is refused at once has its turn when it is begun. -/
theorem begin_refused (tracks : ledger.Tracks defaultPeriod clock start ⟨world, current, finished⟩)
    (free : ∀ work ∈ current, work.1.name.baseName ≠ item.name.baseName) {e : AdmissionError}
    (refused : Stage.first item = .answered (.error e)) :
    ∃ more : Ledger, more.Tracks defaultPeriod clock start
      ⟨world, (item, .answered (.error e)) :: current, finished⟩ := by
  let turn : Turn := ⟨item, clock 0, false, .error e⟩
  have same := ledger.turns_records turn ledger.alone
  have ends : Stage.Ends defaultPeriod (fun _ => turn.now) turn.taken ledger.alone
      (Stage.first turn.taken) turn.result ledger.alone := by
    change Stage.Ends defaultPeriod _ item ledger.alone (Stage.first item) (.error e) ledger.alone
    rw [refused]
    exact .answered _ _
  exact ⟨{ ledger with records := ledger.records ++ [turn] }, {
    apart := List.pairwise_cons.mpr ⟨fun work member => (free work member).symm, tracks.apart⟩
    usable := List.forall_mem_cons.mpr ⟨nofun, tracks.usable⟩
    logged := logged_turn tracks.logged same rfl
    timed := tracks.timed_turn same rfl
    plain := List.forall_mem_append.mpr ⟨tracks.plain, by simp [turn]⟩
    inTurn := tracks.inTurn.concat ends
    queue := tracks.queue
    engine := tracks.engine
    property := tracks.property
    overlay := tracks.overlay.begin trivial
    queueing := tracks.queueing.begin trivial
    inactive := tracks.inactive
    started := tracks.started }⟩

section Head
variable (tracks : ledger.Tracks defaultPeriod clock start ⟨world, (item, stage) :: current, finished⟩)
include tracks

theorem others_apart : ∀ work ∈ current, work.1.name.baseName ≠ item.name.baseName :=
  fun work member => ((List.pairwise_cons.mp tracks.apart).1 work member).symm

theorem apart_head (next : Stage) : ((item, next) :: current).Pairwise
    fun work other => work.1.name.baseName ≠ other.1.name.baseName :=
  List.pairwise_cons.mpr (List.pairwise_cons.mp tracks.apart)

variable (undecided : stage.decision? = none)
include undecided

theorem usable_head : Stage.first item = .checking := tracks.usable _ List.mem_cons_self undecided

theorem usable_next (next : Stage) :
    ∀ work ∈ (item, next) :: current, work.2.decision? = none → Stage.first work.1 = .checking :=
  List.forall_mem_cons.mpr ⟨fun _ => tracks.usable_head undecided,
    fun work member => tracks.usable work (List.mem_cons_of_mem _ member)⟩

/-- The item in front set aside, for what is known of it does not say how it is answered. -/
theorem logged_others : (finished ++ current.filterMap Stage.settled?).Perm
    (ledger.turns.map Turn.finished) := by
  have logged := tracks.logged
  rwa [Stage.settled?_cons item current undecided] at logged

theorem started_others : ∃ names, world.engine = start.engine.told names ∧
    (names ++ Stage.startingNames current).Perm (Turn.acceptedNames ledger.news) ∧
    (names ≠ [] → start.engine.running = true) := by
  have started := tracks.started
  rwa [Stage.startingNames_cons item current (Stage.isStarting_of_undecided undecided)] at started

theorem go (unsettled : next.decision? = none) {after : World}
    (overlay : Overlay clock ((item, next) :: current) ledger.alone.store after.store)
    (queueing : Queueing defaultPeriod (start.store.property minimumPeriodProperty) start.queue
      ((item, next) :: current) ledger.news ledger.merges after.queue)
    (engine : after.engine = world.engine) :
    ledger.Tracks defaultPeriod clock start ⟨after, (item, next) :: current, finished⟩ :=
  { tracks with
    apart := tracks.apart_head next
    usable := tracks.usable_next undecided next
    logged := by
      rw [Stage.settled?_cons item current unsettled]
      exact tracks.logged_others undecided
    overlay := overlay
    queueing := queueing
    started := by
      rw [Stage.startingNames_cons item current (Stage.isStarting_of_undecided unsettled), engine]
      exact tracks.started_others undecided }

theorem record {store : ConfigStore} (readings : Nat)
    (advance : Overlay.Advance defaultPeriod clock item next current ledger.alone store)
    (seeking : next.Seeking defaultPeriod (start.store.property minimumPeriodProperty) start.queue
      ledger.news item) :
    ∃ more : Ledger, more.Tracks defaultPeriod clock start
      ⟨{ world with store, readings }, (item, next) :: current, finished⟩ := by
  cases advance with
  | goes unsettled overlay =>
    exact ⟨ledger, tracks.go undecided unsettled overlay (tracks.queueing.finish.begin seeking) rfl⟩
  | ends after reading read answered ends inactive property overlay =>
    let turn : Turn := ⟨item, clock reading, false, .ok .alreadySubmitted⟩
    let alone : World := { ledger.alone with store := after, readings := read }
    have same := ledger.turns_records turn alone
    subst answered
    exact ⟨{ ledger with records := ledger.records ++ [turn], alone }, {
      apart := tracks.apart_head _
      usable := tracks.usable_next undecided _
      logged := logged_turn (tracks.logged_others undecided) same rfl
      timed := tracks.timed_turn same rfl
      plain := List.forall_mem_append.mpr ⟨tracks.plain, by simp [turn]⟩
      inTurn := tracks.inTurn.concat ends
      queue := tracks.queue
      engine := tracks.engine
      property := (property _).trans tracks.property
      overlay := overlay
      queueing := tracks.queueing.finish.begin trivial
      inactive := fun other member => inactive _ (tracks.inactive other member)
      started := tracks.started_others undecided }⟩

section Queue
variable {queue : Table PendingRecord} {reading : Nat} {result : Except AdmissionError ArchiveStatus}
  (overlay : Overlay clock ((item, next) :: current) ledger.alone.store world.store)
  (idle : ledger.alone.store.activeRecord item.name.baseName = .ok none)
  (decided : next.decision? = some result) (unstarted : next ≠ .answered (.ok .submitted))
include overlay idle decided unstarted

/-- The item in front has found nothing, and has its turn in the second round. -/
theorem newcomer (queueing : Queueing defaultPeriod (start.store.property minimumPeriodProperty)
      start.queue ((item, next) :: current) (ledger.news ++ [⟨item, clock reading, false, result⟩])
      ledger.merges queue) :
    ({ ledger with news := ledger.news ++ [⟨item, clock reading, false, result⟩] } : Ledger).Tracks
      defaultPeriod clock start ⟨{ world with queue }, (item, next) :: current, finished⟩ := by
  let turn : Turn := ⟨item, clock reading, false, result⟩
  have same := ledger.turns_news turn
  exact { tracks with
    apart := tracks.apart_head next
    usable := tracks.usable_next undecided next
    logged := logged_turn (tracks.logged_others undecided) same decided
    timed := tracks.timed_turn same rfl
    overlay := overlay
    queueing := queueing
    inactive := by
      intro other member
      rw [List.append_assoc] at member
      rcases List.mem_cons.mp (List.perm_middle.mem_iff.mp member) with rfl | member
      · exact idle
      · exact tracks.inactive other member
    started := by
      obtain ⟨names, told, others, running⟩ := tracks.started_others undecided
      have starting : next.isStarting = turn.isSubmitted := by
        rw [Bool.eq_iff_iff, Stage.isStarting_iff decided unstarted, Turn.isSubmitted_iff]
      exact ⟨names, told, starting_turn others starting, running⟩ }

/-- The item in front has found a request or was overtaken, and has its turn in the third round. -/
theorem latecomer {overtaken : Bool}
    (queueing : Queueing defaultPeriod (start.store.property minimumPeriodProperty) start.queue
      ((item, next) :: current) ledger.news
      (ledger.merges ++ [⟨item, clock reading, overtaken, result⟩]) queue) :
    ({ ledger with merges := ledger.merges ++ [⟨item, clock reading, overtaken, result⟩] } :
      Ledger).Tracks defaultPeriod clock start
        ⟨{ world with queue }, (item, next) :: current, finished⟩ := by
  let turn : Turn := ⟨item, clock reading, overtaken, result⟩
  have same := ledger.turns_merges turn
  exact { tracks with
    apart := tracks.apart_head next
    usable := tracks.usable_next undecided next
    logged := logged_turn (tracks.logged_others undecided) same decided
    timed := tracks.timed_turn same rfl
    overlay := overlay
    queueing := queueing
    inactive := by
      intro other member
      rw [← List.append_assoc] at member
      rcases List.mem_append.mp member with member | member
      · exact tracks.inactive other member
      · rw [List.mem_singleton.mp member]
        exact idle
    started := by
      have answered := (queueing.late turn (by simp [turn])).answered
      have starting : next.isStarting = false := by
        rw [Bool.eq_false_iff, Ne, Stage.isStarting_iff decided unstarted]
        rintro rfl
        cases answered
      rw [Stage.startingNames_cons item current starting]
      exact tracks.started_others undecided }

end Queue

theorem queues {queue : Table PendingRecord} (reading : Nat) (registered : stage.isRegistering = false)
    (idle : ledger.alone.store.activeRecord item.name.baseName = .ok none)
    (overlaid : next.Overlaid clock ledger.alone.store world.store item)
    (unstarted : next ≠ .answered (.ok .submitted))
    (advance : Queueing.Advance defaultPeriod (start.store.property minimumPeriodProperty) start.queue
      (clock reading) item next current ledger.news ledger.merges queue) :
    ∃ more : Ledger, more.Tracks defaultPeriod clock start
      ⟨{ world with queue }, (item, next) :: current, finished⟩ := by
  have overlay := tracks.overlay.goes tracks.others_apart registered overlaid
  cases advance with
  | goes unsettled queueing =>
    exact ⟨ledger, tracks.go undecided unsettled overlay queueing rfl⟩
  | newly result decided queueing =>
    exact ⟨_, tracks.newcomer undecided overlay idle decided unstarted queueing⟩
  | late result overtaken decided queueing =>
    exact ⟨_, tracks.latecomer undecided overlay idle decided unstarted queueing⟩

end Head

theorem tell (tracks : ledger.Tracks defaultPeriod clock start
      ⟨world, (item, .starting) :: current, finished⟩) (running : world.engine.running = true) :
    ledger.Tracks defaultPeriod clock start
      ⟨{ world with engine := world.engine.told [item.name.baseName] },
        (item, .answered (.ok .submitted)) :: current, finished⟩ :=
  { tracks with
    apart := tracks.apart_head _
    usable := List.forall_mem_cons.mpr ⟨nofun, fun work member =>
      tracks.usable work (List.mem_cons_of_mem _ member)⟩
    overlay := tracks.overlay.goes tracks.others_apart rfl trivial
    queueing := tracks.queueing.finish.begin trivial
    started := by
      obtain ⟨names, told, same, -⟩ := tracks.started
      refine ⟨names ++ [item.name.baseName], ?_, ?_, fun _ => ?_⟩
      · exact (congrArg (Engine.told · _) told).trans (Engine.told_told _ _ _)
      · rw [List.append_assoc]
        exact same
      · rw [told] at running
        exact running }

end Tracks
end Ledger

namespace Stage
variable {defaultPeriod : Single} {property : Option String} {clock : Nat → Time} {item : Item}
  {next : Stage} {alone real : ConfigStore} {start : Table PendingRecord} {news : List Turn}

theorem first_cases (item : Item) :
    first item = .checking ∨ ∃ e, first item = .answered (.error e) := by
  unfold first
  split
  · exact .inr ⟨_, rfl⟩
  · exact .inr ⟨_, rfl⟩
  · exact .inl rfl

theorem seeking_ofAlias (item : Item) :
    (ofAlias item).Seeking defaultPeriod property start news item := by
  unfold ofAlias
  split <;> trivial

theorem seeking_ofRecord (item : Item) (record : ActiveRecord) :
    (ofRecord item record).Seeking defaultPeriod property start news item := by
  unfold ofRecord
  split
  · exact seeking_ofAlias item
  · split
    · exact seeking_ofAlias item
    · trivial

theorem Resolved.overlaid (resolved : Resolved defaultPeriod property item next)
    (idle : alone.activeRecord item.name.baseName = .ok none) : next.Overlaid clock alone real item := by
  cases resolved with
  | unusable => trivial
  | usable => exact idle

theorem Resolved.unstarted (resolved : Resolved defaultPeriod property item next) :
    next ≠ .answered (.ok .submitted) := by
  cases resolved <;> nofun

end Stage

namespace Floor
variable {defaultPeriod : Single} {clock : Nat → Time} {start : World} {floor after : Floor}

/-- What the items in hand have done, they could have done in turns. -/
def Orderly (defaultPeriod : Single) (clock : Nat → Time) (start : World) (floor : Floor) : Prop :=
  ∃ ledger : Ledger, ledger.Tracks defaultPeriod clock start floor

theorem Orderly.move {world middle : World} {item : Item} {stage next : Stage}
    {current : List (Item × Stage)} {finished : List Finished}
    (orderly : Orderly defaultPeriod clock start ⟨world, (item, stage) :: current, finished⟩)
    (moves : stage.Moves defaultPeriod clock item world middle next) :
    Orderly defaultPeriod clock start ⟨middle, (item, next) :: current, finished⟩ := by
  obtain ⟨ledger, tracks⟩ := orderly
  have apart := tracks.others_apart
  cases moves with
  | active record found =>
    have usable := tracks.usable_head rfl
    exact tracks.record rfl world.readings (tracks.overlay.advance_active apart usable found)
      (Stage.seeking_ofRecord item record)
  | inactive found =>
    have idle := (tracks.overlay.here apart rfl).symm.trans found
    exact tracks.queues rfl 0 rfl idle idle nofun (.goes rfl (tracks.queueing.finish.begin trivial))
  | timed record field =>
    exact tracks.record rfl (world.readings + 1) (tracks.overlay.advance_timed apart world.readings) trivial
  | written record store written =>
    have usable := tracks.usable_head rfl
    exact tracks.record rfl world.readings (tracks.overlay.advance_written apart usable written)
      (Stage.seeking_ofAlias item)
  | registered aliasName store written =>
    have usable := tracks.usable_head rfl
    exact tracks.record rfl world.readings (tracks.overlay.advance_registered apart usable written) trivial
  | merged record found =>
    have usable := tracks.usable_head rfl
    have idle := tracks.overlay.stages _ List.mem_cons_self
    exact tracks.queues rfl 0 rfl idle trivial nofun (tracks.queueing.advance_merged usable _ found)
  | absent absent =>
    have usable := tracks.usable_head rfl
    have idle := tracks.overlay.stages _ List.mem_cons_self
    have advance := tracks.queueing.advance_absent usable (clock 0) apart absent
    rcases Stage.ofUnknown_cases defaultPeriod item (start.store.property minimumPeriodProperty) with
      resolved | ⟨asked, given, next⟩
    · exact tracks.queues rfl 0 rfl idle (resolved.overlaid idle) resolved.unstarted advance
    · rw [next] at advance ⊢
      exact tracks.queues rfl 0 rfl idle idle nofun advance
  | read asked =>
    have usable := tracks.usable_head rfl
    have idle := tracks.overlay.stages _ List.mem_cons_self
    obtain ⟨given, unseen⟩ := tracks.queueing.stages _ List.mem_cons_self
    rw [tracks.overlay.property, tracks.property]
    have resolved : Stage.Resolved defaultPeriod (start.store.property minimumPeriodProperty) item _ :=
      Stage.resolved_ofFloor given _
    -- Which stage it is does not matter here, and Lean would compute the period to find out.
    generalize Stage.ofFloor item asked _ = next at resolved ⊢
    exact tracks.queues rfl 0 rfl idle (resolved.overlaid idle) resolved.unstarted
      (tracks.queueing.advance_resolved usable _ apart unseen resolved)
  | refused policy taken =>
    have usable := tracks.usable_head rfl
    have idle := tracks.overlay.stages _ List.mem_cons_self
    have seeking := tracks.queueing.stages _ List.mem_cons_self
    exact tracks.queues rfl 0 rfl idle trivial nofun
      (tracks.queueing.advance_refused usable _ apart seeking taken)
  | inserted policy free =>
    have usable := tracks.usable_head rfl
    have idle := tracks.overlay.stages _ List.mem_cons_self
    have seeking := tracks.queueing.stages _ List.mem_cons_self
    exact tracks.queues rfl 0 rfl idle trivial nofun
      (tracks.queueing.advance_inserted usable _ apart seeking free)
  | started running => exact ⟨ledger, tracks.tell running⟩

theorem Orderly.step (orderly : floor.Orderly defaultPeriod clock start)
    (step : Step defaultPeriod clock floor after) : after.Orderly defaultPeriod clock start := by
  cases step with
  | shuffle sameCurrent sameFinished =>
    obtain ⟨ledger, tracks⟩ := orderly
    exact ⟨ledger, tracks.shuffle sameCurrent sameFinished⟩
  | begin item free =>
    obtain ⟨ledger, tracks⟩ := orderly
    rcases Stage.first_cases item with usable | ⟨e, refused⟩
    · rw [usable]
      exact ⟨ledger, tracks.begin free usable⟩
    · rw [refused]
      exact tracks.begin_refused free refused
  | move moves => exact orderly.move moves
  | finish =>
    obtain ⟨ledger, tracks⟩ := orderly
    exact ⟨ledger, tracks.finish⟩

/-- By induction on the steps. -/
theorem orderly_of_steps
    (steps : Relation.ReflTransGen (Step defaultPeriod clock) ⟨start, [], []⟩ after) :
    after.Orderly defaultPeriod clock start := by
  induction steps with
  | refl => exact ⟨_, .initial defaultPeriod clock start⟩
  | tail _ step ih => exact ih.step step

end Floor
end ArchiveIntake
