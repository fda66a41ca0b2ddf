import ArchiveIntake.Proofs.Calm
import ArchiveIntake.Proofs.Stages
import Mathlib.Data.List.Perm.Basic

/-! Clients that work at the same time, put down as the items in hand with their stages. Which client
has an item and in which order items stand does not matter any more: an item is begun when nobody
works under its base name, moves, and is finished. Whatever a crowd does when nothing fails, such
a floor does too, so what holds of all floors holds of all schedules. -/

namespace ArchiveIntake

structure Floor where
  world : World
  current : List (Item × Stage)
  finished : List Finished

def Finished.of (item : Item) (result : Except AdmissionError ArchiveStatus) : Finished :=
  ⟨item, outcomeOf item.name.baseName result⟩

namespace Floor

inductive Step (defaultPeriod : Single) (clock : Nat → Time) : Floor → Floor → Prop
  | shuffle {world : World} {current moved : List (Item × Stage)} {finished others : List Finished}
      (sameCurrent : current.Perm moved) (sameFinished : finished.Perm others) :
      Step defaultPeriod clock ⟨world, current, finished⟩ ⟨world, moved, others⟩
  | begin {world : World} {current : List (Item × Stage)} {finished : List Finished} (item : Item)
      (free : ∀ work ∈ current, work.1.name.baseName ≠ item.name.baseName) :
      Step defaultPeriod clock ⟨world, current, finished⟩
        ⟨world, (item, .first item) :: current, finished⟩
  | move {world after : World} {current : List (Item × Stage)} {finished : List Finished} {item : Item}
      {stage next : Stage} (moves : stage.Moves defaultPeriod clock item world after next) :
      Step defaultPeriod clock ⟨world, (item, stage) :: current, finished⟩
        ⟨after, (item, next) :: current, finished⟩
  | finish {world : World} {current : List (Item × Stage)} {finished : List Finished} {item : Item}
      {result : Except AdmissionError ArchiveStatus} :
      Step defaultPeriod clock ⟨world, (item, .answered result) :: current, finished⟩
        ⟨world, current, .of item result :: finished⟩

end Floor

/-- The items in hand of clients, with the stages that their programs are at. -/
inductive Seats (defaultPeriod : Single) : List Client → List (Item × Stage) → Prop
  | nil : Seats defaultPeriod [] []
  | idle {clients : List Client} {current : List (Item × Stage)} (waiting : List Item)
      (finished : List Finished) (others : Seats defaultPeriod clients current) :
      Seats defaultPeriod (⟨waiting, none, finished⟩ :: clients) current
  | busy {clients : List Client} {current : List (Item × Stage)} {item : Item} {stage : Stage}
      {program : Program (Except AdmissionError ArchiveOutcome)} (waiting : List Item)
      (finished : List Finished) (runs : stage.Runs defaultPeriod item program)
      (others : Seats defaultPeriod clients current) :
      Seats defaultPeriod (⟨waiting, some ⟨item, program⟩, finished⟩ :: clients)
        ((item, stage) :: current)

section Seats
variable {defaultPeriod : Single} {clients others : List Client} {current : List (Item × Stage)}

theorem Seats.perm (seats : Seats defaultPeriod clients current) (same : clients.Perm others) :
    ∃ moved, current.Perm moved ∧ Seats defaultPeriod others moved := by
  induction same generalizing current with
  | nil => exact ⟨current, .refl _, seats⟩
  | cons client _ ih =>
    cases seats with
    | idle waiting finished rest =>
      obtain ⟨moved, same, seats⟩ := ih rest
      exact ⟨moved, same, .idle waiting finished seats⟩
    | busy waiting finished runs rest =>
      obtain ⟨moved, same, seats⟩ := ih rest
      exact ⟨_ :: moved, same.cons _, .busy waiting finished runs seats⟩
  | swap first second rest =>
    cases seats with
    | idle waiting finished seats =>
      cases seats with
      | idle more done seats => exact ⟨_, .refl _, .idle more done (.idle waiting finished seats)⟩
      | busy more done runs seats => exact ⟨_, .refl _, .busy more done runs (.idle waiting finished seats)⟩
    | busy waiting finished runs seats =>
      cases seats with
      | idle more done seats => exact ⟨_, .refl _, .idle more done (.busy waiting finished runs seats)⟩
      | busy more done goes seats =>
        exact ⟨_, .swap _ _ _, .busy more done goes (.busy waiting finished runs seats)⟩
  | trans _ _ first second =>
    obtain ⟨middle, same, seats⟩ := first seats
    obtain ⟨moved, also, seats⟩ := second seats
    exact ⟨moved, same.trans also, seats⟩

theorem Seats.holds (seats : Seats defaultPeriod clients current) {work : Item × Stage}
    (member : work ∈ current) : ∃ client ∈ clients, client.holds work.1.name.baseName = true := by
  induction seats with
  | nil => cases member
  | idle waiting finished _ ih =>
    obtain ⟨client, inside, holds⟩ := ih member
    exact ⟨client, List.mem_cons_of_mem _ inside, holds⟩
  | busy waiting finished runs _ ih =>
    rcases List.mem_cons.mp member with rfl | member
    · exact ⟨_, List.mem_cons_self, by simp [Client.holds]⟩
    · obtain ⟨client, inside, holds⟩ := ih member
      exact ⟨client, List.mem_cons_of_mem _ inside, holds⟩

theorem Seats.eq_nil (seats : Seats defaultPeriod clients current)
    (done : ∀ client ∈ clients, client.isDone = true) : current = [] := by
  induction seats with
  | nil => rfl
  | idle waiting finished _ ih => exact ih fun client member => done client (List.mem_cons_of_mem _ member)
  | busy waiting finished runs _ ih =>
    have working := done _ List.mem_cons_self
    simp [Client.isDone] at working

theorem seats_ofItems (lists : List (List Item)) : Seats defaultPeriod (lists.map Client.ofItems) [] := by
  induction lists with
  | nil => exact .nil
  | cons items rest ih => exact .idle items [] ih

end Seats

structure Crowd.Shows (defaultPeriod : Single) (crowd : Crowd) (floor : Floor) : Prop where
  world : floor.world = crowd.world
  seats : Seats defaultPeriod crowd.clients floor.current
  finished : (crowd.clients.flatMap Client.finished).Perm floor.finished

namespace Crowd

def fault? (surroundings : Surroundings) (crowd : Crowd) (index : Nat) : Option Failure :=
  match crowd.clients[index]? with
  | some ⟨_, some ⟨_, .ask request _⟩, _⟩ => crowd.world.fault? surroundings request
  | _ => none

def faults (surroundings : Surroundings) (defaultPeriod : Single) (crowd : Crowd) :
    List Nat → List Failure
  | [] => []
  | index :: rest =>
    (crowd.fault? surroundings index).toList ++
      faults surroundings defaultPeriod
        ((crowd.step? surroundings defaultPeriod index).getD crowd) rest

variable {surroundings : Surroundings} {defaultPeriod : Single} {crowd after : Crowd} {floor : Floor}

theorem sound_step (calm : surroundings.FaultFree) (sound : crowd.world.Sound) {index : Nat}
    (stepped : crowd.step? surroundings defaultPeriod index = some after) : after.world.Sound := by
  unfold step? at stepped
  split at stepped
  next =>
    split at stepped
    · cases stepped
    · cases stepped
      exact sound
  next waiting item request next done _ =>
    cases stepped
    change (crowd.world.respond surroundings request).2.Sound
    rw [calm.respond]
    exact (sound.answer surroundings.clock request).2
  next =>
    cases stepped
    exact sound
  next => cases stepped

theorem faults_eq_nil (calm : surroundings.FaultFree) (sound : crowd.world.Sound) (schedule : List Nat) :
    crowd.faults surroundings defaultPeriod schedule = [] := by
  induction schedule generalizing crowd with
  | nil => rfl
  | cons index rest ih =>
    have fine : crowd.fault? surroundings index = none := by
      unfold fault?
      split
      next request _ _ _ =>
        exact (calm.fault?_eq crowd.world request).trans (sound.answer surroundings.clock request).1
      next => rfl
    have moved : ((crowd.step? surroundings defaultPeriod index).getD crowd).world.Sound := by
      cases stepped : crowd.step? surroundings defaultPeriod index with
      | none => exact sound
      | some after => exact sound_step calm sound stepped
    rw [faults, fine, ih moved]
    rfl

/-- A client moves to the front, takes its step there and goes back. -/
theorem Shows.of_front {world : World} {index : Nat} {client moved : Client} {floor after : Floor}
    (present : crowd.clients[index]? = some client)
    (shows : Shows defaultPeriod ⟨world, moved :: crowd.clients.eraseIdx index⟩ after)
    (reaches : Relation.ReflTransGen (Floor.Step defaultPeriod surroundings.clock) floor after) :
    ∃ last, Relation.ReflTransGen (Floor.Step defaultPeriod surroundings.clock) floor last ∧
      Shows defaultPeriod ⟨world, crowd.clients.set index moved⟩ last := by
  obtain ⟨inside, -⟩ := List.getElem?_eq_some_iff.mp present
  have back := (List.set_perm_cons_eraseIdx inside moved).symm
  obtain ⟨current, same, seats⟩ := shows.seats.perm back
  refine ⟨⟨after.world, current, after.finished⟩, reaches.tail (.shuffle same (.refl _)), ?_⟩
  exact ⟨shows.world, seats, (back.flatMap_right _).symm.trans shows.finished⟩

/-- What a client of a crowd does when nothing fails, the items in hand do too. -/
theorem step_reaches {index : Nat} (shows : crowd.Shows defaultPeriod floor)
    (fine : crowd.fault? surroundings index = none)
    (stepped : crowd.step? surroundings defaultPeriod index = some after) :
    ∃ last, Relation.ReflTransGen (Floor.Step defaultPeriod surroundings.clock) floor last ∧
      after.Shows defaultPeriod last := by
  obtain ⟨world, current, finished⟩ := floor
  obtain ⟨rfl, seats, sameFinished⟩ := shows
  have front {client : Client} (present : crowd.clients[index]? = some client) :
      (client :: crowd.clients.eraseIdx index).Perm crowd.clients := by
    obtain ⟨inside, rfl⟩ := List.getElem?_eq_some_iff.mp present
    exact List.getElem_cons_eraseIdx_perm inside
  unfold step? at stepped
  split at stepped
  next item waiting done present =>
    split at stepped
    · cases stepped
    next unheld =>
      cases stepped
      obtain ⟨moved, same, atFront⟩ := seats.perm (front present).symm
      cases atFront with
      | idle _ _ others =>
        have free : ∀ work ∈ moved, work.1.name.baseName ≠ item.name.baseName := by
          intro work member held
          obtain ⟨client, inside, holds⟩ := seats.holds (same.mem_iff.mpr member)
          exact unheld (List.any_eq_true.mpr ⟨client, inside, held ▸ holds⟩)
        have begun : Shows defaultPeriod ⟨crowd.world, _ :: crowd.clients.eraseIdx index⟩
            ⟨crowd.world, (item, .first item) :: moved, finished⟩ :=
          ⟨rfl, .busy waiting done (runs_first defaultPeriod item) others,
            ((front present).flatMap_right _).trans sameFinished⟩
        exact begun.of_front present (.tail (.single (.shuffle same (.refl _))) (.begin item free))
  next waiting item request next done present =>
    cases stepped
    obtain ⟨moved, same, atFront⟩ := seats.perm (front present).symm
    cases atFront with
    | @busy _ current _ stage _ _ _ runs others =>
      unfold fault? at fine
      simp only [present] at fine
      obtain ⟨later, moves, runs⟩ := runs.respond fine
      have moved : Shows defaultPeriod
          ⟨(crowd.world.respond surroundings request).2, _ :: crowd.clients.eraseIdx index⟩
          ⟨(crowd.world.respond surroundings request).2, (item, later) :: current, finished⟩ :=
        ⟨rfl, .busy waiting done runs others, ((front present).flatMap_right _).trans sameFinished⟩
      exact moved.of_front present (.tail (.single (.shuffle same (.refl _))) (.move moves))
  next waiting item result done present =>
    cases stepped
    obtain ⟨moved, same, atFront⟩ := seats.perm (front present).symm
    cases atFront with
    | @busy _ current _ _ _ _ _ runs others =>
      cases runs with
      | answered result =>
        have before := ((front present).flatMap_right Client.finished).trans sameFinished
        have ended : Shows defaultPeriod
            ⟨crowd.world, ⟨waiting, none, done ++ [.of item result]⟩ :: crowd.clients.eraseIdx index⟩
            ⟨crowd.world, current, .of item result :: finished⟩ := by
          refine ⟨rfl, .idle waiting (done ++ [.of item result]) others, ?_⟩
          rw [List.flatMap_cons] at before ⊢
          refine List.Perm.trans ?_ (before.cons _)
          rw [← List.cons_append]
          exact (List.perm_append_singleton _ done).append_right _
        exact ended.of_front present (.tail (.single (.shuffle same (.refl _))) .finish)
  next => cases stepped

/-- By induction on the schedule. -/
theorem run_reaches {schedule : List Nat} (shows : crowd.Shows defaultPeriod floor)
    (steady : crowd.faults surroundings defaultPeriod schedule = []) :
    ∃ last, Relation.ReflTransGen (Floor.Step defaultPeriod surroundings.clock) floor last ∧
      (crowd.run surroundings defaultPeriod schedule).Shows defaultPeriod last := by
  induction schedule generalizing crowd floor with
  | nil => exact ⟨floor, .refl, shows⟩
  | cons index rest ih =>
    obtain ⟨fine, steady⟩ := List.append_eq_nil_iff.mp steady
    have moved : ∃ middle, Relation.ReflTransGen (Floor.Step defaultPeriod surroundings.clock) floor middle ∧
        ((crowd.step? surroundings defaultPeriod index).getD crowd).Shows defaultPeriod middle := by
      cases stepped : crowd.step? surroundings defaultPeriod index with
      | none => exact ⟨floor, .refl, shows⟩
      | some after => exact step_reaches shows (Option.toList_eq_nil_iff.mp fine) stepped
    obtain ⟨middle, first, shows⟩ := moved
    obtain ⟨last, others, shows⟩ := ih shows steady
    exact ⟨last, first.trans others, shows⟩

/-- All that clients were given, done, in hand and waiting. -/
def itemsOf (crowd : Crowd) : List (List Item) :=
  crowd.clients.map fun client =>
    client.finished.map (·.item) ++ client.current.toList.map (·.item) ++ client.waiting

theorem step_itemsOf {index : Nat} (stepped : crowd.step? surroundings defaultPeriod index = some after) :
    after.itemsOf = crowd.itemsOf := by
  have replaced {client moved : Client} {world : World} (present : crowd.clients[index]? = some client)
      (same : moved.finished.map (·.item) ++ moved.current.toList.map (·.item) ++ moved.waiting =
        client.finished.map (·.item) ++ client.current.toList.map (·.item) ++ client.waiting) :
      itemsOf ⟨world, crowd.clients.set index moved⟩ = crowd.itemsOf := by
    obtain ⟨inside, rfl⟩ := List.getElem?_eq_some_iff.mp present
    unfold itemsOf
    rw [List.map_set, same]
    apply List.ext_getElem?
    intro other
    rw [List.getElem?_set]
    split
    next here =>
      subst here
      simp [inside]
    next => rfl
  unfold step? at stepped
  split at stepped
  next item waiting done present =>
    split at stepped
    · cases stepped
    · cases stepped
      exact replaced present (by simp)
  next present =>
    cases stepped
    exact replaced present rfl
  next present =>
    cases stepped
    exact replaced present (by simp)
  next => cases stepped

theorem run_itemsOf (surroundings : Surroundings) (defaultPeriod : Single) (crowd : Crowd)
    (schedule : List Nat) : (crowd.run surroundings defaultPeriod schedule).itemsOf = crowd.itemsOf := by
  induction schedule generalizing crowd with
  | nil => rfl
  | cons index rest ih =>
    have first : ((crowd.step? surroundings defaultPeriod index).getD crowd).itemsOf = crowd.itemsOf := by
      cases stepped : crowd.step? surroundings defaultPeriod index with
      | none => rfl
      | some after => exact step_itemsOf stepped
    exact (ih _).trans first

theorem itemsOf_ofItems (world : World) (lists : List (List Item)) :
    itemsOf ⟨world, lists.map Client.ofItems⟩ = lists := by
  unfold itemsOf
  rw [List.map_map]
  exact (List.map_congr_left fun _ _ => rfl).trans (List.map_id lists)

theorem itemsOf_of_isDone (done : ∀ client ∈ crowd.clients, client.isDone = true) :
    crowd.itemsOf = crowd.clients.map fun client => client.finished.map (·.item) := by
  refine List.map_congr_left fun client member => ?_
  have idle := done client member
  simp only [Client.isDone, Bool.and_eq_true, List.isEmpty_iff, Option.isNone_iff_eq_none] at idle
  simp [idle]

end Crowd
end ArchiveIntake
