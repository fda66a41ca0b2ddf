import ArchiveIntake.Proofs.Omission
import Mathlib.Data.List.Forall2

/-! What the engine has been told of. It accepts a name exactly when the item is answered as submitted,
whatever fails, so the answers of a batch say what was started. Later items of the batch only add
fields and aliases, so each of these requests is still queued at the end, under its own policy. -/

namespace ArchiveIntake

structure PendingRecord.IsUnder (policy : EffectivePolicy) (record : PendingRecord) : Prop where
  method : record.method = policy.method
  period : record.period = policy.period
  controllingPv : record.controllingPv = policy.controllingPv
  policyName : record.policyName = policy.policyName
  userOverride : record.userOverride = policy.userOverride

namespace PendingRecord.IsUnder
variable {policy : EffectivePolicy} {record grown : PendingRecord} {fields aliases : List String}

theorem ofRequest (name : NormalizedName) (policy : EffectivePolicy) (aliasName : Option String) :
    (PendingRecord.ofRequest name policy aliasName).IsUnder policy :=
  ⟨rfl, rfl, rfl, rfl, rfl⟩

theorem grow (under : record.IsUnder policy) (merge : PendingMerge fields aliases record grown) :
    grown.IsUnder policy where
  method := merge.method.trans under.method
  period := merge.period.trans under.period
  controllingPv := merge.controllingPv.trans under.controllingPv
  policyName := merge.policyName.trans under.policyName
  userOverride := merge.userOverride.trans under.userOverride

end PendingRecord.IsUnder

/-- A request is queued under the key of a name, with the policy that an item asks for when the least
period is set to this text. -/
def World.Queues (defaultPeriod : Single) (minimum : Option String) (world : World) (spec : ArchiveSpec)
    (pvName : String) : Prop :=
  ∃ policy record, spec.effectivePolicy defaultPeriod minimum = .ok policy ∧
    world.queue[Name.queueKey pvName]? = some record ∧ record.IsUnder policy

def submittedNames (outcomes : List ArchiveOutcome) : List String :=
  (outcomes.filter fun outcome => outcome.status = .submitted).map (·.pvName)

theorem submittedNames_cons (outcome : ArchiveOutcome) (rest : List ArchiveOutcome) :
    submittedNames (outcome :: rest) = outcome.started ++ submittedNames rest := by
  by_cases submitted : outcome.status = .submitted <;>
    simp [submittedNames, ArchiveOutcome.started, submitted]

variable {surroundings : Surroundings} {defaultPeriod : Single} {catalog : Catalog} {world after : World}
  {name : NormalizedName} {spec : ArchiveSpec} {specs : List ArchiveSpec} {outcome : ArchiveOutcome}
  {outcomes : List ArchiveOutcome} {started : List String} {minimum : Option String}

theorem World.minimumPeriodText_of_settings (same : world.store.SameSettings after.store) :
    after.minimumPeriodText surroundings = world.minimumPeriodText surroundings := by
  unfold minimumPeriodText respond
  split
  · rfl
  · exact same.properties minimumPeriodProperty

/-- No item takes a request out of the queue or changes its policy. -/
theorem ItemWrites.queues {other : ArchiveSpec} {pvName : String}
    (writes : ItemWrites surroundings defaultPeriod name spec world started after)
    (queues : world.Queues defaultPeriod minimum other pvName) :
    after.Queues defaultPeriod minimum other pvName := by
  obtain ⟨policy, record, resolved, found, under⟩ := queues
  obtain ⟨_, _, grown, _, _, there, merge⟩ := writes.request_kept found
  exact ⟨policy, grown, resolved, there, under.grow merge⟩

theorem ItemWrites.queues_started
    (writes : ItemWrites surroundings defaultPeriod name spec world started after)
    (told : started ≠ []) :
    after.Queues defaultPeriod (world.minimumPeriodText surroundings) spec name.baseName := by
  cases writes with
  | nothing | record | addition => exact absurd rfl told
  | request policy _ inactive absent free resolved own =>
    refine ⟨policy, _, resolved, ?_, .ofRequest name policy spec.aliasName⟩
    exact Table.getElem?_insert_iff.trans (if_pos rfl)

structure World.Starts (surroundings : Surroundings) (defaultPeriod : Single) (catalog : Catalog)
    (world : World) (specs : List ArchiveSpec) (outcomes : List ArchiveOutcome) (after : World) : Prop where
  engine : after.engine = world.engine.told (submittedNames outcomes)
  /-- Each item is answered under its name, and what is submitted is queued as the item asks. -/
  items : List.Forall₂ (fun spec outcome => outcome.pvName = spec.baseName catalog ∧
    (outcome.status = .submitted →
      after.Queues defaultPeriod (world.minimumPeriodText surroundings) spec outcome.pvName))
    specs outcomes
  queues : ∀ minimum spec pvName, world.Queues defaultPeriod minimum spec pvName →
    after.Queues defaultPeriod minimum spec pvName

namespace World.Starts

theorem nil : world.Starts surroundings defaultPeriod catalog [] [] world :=
  ⟨(Engine.told_nil _).symm, .nil, fun _ _ _ queues => queues⟩

theorem item (ran : (archivePv defaultPeriod catalog spec).run surroundings world = (.ok outcome, after)) :
    world.Starts surroundings defaultPeriod catalog [spec] [outcome] after := by
  rcases archivePv_course ran with ⟨_, _, same, _⟩ | ⟨name, _, valid, _, _⟩
  · cases same
  let item : NamedItem := ⟨catalog, spec, name, valid⟩
  obtain ⟨_, same, named, writes⟩ := item.writes ran
  cases same
  obtain ⟨rfl, -⟩ := ArchiveSpec.normalize_eq_ok.mp valid
  refine ⟨?_, .cons ⟨named, fun submitted => ?_⟩ .nil, fun _ _ _ => writes.queues⟩
  · rw [submittedNames_cons]
    exact (List.append_nil _).symm ▸ writes.engine.2
  · rw [named]
    exact writes.queues_started (by simp [ArchiveOutcome.started, submitted])

/-- The first item and the others. What the first one queued stays while the others are processed, and
they see the same least period. -/
theorem cons {middle : World} (first : world.Starts surroundings defaultPeriod catalog [spec] [outcome] middle)
    (rest : middle.Starts surroundings defaultPeriod catalog specs outcomes after)
    (settings : world.store.SameSettings middle.store) :
    world.Starts surroundings defaultPeriod catalog (spec :: specs) (outcome :: outcomes) after := by
  obtain ⟨⟨named, queued⟩, -⟩ := List.forall₂_cons.mp first.items
  have others := rest.items
  rw [minimumPeriodText_of_settings settings] at others
  refine ⟨?_, .cons ⟨named, fun submitted => ?_⟩ others, fun minimum spec pvName held => ?_⟩
  · rw [rest.engine, first.engine, Engine.told_told, submittedNames_cons, submittedNames_cons,
      List.append_assoc]
    rfl
  · exact rest.queues _ _ _ (queued submitted)
  · exact rest.queues _ _ _ (first.queues _ _ _ held)

end World.Starts

theorem archiveItems_starts
    (ran : (archiveItems defaultPeriod catalog specs).run surroundings world = (.ok outcomes, after)) :
    world.Starts surroundings defaultPeriod catalog specs outcomes after := by
  induction specs generalizing world outcomes with
  | nil =>
    cases ran
    exact .nil
  | cons spec rest ih =>
    rcases own : (archivePv defaultPeriod catalog spec).run surroundings world with ⟨e | outcome, middle⟩
    · rw [archiveItems_run_of_error own] at ran
      cases ran
    · rw [archiveItems_run_of_outcome own] at ran
      rcases others : (archiveItems defaultPeriod catalog rest).run surroundings middle with ⟨_ | _, _⟩
      · rw [others] at ran
        cases ran
      · rw [others] at ran
        cases ran
        exact .cons (.item own) (ih others) (Attempt.run_settings own)

theorem archiveBatch_starts
    (ran : (archiveBatch defaultPeriod specs).run surroundings world = (.ok outcomes, after)) :
    world.Starts surroundings defaultPeriod (world.seenCatalog surroundings) specs outcomes after := by
  rw [archiveBatch_run_seen] at ran
  exact archiveItems_starts ran

theorem World.Starts.accepted (starts : world.Starts surroundings defaultPeriod catalog specs outcomes after) :
    after.engine.accepted = world.engine.accepted ++ submittedNames outcomes := by
  rw [starts.engine]
  rfl

/-- Whatever fails, the engine accepts the names that are answered as submitted, in order and as often,
and what is submitted is queued in the end under the policy of its item. A batch that an invalid name
ends has done what the items before it do. -/
theorem submitted_items_are_started (surroundings : Surroundings) (defaultPeriod : Single) (world : World)
    (specs : List ArchiveSpec) :
    (∀ outcomes after, (archiveBatch defaultPeriod specs).run surroundings world = (.ok outcomes, after) →
      after.engine.accepted = world.engine.accepted ++ submittedNames outcomes ∧
      List.Forall₂ (fun spec outcome => outcome.pvName = spec.baseName (world.seenCatalog surroundings) ∧
        (outcome.status = .submitted →
          after.Queues defaultPeriod (world.minimumPeriodText surroundings) spec outcome.pvName))
        specs outcomes) ∧
    ∀ e after, (archiveBatch defaultPeriod specs).run surroundings world = (.error e, after) →
      ∃ earlier spec outcomes, FirstInvalid (world.seenCatalog surroundings) specs earlier spec ∧
        (archiveBatch defaultPeriod earlier).run surroundings world = (.ok outcomes, after) ∧
        after.engine.accepted = world.engine.accepted ++ submittedNames outcomes := by
  constructor
  · intro outcomes after ran
    have starts := archiveBatch_starts ran
    exact ⟨starts.accepted, starts.items⟩
  · intro e after failed
    rw [archiveBatch_run_seen] at failed
    obtain ⟨earlier, spec, outcomes, first, -, ran⟩ := archiveItems_run_eq_error.mp failed
    rw [← archiveBatch_run_seen] at ran
    exact ⟨earlier, spec, outcomes, first, ran, (archiveBatch_starts ran).accepted⟩

/-- The engine cannot be told of one name of a batch; of the others one comes twice. -/
theorem submitted_items_are_started_but_one :
    let start : World := .fresh (.memoryOf .default) .noting
    let raised : ArchiveSpec := { pv := "pva://A", period := some (.text "0.01"), method := some "scan" }
    let specs : List ArchiveSpec := [raised, { pv := "B" }, { pv := "A.HIHI" }, { pv := "C" }]
    let answer := (archiveBatch AdmissionConfig.default.defaultPeriod specs).run
      (.withOutages ["start_workflow:B"] fun _ => 0) start
    answer.2.engine.accepted = ["pva://A", "C"] ∧
      answer.2.Queues AdmissionConfig.default.defaultPeriod none raised "pva://A" := by
  intro start raised specs answer
  let outcomes : List ArchiveOutcome := [⟨"pva://A", .submitted⟩, ⟨"B", .exceptionOccurred⟩,
    ⟨"A", .alreadySubmitted⟩, ⟨"C", .submitted⟩]
  have answered : answer.1.toOption = some outcomes := by decide +kernel
  have ran : answer = (.ok outcomes, answer.2) := by
    rcases answer with ⟨_ | _, _⟩ <;> cases answered
    rfl
  obtain ⟨accepted, items⟩ := (submitted_items_are_started _ _ start specs).1 _ _ ran
  exact ⟨accepted, (List.forall₂_cons.mp items).1.2 rfl⟩

end ArchiveIntake
