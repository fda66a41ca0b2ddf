import ArchiveIntake.Proofs.Retention

/-! The index of aliases and the aliases in the active records. They are written together, but an alias
has one owner in the index, the last one that it was registered for, and it is never taken out
of the record of an earlier one. Where a record is displaced, the index keeps what the record loses. -/

namespace ArchiveIntake

/-- Whether a step gives an alias to a variable: by bringing it, or by confirming a request that has it. -/
def Operation.Registers (world : World) (step : Operation) (name pv : String) : Prop :=
  step.addressed = some (pv, some name) ∨
    step = .confirmStarted pv ∧ ∃ pending, world.queue[Name.queueKey pv]? = some pending ∧
      name ∈ pending.aliases

/-- The aliases that a step has registered, all for the same variable. -/
structure AliasWrites (world : World) (step : Operation) (after : World) (owner : String)
    (aliases : List String) : Prop where
  index : ConfigStore.Indexes owner aliases world.store after.store
  registers : ∀ name ∈ aliases, step.Registers world name owner
  listed : ∀ name ∈ aliases, ∃ record, after.store.activeRecord owner = .ok (some record) ∧
    name ∈ record.aliases
  old : ∀ pv record, after.store.activeRecord pv = .ok (some record) → ∀ name ∈ record.aliases,
    pv = owner ∧ name ∈ aliases ∨
      ∃ before, world.store.activeRecord pv = .ok (some before) ∧ name ∈ before.aliases

theorem StoreWrites.aliasWrites {surroundings : Surroundings} {defaultPeriod : Single}
    {world after : World} {step : Operation}
    (writes : StoreWrites surroundings defaultPeriod world step after) :
    ∃ owner aliases, AliasWrites world step after owner aliases := by
  cases writes with
  | nothing same =>
    refine ⟨"", [], .of_same (by rw [same]), by simp, by simp, ?_⟩
    intro pv record active name member
    rw [same] at active
    exact .inr ⟨record, active, member⟩
  | merged owner aliasName record fields aliases addressed own found merge index =>
    obtain ⟨grown, present, -, -, hasAliases⟩ := merge.here record found
    refine ⟨owner, aliases, index, ?_, ?_, ?_⟩
    · intro name member
      have brought : aliasName = some name := Option.mem_toList.mp (own.subset member)
      exact .inl (brought ▸ addressed)
    · intro name member
      exact ⟨grown, present, (hasAliases name).mpr (.inr member)⟩
    · intro pv other active name member
      by_cases same : pv = owner
      · subst same
        cases active.symm.trans present
        rcases (hasAliases name).mp member with before | added
        · exact .inr ⟨record, found, before⟩
        · exact .inl ⟨rfl, added⟩
      · exact .inr ⟨other, (merge.elsewhere pv same).symm.trans active, member⟩
  | renewed owner pending registered confirms found begins complete promoted index =>
    obtain ⟨renewed, present, -, -, hasAliases⟩ := promoted.here
    refine ⟨owner, registered, index, ?_, ?_, ?_⟩
    · intro name member
      exact .inr ⟨confirms, pending, found, begins.subset member⟩
    · intro name member
      exact ⟨renewed, present, (hasAliases name).mpr member⟩
    · intro pv other active name member
      by_cases same : pv = owner
      · subst same
        cases active.symm.trans present
        exact .inl ⟨rfl, (hasAliases name).mp member⟩
      · exact .inr ⟨other, (promoted.elsewhere pv same).symm.trans active, member⟩

/-- Something has happened in one of these steps, and ever since a condition holds. -/
def World.Since (surroundings : Surroundings) (defaultPeriod : Single) (start : World)
    (steps : List Operation) (event : List Operation → Operation → Prop) (condition : World → Prop) :
    Prop :=
  ∃ earlier step later, steps = earlier ++ step :: later ∧ event earlier step ∧
    ∀ moment, moment <+: later →
      condition (start.reached surroundings defaultPeriod (earlier ++ step :: moment))

section Since
variable {surroundings : Surroundings} {defaultPeriod : Single} {start : World} {steps : List Operation}
  {event : List Operation → Operation → Prop} {condition : World → Prop} {last : Operation}

theorem World.Since.begin (happens : event steps last)
    (holds : condition (start.reached surroundings defaultPeriod (steps ++ [last]))) :
    start.Since surroundings defaultPeriod (steps ++ [last]) event condition := by
  refine ⟨steps, last, [], rfl, happens, fun moment within => ?_⟩
  rw [List.prefix_nil.mp within]
  exact holds

theorem World.Since.goes_on (since : start.Since surroundings defaultPeriod steps event condition)
    (holds : condition (start.reached surroundings defaultPeriod (steps ++ [last]))) :
    start.Since surroundings defaultPeriod (steps ++ [last]) event condition := by
  obtain ⟨earlier, step, later, rfl, happened, held⟩ := since
  refine ⟨earlier, step, later ++ [last], by simp, happened, fun moment within => ?_⟩
  rcases List.prefix_concat_iff.mp within with rfl | inside
  · simpa using holds
  · exact held moment inside

end Since

section Agreement
variable (surroundings : Surroundings) (defaultPeriod : Single) (start : World) (steps : List Operation)

/-- An alias has been registered for another variable, and ever since it does not resolve to this one. -/
def World.PassedOn (name pv : String) : Prop :=
  start.Since surroundings defaultPeriod steps
    (fun earlier step =>
      (start.reached surroundings defaultPeriod earlier).store.resolveAlias name = .ok (some pv) ∧
      ∃ other, other ≠ pv ∧
        step.Registers (start.reached surroundings defaultPeriod earlier) name other)
    (fun now => now.store.resolveAlias name ≠ .ok (some pv))

/-- The record of a variable has been displaced, and ever since it does not have the alias. -/
def World.Forgets (name pv : String) : Prop :=
  start.Since surroundings defaultPeriod steps
    (fun earlier step => step = .confirmStarted pv ∧
      ∃ rival pending, start.DisplacedBy surroundings defaultPeriod earlier pv rival pending)
    (fun now => ∀ record, now.store.activeRecord pv = .ok (some record) → name ∉ record.aliases)

/-- The index and the records tell the same of every alias, unless it was passed on or forgotten. -/
structure World.AliasesAgree (now : World) : Prop where
  indexed : ∀ name pv, now.store.resolveAlias name = .ok (some pv) →
    ∃ record, now.store.activeRecord pv = .ok (some record) ∧
      (name ∈ record.aliases ∨ start.Forgets surroundings defaultPeriod steps name pv)
  listed : ∀ name pv record, now.store.activeRecord pv = .ok (some record) → name ∈ record.aliases →
    ∃ owner, now.store.resolveAlias name = .ok (some owner) ∧
      (owner = pv ∨ start.PassedOn surroundings defaultPeriod steps name pv)

end Agreement

variable {surroundings : Surroundings} {defaultPeriod : Single} {start : World} {steps : List Operation}
  {last : Operation}

theorem World.AliasesAgree.initial (blank : start.store.IsBlank) :
    start.AliasesAgree surroundings defaultPeriod [] start := by
  constructor
  · intro name pv resolved
    cases (blank.unindexed name).symm.trans resolved
  · intro name pv record active
    cases (blank.inactive pv).symm.trans active

private theorem lacks_of_found {store : ConfigStore} {pv name : String} {present : ActiveRecord}
    (found : store.activeRecord pv = .ok (some present)) (lacks : name ∉ present.aliases) :
    ∀ record, store.activeRecord pv = .ok (some record) → name ∉ record.aliases := by
  intro record same
  cases found.symm.trans same
  exact lacks

private theorem resolves_elsewhere {store : ConfigStore} {name owner pv : String}
    (resolved : store.resolveAlias name = .ok (some owner)) (other : owner ≠ pv) :
    store.resolveAlias name ≠ .ok (some pv) := by
  intro same
  cases resolved.symm.trans same
  exact other rfl

section Step
variable {name pv owner : String} {aliases : List String}

/-- An alias that the step has not registered resolves to the variable it resolved to before, and
there the alias is in the record, or the step displaces the record. -/
theorem World.AliasesAgree.indexed_step
    (agree : start.AliasesAgree surroundings defaultPeriod steps
      (start.reached surroundings defaultPeriod steps))
    (run : ClientRun surroundings defaultPeriod start (steps ++ [last]))
    (resolved : (start.reached surroundings defaultPeriod steps).store.resolveAlias name = .ok (some pv)) :
    ∃ record, (start.reached surroundings defaultPeriod (steps ++ [last])).store.activeRecord pv =
        .ok (some record) ∧
      (name ∈ record.aliases ∨ start.Forgets surroundings defaultPeriod (steps ++ [last]) name pv) := by
  obtain ⟨record, active, before⟩ := agree.indexed name pv resolved
  rcases run.keeps_or_displaced active with ⟨grown, present, keeps⟩ | ⟨rfl, rival, pending, displaced⟩
  · refine ⟨grown, present, ?_⟩
    by_cases has : name ∈ grown.aliases
    · exact .inl has
    · have forgotten := before.resolve_left fun had => has (keeps (.addAlias name) had)
      exact .inr (forgotten.goes_on (lacks_of_found present has))
  · obtain ⟨renewed, present, -⟩ := displaced.replaced.here
    refine ⟨renewed, present, ?_⟩
    by_cases has : name ∈ renewed.aliases
    · exact .inl has
    · exact .inr (.begin ⟨rfl, rival, pending, displaced⟩ (lacks_of_found present has))

theorem World.AliasesAgree.passedOn_step
    (agree : start.AliasesAgree surroundings defaultPeriod steps
      (start.reached surroundings defaultPeriod steps))
    (writes : AliasWrites (start.reached surroundings defaultPeriod steps) last
      (start.reached surroundings defaultPeriod (steps ++ [last])) owner aliases)
    (registered : name ∈ aliases) (other : owner ≠ pv) {record : ActiveRecord}
    (active : (start.reached surroundings defaultPeriod steps).store.activeRecord pv = .ok (some record))
    (member : name ∈ record.aliases) :
    start.PassedOn surroundings defaultPeriod (steps ++ [last]) name pv := by
  have elsewhere := resolves_elsewhere ((writes.index name).trans (if_pos registered)) other
  obtain ⟨holder, held, passed⟩ := agree.listed name pv record active member
  rcases passed with rfl | passed
  · exact .begin ⟨held, owner, other, writes.registers name registered⟩ elsewhere
  · exact passed.goes_on elsewhere

end Step

theorem World.AliasesAgree.step
    (agree : start.AliasesAgree surroundings defaultPeriod steps
      (start.reached surroundings defaultPeriod steps))
    (run : ClientRun surroundings defaultPeriod start (steps ++ [last])) :
    start.AliasesAgree surroundings defaultPeriod (steps ++ [last])
      (start.reached surroundings defaultPeriod (steps ++ [last])) := by
  obtain ⟨owner, aliases, writes⟩ := run.step.1.aliasWrites
  constructor
  · intro name pv resolved
    have index := writes.index name
    rw [resolved] at index
    by_cases registered : name ∈ aliases
    · rw [if_pos registered] at index
      cases index
      obtain ⟨record, active, member⟩ := writes.listed name registered
      exact ⟨record, active, .inl member⟩
    · rw [if_neg registered] at index
      exact agree.indexed_step run index.symm
  · intro name pv record active member
    have index := writes.index name
    by_cases registered : name ∈ aliases
    · rw [if_pos registered] at index
      refine ⟨owner, index, ?_⟩
      by_cases own : owner = pv
      · exact .inl own
      · obtain ⟨before, found, had⟩ := (writes.old pv record active name member).resolve_left
          fun written => own written.1.symm
        exact .inr (agree.passedOn_step writes registered own found had)
    · rw [if_neg registered] at index
      obtain ⟨before, found, had⟩ := (writes.old pv record active name member).resolve_left
        fun written => registered written.2
      obtain ⟨holder, held, passed⟩ := agree.listed name pv before found had
      refine ⟨holder, index.trans held, ?_⟩
      by_cases own : holder = pv
      · exact .inl own
      · exact .inr ((passed.resolve_left own).goes_on (resolves_elsewhere (index.trans held) own))

theorem ClientRun.aliasesAgree (blank : start.store.IsBlank)
    (run : ClientRun surroundings defaultPeriod start steps) :
    start.AliasesAgree surroundings defaultPeriod steps (start.reached surroundings defaultPeriod steps) := by
  induction steps using List.reverseRecOn with
  | nil => exact .initial blank
  | append_singleton steps last ih => exact (ih run.of_append).step run

/-- When nothing fails, the index and the active records agree about every alias but for two cases: an
alias stays with a variable after it was registered for another one, which it resolves to from then
on, and it still resolves to a variable whose record has been displaced without it. -/
theorem aliases_agree_unless_passed_on_or_forgotten (surroundings : Surroundings)
    (defaultPeriod : Single) (start : World) (operations : List Operation)
    (unqueued : start.queue = ∅) (blank : start.store.IsBlank)
    (external : ∀ operation ∈ operations, operation.isInternal = false)
    (steady : (session defaultPeriod operations).faults surroundings start = []) :
    start.AliasesAgree surroundings defaultPeriod
      (operations.flatMap (·.steps (start.seenCatalog surroundings)))
      (start.reached surroundings defaultPeriod operations) := by
  rw [← World.reached_steps]
  exact (ClientRun.of_operations unqueued external steady).aliasesAgree blank

/-- Two variables are archived and confirmed, with the same alias. -/
def sharedAlias : List Operation :=
  [.archivePv ∅ { pv := "SRC1", aliasName := some "A" }, .confirmStarted "SRC1",
    .archivePv ∅ { pv := "SRC2", aliasName := some "A" }, .confirmStarted "SRC2"]

/-- A variable is archived with an alias and then, under its other name, without one. -/
def droppedAlias : List Operation :=
  [.archivePv ∅ { pv := "SRC", aliasName := some "A" }, .confirmStarted "SRC",
    .archivePv ∅ { pv := "pva://SRC" }, .confirmStarted "SRC"]

theorem aliases_agree_unless_passed_on_or_forgotten_of_both :
    let start : World := .fresh (.databaseOf .default) .noting
    let period := AdmissionConfig.default.defaultPeriod
    start.PassedOn (.calm 0) period sharedAlias "A" "SRC1" ∧
      start.Forgets (.calm 0) period droppedAlias "A" "SRC" := by
  intro start period
  have calm : (Surroundings.calm 0).FaultFree := fun _ => rfl
  have sound : start.Sound := World.sound_fresh (ConfigStore.sound_databaseOf .default) rfl
  have blank := ConfigStore.isBlank_databaseOf .default
  constructor
  · have agree := aliases_agree_unless_passed_on_or_forgotten (.calm 0) period start sharedAlias rfl blank
      (by decide) (Program.faults_eq_nil calm sound _).1
    have active : (start.reached (.calm 0) period sharedAlias).store.activeRecord "SRC1" =
      .ok (some ⟨"SRC1", ∅, .ofList ["A"], 0⟩) := by decide +kernel
    obtain ⟨owner, resolved, passed⟩ := agree.listed "A" "SRC1" _ active (by decide +kernel)
    refine passed.resolve_left ?_
    rintro rfl
    exact absurd resolved (by decide +kernel)
  · have agree := aliases_agree_unless_passed_on_or_forgotten (.calm 0) period start droppedAlias rfl blank
      (by decide) (Program.faults_eq_nil calm sound _).1
    have lacks : (start.reached (.calm 0) period droppedAlias).store.activeRecord "SRC" =
      .ok (some ⟨"SRC", ∅, ∅, 0⟩) := by decide +kernel
    obtain ⟨record, active, had⟩ := agree.indexed "A" "SRC" (by decide +kernel)
    cases lacks.symm.trans active
    exact had.resolve_left (by decide +kernel)

/-- One alias is in the records of two variables, and another is in none but resolves. -/
theorem aliases_disagree :
    let start : World := .fresh (.memory .empty) .noting
    let period := AdmissionConfig.default.defaultPeriod
    let shared := start.reached (.calm 0) period sharedAlias
    let dropped := start.reached (.calm 0) period droppedAlias
    (session period sharedAlias).faults (.calm 0) start = [] ∧
      shared.store.resolveAlias "A" = .ok (some "SRC2") ∧
      (∃ record, shared.store.activeRecord "SRC1" = .ok (some record) ∧ "A" ∈ record.aliases) ∧
      (session period droppedAlias).faults (.calm 0) start = [] ∧
      dropped.store.resolveAlias "A" = .ok (some "SRC") ∧
      ∃ record, dropped.store.activeRecord "SRC" = .ok (some record) ∧ "A" ∉ record.aliases :=
  ⟨rfl, rfl, ⟨_, rfl, by decide +kernel⟩, rfl, rfl, _, rfl, by decide +kernel⟩

end ArchiveIntake
