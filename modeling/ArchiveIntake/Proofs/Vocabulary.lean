import ArchiveIntake.Proofs.StoreWrites
import Mathlib.Data.List.Induction

/-! The names under which something is stored. A name is checked before its mark is cut off for the
key of the queue, and a name that is confirmed is never checked, but it must have a key that is
queued. So every stored name is valid, with one exception: the bare mark passes the check, and its
key is empty. -/

namespace ArchiveIntake

namespace Name

/-- A name that is stored: it is valid, or it is the empty key of an item for the bare mark. -/
def Stored (steps : List Operation) (name : String) : Prop :=
  isValid name = true ∨
    name = "" ∧ ∃ catalog spec, .archivePv catalog spec ∈ steps ∧ spec.baseName catalog = marked ""

variable {steps : List Operation} {name : String}

theorem Stored.append (stored : Stored steps name) (more : List Operation) :
    Stored (steps ++ more) name := by
  rcases stored with valid | ⟨empty, catalog, spec, member, bare⟩
  · exact .inl valid
  · exact .inr ⟨empty, catalog, spec, List.mem_append_left _ member, bare⟩

theorem stored_queueKey {catalog : Catalog} {spec : ArchiveSpec}
    (valid : isValid (spec.baseName catalog) = true) (member : .archivePv catalog spec ∈ steps) :
    Stored steps (queueKey (spec.baseName catalog)) := by
  rcases queueKey_eq_iff.mp (rfl : queueKey (spec.baseName catalog) = _) with marks | ⟨plain, -⟩
  · rw [marks] at valid
    rcases isValid_marked_iff.mp valid with valid | empty
    · exact .inl valid
    · rw [empty] at marks
      exact .inr ⟨empty, catalog, spec, member, marks⟩
  · rw [← plain]
    exact .inl valid

/-- A name is stored if its key is: putting the mark in front of a stored name makes it valid. -/
theorem Stored.of_queueKey (stored : Stored steps (queueKey name)) : Stored steps name := by
  rcases queueKey_eq_iff.mp (rfl : queueKey name = _) with marks | ⟨plain, -⟩
  · rw [marks]
    exact .inl (isValid_marked_iff.mpr (stored.imp_right And.left))
  · rwa [← plain] at stored

end Name

/-- Nothing is queued or active but under a stored name, and a record has the name it is found by. -/
structure World.WellNamed (steps : List Operation) (now : World) : Prop where
  queued : ∀ key ∈ now.queue, Name.Stored steps key
  active : ∀ pv record, now.store.activeRecord pv = .ok (some record) →
    record.pvName = pv ∧ Name.Stored steps pv

variable {surroundings : Surroundings} {defaultPeriod : Single} {world after : World}
  {steps : List Operation} {last : Operation}

theorem StoreWrites.named (writes : StoreWrites surroundings defaultPeriod world last after)
    (named : world.WellNamed steps) {pv : String} {record : ActiveRecord}
    (active : after.store.activeRecord pv = .ok (some record)) :
    record.pvName = pv ∧ Name.Stored steps pv := by
  cases writes with
  | nothing same =>
    rw [same] at active
    exact named.active pv record active
  | merged other aliasName old fields aliases addressed own found merge index =>
    by_cases same : pv = other
    · subst same
      obtain ⟨merged, present, sameName, -⟩ := merge.here old found
      cases active.symm.trans present
      obtain ⟨known, stored⟩ := named.active pv old found
      exact ⟨sameName.trans known, stored⟩
    · rw [merge.elsewhere pv same] at active
      exact named.active pv record active
  | renewed other pending registered confirms found begins complete promoted index =>
    by_cases same : pv = other
    · subst same
      obtain ⟨renewed, present, own, -⟩ := promoted.here
      cases active.symm.trans present
      exact ⟨own, (named.queued _ (Table.mem_of_getElem? found)).of_queueKey⟩
    · rw [promoted.elsewhere pv same] at active
      exact named.active pv record active

theorem World.WellNamed.step (named : world.WellNamed steps) (external : last.isInternal = false)
    (single : last.isStep = true) :
    World.WellNamed (steps ++ [last]) ((last.program defaultPeriod).run surroundings world).2 := by
  constructor
  · intro key held
    obtain ⟨record, found⟩ :=
      Option.isSome_iff_exists.mp (Std.ExtTreeMap.mem_iff_isSome_getElem?.mp held)
    rcases Operation.queued single found with
      ⟨_, _, _, before, -⟩ | ⟨-, catalog, spec, name, rfl, valid, rfl⟩
    · exact (named.queued key (Table.mem_of_getElem? before)).append _
    · obtain ⟨rfl, accepted⟩ := ArchiveSpec.normalize_eq_ok.mp valid
      exact Name.stored_queueKey accepted (by simp)
  · intro pv record active
    obtain ⟨own, stored⟩ := (Operation.storeWrites external single).named named active
    exact ⟨own, stored.append _⟩

/-- Whatever fails, every key of the queue and every active name is valid, unless an item for the bare
mark was archived: then the empty name may be among them. -/
theorem stored_names_are_valid_or_empty (surroundings : Surroundings) (defaultPeriod : Single)
    (start : World) (operations : List Operation) (unqueued : start.queue = ∅)
    (blank : start.store.IsBlank) (external : ∀ operation ∈ operations, operation.isInternal = false) :
    World.WellNamed (operations.flatMap (·.steps (start.seenCatalog surroundings)))
      (start.reached surroundings defaultPeriod operations) := by
  have external := Operation.external_steps (start.seenCatalog surroundings) external
  rw [← World.reached_steps]
  generalize operations.flatMap (·.steps (start.seenCatalog surroundings)) = steps at external
  induction steps using List.reverseRecOn with
  | nil =>
    constructor
    · intro key held
      simp [unqueued] at held
    · intro pv record active
      cases (blank.inactive pv).symm.trans active
  | append_singleton steps last ih =>
    obtain ⟨here, single⟩ := external last (by simp)
    rw [World.reached_append, World.reached_cons, World.reached_nil]
    exact (ih fun step member => external step (List.mem_append_left _ member)).step here single

/-- An item for the bare mark, and a start reported under the key that it queued. -/
def bareMark : List Operation :=
  [.archiveBatch [{ pv := "SRC" }, { pv := "pva://" }], .confirmStarted ""]

theorem stored_names_are_valid_or_empty_of_bareMark :
    let start : World := .fresh (.memoryOf .default) .noting
    let surroundings := Surroundings.withOutages ["start_workflow"] fun _ => 0
    World.WellNamed (bareMark.flatMap (·.steps (start.seenCatalog surroundings)))
      (start.reached surroundings AdmissionConfig.default.defaultPeriod bareMark) :=
  stored_names_are_valid_or_empty _ _ _ bareMark rfl (ConfigStore.isBlank_memoryOf .default) (by decide)

/-- The bare mark is a valid name, and an invalid one is queued for it and becomes active. -/
theorem bare_mark_is_stored_as_invalid :
    let start : World := .fresh (.memoryOf .default) .noting
    let period := AdmissionConfig.default.defaultPeriod
    let queued := start.reached (.calm 0) period (bareMark.take 1)
    let confirmed := start.reached (.calm 0) period bareMark
    Name.isValid "pva://" = true ∧ Name.isValid "" = false ∧ "" ∈ queued.queue ∧
      ∃ record, confirmed.store.activeRecord "" = .ok (some record) :=
  ⟨by decide +kernel, rfl, by decide +kernel, _, rfl⟩

end ArchiveIntake
