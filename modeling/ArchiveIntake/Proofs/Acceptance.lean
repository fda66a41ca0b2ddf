import ArchiveIntake.Proofs.Calm
import ArchiveIntake.Proofs.Item
import ArchiveIntake.Proofs.Name
import ArchiveIntake.Proofs.Pending

/-! What can be looked up right after an item was accepted. A bare name always shows the
field and the alias of the item. A marked name is queued without its mark but looked up
with it, so its request is there but not under its own name. -/

namespace ArchiveIntake

namespace PendingRecord

/-- Whether a request holds the field and the alias of an item. -/
def Holds (field aliasName : Option String) (record : PendingRecord) : Prop :=
  (∀ name ∈ field, name ∈ record.requestedFields) ∧ ∀ name ∈ aliasName, name ∈ record.aliases

theorem holds_ofRequest (name : NormalizedName) (policy : EffectivePolicy) (aliasName : Option String) :
    (ofRequest name policy aliasName).Holds name.standardField aliasName := by
  refine ⟨?_, ?_⟩ <;> simp [ofRequest]

end PendingRecord

theorem PendingMerge.holds {field aliasName : Option String} {before after : PendingRecord}
    (merge : PendingMerge field.toList aliasName.toList before after) :
    after.Holds field aliasName := by
  refine ⟨?_, ?_⟩
  · intro name member
    exact (merge.fields name).mpr (.inr (by simpa using member))
  · intro name member
    exact (merge.known name).mpr (.inr (by simpa using member))

/-- Whether the record of an admission holds the field and the alias of an item. -/
def Admission.Holds (field aliasName : Option String) : Admission → Prop
  | .alreadyActive record =>
    (∀ name ∈ field, name ∈ record.archivedFields) ∧ ∀ name ∈ aliasName, name ∈ record.aliases
  | .alreadyPending record => record.Holds field aliasName
  | .notRegistered => False

variable {defaultPeriod : Single} {name : NormalizedName} {spec : ArchiveSpec} {world after : World}
  {outcome : ArchiveOutcome}

/-- Whether a marked name is neither active nor queued under itself. -/
def NormalizedName.IsUnseen (name : NormalizedName) (world : World) : Prop :=
  name.isMarked = true ∧ world.registration name.baseName = .ok .notRegistered

theorem NormalizedName.seen_of_registration {admission : Admission}
    (found : world.registration name.baseName = .ok admission)
    (registered : admission ≠ .notRegistered) : ¬ name.IsUnseen world := by
  rintro ⟨-, unregistered⟩
  cases found.symm.trans unregistered
  exact registered rfl

/-- Where the request of an accepted item with an unseen name is. -/
inductive UnderKey (name : NormalizedName) (aliasName : Option String) (world after : World) :
    ArchiveStatus → Prop
  | queued (record : PendingRecord) (found : after.queue[name.queueKey]? = some record)
      (holds : record.Holds name.standardField aliasName) :
      UnderKey name aliasName world after .submitted
  | refused (taken : name.queueKey ∈ world.queue) (same : after = world) :
      UnderKey name aliasName world after .alreadySubmitted

theorem ItemEffect.registration {status : ArchiveStatus}
    (effect : ItemEffect defaultPeriod name spec world (.ok status) after) :
    ∃ admission, after.registration name.baseName = .ok admission ∧
      (¬ name.IsUnseen world → admission.Holds name.standardField spec.aliasName) ∧
      (name.IsUnseen world →
        admission = .notRegistered ∧ UnderKey name spec.aliasName world after status) := by
  have bare : name.isMarked = false → name.queueKey = name.baseName := Name.queueKey_of_not_isMarked
  cases effect with
  | active record store readings usable found merge =>
    obtain ⟨merged, present, -, fields, aliases⟩ := merge.here record found
    have before : world.registration name.baseName = .ok (.alreadyActive record) := by
      simp [World.registration, found, Except.map]
    have seen := NormalizedName.seen_of_registration before nofun
    refine ⟨.alreadyActive merged, by simp [World.registration, present, Except.map],
      fun _ => ⟨?_, ?_⟩, fun unseen => absurd unseen seen⟩
    · intro field member
      exact (fields field).mpr (.inr (by simpa using member))
    · intro added member
      exact (aliases added).mpr (.inr (by simpa using member))
  | pending record usable inactive found =>
    have merge := PendingMerge.of_pendingEdits record name spec.aliasName
    have before : world.registration name.baseName = .ok (.alreadyPending record) := by
      simp [World.registration, inactive, found, Except.map]
    have seen := NormalizedName.seen_of_registration before nofun
    refine ⟨.alreadyPending _, ?_, fun _ => merge.holds, fun unseen => absurd unseen seen⟩
    simp [World.registration, inactive, Except.map]
  | refused usable inactive absent taken =>
    have before : world.registration name.baseName = .ok .notRegistered := by
      simp [World.registration, inactive, absent, Except.map]
    have marked : name.isMarked = true := by
      cases mark : name.isMarked with
      | true => rfl
      | false =>
        rw [bare mark] at taken
        exact absurd taken (Table.getElem?_eq_none_iff.mp absent)
    exact ⟨.notRegistered, before, fun seen => absurd ⟨marked, before⟩ seen,
      fun _ => ⟨rfl, .refused taken rfl⟩⟩
  | queued policy usable inactive absent resolved free running =>
    have before : world.registration name.baseName = .ok .notRegistered := by
      simp [World.registration, inactive, absent, Except.map]
    have holds := PendingRecord.holds_ofRequest name policy spec.aliasName
    cases mark : name.isMarked with
    | false =>
      have seen : ¬ name.IsUnseen world := by
        rintro ⟨marked, -⟩
        rw [mark] at marked
        cases marked
      refine ⟨.alreadyPending (.ofRequest name policy spec.aliasName), ?_, fun _ => holds,
        fun unseen => absurd unseen seen⟩
      simp [World.registration, inactive, bare mark, Except.map]
    | true =>
      have apart : name.baseName ≠ name.queueKey := by
        intro same
        exact Name.marked_ne _ ((Name.eq_marked_queueKey mark).symm.trans same)
      refine ⟨.notRegistered, ?_, fun seen => absurd ⟨mark, before⟩ seen, fun _ => ⟨rfl, ?_⟩⟩
      · unfold World.registration
        rw [Table.getElem?_insert_iff, if_neg apart, absent, inactive]
        rfl
      · refine .queued _ ?_ holds
        rw [Table.getElem?_insert_iff, if_pos rfl]

theorem ItemEffect.catalog {result : Except AdmissionError ArchiveStatus}
    (effect : ItemEffect defaultPeriod name spec world result after) :
    after.catalog = world.catalog := by
  unfold World.catalog
  cases effect with
  | active record store readings usable found merge => rw [merge.settings.standardFields]
  | invalid | pending | unresolved | refused | queued => rfl

theorem outcomeOf_eq_ok {baseName : String} {result : Except AdmissionError ArchiveStatus}
    (answered : outcomeOf baseName result = .ok outcome)
    (accepted : outcome.status ≠ .exceptionOccurred) : result = .ok outcome.status := by
  cases result with
  | ok status =>
    cases answered
    rfl
  | error e =>
    simp only [outcomeOf] at answered
    cases aborts : e.abortsBatch with
    | true =>
      rw [aborts, if_pos rfl] at answered
      cases answered
    | false =>
      rw [aborts, if_neg Bool.false_ne_true] at answered
      cases answered
      exact absurd rfl accepted

/-- When an item was accepted and nothing fails, looking its name up finds a record with its
field and its alias, unless the name was unseen. An unseen name is still not found, and its
request is under the key: a new one with the field and the alias, or the one that was there
before, in a world that has not changed. -/
theorem accepted_item_is_recorded (surroundings : Surroundings) (defaultPeriod : Single)
    (world after : World) (spec : ArchiveSpec) (outcome : ArchiveOutcome)
    (calm : surroundings.FaultFree)
    (steady : Program.faults surroundings (ExceptT.run (archivePv defaultPeriod world.catalog spec))
      world = [])
    (ran : (archivePv defaultPeriod world.catalog spec).run surroundings world = (.ok outcome, after))
    (accepted : outcome.status ≠ .exceptionOccurred) :
    ∃ name admission, Name.normalize world.catalog spec.pv = .ok name ∧
      (status spec.pv).run surroundings after = (.ok admission, after) ∧
      (¬ name.IsUnseen world → admission.Holds name.standardField spec.aliasName) ∧
      (name.IsUnseen world →
        admission = .notRegistered ∧ UnderKey name spec.aliasName world after outcome.status) := by
  rcases archivePv_effect ⟨ran, steady⟩ with
    ⟨_, _, impossible, _⟩ | ⟨name, result, valid, effect, answer⟩
  · cases impossible
  · have answered := outcomeOf_eq_ok answer.symm accepted
    subst answered
    obtain ⟨admission, found, held⟩ := effect.registration
    refine ⟨name, admission, valid, ?_, held⟩
    rw [status_run calm, effect.catalog, valid, Except.bind, found]
    rfl

theorem accepted_item_is_recorded_of_bare_name :
    let start : World := .fresh (.memoryOf .default) .noting
    let spec : ArchiveSpec := { pv := "SRC.HIHI", aliasName := some "A" }
    let archived :=
      (archivePv AdmissionConfig.default.defaultPeriod start.catalog spec).run (.calm 0) start
    archived.1 = .ok ⟨"SRC", .submitted⟩ ∧
      ∃ admission, (status spec.pv).run (.calm 0) archived.2 = (.ok admission, archived.2) ∧
        admission.Holds (some "HIHI") (some "A") := by
  have calm : (Surroundings.calm 0).FaultFree := fun _ => rfl
  have sound : World.Sound (.fresh (.memoryOf .default) .noting) :=
    World.sound_fresh (ConfigStore.sound_memoryOf _) rfl
  have named : Name.normalize (World.fresh (.memoryOf .default) .noting).catalog "SRC.HIHI" =
    .ok ⟨"SRC", .standard "HIHI"⟩ := rfl
  obtain ⟨name, admission, valid, found, recorded, -⟩ := accepted_item_is_recorded (.calm 0)
    AdmissionConfig.default.defaultPeriod (.fresh (.memoryOf .default) .noting) _
    { pv := "SRC.HIHI", aliasName := some "A" } ⟨"SRC", .submitted⟩ calm
    (Program.faults_eq_nil calm sound _).1 rfl (by decide)
  cases named.symm.trans valid
  refine ⟨rfl, admission, found, recorded ?_⟩
  rintro ⟨marked, -⟩
  exact absurd marked (by decide +kernel)

/-- A marked name is submitted and then not found under itself. A further request for it is
accepted, and its alias is dropped. -/
theorem accepted_marked_item_is_not_found :
    let start : World := .fresh (.memoryOf .default) .noting
    let archive (aliasName : String) := archivePv AdmissionConfig.default.defaultPeriod start.catalog
      { pv := "pva://SRC.HIHI", aliasName := some aliasName }
    ∃ after, (archive "A").run (.calm 0) start = (.ok ⟨"pva://SRC", .submitted⟩, after) ∧
      (status "pva://SRC.HIHI").run (.calm 0) after = (.ok .notRegistered, after) ∧
      (archive "B").run (.calm 0) after = (.ok ⟨"pva://SRC", .alreadySubmitted⟩, after) :=
  ⟨_, rfl, rfl, rfl⟩

end ArchiveIntake
