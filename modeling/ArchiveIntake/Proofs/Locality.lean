import ArchiveIntake.Proofs.Cells

/-! Programs that stay within some cells of a world. Such a program ends alike in worlds that
agree on these cells, and leaves all others as they are. So programs within separate cells can
change places. An item of a request stays within the cells of its own names. -/

namespace ArchiveIntake

namespace Program
variable {allowed : Request → Prop} {surroundings : Surroundings} {cells : Cell → Prop}

/-- Whether a program makes none but allowed requests, whatever it is answered. -/
def Uses (allowed : Request → Prop) : Program α → Prop
  | .done _ => True
  | .ask request next => allowed request ∧ ∀ reply, (next reply).Uses allowed

theorem Uses.bind {program : Program α} {next : α → Program β} (first : program.Uses allowed)
    (rest : ∀ value, (next value).Uses allowed) : (program.bind next).Uses allowed := by
  induction program with
  | done value => exact rest value
  | ask request others ih => exact ⟨first.1, fun reply => ih reply (first.2 reply)⟩

theorem Uses.mono {more : Request → Prop} {program : Program α} (uses : program.Uses allowed)
    (implies : ∀ request, allowed request → more request) : program.Uses more := by
  induction program with
  | done value => trivial
  | ask request next ih => exact ⟨implies request uses.1, fun reply => ih reply (uses.2 reply)⟩

theorem Uses.request {asked : Request} (permitted : allowed asked) : (Program.request asked).Uses allowed :=
  ⟨permitted, fun _ => trivial⟩

/-- No program changes a setting. -/
theorem run_settings (surroundings : Surroundings) (program : Program α) (world : World) :
    world.store.SameSettings (program.run surroundings world).2.store := by
  apply ConfigStore.SameSettings.of_bare
  induction program generalizing world with
  | done value => rfl
  | ask request next ih =>
    rw [run_ask, ih]
    exact World.respond_bare surroundings world request

/-- A program leaves all cells alone that its requests are not about. -/
theorem run_elsewhere (surroundings : Surroundings) {program : Program α}
    (uses : program.Uses (·.Within cells)) (world : World) :
    World.AgreeOn (fun cell => ¬ cells cell) world (program.run surroundings world).2 := by
  induction program generalizing world with
  | done value => exact .refl _ _
  | ask request next ih =>
    rw [run_ask]
    exact (World.respond_elsewhere uses.1 surroundings world).trans (ih _ (uses.2 _) _)

theorem run_same {program : Program α}
    (still : ∀ reading other, surroundings.clock reading = surroundings.clock other)
    (uses : program.Uses (·.Within cells)) {world twin : World} (agree : World.AgreeOn cells world twin) :
    (program.run surroundings world).1 = (program.run surroundings twin).1 ∧
      World.AgreeOn cells (program.run surroundings world).2 (program.run surroundings twin).2 := by
  induction program generalizing world twin with
  | done value => exact ⟨rfl, agree⟩
  | ask request next ih =>
    obtain ⟨reply, agree⟩ := World.respond_same still uses.1 agree
    rw [run_ask, run_ask, reply]
    exact ih _ (uses.2 _) agree

/-- Programs within separate cells can change places. -/
theorem run_comm {first : Program α} {second : Program β}
    (still : ∀ reading other, surroundings.clock reading = surroundings.clock other)
    (uses : first.Uses (·.Within cells)) (apart : second.Uses (·.Within fun cell => ¬ cells cell))
    {world afterFirst afterSecond : World} {value : α} {other : β}
    (firstRan : first.run surroundings world = (value, afterFirst))
    (secondRan : second.run surroundings world = (other, afterSecond)) :
    ∃ forward backward, second.run surroundings afterFirst = (other, forward) ∧
      first.run surroundings afterSecond = (value, backward) ∧
      forward.store = backward.store ∧ forward.queue = backward.queue := by
  have kept (world : World) : World.AgreeOn cells world (second.run surroundings world).2 :=
    (run_elsewhere surroundings apart world).mono fun _ inside outside => outside inside
  obtain ⟨secondReply, beyond⟩ := run_same still apart (run_elsewhere surroundings uses world)
  obtain ⟨firstReply, within⟩ := run_same still uses (kept world)
  rw [firstRan, secondRan] at secondReply beyond
  rw [firstRan, secondRan] at firstReply within
  -- Both orders agree with the first program alone within its cells, and with the second elsewhere.
  have within := (kept afterFirst).symm.trans within
  have beyond := beyond.symm.trans (run_elsewhere surroundings uses afterSecond)
  refine ⟨(second.run surroundings afterFirst).2, (first.run surroundings afterSecond).2,
    Prod.ext secondReply.symm rfl, Prod.ext firstReply.symm rfl,
    World.AgreeOn.store_eq ⟨within.bare, within.running, fun cell _ => ?_⟩⟩
  by_cases own : cells cell
  · exact within.content cell own
  · exact beyond.content cell own

end Program

theorem Attempt.run_settings {surroundings : Surroundings} {attempt : Attempt α} {world after : World}
    {result : Except AdmissionError α} (ran : attempt.run surroundings world = (result, after)) :
    world.store.SameSettings after.store := by
  have settings := Program.run_settings surroundings (ExceptT.run attempt) world
  have ended : (Program.run surroundings (ExceptT.run attempt) world).2 = after := congrArg Prod.snd ran
  rwa [ended] at settings

def Attempt.Uses (allowed : Request → Prop) (attempt : Attempt α) : Prop :=
  Program.Uses allowed (ExceptT.run attempt)

namespace Attempt.Uses
variable {allowed : Request → Prop}

theorem pure (value : α) : Uses allowed (Pure.pure value : Attempt α) := trivial

theorem ofExcept (result : Except AdmissionError α) : Uses allowed (Attempt.ofExcept result) := trivial

theorem bind {attempt : Attempt α} {next : α → Attempt β} (first : Uses allowed attempt)
    (rest : ∀ value, Uses allowed (next value)) : Uses allowed (attempt >>= next) := by
  refine Program.Uses.bind first ?_
  rintro (e | value)
  · trivial
  · exact rest value

theorem lift {program : Program α} (uses : program.Uses allowed) :
    Uses allowed (ExceptT.lift program : Attempt α) :=
  uses.bind fun _ => trivial

theorem await {wrap : Failure → AdmissionError} {program : Program (Except Failure α)}
    (uses : program.Uses allowed) : Uses allowed (Attempt.await wrap program) := by
  refine uses.bind ?_
  rintro (failure | value) <;> trivial

end Attempt.Uses

/-- The cells of an item: the record under its base name, its alias, and the requests under its base
name and under its key. -/
def NormalizedName.cells (name : NormalizedName) (aliasName : Option String) : Cell → Prop
  | .record pv => pv = name.baseName
  | .entry added => added ∈ aliasName
  | .request key => key = name.baseName ∨ key = name.queueKey

/-! An item makes no request beyond its cells. -/

section Item
variable (name : NormalizedName) (aliasName : Option String)

namespace Admission

theorem mergeField_uses (record : ActiveRecord) :
    (mergeField name record).Uses (·.Within (name.cells aliasName)) := by
  unfold mergeField
  cases name.standardField with
  | none => exact .pure record
  | some field =>
    simp only
    split
    · exact .pure record
    · refine .bind (.lift (.request trivial)) fun now => ?_
      exact .bind (.await (.request rfl)) fun _ => .pure _

theorem mergeAlias_uses (record : ActiveRecord) :
    (mergeAlias name aliasName record).Uses (·.Within (name.cells aliasName)) := by
  cases aliasName with
  | none => exact .pure record
  | some added => exact .bind (.await (.request ⟨rfl, rfl⟩)) fun _ => .pure _

theorem check_uses : (check name aliasName).Uses (·.Within (name.cells aliasName)) := by
  refine .bind (.await (.request rfl)) fun found => ?_
  cases found with
  | some record =>
    refine .bind (.bind (mergeField_uses name aliasName record) fun merged => ?_) fun _ => .pure _
    exact mergeAlias_uses name aliasName merged
  | none =>
    refine .bind (.bind (.await (.request (.inl rfl))) fun _ => .pure _) fun merged => ?_
    cases merged <;> exact .pure _

end Admission

theorem resolvePolicy_uses {cells : Cell → Prop} (defaultPeriod : Single) (spec : ArchiveSpec) :
    (resolvePolicy defaultPeriod spec).Uses (·.Within cells) := by
  refine .bind (.ofExcept spec.override) fun asked => ?_
  cases asked with
  | none => exact .pure _
  | some asked =>
    exact .bind (.bind (.lift (.request trivial)) fun _ => .ofExcept _) fun _ => .pure _

theorem submit_uses (policy : EffectivePolicy) :
    (submit name policy aliasName).Uses (·.Within (name.cells aliasName)) := by
  refine .bind (.await (.request (.inr rfl))) fun inserted => ?_
  cases inserted with
  | false => exact .pure _
  | true => exact .bind (.await (.request trivial)) fun _ => .pure _

theorem admitItem_uses (defaultPeriod : Single) (spec : ArchiveSpec) :
    (admitItem defaultPeriod name spec).Uses (·.Within (name.cells spec.aliasName)) := by
  refine .bind (.ofExcept _) fun _ => .bind (.ofExcept _) fun _ => ?_
  refine .bind (Admission.check_uses name spec.aliasName) fun found => ?_
  split
  · exact .pure _
  · refine .bind (resolvePolicy_uses defaultPeriod spec) fun policy => ?_
    refine .bind (submit_uses name spec.aliasName policy) fun submission => ?_
    cases submission <;> exact .pure _

theorem archiveNamed_uses (defaultPeriod : Single) (spec : ArchiveSpec) :
    (archiveNamed defaultPeriod name spec).Uses (·.Within (name.cells spec.aliasName)) :=
  Program.Uses.bind (admitItem_uses name defaultPeriod spec) fun _ => trivial

theorem archivePv_uses {catalog : Catalog} {spec : ArchiveSpec} (defaultPeriod : Single)
    (valid : Name.normalize catalog spec.pv = .ok name) :
    (archivePv defaultPeriod catalog spec).Uses (·.Within (name.cells spec.aliasName)) := by
  unfold archivePv
  rw [valid]
  exact archiveNamed_uses name defaultPeriod spec

end Item
end ArchiveIntake
