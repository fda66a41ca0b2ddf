import ArchiveIntake.Proofs.Growth

/-! Items with nothing in common can be processed in either order. What they have in common can
only be a base name, a key or an alias, since an item stays within the cells of these. So it is
enough to keep others out while a base name is worked on. -/

namespace ArchiveIntake

namespace NamedItem

def keys (item : NamedItem) : List String := [item.name.baseName, item.name.queueKey]

theorem uses_apart {first second : NamedItem} (defaultPeriod : Single)
    (keys : ∀ key ∈ first.keys, key ∉ second.keys)
    (aliases : ∀ added ∈ first.spec.aliasName, added ∉ second.spec.aliasName) :
    (archivePv defaultPeriod second.catalog second.spec).Uses
      (·.Within fun cell => ¬ first.name.cells first.spec.aliasName cell) := by
  refine (archivePv_uses second.name defaultPeriod second.valid).mono fun request within => ?_
  refine within.mono fun cell inside shared => ?_
  cases cell with
  | record pv =>
    refine keys pv ?_ ?_
    · exact List.mem_cons.mpr (.inl shared)
    · exact List.mem_cons.mpr (.inl inside)
  | entry added => exact aliases added shared inside
  | request key =>
    refine keys key ?_ ?_
    · simpa [NamedItem.keys, NormalizedName.cells] using shared
    · simpa [NamedItem.keys, NormalizedName.cells] using inside

end NamedItem

/-- Two items that share no name to be queued under and no alias get the same outcomes in either
order, and leave the same records, aliases and requests, whatever is out of order. The engine is
told of the same names, in the order of the items. -/
theorem independent_items_commute (outage : Request → Option Failure) (now : Time)
    (defaultPeriod : Single) (first second : NamedItem) (world : World)
    (keys : ∀ key ∈ first.keys, key ∉ second.keys)
    (aliases : ∀ added ∈ first.spec.aliasName, added ∉ second.spec.aliasName) :
    let run (item : NamedItem) (world : World) :=
      (archivePv defaultPeriod item.catalog item.spec).run ⟨outage, fun _ => now⟩ world
    ∃ one two afterFirst afterSecond forward backward,
      run first world = (.ok one, afterFirst) ∧ run second afterFirst = (.ok two, forward) ∧
      run second world = (.ok two, afterSecond) ∧ run first afterSecond = (.ok one, backward) ∧
      forward.store = backward.store ∧ forward.queue = backward.queue ∧
      forward.engine = world.engine.told (one.started ++ two.started) ∧
      backward.engine = world.engine.told (two.started ++ one.started) := by
  intro run
  cases firstRan : run first world with
  | mk firstResult afterFirst =>
  cases secondRan : run second world with
  | mk secondResult afterSecond =>
  obtain ⟨forward, backward, later, earlier, store, queue⟩ := Program.run_comm (fun _ _ => rfl)
    (archivePv_uses first.name defaultPeriod first.valid)
    (NamedItem.uses_apart defaultPeriod keys aliases) firstRan secondRan
  obtain ⟨one, rfl, -, written⟩ := first.writes firstRan
  obtain ⟨two, rfl, -, otherWritten⟩ := second.writes secondRan
  obtain ⟨_, same, -, writtenLater⟩ := second.writes later
  cases same
  obtain ⟨_, same, -, writtenEarlier⟩ := first.writes earlier
  cases same
  refine ⟨one, two, afterFirst, afterSecond, forward, backward, rfl, later, rfl, earlier, store, queue,
    ?_, ?_⟩
  · rw [writtenLater.engine.2, written.engine.2, Engine.told_told]
  · rw [writtenEarlier.engine.2, otherWritten.engine.2, Engine.told_told]

/-- An active variable whose alias cannot be registered, and a marked name that is new. -/
theorem independent_items_commute_across_marks :
    let record : ActiveRecord := ⟨"SRC", ∅, ∅, 5⟩
    let start : World := .fresh (.memory ⟨(∅ : Table ActiveRecord).insert "SRC" record, ∅, ∅, []⟩)
      .noting
    let first : NamedItem := ⟨.ofList ["HIHI"], { pv := "SRC.HIHI", aliasName := some "A" },
      ⟨"SRC", .standard "HIHI"⟩, rfl⟩
    let second : NamedItem := ⟨.ofList ["HIHI"], { pv := "pva://OTHER.HIHI", aliasName := some "B" },
      ⟨"pva://OTHER", .standard "HIHI"⟩, rfl⟩
    let run (item : NamedItem) (world : World) :=
      (archivePv AdmissionConfig.default.defaultPeriod item.catalog item.spec).run
        (.withOutages ["add_alias"] fun _ => 7) world
    (run first start).1 = .ok ⟨"SRC", .exceptionOccurred⟩ ∧
      (run second start).1 = .ok ⟨"pva://OTHER", .submitted⟩ ∧
      ∃ one two afterFirst afterSecond forward backward,
        run first start = (.ok one, afterFirst) ∧ run second afterFirst = (.ok two, forward) ∧
        run second start = (.ok two, afterSecond) ∧ run first afterSecond = (.ok one, backward) ∧
        forward.store = backward.store ∧ forward.queue = backward.queue ∧
        forward.engine = start.engine.told (one.started ++ two.started) ∧
        backward.engine = start.engine.told (two.started ++ one.started) :=
  ⟨rfl, rfl, independent_items_commute (Surroundings.withOutages ["add_alias"] fun _ => 7).outage 7 _ _ _ _
    (by decide) (by decide)⟩

end ArchiveIntake
