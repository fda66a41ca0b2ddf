import ArchiveIntake.Proofs.Calm
import ArchiveIntake.Proofs.Item
import ArchiveIntake.Proofs.Name
import ArchiveIntake.Proofs.Pending
import ArchiveIntake.Proofs.Promotion
import ArchiveIntake.Proofs.Session

/-! What a sequence of items leaves queued under a key. The first item that can request
the key decides what is sampled and how, and later items with the key as base name
add to it. An item with the marked base name can only be the first: it is looked up under
its own name, where nothing is queued, and then finds the key taken. -/

namespace ArchiveIntake

structure NamedItem where
  catalog : Catalog
  spec : ArchiveSpec
  name : NormalizedName
  valid : Name.normalize catalog spec.pv = .ok name

namespace NamedItem

def operation (item : NamedItem) : Operation := .archivePv item.catalog item.spec

/-- Whether an item can make the request for a key. -/
def Requests (world : World) (key : String) (item : NamedItem) : Prop :=
  item.spec.overridesAreValid = true ∧
    (item.name.baseName = key ∨
      item.name.baseName = Name.marked key ∧ world.store.activeRecord (Name.marked key) = .ok none)

def addsTo (key : String) (item : NamedItem) : Bool :=
  item.spec.overridesAreValid && item.name.baseName == key

end NamedItem

/-- The request that these items have made, the first of them with this policy. -/
structure MadeBy (policy : EffectivePolicy) (items : List NamedItem) (record : PendingRecord) :
    Prop where
  method : record.method = policy.method
  period : record.period = policy.period
  controllingPv : record.controllingPv = policy.controllingPv
  policyName : record.policyName = policy.policyName
  userOverride : record.userOverride = policy.userOverride
  fields : record.requestedFields = NameSet.ofList (items.filterMap (·.name.standardField))
  aliases : record.aliases = (items.filterMap (·.spec.aliasName)).eraseDups

inductive ItemRun (defaultPeriod : Single) : World → List NamedItem → World → Prop
  | nil (world : World) : ItemRun defaultPeriod world [] world
  | cons {item : NamedItem} {rest : List NamedItem} {world middle after : World}
      {result : Except AdmissionError ArchiveStatus}
      (effect : ItemEffect defaultPeriod item.name item.spec world result middle)
      (others : ItemRun defaultPeriod middle rest after) :
      ItemRun defaultPeriod world (item :: rest) after

variable {defaultPeriod : Single} {surroundings : Surroundings} {world after : World}

theorem session_itemRun {items : List NamedItem} {performed : List Performed}
    (completed : (session defaultPeriod (items.map NamedItem.operation)).Completes surroundings world
      performed after) :
    ItemRun defaultPeriod world items after := by
  induction items generalizing world performed after with
  | nil =>
    obtain ⟨-, rfl⟩ := Program.completes_done.mp completed
    exact .nil _
  | cons item rest ih =>
    obtain ⟨answer, middle, first, others⟩ := Program.completes_bind.mp completed
    obtain ⟨performed, last, others, ended⟩ := Program.completes_bind.mp others
    obtain ⟨-, rfl⟩ := Program.completes_done.mp ended
    rcases archivePv_effect first with ⟨_, invalid, _⟩ | ⟨name, status, valid, effect, _⟩
    · cases item.valid.symm.trans invalid
    · cases item.valid.symm.trans valid
      exact .cons effect (ih others)

/-- No item makes a variable active or inactive, or changes a property. -/
structure SameVariables (before after : ConfigStore) : Prop where
  inactive : ∀ pv, after.activeRecord pv = .ok none ↔ before.activeRecord pv = .ok none
  property : ∀ key, after.property key = before.property key

namespace SameVariables
variable {before middle after : ConfigStore}

theorem refl (store : ConfigStore) : SameVariables store store := ⟨fun _ => Iff.rfl, fun _ => rfl⟩

theorem trans (first : SameVariables before middle) (second : SameVariables middle after) :
    SameVariables before after :=
  ⟨fun pv => (second.inactive pv).trans (first.inactive pv),
    fun key => (second.property key).trans (first.property key)⟩

end SameVariables

theorem NamedItem.requests_iff {item : NamedItem} {key : String}
    (same : SameVariables world.store after.store) :
    item.Requests after key ↔ item.Requests world key := by
  unfold Requests
  rw [same.inactive]

theorem ItemEffect.sameVariables {name : NormalizedName} {spec : ArchiveSpec}
    {result : Except AdmissionError ArchiveStatus}
    (effect : ItemEffect defaultPeriod name spec world result after) :
    SameVariables world.store after.store := by
  cases effect with
  | active record store readings usable found merge =>
    exact ⟨merge.inactive_iff found, merge.settings.properties⟩
  | invalid | pending | unresolved | refused | queued => exact .refl _

theorem ArchiveSpec.exists_effectivePolicy (defaultPeriod : Single) {spec : ArchiveSpec}
    {property : Option String} {minimum : Single} (usable : spec.overridesAreValid = true)
    (readable : readMinimumPeriod property = .ok minimum) :
    ∃ policy, spec.effectivePolicy defaultPeriod property = .ok policy := by
  unfold overridesAreValid at usable
  unfold effectivePolicy override
  cases period : spec.period with
  | none => exact ⟨_, rfl⟩
  | some raw =>
    cases methods : spec.requestedMethod with
    | error e => simp [methods, Except.isOk, Except.toBool] at usable
    | ok method =>
      cases periods : raw.seconds with
      | error e =>
        simp [requestedPeriod, period, periods, Except.map, Except.isOk, Except.toBool] at usable
      | ok seconds =>
        refine ⟨.ofOverride ⟨method, seconds⟩ minimum spec, ?_⟩
        rw [readable]
        simp only [periods]
        rfl

private theorem filterMap_cons_toList {β γ : Type} (f : β → Option γ) (first : β) (rest : List β) :
    (first :: rest).filterMap f = (f first).toList ++ rest.filterMap f := by
  cases kept : f first <;> simp [kept]

section Key
variable {key : String} {item : NamedItem} {result : Except AdmissionError ArchiveStatus}
  (effect : ItemEffect defaultPeriod item.name item.spec world result after)
include effect

/-- The marked key is never queued, because only a doubly marked name has this key. -/
theorem ItemEffect.marked_unqueued (single : Name.isDoublyMarked item.name.baseName = false)
    (unqueued : Name.marked key ∉ world.queue) : Name.marked key ∉ after.queue := by
  cases effect with
  | pending record usable inactive found =>
    rwa [Table.mem_insert_of_mem (Table.mem_of_getElem? found)]
  | queued policy usable inactive absent resolved free running =>
    rw [Table.mem_insert_iff]
    rintro (held | same)
    · exact unqueued held
    · rcases Name.queueKey_eq_iff.mp same.symm with double | ⟨-, unmarked⟩
      · rw [Name.isDoublyMarked_iff.mpr ⟨key, double⟩] at single
        cases single
      · rw [Name.isMarked_marked] at unmarked
        cases unmarked
  | invalid | active | unresolved | refused => exact unqueued

theorem ItemEffect.first_request {minimum : Single} (plain : Name.isMarked key = false)
    (readable : readMinimumPeriod (world.store.property minimumPeriodProperty) = .ok minimum)
    (inactive : world.store.activeRecord key = .ok none) (unqueued : key ∉ world.queue)
    (unqueuedMarked : Name.marked key ∉ world.queue) :
    (¬ item.Requests world key ∧ key ∉ after.queue) ∨
      item.Requests world key ∧ ∃ policy,
        item.spec.effectivePolicy defaultPeriod (world.store.property minimumPeriodProperty) =
          .ok policy ∧
        after.queue[key]? = some (.ofRequest item.name policy item.spec.aliasName) := by
  have shared : item.Requests world key → item.name.queueKey = key := by
    rintro ⟨-, same | ⟨same, -⟩⟩
    · exact Name.queueKey_eq_iff.mpr (.inr ⟨same, plain⟩)
    · exact Name.queueKey_eq_iff.mpr (.inl same)
  cases effect with
  | invalid e unusable =>
    refine .inl ⟨?_, unqueued⟩
    rintro ⟨usable, -⟩
    rw [unusable] at usable
    cases usable
  | active record store readings usable found merge =>
    refine .inl ⟨?_, unqueued⟩
    rintro ⟨-, same | ⟨same, idle⟩⟩
    · rw [same, inactive] at found
      cases found
    · rw [same, idle] at found
      cases found
  | pending record usable idle found =>
    have queued := Table.mem_of_getElem? found
    refine .inl ⟨?_, by rwa [Table.mem_insert_of_mem queued]⟩
    rintro ⟨-, same | ⟨same, -⟩⟩
    · exact unqueued (same ▸ queued)
    · exact unqueuedMarked (same ▸ queued)
  | unresolved e usable idle absent unreadable =>
    obtain ⟨policy, resolved⟩ := ArchiveSpec.exists_effectivePolicy defaultPeriod usable readable
    rw [unreadable] at resolved
    cases resolved
  | refused usable idle absent taken =>
    refine .inl ⟨?_, unqueued⟩
    intro requests
    rw [shared requests] at taken
    exact unqueued taken
  | queued policy usable idle absent resolved free running =>
    by_cases same : item.name.queueKey = key
    · refine .inr ⟨⟨usable, ?_⟩, policy, resolved, ?_⟩
      · rcases Name.queueKey_eq_iff.mp same with marked | ⟨bare, -⟩
        · exact .inr ⟨marked, marked ▸ idle⟩
        · exact .inl bare
      · rw [Table.getElem?_insert_iff, if_pos same.symm]
    · refine .inl ⟨fun requests => same (shared requests), ?_⟩
      rw [Table.mem_insert_iff]
      rintro (held | other)
      · exact unqueued held
      · exact same other.symm

theorem ItemEffect.later_request {record : PendingRecord}
    (inactive : world.store.activeRecord key = .ok none) (found : world.queue[key]? = some record) :
    ∃ merged, after.queue[key]? = some merged ∧
      PendingMerge (([item].filter (·.addsTo key)).filterMap (·.name.standardField))
        (([item].filter (·.addsTo key)).filterMap (·.spec.aliasName)) record merged := by
  have queued := Table.mem_of_getElem? found
  have unchanged : item.addsTo key = false → after.queue[key]? = some record →
      ∃ merged, after.queue[key]? = some merged ∧
        PendingMerge (([item].filter (·.addsTo key)).filterMap (·.name.standardField))
          (([item].filter (·.addsTo key)).filterMap (·.spec.aliasName)) record merged := by
    intro apart same
    refine ⟨record, same, ?_⟩
    simpa [apart] using PendingMerge.refl record
  have apart_of_absent : world.queue[item.name.baseName]? = none → item.addsTo key = false := by
    intro absent
    have apart : item.name.baseName ≠ key := by
      rintro rfl
      rw [absent] at found
      cases found
    simp [NamedItem.addsTo, apart]
  cases effect with
  | invalid e unusable => exact unchanged (by simp [NamedItem.addsTo, unusable]) found
  | active other store readings usable held merge =>
    have apart : item.name.baseName ≠ key := by
      rintro rfl
      rw [inactive] at held
      cases held
    exact unchanged (by simp [NamedItem.addsTo, apart]) found
  | pending other usable idle held =>
    by_cases same : item.name.baseName = key
    · subst same
      cases found.symm.trans held
      refine ⟨_, by rw [Table.getElem?_insert_iff, if_pos rfl], ?_⟩
      have counted : item.addsTo item.name.baseName = true := by simp [NamedItem.addsTo, usable]
      rw [List.filter_cons, counted, if_pos rfl, filterMap_cons_toList, filterMap_cons_toList]
      simpa using PendingMerge.of_pendingEdits record item.name item.spec.aliasName
    · refine unchanged (by simp [NamedItem.addsTo, same]) ?_
      rw [Table.getElem?_insert_iff, if_neg (Ne.symm same)]
      exact found
  | unresolved e usable idle absent unreadable => exact unchanged (apart_of_absent absent) found
  | refused usable idle absent taken => exact unchanged (apart_of_absent absent) found
  | queued policy usable idle absent resolved free running =>
    have other : key ≠ item.name.queueKey := by
      rintro rfl
      exact free queued
    refine unchanged (apart_of_absent absent) ?_
    rw [Table.getElem?_insert_iff, if_neg other]
    exact found

end Key

namespace ItemRun
variable {key : String} {items : List NamedItem} {minimum : Single}

theorem split {first second : List NamedItem}
    (ran : ItemRun defaultPeriod world (first ++ second) after) :
    ∃ middle, ItemRun defaultPeriod world first middle ∧
      ItemRun defaultPeriod middle second after := by
  induction first generalizing world with
  | nil => exact ⟨world, .nil world, ran⟩
  | cons item rest ih =>
    cases ran with
    | cons effect others =>
      obtain ⟨middle, front, back⟩ := ih others
      exact ⟨middle, .cons effect front, back⟩

theorem sameVariables (ran : ItemRun defaultPeriod world items after) :
    SameVariables world.store after.store := by
  induction ran with
  | nil world => exact .refl _
  | cons effect others ih => exact effect.sameVariables.trans ih

theorem without_request (ran : ItemRun defaultPeriod world items after)
    (plain : Name.isMarked key = false)
    (readable : readMinimumPeriod (world.store.property minimumPeriodProperty) = .ok minimum)
    (inactive : world.store.activeRecord key = .ok none) (unqueued : key ∉ world.queue)
    (unqueuedMarked : Name.marked key ∉ world.queue)
    (single : ∀ item ∈ items, Name.isDoublyMarked item.name.baseName = false)
    (none : ∀ item ∈ items, ¬ item.Requests world key) :
    key ∉ after.queue ∧ Name.marked key ∉ after.queue := by
  induction ran with
  | nil world => exact ⟨unqueued, unqueuedMarked⟩
  | @cons item rest world middle after result effect others ih =>
    have same := effect.sameVariables
    obtain ⟨first, singles⟩ := List.forall_mem_cons.mp single
    obtain ⟨idle, nones⟩ := List.forall_mem_cons.mp none
    rcases effect.first_request plain readable inactive unqueued unqueuedMarked with
      ⟨-, unqueued⟩ | ⟨requests, -⟩
    · refine ih ?_ ?_ unqueued (effect.marked_unqueued first unqueuedMarked) singles ?_
      · rw [same.property]
        exact readable
      · exact (same.inactive key).mpr inactive
      · intro other member requests
        exact nones other member ((NamedItem.requests_iff same).mp requests)
    · exact absurd requests idle

theorem later_requests {record : PendingRecord} (ran : ItemRun defaultPeriod world items after)
    (inactive : world.store.activeRecord key = .ok none) (found : world.queue[key]? = some record) :
    ∃ merged, after.queue[key]? = some merged ∧
      PendingMerge ((items.filter (·.addsTo key)).filterMap (·.name.standardField))
        ((items.filter (·.addsTo key)).filterMap (·.spec.aliasName)) record merged := by
  induction ran generalizing record with
  | nil world => exact ⟨record, found, .refl record⟩
  | @cons item rest world middle after result effect others ih =>
    obtain ⟨one, found, first⟩ := effect.later_request inactive found
    obtain ⟨merged, found, second⟩ := ih ((effect.sameVariables.inactive key).mpr inactive) found
    refine ⟨merged, found, ?_⟩
    rw [← List.singleton_append, List.filter_append, List.filterMap_append, List.filterMap_append]
    exact first.trans second

/-- The first item that can make the request makes it, and later ones add to it. -/
theorem made {earlier later : List NamedItem} {first : NamedItem}
    (ran : ItemRun defaultPeriod world (earlier ++ first :: later) after)
    (plain : Name.isMarked key = false)
    (readable : readMinimumPeriod (world.store.property minimumPeriodProperty) = .ok minimum)
    (inactive : world.store.activeRecord key = .ok none) (unqueued : key ∉ world.queue)
    (unqueuedMarked : Name.marked key ∉ world.queue)
    (single : ∀ item ∈ earlier, Name.isDoublyMarked item.name.baseName = false)
    (none : ∀ item ∈ earlier, ¬ item.Requests world key) (requests : first.Requests world key) :
    ∃ policy record, first.spec.effectivePolicy defaultPeriod
        (world.store.property minimumPeriodProperty) = .ok policy ∧
      after.queue[key]? = some record ∧ MadeBy policy (first :: later.filter (·.addsTo key)) record := by
  obtain ⟨middle, front, back⟩ := ran.split
  have same := front.sameVariables
  obtain ⟨unqueued, unqueuedMarked⟩ :=
    front.without_request plain readable inactive unqueued unqueuedMarked single none
  rw [← same.inactive key] at inactive
  rw [← same.property] at readable ⊢
  cases back with
  | cons effect others =>
    rcases effect.first_request plain readable inactive unqueued unqueuedMarked with
      ⟨idle, -⟩ | ⟨-, policy, resolved, found⟩
    · exact absurd ((NamedItem.requests_iff same).mpr requests) idle
    · obtain ⟨record, found, merge⟩ :=
        others.later_requests ((effect.sameVariables.inactive key).mpr inactive) found
      refine ⟨policy, record, resolved, found, merge.method, merge.period, merge.controllingPv,
        merge.policyName, merge.userOverride, ?_, ?_⟩
      · apply Std.ExtTreeSet.ext_mem
        intro name
        rw [merge.fields, filterMap_cons_toList]
        simp [PendingRecord.ofRequest]
      · rw [filterMap_cons_toList]
        apply merge.order
        cases first.spec.aliasName <;> rfl

end ItemRun

private theorem exists_first {β : Type} {p : β → Prop} {items : List β}
    (some : ∃ item ∈ items, p item) :
    ∃ earlier first later, items = earlier ++ first :: later ∧ (∀ item ∈ earlier, ¬ p item) ∧
      p first := by
  induction items with
  | nil => simp at some
  | cons item rest ih =>
    by_cases here : p item
    · exact ⟨[], item, rest, rfl, by simp, here⟩
    · obtain ⟨other, member, holds⟩ := some
      have further : ∃ item ∈ rest, p item := by
        refine ⟨other, (List.mem_cons.mp member).resolve_left ?_, holds⟩
        rintro rfl
        exact here holds
      obtain ⟨earlier, first, later, rfl, none, holds⟩ := ih further
      exact ⟨item :: earlier, first, later, rfl, List.forall_mem_cons.mpr ⟨here, none⟩, holds⟩

/-- Items alone never change what is active. A key is queued after them exactly if one of
them could request it. The first such item decides how it is sampled; its field and alias
and those of the later items with the key as base name are what is queued, and the
confirmation of the key makes an active record of them. -/
theorem queued_request_closed_form (surroundings : Surroundings) (defaultPeriod minimum : Single)
    (world now : World) (key : String) (items : List NamedItem) (performed : List Performed)
    (plain : Name.isMarked key = false)
    (inactive : world.store.activeRecord key = .ok none)
    (unqueued : key ∉ world.queue) (unqueuedMarked : Name.marked key ∉ world.queue)
    (single : ∀ item ∈ items, Name.isDoublyMarked item.name.baseName = false)
    (readable : readMinimumPeriod (world.store.property minimumPeriodProperty) = .ok minimum)
    (steady : (session defaultPeriod (items.map NamedItem.operation)).faults surroundings world = [])
    (ran : (session defaultPeriod (items.map NamedItem.operation)).run surroundings world =
      (performed, now)) :
    (∀ pv, now.store.activeRecord pv = .ok none ↔ world.store.activeRecord pv = .ok none) ∧
      (key ∈ now.queue ↔ ∃ item ∈ items, item.Requests world key) ∧
      ∀ earlier first later, items = earlier ++ first :: later →
        (∀ item ∈ earlier, ¬ item.Requests world key) → first.Requests world key →
        ∃ policy record, first.spec.effectivePolicy defaultPeriod
            (world.store.property minimumPeriodProperty) = .ok policy ∧
          now.queue[key]? = some record ∧
          MadeBy policy (first :: later.filter (·.addsTo key)) record ∧
          ((ExceptT.run (confirmStarted key)).faults surroundings now = [] →
            ∃ final active, (confirmStarted key).run surroundings now = (.ok true, final) ∧
              final.queue = now.queue.erase key ∧
              final.store.activeRecord key = .ok (some active) ∧ active.pvName = key ∧
              active.archivedFields = record.requestedFields ∧
              active.aliases = NameSet.ofList record.aliases) := by
  have items_ran := session_itemRun ⟨ran, steady⟩
  refine ⟨items_ran.sameVariables.inactive, ?_, ?_⟩
  · constructor
    · intro queued
      apply Classical.byContradiction
      intro none
      have idle : ∀ item ∈ items, ¬ item.Requests world key :=
        fun item member requests => none ⟨item, member, requests⟩
      exact (items_ran.without_request plain readable inactive unqueued unqueuedMarked single idle).1
        queued
    · intro some
      obtain ⟨earlier, first, later, rfl, none, requests⟩ := exists_first some
      obtain ⟨policy, record, -, found, -⟩ := items_ran.made plain readable inactive unqueued
        unqueuedMarked (fun item member => single item (List.mem_append_left _ member)) none requests
      exact Table.mem_of_getElem? found
  · rintro earlier first later rfl none requests
    obtain ⟨policy, record, resolved, found, made⟩ := items_ran.made plain readable inactive unqueued
      unqueuedMarked (fun item member => single item (List.mem_append_left _ member)) none requests
    refine ⟨policy, record, resolved, found, made, ?_⟩
    intro fine
    cases confirmation : (confirmStarted key).run surroundings now with
    | mk answer final =>
      obtain ⟨moved, rfl, effect⟩ := confirmStarted_effect ⟨confirmation, fine⟩
      rw [Name.queueKey_of_not_isMarked plain] at effect
      cases effect with
      | absent absent =>
        rw [absent] at found
        cases found
      | moved pending store readings held promoted =>
        cases found.symm.trans held
        obtain ⟨active, present, named, fields, aliases⟩ := promoted.here
        refine ⟨_, active, rfl, rfl, present, named, ?_, ?_⟩
        · exact Std.ExtTreeSet.ext_mem fields
        · apply Std.ExtTreeSet.ext_mem
          intro name
          rw [aliases, NameSet.mem_ofList]

/-- A marked name makes the request, and the bare name adds to it. -/
theorem queued_request_closed_form_across_marks :
    let items : List NamedItem := [
      ⟨NameSet.ofList ["HIHI", "LOLO"], { pv := "pva://SRC.HIHI", aliasName := some "A" },
        ⟨"pva://SRC", .standard "HIHI"⟩, rfl⟩,
      ⟨NameSet.ofList ["HIHI", "LOLO"], { pv := "SRC.LOLO", aliasName := some "B" },
        ⟨"SRC", .standard "LOLO"⟩, rfl⟩,
      ⟨NameSet.ofList ["HIHI", "LOLO"], { pv := "SRC.HIHI", aliasName := some "A" },
        ⟨"SRC", .standard "HIHI"⟩, rfl⟩]
    let run := (session AdmissionConfig.default.defaultPeriod (items.map NamedItem.operation)).run
      (.calm 0) (.fresh (.memoryOf .default) .noting)
    ∃ record active final, run.2.queue["SRC"]? = some record ∧
      record.requestedFields = NameSet.ofList ["HIHI", "LOLO"] ∧ record.aliases = ["A", "B"] ∧
      (confirmStarted "SRC").run (.calm 0) run.2 = (.ok true, final) ∧
      final.store.activeRecord "SRC" = .ok (some active) ∧
      active.archivedFields = record.requestedFields ∧
      active.aliases = NameSet.ofList record.aliases := by
  intro items run
  have calm : (Surroundings.calm 0).FaultFree := fun _ => rfl
  have fresh : World.Sound (.fresh (.memoryOf .default) .noting) :=
    World.sound_fresh (ConfigStore.sound_memoryOf .default) rfl
  obtain ⟨steady, sound⟩ := Program.faults_eq_nil calm fresh
    (session AdmissionConfig.default.defaultPeriod (items.map NamedItem.operation))
  obtain ⟨-, -, made⟩ := queued_request_closed_form (.calm 0) _ _ _ run.2 "SRC" items run.1
    (by decide +kernel) rfl (by decide +kernel) (by decide +kernel) (by decide +kernel) rfl steady rfl
  obtain ⟨policy, record, -, found, made, confirmed⟩ := made [] _ _ rfl (by simp)
    ⟨by decide +kernel, .inr ⟨rfl, rfl⟩⟩
  obtain ⟨final, active, ran, -, present, -, fields, aliases⟩ :=
    confirmed (Program.faults_eq_nil calm sound _).1
  exact ⟨record, active, final, found, made.fields, made.aliases, ran, present, fields, aliases⟩

end ArchiveIntake
