import ArchiveIntake.Proofs.Batch

/-! Batches with and without their unusable items. An item whose method or period is invalid is refused
before any request is made for it, so the items after it run in the world that the items before it
leave, and with the same catalog. Whatever fails, a batch does not show whether such items were in it. -/

namespace ArchiveIntake

def selected (keep : Nat → Bool) : List α → List α
  | [] => []
  | first :: rest =>
    let others := selected (fun position => keep (position + 1)) rest
    if keep 0 then first :: others else others

theorem selected_of_kept {keep : Nat → Bool} {first : α} (rest : List α) (kept : keep 0 = true) :
    selected keep (first :: rest) = first :: selected (fun position => keep (position + 1)) rest := by
  simp [selected, kept]

theorem selected_of_omitted {keep : Nat → Bool} {first : α} (rest : List α) (omitted : keep 0 = false) :
    selected keep (first :: rest) = selected (fun position => keep (position + 1)) rest := by
  simp [selected, omitted]

/-- An item with a valid name and a method or a period that is not valid. -/
structure ArchiveSpec.IsUnusable (catalog : Catalog) (spec : ArchiveSpec) : Prop where
  named : Name.isValid (spec.baseName catalog) = true
  invalid : spec.overridesAreValid = false

def ArchiveSpec.refusal (catalog : Catalog) (spec : ArchiveSpec) : ArchiveOutcome :=
  ⟨spec.baseName catalog, .exceptionOccurred⟩

variable {surroundings : Surroundings} {defaultPeriod : Single} {catalog : Catalog}
  {spec : ArchiveSpec} {specs : List ArchiveSpec} {keep : Nat → Bool}

theorem ArchiveSpec.IsUnusable.run (unusable : spec.IsUnusable catalog) (surroundings : Surroundings)
    (defaultPeriod : Single) (world : World) :
    (archivePv defaultPeriod catalog spec).run surroundings world =
      (.ok (spec.refusal catalog), world) := by
  cases ran : (archivePv defaultPeriod catalog spec).run surroundings world with
  | mk result after =>
    rcases archivePv_course ran with ⟨_, nameless, -, -⟩ | ⟨name, status, valid, course, rfl⟩
    · cases nameless.symm.trans (ArchiveSpec.normalize_of_isValid unusable.named)
    · obtain ⟨rfl, -⟩ := ArchiveSpec.normalize_eq_ok.mp valid
      cases course with
      | invalid e _ continues => simp [outcomeOf, continues, ArchiveSpec.refusal, ArchiveSpec.baseName]
      | unchecked _ _ usable | registered _ _ usable | unresolved _ usable | submitted _ _ _ usable =>
        cases usable.symm.trans unusable.invalid

section Items
variable {world middle after : World} {outcome : ArchiveOutcome} {outcomes : List ArchiveOutcome}

theorem archiveItems_run_of_outcome
    (ran : (archivePv defaultPeriod catalog spec).run surroundings world = (.ok outcome, middle))
    (rest : List ArchiveSpec) :
    (archiveItems defaultPeriod catalog (spec :: rest)).run surroundings world =
      (((archiveItems defaultPeriod catalog rest).run surroundings middle).1.map (outcome :: ·),
        ((archiveItems defaultPeriod catalog rest).run surroundings middle).2) := by
  rw [archiveItems, Attempt.run_bind, ran]
  simp only
  rw [Attempt.run_bind]
  rcases (archiveItems defaultPeriod catalog rest).run surroundings middle with ⟨_ | _, _⟩ <;> rfl

theorem archiveItems_run_of_error {e : AdmissionError}
    (ran : (archivePv defaultPeriod catalog spec).run surroundings world = (.error e, after))
    (rest : List ArchiveSpec) :
    (archiveItems defaultPeriod catalog (spec :: rest)).run surroundings world = (.error e, after) := by
  rw [archiveItems, Attempt.run_bind, ran]

/-- By induction on the items. The positions to keep move along with the list, and the world of an
omitted item is the one that the next item runs in anyway. -/
theorem archiveItems_selected
    (unusable : ∀ position spec, specs[position]? = some spec → keep position = false →
      spec.IsUnusable catalog) (world : World) :
    (archiveItems defaultPeriod catalog (selected keep specs)).run surroundings world =
      (((archiveItems defaultPeriod catalog specs).run surroundings world).1.map (selected keep),
        ((archiveItems defaultPeriod catalog specs).run surroundings world).2) := by
  induction specs generalizing keep world with
  | nil => rfl
  | cons spec rest ih =>
    have others := @ih (fun position => keep (position + 1))
      fun position spec given omitted => unusable (position + 1) spec given omitted
    cases kept : keep 0 with
    | false =>
      have refused := (unusable 0 spec rfl kept).run surroundings defaultPeriod world
      rw [selected_of_omitted rest kept, others, archiveItems_run_of_outcome refused]
      rcases (archiveItems defaultPeriod catalog rest).run surroundings world with ⟨_ | outcomes, _⟩
      · rfl
      · simp only [Except.map, selected_of_omitted outcomes kept]
    | true =>
      rw [selected_of_kept rest kept]
      rcases ran : (archivePv defaultPeriod catalog spec).run surroundings world with
        ⟨e | outcome, middle⟩
      · rw [archiveItems_run_of_error ran, archiveItems_run_of_error ran]
        rfl
      · rw [archiveItems_run_of_outcome ran, archiveItems_run_of_outcome ran, others]
        rcases (archiveItems defaultPeriod catalog rest).run surroundings middle with ⟨_ | outcomes, _⟩
        · rfl
        · simp only [Except.map, selected_of_kept outcomes kept]

theorem archiveItems_refusal {position : Nat}
    (ran : (archiveItems defaultPeriod catalog specs).run surroundings world = (.ok outcomes, after))
    (given : specs[position]? = some spec) (unusable : spec.IsUnusable catalog) :
    outcomes[position]? = some (spec.refusal catalog) := by
  induction specs generalizing position world outcomes with
  | nil => cases given
  | cons first rest ih =>
    rcases own : (archivePv defaultPeriod catalog first).run surroundings world with
      ⟨e | outcome, middle⟩
    · rw [archiveItems_run_of_error own] at ran
      cases ran
    rw [archiveItems_run_of_outcome own] at ran
    rcases others : (archiveItems defaultPeriod catalog rest).run surroundings middle with
      ⟨e | later, last⟩
    · rw [others] at ran
      cases ran
    rw [others] at ran
    obtain ⟨rfl, rfl⟩ : outcome :: later = outcomes ∧ last = after := by simpa [Except.map] using ran
    cases position with
    | zero =>
      cases given
      rw [unusable.run] at own
      cases own
      rfl
    | succ position =>
      rw [List.getElem?_cons_succ] at given ⊢
      exact ih others given

end Items

/-- Whatever fails, items that are unusable can be left out of a batch: it leaves the same world, ends
with the same error or gives the other items the same outcomes, in the same order. Each of the
items left out is answered with an exception, in any world that the batch comes to it in. -/
theorem unusable_items_are_invisible (surroundings : Surroundings) (defaultPeriod : Single)
    (world : World) (specs : List ArchiveSpec) (keep : Nat → Bool)
    (unusable : ∀ position spec, specs[position]? = some spec → keep position = false →
      spec.IsUnusable (world.seenCatalog surroundings)) :
    (archiveBatch defaultPeriod (selected keep specs)).run surroundings world =
        (((archiveBatch defaultPeriod specs).run surroundings world).1.map (selected keep),
          ((archiveBatch defaultPeriod specs).run surroundings world).2) ∧
      ∀ position spec, specs[position]? = some spec → keep position = false →
        (∀ outcomes after, (archiveBatch defaultPeriod specs).run surroundings world =
            (.ok outcomes, after) →
          outcomes[position]? = some ⟨spec.baseName (world.seenCatalog surroundings), .exceptionOccurred⟩) ∧
        ∀ reached, (archivePv defaultPeriod (world.seenCatalog surroundings) spec).run surroundings
            reached =
          (.ok ⟨spec.baseName (world.seenCatalog surroundings), .exceptionOccurred⟩, reached) := by
  simp only [archiveBatch_run_seen]
  refine ⟨archiveItems_selected unusable world, fun position spec given omitted => ?_⟩
  have refused := unusable position spec given omitted
  exact ⟨fun outcomes after ran => archiveItems_refusal ran given refused,
    refused.run surroundings defaultPeriod⟩

/-- Two items would have added a field and aliases to variables that the items after them change. -/
theorem unusable_items_are_invisible_of_two :
    let store : MemoryStore :=
      ⟨(∅ : Table ActiveRecord).insert "ACT" ⟨"ACT", ∅, ∅, 5⟩, ∅, ∅, ["HIHI", "LOLO"]⟩
    let run (specs : List ArchiveSpec) := (archiveBatch AdmissionConfig.default.defaultPeriod specs).run
      (.withOutages ["start_workflow"] fun _ => 7) (.fresh (.memory store) .noting)
    let specs : List ArchiveSpec := [
      { pv := "ACT.HIHI", method := some "POLL", aliasName := some "A" },
      { pv := "SRC.LOLO" },
      { pv := "SRC", period := some (.text "soon"), aliasName := some "A" },
      { pv := "ACT", aliasName := some "B" }]
    (run specs).1.toOption = some [⟨"ACT", .exceptionOccurred⟩, ⟨"SRC", .exceptionOccurred⟩,
        ⟨"SRC", .exceptionOccurred⟩, ⟨"ACT", .alreadySubmitted⟩] ∧
      run [{ pv := "SRC.LOLO" }, { pv := "ACT", aliasName := some "B" }] =
        ((run specs).1.map (selected fun position => position % 2 = 1), (run specs).2) := by
  intro store run specs
  refine ⟨by decide +kernel, ?_⟩
  refine (unusable_items_are_invisible (.withOutages ["start_workflow"] fun _ => 7)
    AdmissionConfig.default.defaultPeriod (.fresh (.memory store) .noting) specs
    (fun position => position % 2 = 1) ?_).1
  intro position spec given omitted
  rcases position with _ | _ | _ | _ | position <;> cases given
  · exact ⟨by decide +kernel, by decide +kernel⟩
  · cases omitted
  · exact ⟨by decide +kernel, by decide +kernel⟩
  · cases omitted

end ArchiveIntake
