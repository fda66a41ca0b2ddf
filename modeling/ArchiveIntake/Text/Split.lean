/-! Cutting lists of characters or bytes at separators. `cut` stops at the first
separator and `pieces` at every one; joining what they return gives the list back. -/

namespace ArchiveIntake.Text

/-- What stands before and after the first occurrence of `sep`, if there is one. -/
def cut [DecidableEq α] (sep : α) : List α → Option (List α × List α)
  | [] => none
  | c :: rest =>
    if c = sep then some ([], rest)
    else (cut sep rest).map fun (before, after) => (c :: before, after)

/-- The stretches between separators, empty ones included: always one more than
there are separators. -/
def pieces (isSeparator : α → Bool) : List α → List (List α)
  | [] => [[]]
  | c :: rest =>
    if isSeparator c then [] :: pieces isSeparator rest
    else
      match pieces isSeparator rest with
      | [] => [[c]]
      | first :: others => (c :: first) :: others

theorem cut_eq_some_iff [DecidableEq α] {sep : α} {cs before after : List α} :
    cut sep cs = some (before, after) ↔ cs = before ++ sep :: after ∧ sep ∉ before := by
  induction cs generalizing before with
  | nil => simp [cut]
  | cons c rest ih =>
    by_cases same : c = sep
    · subst same
      simp only [cut, if_true, Option.some.injEq, Prod.mk.injEq]
      constructor
      · rintro ⟨rfl, rfl⟩; simp
      · rintro ⟨shape, absent⟩
        cases before with
        | nil => simpa using shape
        | cons d tail =>
          simp only [List.cons_append, List.cons.injEq] at shape
          exact absurd (by simp [shape.1]) absent
    · simp only [cut, if_neg same, Option.map_eq_some_iff]
      constructor
      · rintro ⟨⟨first, last⟩, found, shape⟩
        simp only [Prod.mk.injEq] at shape
        obtain ⟨rfl, rfl⟩ := shape
        obtain ⟨rfl, absent⟩ := ih.1 found
        exact ⟨rfl, by simp [absent, Ne.symm same]⟩
      · rintro ⟨shape, absent⟩
        cases before with
        | nil =>
          simp only [List.nil_append, List.cons.injEq] at shape
          exact absurd shape.1 same
        | cons d tail =>
          simp only [List.cons_append, List.cons.injEq] at shape
          obtain ⟨rfl, shape⟩ := shape
          simp only [List.mem_cons, not_or] at absent
          exact ⟨(tail, after), ih.2 ⟨shape, absent.2⟩, rfl⟩

theorem cut_eq_none_iff [DecidableEq α] {sep : α} {cs : List α} :
    cut sep cs = none ↔ sep ∉ cs := by
  induction cs with
  | nil => simp [cut]
  | cons c rest ih =>
    by_cases same : c = sep
    · simp [cut, same]
    · simp [cut, same, ih, Ne.symm same]

theorem pieces_of_whole {isSeparator : α → Bool} {piece : List α}
    (whole : ∀ a ∈ piece, isSeparator a = false) : pieces isSeparator piece = [piece] := by
  induction piece with
  | nil => rfl
  | cons a rest ih =>
    obtain ⟨first, others⟩ := List.forall_mem_cons.mp whole
    simp [pieces, first, ih others]

/-- The first separator ends the first piece. -/
theorem pieces_append {isSeparator : α → Bool} {piece : List α} {separator : α}
    (whole : ∀ a ∈ piece, isSeparator a = false) (ends : isSeparator separator = true) (rest : List α) :
    pieces isSeparator (piece ++ separator :: rest) = piece :: pieces isSeparator rest := by
  induction piece with
  | nil => simp [pieces, ends]
  | cons a others ih =>
    obtain ⟨first, others⟩ := List.forall_mem_cons.mp whole
    simp [pieces, first, ih others]

end ArchiveIntake.Text
