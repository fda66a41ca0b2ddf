import ArchiveIntake.Name

/-! The key of the queue. A key is shared by at most two base names: the key itself,
unless it carries the mark, and the key with the mark put in front. -/

namespace ArchiveIntake.Name

def marked (name : String) : String := "pva://" ++ name

def isMarked (name : String) : Bool := protocolMark.isPrefixOf name.toList

def isDoublyMarked (name : String) : Bool := (protocolMark ++ protocolMark).isPrefixOf name.toList

theorem toList_marked (name : String) : (marked name).toList = protocolMark ++ name.toList := by
  simp [marked, protocolMark]

theorem length_marked (name : String) : (marked name).toList.length = name.toList.length + 6 := by
  rw [toList_marked, List.length_append, Nat.add_comm]
  rfl

theorem isMarked_marked (name : String) : isMarked (marked name) = true := by
  simp [isMarked, toList_marked]

theorem isValid_marked_iff {name : String} :
    isValid (marked name) = true ↔ isValid name = true ∨ name = "" := by
  have mark : protocolMark.all isNameChar = true := by decide +kernel
  have nonempty : protocolMark ≠ [] := by decide
  simp only [isValid, toList_marked, List.all_append, mark]
  by_cases empty : name = ""
  · simp [empty, nonempty]
  · have full : name.toList ≠ [] := fun none => empty (String.toList_eq_nil_iff.mp none)
    simp [empty, nonempty, full]

theorem queueKey_marked (name : String) : queueKey (marked name) = name := by
  simp [queueKey, toList_marked]

theorem queueKey_of_not_isMarked {name : String} (plain : isMarked name = false) :
    queueKey name = name := by
  simp only [isMarked] at plain
  simp [queueKey, plain]

theorem eq_marked_queueKey {name : String} (mark : isMarked name = true) :
    name = marked (queueKey name) := by
  obtain ⟨rest, shape⟩ := List.isPrefixOf_iff_prefix.mp mark
  apply String.toList_inj.mp
  simp [toList_marked, queueKey, ← shape]

theorem queueKey_eq_iff {name key : String} :
    queueKey name = key ↔ name = marked key ∨ name = key ∧ isMarked key = false := by
  constructor
  · rintro rfl
    cases mark : isMarked name with
    | true => exact .inl (eq_marked_queueKey mark)
    | false =>
      rw [queueKey_of_not_isMarked mark]
      exact .inr ⟨rfl, mark⟩
  · rintro (rfl | ⟨rfl, plain⟩)
    · exact queueKey_marked key
    · exact queueKey_of_not_isMarked plain

theorem marked_ne (name : String) : marked name ≠ name := by
  intro same
  have lengths := congrArg (fun text => text.toList.length) same
  rw [length_marked] at lengths
  omega

theorem eq_marked_of_queueKey_eq {name other : String} (same : queueKey name = queueKey other)
    (apart : name ≠ other) : name = marked other ∨ other = marked name := by
  rcases queueKey_eq_iff.mp same with marks | ⟨plain, -⟩ <;>
    rcases queueKey_eq_iff.mp (rfl : queueKey other = queueKey other) with others | ⟨plain', -⟩
  · exact absurd (marks.trans others.symm) apart
  · exact .inl (marks.trans (congrArg marked plain'.symm))
  · exact .inr (others.trans (congrArg marked plain.symm))
  · exact absurd (plain.trans plain'.symm) apart

theorem isDoublyMarked_iff {name : String} :
    isDoublyMarked name = true ↔ ∃ rest, name = marked (marked rest) := by
  rw [isDoublyMarked, List.isPrefixOf_iff_prefix]
  constructor
  · rintro ⟨rest, shape⟩
    refine ⟨String.ofList rest, String.toList_inj.mp ?_⟩
    simp [toList_marked, ← shape]
  · rintro ⟨rest, rfl⟩
    exact ⟨rest.toList, by simp [toList_marked]⟩

end ArchiveIntake.Name
