import Std.Data.ExtTreeMap
import Std.Data.ExtTreeSet

/-! Tables keyed by name and sets of names. Both list their keys in code point
order, and two of them are equal as soon as they hold the same. -/

namespace ArchiveIntake

/-- A finite map from names. -/
abbrev Table (α : Type) := Std.ExtTreeMap String α compare

/-- A finite set of names. -/
abbrev NameSet := Std.ExtTreeSet String compare

namespace NameSet

def ofList (names : List String) : NameSet := names.foldl (·.insert ·) ∅

theorem mem_foldl_insert {names : List String} {start : NameSet} {name : String} :
    name ∈ names.foldl (·.insert ·) start ↔ name ∈ start ∨ name ∈ names := by
  induction names generalizing start with
  | nil => simp
  | cons first rest ih =>
    rw [List.foldl_cons, ih, Std.ExtTreeSet.mem_insert, List.mem_cons,
      Std.LawfulEqCmp.compare_eq_iff_eq, @eq_comm _ first]
    grind

@[simp] theorem mem_ofList {names : List String} {name : String} :
    name ∈ ofList names ↔ name ∈ names := by
  simp [ofList, mem_foldl_insert]

end NameSet
end ArchiveIntake
