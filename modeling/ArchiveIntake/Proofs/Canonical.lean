import ArchiveIntake.Proofs.Name
import ArchiveIntake.Proofs.ValueField

/-! Normalized names. The text after the first point alone decides how a name is taken apart, and what
is left is valid or refused. A normalized name is a fixed point that loses nothing of the name it comes
from but `VAL`, and the mark in front of a name passes through untouched. -/

namespace ArchiveIntake

def Name.withField (record field : String) : String := record ++ "." ++ field

def NormalizedName.marked (name : NormalizedName) : NormalizedName :=
  { name with baseName := Name.marked name.baseName }

/-- How a name that lost nothing was written. -/
def NormalizedName.written (name : NormalizedName) : String :=
  match name.standardField with
  | some field => Name.withField name.baseName field
  | none => name.baseName

theorem NormalizedName.ext_of_field {name other : NormalizedName} (base : name.baseName = other.baseName)
    (field : name.fieldName = other.fieldName) (standard : name.isStandardField = other.isStandardField) :
    name = other := by
  obtain ⟨_, _ | _ | _⟩ := name <;> obtain ⟨_, _ | _ | _⟩ := other <;>
    simp_all [fieldName, isStandardField]

theorem Text.cut_append [DecidableEq α] {sep : α} {before : List α} (clear : sep ∉ before) (cs : List α) :
    cut sep (before ++ cs) = (cut sep cs).map fun (record, field) => (before ++ record, field) := by
  induction before with
  | nil => simp
  | cons c rest ih =>
    obtain ⟨here, later⟩ := not_or.mp (List.mem_cons.not.mp clear)
    rw [List.cons_append, cut, if_neg (Ne.symm here), ih later]
    cases cut sep cs <;> rfl

namespace Name

def IsAllowed (c : Char) : Prop :=
  ('A' ≤ c ∧ c ≤ 'Z') ∨ ('a' ≤ c ∧ c ≤ 'z') ∨ ('0' ≤ c ∧ c ≤ '9') ∨
    c ∈ "_-+:[]<>;.,/\\#\x7b\x7d^".toList

theorem isNameChar_iff {c : Char} : isNameChar c = true ↔ IsAllowed c := by
  have upper : c.isUpper = true ↔ 'A' ≤ c ∧ c ≤ 'Z' := decide_eq_true_iff
  have lower : c.isLower = true ↔ 'a' ≤ c ∧ c ≤ 'z' := by
    change (decide ('a' ≤ c) && decide (c ≤ 'z')) = true ↔ _
    rw [Bool.and_eq_true, decide_eq_true_iff, decide_eq_true_iff]
  have digit : c.isDigit = true ↔ '0' ≤ c ∧ c ≤ '9' := by
    change (decide ('0' ≤ c) && decide (c ≤ '9')) = true ↔ _
    rw [Bool.and_eq_true, decide_eq_true_iff, decide_eq_true_iff]
  change (c.isUpper || c.isLower || c.isDigit || "_-+:[]<>;.,/\\#\x7b\x7d^".toList.contains c) = true ↔ _
  simp only [IsAllowed, Bool.or_eq_true, upper, lower, digit, List.contains_iff_mem, or_assoc]

theorem isValid_iff {name : String} :
    isValid name = true ↔ name ≠ "" ∧ ∀ c ∈ name.toList, IsAllowed c := by
  simp [isValid, isNameChar_iff]

theorem isValid_eq_false_iff {name : String} :
    isValid name = false ↔ name = "" ∨ ∃ c ∈ name.toList, ¬IsAllowed c := by
  rw [← Bool.not_eq_true, isValid_iff]
  simp [imp_iff_not_or]

theorem toList_withField (record field : String) :
    (withField record field).toList = record.toList ++ '.' :: field.toList := by
  simp [withField]

variable {catalog : Catalog} {raw other record field : String} {name : NormalizedName}

theorem cut_withField (clear : '.' ∉ record.toList) :
    Text.cut '.' (withField record field).toList = some (record.toList, field.toList) :=
  Text.cut_eq_some_iff.mpr ⟨toList_withField record field, clear⟩

theorem stripField_withField (clear : '.' ∉ record.toList) : stripField (withField record field) = record := by
  simp only [stripField, cut_withField clear, String.ofList_toList]

theorem field?_withField (clear : '.' ∉ record.toList) (nonempty : field ≠ "") :
    field? (withField record field) = some field := by
  rw [field?, cut_withField clear]
  cases letters : field.toList with
  | nil => exact absurd (String.toList_eq_nil_iff.mp letters) nonempty
  | cons c rest => simp [← letters]

theorem field?_eq_some_iff :
    field? raw = some field ↔
      field ≠ "" ∧ ∃ record, '.' ∉ record.toList ∧ raw = withField record field := by
  constructor
  · intro found
    unfold field? at found
    split at found
    next before c rest parts =>
      cases found
      obtain ⟨shape, clear⟩ := Text.cut_eq_some_iff.mp parts
      refine ⟨by simp, String.ofList before, by simpa using clear, String.toList_inj.mp ?_⟩
      simp [toList_withField, shape]
    next => cases found
  · rintro ⟨nonempty, record, clear, rfl⟩
    exact field?_withField clear nonempty

/-- How a name is taken apart, told by the text after its first point. -/
inductive SplitsInto (catalog : Catalog) : String → NormalizedName → Prop
  | bare (raw : String) (fieldless : ∀ record, '.' ∉ record.toList →
      ∀ field, raw = withField record field → field = "") : SplitsInto catalog raw ⟨raw, .none⟩
  | value (record : String) (clear : '.' ∉ record.toList) :
      SplitsInto catalog (withField record valueField) ⟨record, .none⟩
  | standard (record field : String) (clear : '.' ∉ record.toList) (nonempty : field ≠ "")
      (further : field ≠ valueField) (listed : field ∈ catalog) :
      SplitsInto catalog (withField record field) ⟨record, .standard field⟩
  | other (record field : String) (clear : '.' ∉ record.toList) (nonempty : field ≠ "")
      (further : field ≠ valueField) (unlisted : field ∉ catalog) :
      SplitsInto catalog (withField record field) ⟨withField record field, .other field⟩

theorem splitsInto_split (catalog : Catalog) (raw : String) : SplitsInto catalog raw (split catalog raw) := by
  cases found : field? raw with
  | none =>
    simp only [split, found]
    refine .bare raw fun record clear field shape => ?_
    by_contra nonempty
    cases found.symm.trans (field?_eq_some_iff.mpr ⟨nonempty, record, clear, shape⟩)
  | some field =>
    obtain ⟨nonempty, record, clear, rfl⟩ := field?_eq_some_iff.mp found
    simp only [split, found, stripField_withField clear]
    split
    next value =>
      subst value
      exact .value record clear
    next further =>
      split
      next listed =>
        exact .standard record field clear nonempty further (Std.ExtTreeSet.contains_iff_mem.mp listed)
      next unlisted =>
        exact .other record field clear nonempty further
          fun listed => unlisted (Std.ExtTreeSet.contains_iff_mem.mpr listed)

theorem SplitsInto.split_eq (splits : SplitsInto catalog raw name) : split catalog raw = name := by
  cases splits with
  | bare _ fieldless =>
    have none : field? raw = none := by
      by_contra some
      obtain ⟨field, found⟩ := Option.ne_none_iff_exists'.mp some
      obtain ⟨nonempty, record, clear, shape⟩ := field?_eq_some_iff.mp found
      exact nonempty (fieldless record clear field shape)
    simp only [split, none]
  | value record clear => exact split_withValueField clear catalog
  | standard record field clear nonempty further listed =>
    have listed : catalog.contains field = true := Std.ExtTreeSet.contains_iff_mem.mpr listed
    simp only [split, field?_withField clear nonempty, stripField_withField clear, if_neg further, listed,
      if_true]
  | other record field clear nonempty further unlisted =>
    have unlisted : ¬catalog.contains field = true := fun listed =>
      unlisted (Std.ExtTreeSet.contains_iff_mem.mp listed)
    simp only [split, field?_withField clear nonempty, if_neg further, if_neg unlisted]

theorem splitsInto_iff : SplitsInto catalog raw name ↔ split catalog raw = name :=
  ⟨SplitsInto.split_eq, fun same => same ▸ splitsInto_split catalog raw⟩

theorem normalize_eq_ok_iff :
    normalize catalog raw = .ok name ↔ SplitsInto catalog raw name ∧ isValid name.baseName = true := by
  rw [splitsInto_iff, normalize]
  by_cases valid : isValid (split catalog raw).baseName = true
  · simp only [valid, if_true, Except.ok.injEq]
    exact ⟨fun same => ⟨same, same ▸ valid⟩, And.left⟩
  · simp only [valid, Bool.false_eq_true, if_false, reduceCtorEq, false_iff]
    rintro ⟨rfl, fine⟩
    exact valid fine

theorem SplitsInto.normalize_eq_error_iff (splits : SplitsInto catalog raw name) {e : AdmissionError} :
    normalize catalog raw = .error e ↔ e = .invalidName name.baseName ∧ isValid name.baseName = false := by
  rw [normalize, splits.split_eq]
  cases isValid name.baseName <;> simp [eq_comm]

/-- Nothing more is taken off a name that was taken apart. -/
theorem SplitsInto.again (splits : SplitsInto catalog raw name) :
    ∃ field, SplitsInto catalog name.baseName ⟨name.baseName, field⟩ ∧
      ∀ standard, field ≠ .standard standard := by
  have bare {record : String} (clear : '.' ∉ record.toList) : SplitsInto catalog record ⟨record, .none⟩ :=
    splitsInto_iff.mpr (split_of_bare clear catalog)
  cases splits with
  | bare _ fieldless => exact ⟨.none, .bare raw fieldless, nofun⟩
  | value record clear => exact ⟨.none, bare clear, nofun⟩
  | standard record field clear => exact ⟨.none, bare clear, nofun⟩
  | other record field clear nonempty further unlisted =>
    exact ⟨.other field, .other record field clear nonempty further unlisted, nofun⟩

theorem SplitsInto.written (splits : SplitsInto catalog raw name) :
    raw = name.written ∨ raw = withValueField name.written ∧ name.isStandardField = false := by
  cases splits with
  | value record => exact .inr ⟨rfl, rfl⟩
  | bare | standard | other => exact .inl rfl

theorem SplitsInto.isStandardField_iff (splits : SplitsInto catalog raw name) :
    name.isStandardField = true ↔ ∃ record field, raw = withField record field ∧ '.' ∉ record.toList ∧
      field ≠ "" ∧ field ≠ valueField ∧ field ∈ catalog := by
  constructor
  · intro standard
    cases splits with
    | standard record field clear nonempty further listed =>
      exact ⟨record, field, rfl, clear, nonempty, further, listed⟩
    | bare | value | other => cases standard
  · rintro ⟨record, field, rfl, clear, nonempty, further, listed⟩
    cases splits.split_eq.symm.trans (SplitsInto.standard record field clear nonempty further listed).split_eq
    rfl

/-- What is known of a name that normalizes, and of what it was written like. -/
structure IsCanonical (catalog : Catalog) (raw : String) (name : NormalizedName) : Prop where
  nonempty : name.baseName ≠ ""
  allowed : ∀ c ∈ name.baseName.toList, IsAllowed c
  fixed : ∃ again, normalize catalog name.baseName = .ok again ∧ again.baseName = name.baseName ∧
    again.isStandardField = false
  spelled : raw = name.baseName ∨ raw = withValueField name.baseName ∨
    ∃ field, name.fieldName = some field ∧ raw = withField name.baseName field
  /-- The text after the first point is a field of the catalog, other than `VAL`. -/
  standard : name.isStandardField = true ↔ ∃ record field, raw = withField record field ∧
    '.' ∉ record.toList ∧ field ≠ "" ∧ field ≠ valueField ∧ field ∈ catalog
  stripped : name.isStandardField = true → '.' ∉ name.baseName.toList ∧
    ∃ field, name.fieldName = some field ∧ raw = withField name.baseName field

theorem isCanonical_of_normalize (normalized : normalize catalog raw = .ok name) :
    IsCanonical catalog raw name := by
  obtain ⟨splits, valid⟩ := normalize_eq_ok_iff.mp normalized
  obtain ⟨nonempty, allowed⟩ := isValid_iff.mp valid
  refine ⟨nonempty, allowed, ?_, ?_, splits.isStandardField_iff, ?_⟩
  · obtain ⟨field, again, kept⟩ := splits.again
    refine ⟨_, normalize_eq_ok_iff.mpr ⟨again, valid⟩, rfl, ?_⟩
    cases field with
    | none | other => rfl
    | standard field => exact absurd rfl (kept field)
  · cases splits with
    | bare | other => exact .inl rfl
    | value record => exact .inr (.inl rfl)
    | standard record field => exact .inr (.inr ⟨field, rfl, rfl⟩)
  · intro standard
    cases splits with
    | standard record field clear => exact ⟨clear, field, rfl, rfl⟩
    | bare | value | other => cases standard

theorem eq_or_withValueField (splits : SplitsInto catalog raw name)
    (splitsOther : SplitsInto catalog other name) :
    raw = other ∨ raw = withValueField other ∨ other = withValueField raw := by
  rcases splits.written with rfl | ⟨rfl, -⟩ <;> rcases splitsOther.written with rfl | ⟨rfl, -⟩
  · exact .inl rfl
  · exact .inr (.inr rfl)
  · exact .inr (.inl rfl)
  · exact .inl rfl

/-- Whatever the catalog lists, every name is taken apart in exactly one way. If what is left is a valid
name, it is canonical; otherwise it is what the error shows. Names that become the same are the same but
for `VAL`. -/
theorem normalized_names_are_canonical (catalog : Catalog) :
    (∀ raw, ∃! name, SplitsInto catalog raw name) ∧
    (∀ raw name, normalize catalog raw = .ok name →
      SplitsInto catalog raw name ∧ IsCanonical catalog raw name) ∧
    (∀ raw name, SplitsInto catalog raw name → ∀ e, normalize catalog raw = .error e ↔
      e = .invalidName name.baseName ∧
        (name.baseName = "" ∨ ∃ c ∈ name.baseName.toList, ¬IsAllowed c)) ∧
    ∀ raw other name another, normalize catalog raw = .ok name → normalize catalog other = .ok another →
      name.baseName = another.baseName → name.fieldName = another.fieldName →
      name.isStandardField = another.isStandardField →
      raw = other ∨ raw = withValueField other ∨ other = withValueField raw := by
  refine ⟨?_, ?_, ?_, ?_⟩
  · exact fun raw => ⟨_, splitsInto_split catalog raw, fun name splits => splits.split_eq.symm⟩
  · exact fun raw name normalized =>
      ⟨(normalize_eq_ok_iff.mp normalized).1, isCanonical_of_normalize normalized⟩
  · intro raw name splits e
    rw [splits.normalize_eq_error_iff, isValid_eq_false_iff]
  · intro raw other name another normalized normalizedOther base field standard
    cases NormalizedName.ext_of_field base field standard
    exact eq_or_withValueField (normalize_eq_ok_iff.mp normalized).1 (normalize_eq_ok_iff.mp normalizedOther).1

/-- A field with a point in it, `VAL` in the catalog, and a name that has nothing but a field. -/
theorem normalized_names_are_canonical_of_odd_fields :
    let catalog : Catalog := NameSet.ofList ["VAL", "A.B"]
    IsCanonical catalog "pva://SRC.A.B" ⟨"pva://SRC", .standard "A.B"⟩ ∧
      normalize catalog ".VAL" = .error (.invalidName "") ∧
      ("SRC.VAL" = "SRC" ∨ "SRC.VAL" = withValueField "SRC" ∨ "SRC" = withValueField "SRC.VAL") := by
  intro catalog
  obtain ⟨-, canonical, refused, same⟩ := normalized_names_are_canonical catalog
  have normalized : normalize catalog "pva://SRC.A.B" = .ok ⟨"pva://SRC", .standard "A.B"⟩ :=
    normalize_eq_ok_iff.mpr
      ⟨.standard "pva://SRC" "A.B" (by decide) (by decide) (by decide) (by decide +kernel), by decide +kernel⟩
  refine ⟨(canonical "pva://SRC.A.B" _ normalized).2, ?_, ?_⟩
  · exact (refused ".VAL" ⟨"", .none⟩ (.value "" (by decide)) _).mpr ⟨rfl, .inl rfl⟩
  · have bare : normalize catalog "SRC" = .ok ⟨"SRC", .none⟩ :=
      normalize_eq_ok_iff.mpr ⟨splitsInto_iff.mpr (split_of_bare (by decide) catalog), by decide +kernel⟩
    have value : normalize catalog "SRC.VAL" = .ok ⟨"SRC", .none⟩ :=
      normalize_eq_ok_iff.mpr ⟨.value "SRC" (by decide), by decide +kernel⟩
    exact same "SRC.VAL" "SRC" _ _ value bare rfl rfl rfl

/-! The mark in front of a name. -/

theorem field?_marked (raw : String) : field? (marked raw) = field? raw := by
  simp only [field?, toList_marked, Text.cut_append (show '.' ∉ protocolMark by decide)]
  rcases Text.cut '.' raw.toList with _ | ⟨record, _ | ⟨c, rest⟩⟩ <;> rfl

theorem stripField_marked (raw : String) : stripField (marked raw) = marked (stripField raw) := by
  apply String.toList_inj.mp
  rw [stripField, stripField, toList_marked, toList_marked, Text.cut_append (by decide)]
  cases Text.cut '.' raw.toList <;> simp [toList_marked]

theorem split_marked (catalog : Catalog) (raw : String) :
    split catalog (marked raw) = (split catalog raw).marked := by
  simp only [split, field?_marked, stripField_marked]
  cases field? raw with
  | none => rfl
  | some field =>
    by_cases value : field = valueField
    · simp only [if_pos value, NormalizedName.marked]
    · by_cases listed : catalog.contains field = true
      · simp only [if_neg value, if_pos listed, NormalizedName.marked]
      · simp only [if_neg value, if_neg listed, NormalizedName.marked]

theorem normalize_marked_eq_ok_iff :
    normalize catalog (marked raw) = .ok name ↔
      name = (split catalog raw).marked ∧
        (isValid (split catalog raw).baseName = true ∨ (split catalog raw).baseName = "") := by
  rw [normalize_eq_ok_iff, splitsInto_iff, split_marked, ← isValid_marked_iff, eq_comm]
  constructor
  · rintro ⟨rfl, valid⟩
    exact ⟨rfl, valid⟩
  · rintro ⟨rfl, valid⟩
    exact ⟨rfl, valid⟩

theorem queueKey_eq_queueKey_iff :
    queueKey raw = queueKey other ↔ raw = other ∨ (raw = marked other ∧ isMarked other = false) ∨
      (other = marked raw ∧ isMarked raw = false) := by
  have plain {name : String} (same : queueKey name = name) : isMarked name = false := by
    by_contra mark
    have marks := eq_marked_queueKey (Bool.not_eq_false _ ▸ mark)
    rw [same] at marks
    exact marked_ne name marks.symm
  constructor
  · intro same
    by_cases apart : raw = other
    · exact .inl apart
    · rcases eq_marked_of_queueKey_eq same apart with rfl | rfl
      · exact .inr (.inl ⟨rfl, plain (same.symm.trans (queueKey_marked other))⟩)
      · exact .inr (.inr ⟨rfl, plain (same.trans (queueKey_marked raw))⟩)
  · rintro (rfl | ⟨rfl, bare⟩ | ⟨rfl, bare⟩)
    · rfl
    · rw [queueKey_marked, queueKey_of_not_isMarked bare]
    · rw [queueKey_marked, queueKey_of_not_isMarked bare]

/-- A name with the mark in front is taken apart like the name itself, and its key is the base name without
the mark. It is refused with it, unless there is nothing but the mark and a field. So the key of the queue is
shared by a name and its marked twin, and by no others. -/
theorem mark_passes_through_normalization (catalog : Catalog) :
    (∀ raw name, normalize catalog raw = .ok name →
      normalize catalog (marked raw) = .ok name.marked ∧ name.marked.queueKey = name.baseName) ∧
    (∀ raw name, normalize catalog (marked raw) = .ok name →
      (∃ plain, normalize catalog raw = .ok plain ∧ name = plain.marked) ∨ name.baseName = "pva://") ∧
    ∀ name other, queueKey name = queueKey other ↔
      name = other ∨ (name = marked other ∧ isMarked other = false) ∨
        (other = marked name ∧ isMarked name = false) := by
  refine ⟨?_, ?_, fun name other => queueKey_eq_queueKey_iff⟩
  · intro raw name normalized
    obtain ⟨splits, valid⟩ := normalize_eq_ok_iff.mp normalized
    cases splits.split_eq
    exact ⟨normalize_marked_eq_ok_iff.mpr ⟨rfl, .inl valid⟩, queueKey_marked _⟩
  · intro raw name normalized
    obtain ⟨rfl, valid | empty⟩ := normalize_marked_eq_ok_iff.mp normalized
    · exact .inl ⟨_, normalize_eq_ok_iff.mpr ⟨splitsInto_split catalog raw, valid⟩, rfl⟩
    · refine .inr ?_
      rw [NormalizedName.marked, empty]
      rfl

/-- A name with two marks and a standard field, and nothing but the mark. -/
theorem mark_passes_through_normalization_of_marked :
    let catalog : Catalog := NameSet.ofList ["HIHI"]
    normalize catalog "pva://pva://SRC.HIHI" = .ok ⟨"pva://pva://SRC", .standard "HIHI"⟩ ∧
      ((∃ plain, normalize catalog ".VAL" = .ok plain ∧ ⟨"pva://", .none⟩ = plain.marked) ∨
        (⟨"pva://", .none⟩ : NormalizedName).baseName = "pva://") ∧
      (queueKey "pva://pva://SRC" = queueKey "pva://SRC" ↔
        "pva://pva://SRC" = "pva://SRC" ∨
          ("pva://pva://SRC" = marked "pva://SRC" ∧ isMarked "pva://SRC" = false) ∨
          ("pva://SRC" = marked "pva://pva://SRC" ∧ isMarked "pva://pva://SRC" = false)) := by
  intro catalog
  obtain ⟨forth, back, keys⟩ := mark_passes_through_normalization catalog
  have normalized : normalize catalog "pva://SRC.HIHI" = .ok ⟨"pva://SRC", .standard "HIHI"⟩ :=
    normalize_eq_ok_iff.mpr
      ⟨.standard "pva://SRC" "HIHI" (by decide) (by decide) (by decide) (by decide +kernel), by decide +kernel⟩
  have bare : normalize catalog "pva://.VAL" = .ok ⟨"pva://", .none⟩ :=
    normalize_eq_ok_iff.mpr ⟨.value "pva://" (by decide), by decide +kernel⟩
  exact ⟨(forth "pva://SRC.HIHI" _ normalized).1, back ".VAL" _ bare, keys "pva://pva://SRC" "pva://SRC"⟩

end Name
end ArchiveIntake
