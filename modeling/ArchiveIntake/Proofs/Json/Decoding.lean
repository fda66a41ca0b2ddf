import ArchiveIntake.Json.Decode
import Mathlib.Data.List.Forall2

/-! What is decoded of lists and of objects. A list gives a value for each of its items. Of an object
that is read as a record, the members with the name of a field are taken, each name once and in any order,
and all others are skipped, so what is found depends on the former alone. -/

namespace ArchiveIntake.Json

theorem Node.asList_array_eq_ok_iff {decode : Node → Decoded α} {items : List Node} {values : List α} :
    Node.asList decode (.array items) = .ok values ↔
      List.Forall₂ (fun item value => decode item = .ok value) items values := by
  simp only [Node.asList]
  induction items generalizing values with
  | nil =>
    rw [List.forall₂_nil_left_iff]
    exact ⟨fun read => (Except.ok.inj read).symm, fun empty => congrArg Except.ok empty.symm⟩
  | cons item items ih =>
    rw [List.forall₂_cons_left_iff, List.mapM_cons]
    constructor
    · intro read
      cases first : decode item with
      | error e => rw [first] at read; cases read
      | ok value =>
        cases rest : items.mapM decode with
        | error e => rw [first, rest] at read; cases read
        | ok others =>
          rw [first, rest] at read
          cases read
          exact ⟨value, others, rfl, ih.mp rest, rfl⟩
    · rintro ⟨value, others, first, rest, rfl⟩
      rw [first, ih.mpr rest]
      rfl

theorem Node.exists_asList_error {decode : Node → Decoded α} {items : List Node} {item : Node}
    (inside : item ∈ items) {e : DecodeError} (refused : decode item = .error e) :
    ∃ e, Node.asList decode (.array items) = .error e := by
  cases read : Node.asList decode (.array items) with
  | error e => exact ⟨e, rfl⟩
  | ok values =>
    have decoded := Node.asList_array_eq_ok_iff.mp read
    clear read
    exfalso
    induction decoded with
    | nil => cases inside
    | cons first _ ih =>
      rcases List.mem_cons.mp inside with rfl | later
      · cases refused.symm.trans first
      · exact ih later

theorem Node.skippableItems_iff {items : List Node} :
    Node.skippableItems items = true ↔ ∀ item ∈ items, item.skippable = true := by
  induction items with
  | nil => simp [Node.skippableItems]
  | cons item items ih => simp [Node.skippableItems, ih]

theorem Node.skippableMembers_iff {members : List (Option String × Node)} :
    Node.skippableMembers members = true ↔ ∀ member ∈ members, member.2.skippable = true := by
  induction members with
  | nil => simp [Node.skippableMembers]
  | cons member members ih => simp [Node.skippableMembers, ih]

/-! Fields with different names. -/

namespace Fields
variable {fields others : Fields}

theorem lookup_eq_some_iff (once : (fields.map (·.1)).Nodup) {name : String} {node : Node} :
    fields.lookup name = some node ↔ (name, node) ∈ fields := by
  induction fields with
  | nil => simp
  | cons field rest ih =>
    obtain ⟨new, onceRest⟩ := List.nodup_cons.mp once
    rw [List.lookup_cons, List.mem_cons]
    by_cases here : name = field.1
    · subst here
      have elsewhere : (field.1, node) ∉ rest := fun inside =>
        new (List.mem_map.mpr ⟨_, inside, rfl⟩)
      simp [elsewhere, Prod.ext_iff, eq_comm]
    · simp [here, beq_eq_false_iff_ne.mpr here, ih onceRest, Prod.ext_iff]

theorem lookup_eq_of_perm (same : fields.Perm others) (once : (fields.map (·.1)).Nodup) (name : String) :
    fields.lookup name = others.lookup name := by
  have onceOthers : (others.map (·.1)).Nodup := (same.map _).nodup_iff.mp once
  apply Option.ext
  intro node
  rw [lookup_eq_some_iff once, lookup_eq_some_iff onceOthers, same.mem_iff]

/-- None of several fields is among those seen and one more. -/
theorem lookup_cons_eq_none_iff {seen : Fields} {name : String} {node : Node} :
    (∀ field ∈ fields, List.lookup field.1 ((name, node) :: seen) = none) ↔
      name ∉ fields.map (·.1) ∧ ∀ field ∈ fields, seen.lookup field.1 = none := by
  have one (field : String × Node) : List.lookup field.1 ((name, node) :: seen) = none ↔
      name ≠ field.1 ∧ seen.lookup field.1 = none := by
    by_cases here : field.1 = name
    · simp [here]
    · simp [List.lookup_cons, beq_eq_false_iff_ne.mpr here, Ne.symm here]
  simp only [one, forall_and, List.mem_map, not_exists, not_and, ne_eq, @eq_comm _ name]

end Fields

namespace Shape
variable {shape : Shape} {members others added : List (Option String × Node)} {seen fields : Fields}

def field? (shape : Shape) (name : String) : Option Field := shape.fields.find? (·.name == name)

def known (shape : Shape) (members : List (Option String × Node)) : Fields :=
  members.filterMap fun (key, node) =>
    key.bind fun name => if (shape.field? name).isSome then some (name, node) else none

/-- A member that can be read: a field with such a value, or anything complete under another name. -/
def CanRead (shape : Shape) (member : Option String × Node) : Prop :=
  ∃ name, member.1 = some name ∧
    match shape.field? name with
    | some field => field.check member.2 = .ok ()
    | none => member.2.skippable = true

theorem known_append : shape.known (members ++ others) = shape.known members ++ shape.known others :=
  List.filterMap_append

theorem known_eq_nil (unknown : ∀ member ∈ members, ∃ name, member.1 = some name ∧ shape.field? name = none) :
    shape.known members = [] := by
  refine List.filterMap_eq_nil_iff.mpr fun member inside => ?_
  obtain ⟨name, named, absent⟩ := unknown member inside
  simp [named, absent]

section Cons
variable {name : String} {node : Node}

theorem known_cons_of_field {field : Field} (found : shape.field? name = some field) :
    shape.known ((some name, node) :: members) = (name, node) :: shape.known members := by
  simp [known, found]

theorem known_cons_of_unknown (absent : shape.field? name = none) :
    shape.known ((some name, node) :: members) = shape.known members := by
  simp [known, absent]

theorem canRead_of_field {field : Field} (found : shape.field? name = some field) :
    shape.CanRead (some name, node) ↔ field.check node = .ok () := by
  simp [CanRead, found]

theorem canRead_of_unknown (absent : shape.field? name = none) :
    shape.CanRead (some name, node) ↔ node.skippable = true := by
  simp [CanRead, absent]

theorem ofMembers_cons_of_field {field : Field} (found : shape.field? name = some field) :
    shape.ofMembers seen ((some name, node) :: members) =
      if (seen.lookup name).isSome then .error (.duplicateField name)
      else
        match field.check node with
        | .error e => .error e
        | .ok () => shape.ofMembers ((name, node) :: seen) members := by
  have found : shape.fields.find? (·.name == name) = some field := found
  cases checked : field.check node <;> simp only [ofMembers, found, checked]

theorem ofMembers_cons_of_unknown (accepting : shape.closed = false) (absent : shape.field? name = none) :
    shape.ofMembers seen ((some name, node) :: members) =
      if node.skippable then shape.ofMembers seen members else .error .malformed := by
  have absent : shape.fields.find? (·.name == name) = none := absent
  simp only [ofMembers, absent, accepting, Bool.false_eq_true, if_false]

end Cons

/-- The members are read one by one, each field at its first and only occurrence. -/
theorem ofMembers_eq_ok_iff (accepting : shape.closed = false) :
    shape.ofMembers seen members = .ok fields ↔
      (∀ member ∈ members, shape.CanRead member) ∧ ((shape.known members).map (·.1)).Nodup ∧
        (∀ member ∈ shape.known members, seen.lookup member.1 = none) ∧
        fields = (shape.known members).reverse ++ seen := by
  induction members generalizing seen with
  | nil =>
    simp only [ofMembers, Except.ok.injEq, known, List.filterMap_nil, List.not_mem_nil, false_imp_iff,
      implies_true, List.map_nil, List.nodup_nil, List.reverse_nil, List.nil_append, true_and]
    exact eq_comm
  | cons member rest ih =>
    obtain ⟨_ | name, node⟩ := member
    · simp [ofMembers, CanRead]
    · cases found : shape.field? name with
      | none =>
        rw [ofMembers_cons_of_unknown accepting found, known_cons_of_unknown found, List.forall_mem_cons,
          canRead_of_unknown found]
        by_cases complete : node.skippable = true
        · simp only [complete, if_true, true_and, ih]
        · simp [complete]
      | some field =>
        rw [ofMembers_cons_of_field found, known_cons_of_field found, List.forall_mem_cons,
          canRead_of_field found, List.forall_mem_cons, List.map_cons, List.nodup_cons]
        cases held : seen.lookup name with
        | some before => simp
        | none =>
          cases checked : field.check node with
          | error e => simp
          | ok value =>
            simp only [Option.isSome_none, Bool.false_eq_true, if_false, ih, Fields.lookup_cons_eq_none_iff,
              List.reverse_cons, List.append_assoc, List.singleton_append, true_and]
            constructor
            · rintro ⟨readable, once, ⟨new, fresh⟩, all⟩
              exact ⟨readable, ⟨new, once⟩, fresh, all⟩
            · rintro ⟨readable, ⟨new, once⟩, fresh, all⟩
              exact ⟨readable, once, ⟨new, fresh⟩, all⟩

theorem read_object_eq_ok_iff (accepting : shape.closed = false) :
    shape.read (.object members) = .ok fields ↔
      (∀ member ∈ members, shape.CanRead member) ∧ ((shape.known members).map (·.1)).Nodup ∧
        fields = (shape.known members).reverse := by
  rw [read, ofMembers_eq_ok_iff accepting]
  simp

theorem lookup_of_read (accepting : shape.closed = false)
    (read : shape.read (.object members) = .ok fields) (name : String) :
    fields.lookup name = (shape.known members).lookup name := by
  obtain ⟨-, once, rfl⟩ := (read_object_eq_ok_iff accepting).mp read
  exact (Fields.lookup_eq_of_perm (List.reverse_perm _).symm once name).symm

theorem read_fields (accepting : shape.closed = false) (once : (fields.map (·.1)).Nodup)
    (typed : ∀ field ∈ fields, ∃ known, shape.field? field.1 = some known ∧ known.check field.2 = .ok ()) :
    ∃ found, shape.read (.object (fields.map fun field => (some field.1, field.2))) = .ok found ∧
      ∀ name, found.lookup name = fields.lookup name := by
  have all : shape.known (fields.map fun field => (some field.1, field.2)) = fields := by
    clear once
    induction fields with
    | nil => rfl
    | cons field rest ih =>
      obtain ⟨⟨_, found, _⟩, others⟩ := List.forall_mem_cons.mp typed
      rw [List.map_cons, known_cons_of_field found, ih others]
  have readable : ∀ member ∈ fields.map fun field => (some field.1, field.2), shape.CanRead member := by
    rw [List.forall_mem_map]
    intro field inside
    obtain ⟨_, found, checked⟩ := typed field inside
    exact (canRead_of_field found).mpr checked
  have read := (read_object_eq_ok_iff accepting).mpr ⟨readable, by rwa [all], rfl⟩
  exact ⟨_, read, fun name => by rw [lookup_of_read accepting read, all]⟩

/-- An object with the same fields in any order, among members that can be skipped, is read as well. -/
theorem read_of_perm (accepting : shape.closed = false)
    (read : shape.read (.object members) = .ok fields)
    (unknown : ∀ member ∈ added, ∃ name, member.1 = some name ∧ shape.field? name = none)
    (complete : ∀ member ∈ added, member.2.skippable = true) (same : others.Perm (members ++ added)) :
    ∃ found, shape.read (.object others) = .ok found ∧ ∀ name, found.lookup name = fields.lookup name := by
  obtain ⟨readable, once, rfl⟩ := (read_object_eq_ok_iff accepting).mp read
  have sameKnown : (shape.known others).Perm (shape.known members) := by
    have parts : (shape.known others).Perm (shape.known (members ++ added)) := same.filterMap _
    rwa [known_append, known_eq_nil unknown, List.append_nil] at parts
  have onceOthers : ((shape.known others).map (·.1)).Nodup := (sameKnown.map _).nodup_iff.mpr once
  have readableOthers : ∀ member ∈ others, shape.CanRead member := by
    intro member inside
    rcases List.mem_append.mp (same.mem_iff.mp inside) with old | new
    · exact readable member old
    · obtain ⟨name, named, absent⟩ := unknown member new
      exact ⟨name, named, by rw [absent]; exact complete member new⟩
  refine ⟨_, (read_object_eq_ok_iff accepting).mpr ⟨readableOthers, onceOthers, rfl⟩, fun name => ?_⟩
  have reversed : (shape.known others).reverse.Perm (shape.known members).reverse :=
    (List.reverse_perm _).trans (sameKnown.trans (List.reverse_perm _).symm)
  refine Fields.lookup_eq_of_perm reversed ?_ name
  exact ((List.reverse_perm _).map _).nodup_iff.mpr onceOthers

theorem exists_read_error_of_repeated (accepting : shape.closed = false) {name : String}
    (isField : (shape.field? name).isSome) {first second : Node}
    (twice : [(some name, first), (some name, second)].Sublist members) :
    ∃ e, shape.read (.object members) = .error e := by
  cases read : shape.read (.object members) with
  | error e => exact ⟨e, rfl⟩
  | ok fields =>
    obtain ⟨-, once, -⟩ := (read_object_eq_ok_iff accepting).mp read
    have both : [(name, first), (name, second)].Sublist (shape.known members) := by
      have within : (shape.known [(some name, first), (some name, second)]).Sublist (shape.known members) :=
        twice.filterMap _
      simpa [known, isField] using within
    have names : [name, name].Sublist ((shape.known members).map (·.1)) :=
      both.map fun field : String × Node => field.1
    exact absurd (once.sublist names) (by simp)

/-! A field with another value. -/

section Exchange
variable {recent : Fields}

theorem ofMembers_append (members rest : List (Option String × Node)) :
    shape.ofMembers seen (members ++ rest) =
      (shape.ofMembers seen members).bind fun fields => shape.ofMembers fields rest := by
  induction members generalizing seen with
  | nil => rfl
  | cons member members ih =>
    obtain ⟨_ | key, node⟩ := member
    · rfl
    simp only [List.cons_append, ofMembers, ih]
    repeat' split
    all_goals rfl

/-- Whether further members are read depends on the names of the fields before them only. -/
theorem ofMembers_of_same_names (same : ∀ key, (seen.lookup key).isSome = (recent.lookup key).isSome)
    (members : List (Option String × Node)) :
    (∃ e, shape.ofMembers seen members = .error e ∧ shape.ofMembers recent members = .error e) ∨
      ∃ added : Fields, (∀ key, (seen.lookup key).isSome → added.lookup key = none) ∧
        shape.ofMembers seen members = .ok (added ++ seen) ∧
        shape.ofMembers recent members = .ok (added ++ recent) := by
  induction members generalizing seen recent with
  | nil => exact .inr ⟨[], fun _ _ => rfl, rfl, rfl⟩
  | cons member rest ih =>
    obtain ⟨_ | key, node⟩ := member
    · exact .inl ⟨_, rfl, rfl⟩
    cases found : shape.fields.find? (·.name == key) with
    | none =>
      simp only [ofMembers, found]
      split
      · exact .inl ⟨_, rfl, rfl⟩
      · split
        · exact ih same
        · exact .inl ⟨_, rfl, rfl⟩
    | some field =>
      simp only [ofMembers, found, ← same key]
      cases held : seen.lookup key with
      | some _ => exact .inl ⟨_, rfl, rfl⟩
      | none =>
        cases field.check node with
        | error e => exact .inl ⟨e, rfl, rfl⟩
        | ok _ =>
          have further : ∀ other, (List.lookup other ((key, node) :: seen)).isSome =
              (List.lookup other ((key, node) :: recent)).isSome := by
            intro other
            simp only [List.lookup_cons]
            split
            · rfl
            · exact same other
          simp only [Option.isSome_none, Bool.false_eq_true, if_false]
          rcases ih further with refused | ⟨added, new, read, readOther⟩
          · exact .inl refused
          · refine .inr ⟨added ++ [(key, node)], fun other before => ?_, ?_, ?_⟩
            · have apart : (other == key) = false := by
                refine beq_eq_false_iff_ne.mpr fun same => ?_
                rw [same, held] at before
                cases before
              rw [List.lookup_append, new other (by rw [List.lookup_cons, apart]; exact before)]
              simp [List.lookup_cons, apart]
            · rw [read, List.append_assoc]
              rfl
            · rw [readOther, List.append_assoc]
              rfl

theorem read_exchange {name : String} {first second : Node} {field : Field}
    (found : shape.field? name = some field) (checked : field.check first = .ok ())
    (checkedOther : field.check second = .ok ()) (before after : List (Option String × Node)) :
    (∃ e, shape.read (.object (before ++ (some name, first) :: after)) = .error e ∧
        shape.read (.object (before ++ (some name, second) :: after)) = .error e) ∨
      ∃ fields exchanged, shape.read (.object (before ++ (some name, first) :: after)) = .ok fields ∧
        shape.read (.object (before ++ (some name, second) :: after)) = .ok exchanged ∧
        fields.lookup name = some first ∧ exchanged.lookup name = some second ∧
        ∀ key ≠ name, fields.lookup key = exchanged.lookup key := by
  simp only [read, ofMembers_append]
  cases shape.ofMembers [] before with
  | error e => exact .inl ⟨e, rfl, rfl⟩
  | ok seen =>
    simp only [Except.bind, ofMembers_cons_of_field found, checked, checkedOther]
    split
    · exact .inl ⟨_, rfl, rfl⟩
    · have same : ∀ key, (List.lookup key ((name, first) :: seen)).isSome =
          (List.lookup key ((name, second) :: seen)).isSome := by
        intro key
        simp only [List.lookup_cons]
        split <;> rfl
      rcases ofMembers_of_same_names same after with refused | ⟨added, new, read, readOther⟩
      · exact .inl refused
      · have absent : added.lookup name = none := new name (by simp)
        refine .inr ⟨_, _, read, readOther, ?_, ?_, fun key apart => ?_⟩
        · simp [List.lookup_append, absent]
        · simp [List.lookup_append, absent]
        · simp [List.lookup_append, List.lookup_cons, beq_eq_false_iff_ne.mpr apart]

end Exchange

end Shape
end ArchiveIntake.Json
