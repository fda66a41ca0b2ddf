import ArchiveIntake.Proofs.Json.Reading
import ArchiveIntake.Proofs.Batch
import ArchiveIntake.Proofs.Text.Utf8

/-! Structured requests written in different ways. An item is an object of which six members count, each
of them once. Space between tokens, the order of members and members of other names change nothing of
what is requested; a member that counts and is repeated makes the whole request unreadable. -/

namespace ArchiveIntake

open Json

/-- The members of an object as they are read. -/
abbrev Members := List (Option String × Node)

namespace ArchiveSpec

def memberNames : List String :=
  ["pv", "samplingperiod", "samplingmethod", "controllingPV", "policy", "alias"]

/-- The same members in any order, among members of unknown names. -/
def Rearranged (members others : Members) : Prop :=
  ∃ added : Members, (∀ member ∈ added, ∃ name, member.1 = some name ∧ name ∉ memberNames) ∧
    others.Perm (members ++ added)

/-- Two members of the same known name, wherever they stand and whatever they hold. -/
def RepeatsMember (members : Members) : Prop :=
  ∃ name ∈ memberNames, ∃ first second, [(some name, first), (some name, second)].Sublist members

variable {depth : Nat} {members others added : Members} {spec : ArchiveSpec}

theorem field?_isSome_iff (depth : Nat) (name : String) :
    ((shape depth).field? name).isSome ↔ name ∈ memberNames := by
  have names : memberNames = (shape depth).fields.map (·.name) := rfl
  simp only [Shape.field?, List.find?_isSome, beq_iff_eq, names, List.mem_map]

/-- Only what is found under the names of the members matters. -/
theorem ofNode_eq_of_lookup {node other : Node} {fields found : Fields}
    (read : (shape depth).read node = .ok fields) (readOther : (shape depth).read other = .ok found)
    (same : ∀ name, found.lookup name = fields.lookup name) : ofNode depth other = ofNode depth node := by
  simp only [ofNode, read, readOther, Fields.need, Fields.optional, same, bind, Except.bind]

theorem ofNode_of_rearranged (rearranged : Rearranged members others)
    (complete : ∀ member ∈ others, member.2.skippable = true)
    (decoded : ofNode depth (.object members) = .ok spec) : ofNode depth (.object others) = .ok spec := by
  obtain ⟨added, unknown, same⟩ := rearranged
  have skipped : ∀ member ∈ added,
      ∃ name, member.1 = some name ∧ (shape depth).field? name = none := by
    intro member inside
    obtain ⟨name, named, absent⟩ := unknown member inside
    refine ⟨name, named, Option.not_isSome_iff_eq_none.mp ?_⟩
    rwa [field?_isSome_iff]
  have completeAdded : ∀ member ∈ added, member.2.skippable = true := fun member inside =>
    complete member (same.mem_iff.mpr (List.mem_append_right _ inside))
  cases read : (shape depth).read (.object members) with
  | error e =>
    rw [ofNode, read] at decoded
    cases decoded
  | ok fields =>
    obtain ⟨found, readOther, sameFields⟩ := Shape.read_of_perm rfl read skipped completeAdded same
    rw [ofNode_eq_of_lookup read readOther sameFields, decoded]

theorem exists_ofNode_error_of_repeats (repeats : RepeatsMember members) (depth : Nat) :
    ∃ e, ofNode depth (.object members) = .error e := by
  obtain ⟨name, isMember, first, second, twice⟩ := repeats
  have refused : ∃ e, (shape depth).read (.object members) = .error e :=
    Shape.exists_read_error_of_repeated rfl ((field?_isSome_iff depth name).mpr isMember) twice
  obtain ⟨e, refused⟩ := refused
  exact ⟨e, by rw [ofNode, refused]; rfl⟩

end ArchiveSpec

/-- How the items of a structured request are decoded. -/
def decodeSpecs (node : Node) : Decoded (List ArchiveSpec) :=
  Node.asList (ArchiveSpec.ofNode (ArchiveSpec.maxDepth - 2)) node

section Spelled
variable {node : Node} {text : List Char} {specs : List ArchiveSpec} {e : DecodeError}

theorem parseStructured_of_spells (spelled : Spells (.value node) text) :
    parseStructured (Text.Utf8.encode text) =
      (decodeSpecs node).mapError fun e => .malformed (.json e) := by
  simp only [parseStructured, Text.Utf8.decode_encode, spelled.document, Document.decode, decodeSpecs]
  cases Node.asList (ArchiveSpec.ofNode (ArchiveSpec.maxDepth - 2)) node <;> rfl

theorem parseStructured_eq_ok_iff (spelled : Spells (.value node) text) :
    parseStructured (Text.Utf8.encode text) = .ok specs ↔ decodeSpecs node = .ok specs := by
  rw [parseStructured_of_spells spelled]
  cases decodeSpecs node <;> simp [Except.mapError]

theorem parseStructured_of_error (spelled : Spells (.value node) text)
    (refused : decodeSpecs node = .error e) :
    parseStructured (Text.Utf8.encode text) = .error (.malformed (.json e)) := by
  rw [parseStructured_of_spells spelled, refused, Except.mapError]

end Spelled

theorem skippable_of_spells {objects : List Members} {text : List Char}
    (spelled : Spells (.value (.array (objects.map .object))) text) :
    ∀ members ∈ objects, ∀ member ∈ members, member.2.skippable = true := by
  have complete := spelled.skippable
  simp only [Phrase.skippable, Node.skippable] at complete
  intro members inside
  exact Node.skippableMembers_iff.mp (by
    simpa [Node.skippable] using Node.skippableItems_iff.mp complete _ (List.mem_map_of_mem inside))

theorem decodeSpecs_of_rearranged {objects others : List Members} {specs : List ArchiveSpec}
    (rearranged : List.Forall₂ ArchiveSpec.Rearranged objects others)
    (complete : ∀ members ∈ others, ∀ member ∈ members, member.2.skippable = true)
    (decoded : decodeSpecs (.array (objects.map .object)) = .ok specs) :
    decodeSpecs (.array (others.map .object)) = .ok specs := by
  rw [decodeSpecs, Node.asList_array_eq_ok_iff, List.forall₂_map_left_iff] at decoded ⊢
  induction rearranged generalizing specs with
  | nil => exact decoded
  | cons first _ ih =>
    obtain ⟨completeFirst, completeRest⟩ := List.forall_mem_cons.mp complete
    cases decoded with
    | cons here rest =>
      exact .cons (ArchiveSpec.ofNode_of_rearranged first completeFirst here) (ih completeRest rest)

theorem archiveStructured_run_of_error {body : List UInt8} {e : AdmissionError}
    (refused : parseStructured body = .error e) (defaultPeriod : Single) (surroundings : Surroundings)
    (world : World) :
    (archiveStructured defaultPeriod body).run surroundings world = (.error e, world) := by
  rw [archiveStructured, Attempt.run_bind, Attempt.run_ofExcept, refused]

/-- A request that is read can be written with the members of its items in any order, with any others of
unknown names among them, at any place and with any values, and with any space between its tokens, and is
read as the same items. A request with an item that has one of its members twice is refused as a whole, and
nothing is done. -/
theorem only_known_members_count {objects : List Members} {text : List Char}
    (spelled : Spells (.value (.array (objects.map .object))) text) :
    (∀ specs, parseStructured (Text.Utf8.encode text) = .ok specs →
      ∀ others other, Spells (.value (.array (others.map .object))) other →
        List.Forall₂ ArchiveSpec.Rearranged objects others →
        parseStructured (Text.Utf8.encode other) = .ok specs) ∧
    ((∃ members ∈ objects, ArchiveSpec.RepeatsMember members) →
      ∃ reason, parseStructured (Text.Utf8.encode text) = .error (.malformed reason) ∧
        ∀ defaultPeriod surroundings world,
          (archiveStructured defaultPeriod (Text.Utf8.encode text)).run surroundings world =
            (.error (.malformed reason), world)) := by
  constructor
  · intro specs accepted others other spelledOther rearranged
    rw [parseStructured_eq_ok_iff spelled] at accepted
    rw [parseStructured_eq_ok_iff spelledOther]
    exact decodeSpecs_of_rearranged rearranged (skippable_of_spells spelledOther) accepted
  · rintro ⟨members, inside, repeats⟩
    obtain ⟨e, item⟩ := ArchiveSpec.exists_ofNode_error_of_repeats repeats (ArchiveSpec.maxDepth - 2)
    obtain ⟨e, whole⟩ := Node.exists_asList_error (List.mem_map_of_mem inside) item
    have refused := parseStructured_of_error spelled whole
    exact ⟨.json e, refused, archiveStructured_run_of_error refused⟩

/-- Read with the members in the other order, a nested value under an unknown name, a space and an escape. -/
theorem only_known_members_count_of_nested_value :
    parseStructured (Text.Utf8.encode
        "[\x7b\"alias\":\"B\", \"x\":[[[]]],\"pv\":\"\\u0041\"\x7d]".toList) =
      .ok [{ pv := "A", aliasName := some "B" }] ∧
    ∃ reason, parseStructured (Text.Utf8.encode "[\x7b\"pv\":\"A\",\"pv\":\"A\"\x7d]".toList) =
      .error (.malformed reason) := by
  let pv : Option String × Node := (some "pv", .string (some "A"))
  let aliasName : Option String × Node := (some "alias", .string (some "B"))
  let other : Option String × Node := (some "x", .array [.array [.array []]])
  have named (key value : String) : Spells (.member (some key) (.string (some value)))
      (quote key.toList ++ ':' :: quote value.toList) :=
    .member _ _ _ _ (spells_quote key) (spells_string value)
  have spelled : Spells (.value (.array ([[pv, aliasName]].map .object)))
      "[\x7b\"pv\":\"A\",\"alias\":\"B\"\x7d]".toList :=
    .array _ _ (.lastItem _ _ (.object _ _ (.moreMembers _ _ _ _ _ _ (named "pv" "A")
      (.lastMember _ _ _ (named "alias" "B")))))
  have twice : Spells (.value (.array ([[pv, pv]].map .object)))
      "[\x7b\"pv\":\"A\",\"pv\":\"A\"\x7d]".toList :=
    .array _ _ (.lastItem _ _ (.object _ _ (.moreMembers _ _ _ _ _ _ (named "pv" "A")
      (.lastMember _ _ _ (named "pv" "A")))))
  have nested : Spells (.member other.1 other.2) " \"x\":[[[]]]".toList :=
    .padded _ [' '] _ [] (by simp [IsSpace]) (.member _ _ _ _ (spells_quote "x")
      (.array _ _ (.lastItem _ _ (.array _ _ (.lastItem _ _ (.array _ _ .noItems)))))) (by simp [IsSpace])
  have escaped : Spells (.member pv.1 pv.2) "\"pv\":\"\\u0041\"".toList :=
    .member _ _ _ _ (spells_quote "pv") (.string _ _ (.text [.unit 0x41] _
      (.cons _ _ _ _ (.code '0' '0' '4' '1' 0 0 4 1 rfl rfl rfl rfl) .nil)))
  have spelledOther : Spells (.value (.array ([[aliasName, other, pv]].map .object)))
      "[\x7b\"alias\":\"B\", \"x\":[[[]]],\"pv\":\"\\u0041\"\x7d]".toList :=
    .array _ _ (.lastItem _ _ (.object _ _ (.moreMembers _ _ _ _ _ _ (named "alias" "B")
      (.moreMembers _ _ _ _ _ _ nested (.lastMember _ _ _ escaped)))))
  have accepted : parseStructured (Text.Utf8.encode
      "[\x7b\"pv\":\"A\",\"alias\":\"B\"\x7d]".toList) = .ok [{ pv := "A", aliasName := some "B" }] :=
    (parseStructured_eq_ok_iff spelled).mpr rfl
  have rearranged : ArchiveSpec.Rearranged [pv, aliasName] [aliasName, other, pv] :=
    ⟨[other], by simp [other, ArchiveSpec.memberNames], List.perm_append_singleton pv [aliasName, other]⟩
  have repeated : ArchiveSpec.RepeatsMember [pv, pv] := ⟨"pv", by decide, _, _, .refl _⟩
  obtain ⟨reason, refused, -⟩ := (only_known_members_count twice).2 ⟨_, .head _, repeated⟩
  exact ⟨(only_known_members_count spelled).1 _ accepted _ _ spelledOther (.cons rearranged .nil),
    reason, refused⟩

end ArchiveIntake
