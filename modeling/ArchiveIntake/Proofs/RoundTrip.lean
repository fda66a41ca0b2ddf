import ArchiveIntake.Proofs.Members
import Mathlib.Data.List.Nodup

/-! Structured requests that are written and read. A request whose periods are texts is read back as it
was written, so a plain request can be sent as a structured one. -/

namespace ArchiveIntake

open Json

/-- The body of a structured request. -/
def writeStructured (specs : List ArchiveSpec) : List UInt8 :=
  Text.Utf8.encode (Value.array (specs.map ArchiveSpec.toJson)).render

/-! Members that are texts, some of which may be missing. -/

def present (slots : List (String × Option String)) : List (String × String) :=
  slots.flatMap fun slot => slot.2.toList.map fun text => (slot.1, text)

def textFields (slots : List (String × Option String)) : Fields :=
  (present slots).map fun member => (member.1, .string (some member.2))

section Slots
variable {slots : List (String × Option String)} {name text : String} {value : Option String}

theorem mem_present : (name, text) ∈ present slots ↔ (name, some text) ∈ slots := by
  simp only [present, List.mem_flatMap, List.mem_map, Option.mem_toList, Prod.mk.injEq]
  constructor
  · rintro ⟨⟨_, _⟩, inside, _, rfl, rfl, rfl⟩
    exact inside
  · exact fun inside => ⟨_, inside, text, rfl, rfl, rfl⟩

theorem keys_present_sublist (slots : List (String × Option String)) :
    ((present slots).map (·.1)).Sublist (slots.map (·.1)) := by
  induction slots with
  | nil => exact .slnil
  | cons slot slots ih =>
    obtain ⟨name, _ | text⟩ := slot
    · exact .cons _ ih
    · exact .cons_cons _ ih

theorem keys_textFields_nodup (once : (slots.map (·.1)).Nodup) :
    ((textFields slots).map (·.1)).Nodup := by
  rw [textFields, List.map_map]
  exact once.sublist (keys_present_sublist slots)

theorem lookup_textFields (once : (slots.map (·.1)).Nodup) (inside : (name, value) ∈ slots) :
    (textFields slots).lookup name = value.map fun text => .string (some text) := by
  cases value with
  | some text =>
    rw [Option.map_some, Fields.lookup_eq_some_iff (keys_textFields_nodup once)]
    exact List.mem_map.mpr ⟨(name, text), mem_present.mpr inside, rfl⟩
  | none =>
    rw [Option.map_none, List.lookup_eq_none_iff]
    intro field found
    obtain ⟨⟨key, text⟩, there, rfl⟩ := List.mem_map.mp found
    have other : name ≠ key := by
      rintro rfl
      cases List.inj_on_of_nodup_map once inside (mem_present.mp there) rfl
    simpa using other

end Slots

theorem Json.Fields.optional_text {fields : Fields} {name : String} {value : Option String}
    {decode : Node → Decoded α} {f : String → α}
    (decoded : ∀ text, decode (.string (some text)) = .ok (f text))
    (held : fields.lookup name = value.map fun text => .string (some text)) :
    fields.optional name (Node.asOptional decode) = .ok (value.map f) := by
  cases value with
  | none => simp only [Fields.optional, held, Option.map_none]
  | some text => simp only [Fields.optional, held, Option.map_some, Node.asOptional, decoded, Except.map]

namespace ArchiveSpec
variable {spec : ArchiveSpec} {depth : Nat}

/-- The period is absent or a text. -/
def IsTextual (spec : ArchiveSpec) : Prop := ∃ text : Option String, spec.period = text.map .text

def periodText (spec : ArchiveSpec) : Option String :=
  match spec.period with
  | some (.text text) => some text
  | _ => none

theorem IsTextual.period_eq (textual : spec.IsTextual) : spec.period = spec.periodText.map .text := by
  obtain ⟨_ | text, given⟩ := textual <;> simp [periodText, given]

/-- What the members of an item hold, if its period is not a number. -/
def slots (spec : ArchiveSpec) : List (String × Option String) :=
  [("pv", some spec.pv), ("samplingperiod", spec.periodText), ("samplingmethod", spec.method),
    ("controllingPV", spec.controllingPv), ("policy", spec.policy), ("alias", spec.aliasName)]

theorem keys_slots (spec : ArchiveSpec) : spec.slots.map (·.1) = memberNames := rfl

theorem toJson_eq (textual : spec.IsTextual) :
    spec.toJson = .object ((present spec.slots).map fun member => (member.1, .string member.2)) := by
  rw [toJson, textual.period_eq]
  cases written : spec.periodText <;> simp [present, slots, written, RawPeriod.toJson, Function.comp_def]

def node (spec : ArchiveSpec) : Node :=
  .object ((present spec.slots).map fun member => (some member.1, .string (some member.2)))

theorem spells_toJson (textual : spec.IsTextual) : Spells (.value spec.node) spec.toJson.render := by
  rw [toJson_eq textual]
  exact spells_object fun member _ => spells_string member.2

theorem exists_check_text {name : String} (known : name ∈ memberNames) (depth : Nat) (text : String) :
    ∃ field, (shape depth).field? name = some field ∧ field.check (.string (some text)) = .ok () := by
  simp only [memberNames, List.mem_cons, List.not_mem_nil, or_false] at known
  rcases known with rfl | rfl | rfl | rfl | rfl | rfl <;> exact ⟨_, rfl, rfl⟩

theorem ofNode_of_lookup {node : Node} {found : Fields} (textual : spec.IsTextual)
    (read : (shape depth).read node = .ok found)
    (held : ∀ slot ∈ spec.slots, found.lookup slot.1 = slot.2.map fun text => .string (some text)) :
    ofNode depth node = .ok spec := by
  simp only [slots, List.forall_mem_cons] at held
  obtain ⟨pv, period, method, controllingPv, policy, aliasName, -⟩ := held
  have text : ∀ text, Node.asText (.string (some text)) = .ok (id text) := fun _ => rfl
  have periodText : ∀ text, RawPeriod.ofNode depth (.string (some text)) = .ok (.text text) :=
    fun _ => rfl
  simp only [ofNode, read, Fields.need, pv, Option.map_some, text, Fields.optional_text periodText period,
    Fields.optional_text text method, Fields.optional_text text controllingPv,
    Fields.optional_text text policy, Fields.optional_text text aliasName, ← textual.period_eq, bind,
    Except.bind, pure, Except.pure, Option.map_id, id_eq]

theorem ofNode_node (textual : spec.IsTextual) (depth : Nat) : ofNode depth spec.node = .ok spec := by
  have once : (spec.slots.map (·.1)).Nodup := by
    rw [keys_slots]
    decide
  have typed : ∀ field ∈ textFields spec.slots,
      ∃ known, (shape depth).field? field.1 = some known ∧ known.check field.2 = .ok () := by
    intro field inside
    obtain ⟨⟨name, text⟩, there, rfl⟩ := List.mem_map.mp inside
    exact exists_check_text ((keys_present_sublist _).subset (List.mem_map_of_mem there)) depth text
  obtain ⟨found, read, same⟩ := Shape.read_fields rfl (keys_textFields_nodup once) typed
  rw [textFields, List.map_map] at read
  refine ofNode_of_lookup textual read fun slot inside => ?_
  rw [same, lookup_textFields once inside]

end ArchiveSpec

theorem parseStructured_writeStructured {specs : List ArchiveSpec}
    (textual : ∀ spec ∈ specs, spec.IsTextual) : parseStructured (writeStructured specs) = .ok specs := by
  have spelled := spells_array fun spec inside => ArchiveSpec.spells_toJson (textual spec inside)
  have decoded : decodeSpecs (.array (specs.map ArchiveSpec.node)) = .ok specs := by
    rw [decodeSpecs, Node.asList_array_eq_ok_iff, List.forall₂_map_left_iff, List.forall₂_same]
    exact fun spec inside => ArchiveSpec.ofNode_node (textual spec inside) _
  exact (parseStructured_eq_ok_iff spelled).mpr decoded

namespace PlainRequest
variable {request : PlainRequest} {specs : List ArchiveSpec}

theorem eq_text_of_sharedPeriod {period : Option RawPeriod} (given : request.sharedPeriod = .ok period) :
    ∃ text : Option String, period = text.map .text := by
  unfold sharedPeriod at given
  cases written : nonEmpty request.period with
  | none =>
    rw [written] at given
    cases given
    exact ⟨none, rfl⟩
  | some text =>
    rw [written] at given
    cases read : RawPeriod.seconds (.text text) <;> simp only [read, Except.map] at given <;> cases given
    exact ⟨some text, rfl⟩

theorem exists_sharedPeriod (accepted : request.specs = .ok specs) :
    ∃ period, request.sharedPeriod = .ok period ∧ ∀ spec ∈ specs, spec.period = period := by
  unfold PlainRequest.specs at accepted
  cases named : request.pv with
  | none => rw [named] at accepted; cases accepted
  | some list =>
    cases shared : request.sharedPeriod with
    | error e => rw [named, shared] at accepted; cases accepted
    | ok period =>
      cases asked : request.sharedMethod with
      | error e => rw [named, shared, asked] at accepted; cases accepted
      | ok method =>
        simp only [named, shared, asked, bind, Except.bind, pure, Except.pure] at accepted
        split at accepted
        · cases accepted
        · cases accepted
          exact ⟨period, rfl, List.forall_mem_map.mpr fun _ _ => rfl⟩

theorem isTextual_of_specs (accepted : request.specs = .ok specs) : ∀ spec ∈ specs, spec.IsTextual := by
  obtain ⟨period, shared, same⟩ := exists_sharedPeriod accepted
  obtain ⟨text, rfl⟩ := eq_text_of_sharedPeriod shared
  exact fun spec inside => ⟨text, same spec inside⟩

end PlainRequest

/-- A request whose periods are texts, if any, is read back as it was written. So the items of a plain
request that is accepted can be sent as a structured one, and all that is done and answered is the same. -/
theorem structured_requests_round_trip :
    (∀ specs : List ArchiveSpec, (∀ spec ∈ specs, spec.IsTextual) →
      parseStructured (writeStructured specs) = .ok specs) ∧
    ∀ (request : PlainRequest) (specs : List ArchiveSpec), request.specs = .ok specs →
      ∀ defaultPeriod surroundings world,
        (archiveStructured defaultPeriod (writeStructured specs)).run surroundings world =
          (archivePlain defaultPeriod request).run surroundings world := by
  refine ⟨fun specs => parseStructured_writeStructured, ?_⟩
  intro request specs accepted defaultPeriod surroundings world
  have textual := PlainRequest.isTextual_of_specs accepted
  rw [archiveStructured, archivePlain, parseStructured_writeStructured textual, accepted]

/-- A text that looks like a number stays a text. -/
theorem structured_requests_round_trip_with_escapes :
    let spec (pv : String) : ArchiveSpec := { pv, period := some (.text "1.5"), method := some "SCAN" }
    let request : PlainRequest := { pv := some "A, \"\\\x01😀", period := some "1.5", method := some "SCAN" }
    let specs := [spec "A", spec "\"\\\x01😀"]
    parseStructured (writeStructured specs) = .ok specs ∧
      ∀ defaultPeriod surroundings world,
        (archiveStructured defaultPeriod (writeStructured specs)).run surroundings world =
          (archivePlain defaultPeriod request).run surroundings world := by
  intro spec request specs
  have textual : ∀ item ∈ specs, item.IsTextual := by
    simp only [specs, List.mem_cons, List.not_mem_nil, or_false, forall_eq_or_imp, forall_eq]
    exact ⟨⟨some "1.5", rfl⟩, some "1.5", rfl⟩
  have accepted : request.specs = .ok specs := rfl
  exact ⟨structured_requests_round_trip.1 specs textual,
    structured_requests_round_trip.2 request specs accepted⟩

end ArchiveIntake
