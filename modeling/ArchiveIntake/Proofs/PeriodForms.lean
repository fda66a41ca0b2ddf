import ArchiveIntake.Proofs.Json.Number
import ArchiveIntake.Proofs.Members
import ArchiveIntake.Proofs.Number.Literal
import ArchiveIntake.Proofs.Omission

/-! A sampling period as a number and as a text. A number is a double before it is a single, and it is read
with an error; a text is rounded to a single once. Singles are so much coarser than doubles that the two agree,
unless the middle between two singles stands between the number and the double that is read of it. Nothing
else of a request depends on the form, except that there are no doubles for very great numbers. -/

namespace ArchiveIntake

open Json

/-! The text of a number. -/

section Text
variable {n : NumberText} {t : List Char} {whole fraction : List Nat} {exponent : Option (Bool × List Nat)}

theorem Json.SpellsWhole.digits (spelled : SpellsWhole whole t) :
    whole ≠ [] ∧ AreDigits whole ∧ t = digitText whole := by
  cases spelled with
  | zero => exact ⟨by simp, by simp [AreDigits], rfl⟩
  | other first rest nonzero digits => exact ⟨by simp, digits, rfl⟩

theorem Json.SpellsFraction.digits (spelled : Json.SpellsFraction fraction t) :
    AreDigits fraction ∧ Literal.SpellsFraction fraction t := by
  cases spelled with
  | none => exact ⟨by simp [AreDigits], .none⟩
  | some first rest digits => exact ⟨digits, .some _ digits⟩

theorem isSign_of_json {sign : List Char} {negative : Bool}
    (signed : (sign, negative) ∈ [([], false), (['-'], true)]) : (sign, negative) ∈ Literal.signs := by
  simp only [Literal.signs, List.mem_cons, List.not_mem_nil, or_false] at signed ⊢
  rcases signed with same | same <;> simp [same]

theorem Json.SpellsNumber.digits (spelled : SpellsNumber n t) : AreDigits n.whole ∧ AreDigits n.fraction := by
  obtain ⟨_, _, _, _, _, _, _, _, _, wholePart, fractionPart, _⟩ := spelled
  exact ⟨wholePart.digits.2.1, fractionPart.digits.1⟩

theorem Json.SpellsNumber.literal (spelled : SpellsNumber n t) : Literal.Spells n.decimal t := by
  obtain ⟨sign, negative, whole, fraction, exponent, _, _, _, signed, wholePart, fractionPart, exponentPart⟩ :=
    spelled
  obtain ⟨nonempty, digits, rfl⟩ := wholePart.digits
  have magnitude := Literal.SpellsMagnitude.intro whole fraction exponent _ _ (.inl nonempty) digits
    fractionPart.digits.2 exponentPart
  have value : (NumberText.mk negative whole fraction exponent).decimal =
      ⟨negative, Decimal.ofDigits (whole ++ fraction), exponentValue exponent - fraction.length⟩ := by
    cases exponent <;> rfl
  rw [value, List.append_assoc, List.append_assoc, ← List.append_assoc (digitText whole)]
  exact .intro sign negative _ _ _ (isSign_of_json signed) magnitude

/-- A text without white space. -/
def Unspaced (text : List Char) : Prop := ∀ c ∈ text, Text.isBlank c = false

theorem unspaced_digitText {digits : List Nat} (areDigits : AreDigits digits) :
    Unspaced (digitText digits) := by
  have plain : ∀ digit < 10, Text.isBlank (Nat.digitChar digit) = false := by decide
  rw [Unspaced, digitText, List.forall_mem_map]
  exact fun digit inside => plain digit (areDigits digit inside)

theorem unspaced_sign {sign : List Char} {negative : Bool} (signed : (sign, negative) ∈ Literal.signs) :
    Unspaced sign := by
  simp only [Literal.signs, List.mem_cons, Prod.mk.injEq, List.not_mem_nil, or_false] at signed
  rcases signed with ⟨rfl, _⟩ | ⟨rfl, _⟩ | ⟨rfl, _⟩
  · exact List.forall_mem_nil _
  · exact List.forall_mem_singleton.mpr rfl
  · exact List.forall_mem_singleton.mpr rfl

theorem Json.SpellsNumber.unspaced (spelled : SpellsNumber n t) : Unspaced t := by
  obtain ⟨sign, negative, whole, fraction, exponent, _, _, _, signed, wholePart, fractionPart, exponentPart⟩ :=
    spelled
  obtain ⟨-, digits, rfl⟩ := wholePart.digits
  refine List.forall_mem_append.mpr ⟨List.forall_mem_append.mpr ⟨List.forall_mem_append.mpr
    ⟨unspaced_sign (isSign_of_json signed), unspaced_digitText digits⟩, ?_⟩, ?_⟩
  · cases fractionPart with
    | none => simp
    | some first rest digits => exact List.forall_mem_cons.mpr ⟨by decide, unspaced_digitText digits⟩
  · cases exponentPart with
    | none => simp
    | some mark sign below first rest marked signed digits =>
      have plain : Text.isBlank mark = false := by
        simp only [List.mem_cons, List.not_mem_nil, or_false] at marked
        rcases marked with rfl | rfl <;> rfl
      exact List.forall_mem_cons.mpr ⟨plain,
        List.forall_mem_append.mpr ⟨unspaced_sign signed, unspaced_digitText digits⟩⟩

theorem Json.SpellsNumber.read (spelled : SpellsNumber n t) (f : Format) :
    Binary.read f (Text.trim (String.ofList t)) = .ok (n.decimal.toBinary f) := by
  have trimmed : Text.trimChars t = t :=
    Text.trimChars_eq_self (fun c first => spelled.unspaced c (List.mem_of_mem_head? first))
      fun c last => spelled.unspaced c (List.mem_of_mem_getLast? last)
  rw [Text.trim, String.toList_ofList, trimmed, Binary.read, String.toList_ofList,
    Literal.ofChars?_eq_decimal_iff.mpr spelled.literal]
  rfl

end Text

/-! The singles that are asked for. -/

def Binary.magnitude {f : Format} : Binary f → ℚ
  | .nan => 0
  | .signed _ rank _ => f.value rank

/-- A magnitude is rounded to this number, of the given sign. -/
def Binary.IsNearest {f : Format} (value : Binary f) (negative : Bool) (x : ℚ) : Prop :=
  ∃ rank within, value = .signed negative rank within ∧ f.RoundsTo x rank

/-- A decimal number and a double that are rounded to neighbouring singles, because the middle between these
stands between the two. -/
def Decimal.IsParted (d : Decimal) (read : Double) : Prop :=
  ∃ rank within next,
    (d.toBinary .single = .signed d.negative rank within ∧
      read.convert .single = .signed d.negative (rank + 1) next ∧
      Format.single.Separates rank d.magnitude read.magnitude) ∨
    (d.toBinary .single = .signed d.negative (rank + 1) next ∧
      read.convert .single = .signed d.negative rank within ∧
      Format.single.Separates rank read.magnitude d.magnitude)

section Rounded
variable {n : NumberText} {value : Number}

theorem Decimal.toBinary_roundsTo (d : Decimal) :
    Format.single.RoundsTo d.magnitude (Decimal.rank .single d.significand d.exponent) :=
  Decimal.rank_roundsTo (by decide) (by decide) d.significand d.exponent

theorem Decimal.toBinary_isNearest (d : Decimal) : (d.toBinary .single).IsNearest d.negative d.magnitude :=
  ⟨_, d.toBinary_roundsTo.bounded, rfl, d.toBinary_roundsTo⟩

theorem toDouble_spec (digits : AreDigits n.whole) (digitsFraction : AreDigits n.fraction)
    (read : n.value? = some value) :
    (value.toDouble.convert .single).IsNearest n.negative value.toDouble.magnitude ∧
      Near (1 + 1 / 2 ^ 40) (2 ^ (-700 : Int)) n.decimal.magnitude value.toDouble.magnitude := by
  rcases n.value?_spec digits digitsFraction with
    ⟨_, rank, within, found, isDouble, finite, near⟩ | ⟨unread, -⟩
  · cases read.symm.trans found
    have rounds := Format.nearest_value_roundsTo (f := .single) (by decide) .double rank
    rw [isDouble, Binary.convert, if_pos finite]
    exact ⟨⟨_, rounds.bounded, rfl, rounds⟩, near⟩
  · cases read.symm.trans unread

/-- Singles are too coarse to show what reading a number as a double changes, but for one step. -/
theorem single_apart {x y : ℚ} {rank other : Nat} (rounds : Format.single.RoundsTo x rank)
    (roundsOther : Format.single.RoundsTo y other) (near : Near (1 + 1 / 2 ^ 40) (2 ^ (-700 : Int)) x y) :
    rank = other ∨ other = rank + 1 ∧ Format.single.Separates rank x y ∨
      rank = other + 1 ∧ Format.single.Separates other y x := by
  refine rounds.apart roundsOther near (by norm_num) (by norm_num [Format.single, Format.binade]) ?_
  rw [Format.middle_zero, one_div, ← zpow_natCast, ← zpow_neg]
  exact zpow_le_zpow_right₀ (by norm_num) (by decide)

theorem toBinary_eq_or_isParted {d : Decimal} {read : Double}
    (nearest : (read.convert .single).IsNearest d.negative read.magnitude)
    (near : Near (1 + 1 / 2 ^ 40) (2 ^ (-700 : Int)) d.magnitude read.magnitude) :
    d.toBinary .single = read.convert .single ∨ d.IsParted read := by
  obtain ⟨direct, within, written, rounds⟩ := d.toBinary_isNearest
  obtain ⟨indirect, next, converted, roundsOther⟩ := nearest
  rw [Decimal.IsParted, written, converted]
  rcases single_apart rounds roundsOther near with rfl | ⟨rfl, separates⟩ | ⟨rfl, separates⟩
  · exact .inl rfl
  · exact .inr ⟨direct, within, next, .inl ⟨rfl, rfl, separates⟩⟩
  · exact .inr ⟨indirect, next, within, .inr ⟨rfl, rfl, separates⟩⟩

theorem Decimal.IsParted.ne {d : Decimal} {read : Double} (parted : d.IsParted read) :
    d.toBinary .single ≠ read.convert .single := by
  obtain ⟨rank, _, _, ⟨direct, indirect, -⟩ | ⟨direct, indirect, -⟩⟩ := parted <;> simp [direct, indirect]

/-- A number that is too great for a double is infinite as a single. -/
theorem Decimal.isFinite_eq_false_of_great {d : Decimal} (great : 2 ^ 1023 ≤ d.magnitude) :
    (d.toBinary .single).isFinite = false := by
  have reached : Format.single.value Format.single.infinity ≤ d.magnitude := by
    refine le_trans (Format.value_infinity_le (by decide)) (le_trans ?_ great)
    exact_mod_cast (show 10 ^ Format.single.binades ≤ 2 ^ 1023 by decide +kernel)
  have infinite := d.toBinary_roundsTo.unique (Format.roundsTo_infinity (by decide) reached)
  simp [toBinary, Binary.isFinite, infinite]

end Rounded

/-! The items that are read. -/

section Items
variable {n : NumberText} {first second : Node} {period other : RawPeriod} {depth : Nat}

def oneItem (before : Members) (period : Node) (after : Members) : Node :=
  .array [.object (before ++ (some "samplingperiod", period) :: after)]

theorem ArchiveSpec.field?_period (depth : Nat) : (shape depth).field? "samplingperiod" =
    some (.of "samplingperiod" (Node.asOptional (RawPeriod.ofNode depth)) false) := rfl

/-- Two periods that can be read are read in otherwise equal items, or nothing is read of either. -/
theorem ArchiveSpec.ofNode_exchange (read : Node.asOptional (RawPeriod.ofNode depth) first = .ok (some period))
    (readOther : Node.asOptional (RawPeriod.ofNode depth) second = .ok (some other)) (before after : Members) :
    (∃ e, ofNode depth (.object (before ++ (some "samplingperiod", first) :: after)) = .error e ∧
        ofNode depth (.object (before ++ (some "samplingperiod", second) :: after)) = .error e) ∨
      ∃ spec : ArchiveSpec,
        ofNode depth (.object (before ++ (some "samplingperiod", first) :: after)) =
          .ok { spec with period := some period } ∧
        ofNode depth (.object (before ++ (some "samplingperiod", second) :: after)) =
          .ok { spec with period := some other } := by
  have checked {node : Node} {raw : RawPeriod}
      (read : Node.asOptional (RawPeriod.ofNode depth) node = .ok (some raw)) :
      (Field.of "samplingperiod" (Node.asOptional (RawPeriod.ofNode depth)) false).check node = .ok () := by
    simp only [Field.of, read, Except.map]
  rcases Shape.read_exchange (field?_period depth) (checked read) (checked readOther) before after with
    ⟨e, refused, refusedOther⟩ | ⟨fields, exchanged, decoded, decodedOther, held, heldOther, same⟩
  · exact .inl ⟨e, by rw [ofNode, refused]; rfl, by rw [ofNode, refusedOther]; rfl⟩
  · have pv : fields.need "pv" Node.asText = exchanged.need "pv" Node.asText := by
      simp only [Fields.need, same "pv" (by decide)]
    have text (key : String) (apart : key ≠ "samplingperiod") :
        fields.optional key (Node.asOptional Node.asText) =
          exchanged.optional key (Node.asOptional Node.asText) := by
      simp only [Fields.optional, same key apart]
    have own : fields.optional "samplingperiod" (Node.asOptional (RawPeriod.ofNode depth)) =
        .ok (some period) := by
      simp only [Fields.optional, held, read]
    have ownOther : exchanged.optional "samplingperiod" (Node.asOptional (RawPeriod.ofNode depth)) =
        .ok (some other) := by
      simp only [Fields.optional, heldOther, readOther]
    simp only [ofNode, decoded, decodedOther, bind, Except.bind, pv, own, ownOther,
      text "samplingmethod" (by decide), text "controllingPV" (by decide), text "policy" (by decide),
      text "alias" (by decide)]
    -- The fields are read in this order, and the first one that cannot be read gives the error of both.
    cases exchanged.need "pv" Node.asText with
    | error e => exact .inl ⟨e, rfl, rfl⟩
    | ok pv =>
    cases exchanged.optional "samplingmethod" (Node.asOptional Node.asText) with
    | error e => exact .inl ⟨e, rfl, rfl⟩
    | ok method =>
    cases exchanged.optional "controllingPV" (Node.asOptional Node.asText) with
    | error e => exact .inl ⟨e, rfl, rfl⟩
    | ok controllingPv =>
    cases exchanged.optional "policy" (Node.asOptional Node.asText) with
    | error e => exact .inl ⟨e, rfl, rfl⟩
    | ok policy =>
    cases exchanged.optional "alias" (Node.asOptional Node.asText) with
    | error e => exact .inl ⟨e, rfl, rfl⟩
    | ok aliasName => exact .inr ⟨⟨pv, none, method, controllingPv, policy, aliasName⟩, rfl, rfl⟩

theorem ArchiveSpec.exists_ofNode_error_of_period {e : DecodeError}
    (refused : Node.asOptional (RawPeriod.ofNode depth) first = .error e) (before after : Members) :
    ∃ e, ofNode depth (.object (before ++ (some "samplingperiod", first) :: after)) = .error e := by
  cases read : (shape depth).read (.object (before ++ (some "samplingperiod", first) :: after)) with
  | error e => exact ⟨e, by rw [ofNode, read]; rfl⟩
  | ok fields =>
    obtain ⟨readable, -, -⟩ := (Shape.read_object_eq_ok_iff rfl).mp read
    have checked := (Shape.canRead_of_field (field?_period depth)).mp
      (readable (some "samplingperiod", first) (by simp))
    simp only [Field.of, refused, Except.map] at checked
    cases checked

theorem asPeriod_number {value : Number} (read : n.value? = some value) (depth : Nat) :
    Node.asOptional (RawPeriod.ofNode depth) (.number n) = .ok (some (.number value.toDouble)) := by
  simp only [Node.asOptional, RawPeriod.ofNode, Node.loadable, read, Option.isSome_some, if_true, Except.map]

theorem asPeriod_unread (unread : n.value? = none) (depth : Nat) :
    Node.asOptional (RawPeriod.ofNode depth) (.number n) = .error .malformed := by
  simp only [Node.asOptional, RawPeriod.ofNode, Node.loadable, unread, Option.isSome_none, Bool.false_eq_true,
    if_false, Except.map]

theorem asPeriod_text (text : String) (depth : Nat) :
    Node.asOptional (RawPeriod.ofNode depth) (.string (some text)) = .ok (some (.text text)) := rfl

theorem parseStructured_oneItem {before after : Members} {text : List Char}
    (spelled : Spells (.value (oneItem before first after)) text) :
    parseStructured (Text.Utf8.encode text) =
      match ArchiveSpec.ofNode (ArchiveSpec.maxDepth - 2)
        (.object (before ++ (some "samplingperiod", first) :: after)) with
      | .ok spec => .ok [spec]
      | .error e => .error (.malformed (.json e)) := by
  rw [parseStructured_of_spells spelled, decodeSpecs, oneItem, Node.asList, List.mapM_cons]
  cases ArchiveSpec.ofNode (ArchiveSpec.maxDepth - 2)
    (.object (before ++ (some "samplingperiod", first) :: after)) <;> rfl

end Items

section Runs
variable {surroundings : Surroundings} {defaultPeriod : Single} {world : World} {spec : ArchiveSpec}
  {period other : RawPeriod}

theorem archivePv_eq_of_seconds (same : period.seconds = other.seconds) (catalog : Catalog) :
    archivePv defaultPeriod catalog { spec with period := some period } =
      archivePv defaultPeriod catalog { spec with period := some other } := by
  have requested : ({ spec with period := some period } : ArchiveSpec).requestedPeriod =
      ({ spec with period := some other } : ArchiveSpec).requestedPeriod := by
    simp only [ArchiveSpec.requestedPeriod, same]
  have override : ({ spec with period := some period } : ArchiveSpec).override =
      ({ spec with period := some other } : ArchiveSpec).override := by
    simp only [ArchiveSpec.override, ArchiveSpec.requestedMethod, same]
  simp only [archivePv, archiveNamed, admitItem, resolvePolicy, ArchiveSpec.requestedMethod, requested,
    override]
  rfl

theorem archiveStructured_run_of_ok {body : List UInt8} {specs : List ArchiveSpec}
    (parsed : parseStructured body = .ok specs) :
    (archiveStructured defaultPeriod body).run surroundings world =
      (archiveBatch defaultPeriod specs).run surroundings world := by
  rw [archiveStructured, Attempt.run_bind, Attempt.run_ofExcept, parsed]

/-- Nothing is done: the request is refused, or its only item is answered with an exception. -/
def IsRefusal (world : World) (result : Except AdmissionError (List ArchiveOutcome) × World) : Prop :=
  result.2 = world ∧
    ((∃ reason, result.1 = .error (.malformed reason)) ∨ (∃ name, result.1 = .error (.invalidName name)) ∨
      ∃ name, result.1 = .ok [⟨name, .exceptionOccurred⟩])

/-- An item with a period that is not finite is not looked at any further than its name. -/
theorem isRefusal_of_requestedPeriod {e : AdmissionError} (invalid : spec.requestedPeriod = .error e)
    (surroundings : Surroundings) (defaultPeriod : Single) (world : World) :
    IsRefusal world ((archiveBatch defaultPeriod [spec]).run surroundings world) := by
  rw [archiveBatch_run_seen]
  cases valid : Name.isValid (spec.baseName (world.seenCatalog surroundings)) with
  | true =>
    have unusable : spec.IsUnusable (world.seenCatalog surroundings) :=
      ⟨valid, by simp [ArchiveSpec.overridesAreValid, invalid, Except.isOk, Except.toBool]⟩
    rw [archiveItems_run_of_outcome (unusable.run surroundings defaultPeriod world)]
    exact ⟨rfl, .inr (.inr ⟨_, rfl⟩)⟩
  | false =>
    have refused : (archivePv defaultPeriod (world.seenCatalog surroundings) spec).run surroundings world =
        (.error (.invalidName (spec.baseName (world.seenCatalog surroundings))), world) := by
      rw [archivePv, Attempt.run_bind, Attempt.run_ofExcept, ArchiveSpec.normalize_of_invalid valid]
    rw [archiveItems_run_of_error refused]
    exact ⟨rfl, .inr (.inl ⟨_, rfl⟩)⟩

theorem isRefusal_of_text {before after : Members} {text : List Char} {written : String} {e : AdmissionError}
    (spelled : Spells (.value (oneItem before (.string (some written)) after)) text)
    (invalid : (RawPeriod.text written).seconds = .error e) (surroundings : Surroundings)
    (defaultPeriod : Single) (world : World) :
    IsRefusal world ((archiveStructured defaultPeriod (Text.Utf8.encode text)).run surroundings world) := by
  have parsed := parseStructured_oneItem spelled
  have period := asPeriod_text written (ArchiveSpec.maxDepth - 2)
  rcases ArchiveSpec.ofNode_exchange period period before after with ⟨e, refused, -⟩ | ⟨spec, decoded, -⟩
  · rw [refused] at parsed
    rw [archiveStructured_run_of_error parsed]
    exact ⟨rfl, .inl ⟨_, rfl⟩⟩
  · rw [decoded] at parsed
    rw [archiveStructured_run_of_ok parsed]
    refine isRefusal_of_requestedPeriod (e := e) ?_ surroundings defaultPeriod world
    simp only [ArchiveSpec.requestedPeriod, invalid, Except.map]

end Runs

section Forms
variable {n : NumberText} {t : List Char} {before after : Members} {numeric quoted : List Char}

theorem parseStructured_forms {value : Number} (read : n.value? = some value)
    (asNumber : Spells (.value (oneItem before (.number n) after)) numeric)
    (asText : Spells (.value (oneItem before (.string (some (String.ofList t))) after)) quoted) :
    (∃ reason, parseStructured (Text.Utf8.encode numeric) = .error (.malformed reason) ∧
        parseStructured (Text.Utf8.encode quoted) = .error (.malformed reason)) ∨
      ∃ spec : ArchiveSpec,
        parseStructured (Text.Utf8.encode numeric) =
          .ok [{ spec with period := some (.number value.toDouble) }] ∧
        parseStructured (Text.Utf8.encode quoted) =
          .ok [{ spec with period := some (.text (String.ofList t)) }] := by
  rw [parseStructured_oneItem asNumber, parseStructured_oneItem asText]
  have period := asPeriod_number read (ArchiveSpec.maxDepth - 2)
  have other := asPeriod_text (String.ofList t) (ArchiveSpec.maxDepth - 2)
  rcases ArchiveSpec.ofNode_exchange period other before after with
    ⟨e, refused, refusedOther⟩ | ⟨spec, decoded, decodedOther⟩
  · rw [refused, refusedOther]
    exact .inl ⟨.json e, rfl, rfl⟩
  · rw [decoded, decodedOther]
    exact .inr ⟨spec, rfl, rfl⟩

/-- Whatever fails, an item whose period is a number is answered as the one with the same digits as a text,
unless the number and the double that is read of it are parted: a text asks for the single nearest to the
number, a number for the one nearest to the double. The items are otherwise the same, and what else is wrong
with them is found in both. Only a number that is too great for a double is no request as a number; as a text
it is too great for a single, and so nothing is done for either. -/
theorem period_forms_agree_unless_parted (literal : SpellsNumber n t)
    (asNumber : Spells (.value (oneItem before (.number n) after)) numeric)
    (asText : Spells (.value (oneItem before (.string (some (String.ofList t))) after)) quoted)
    (surroundings : Surroundings) (defaultPeriod : Single) (world : World) :
    let parse (body : List Char) := parseStructured (Text.Utf8.encode body)
    let run (body : List Char) :=
      (archiveStructured defaultPeriod (Text.Utf8.encode body)).run surroundings world
    (RawPeriod.text (String.ofList t)).seconds = RawPeriod.checked (n.decimal.toBinary .single) ∧
    (n.decimal.toBinary .single).IsNearest n.negative n.decimal.magnitude ∧
    (∀ value, n.value? = some value →
      (RawPeriod.number value.toDouble).seconds = RawPeriod.checked (value.toDouble.convert .single) ∧
      (value.toDouble.convert .single).IsNearest n.negative value.toDouble.magnitude ∧
      ((∃ reason, parse numeric = .error (.malformed reason) ∧ parse quoted = .error (.malformed reason)) ∨
        ∃ spec : ArchiveSpec, parse numeric = .ok [{ spec with period := some (.number value.toDouble) }] ∧
          parse quoted = .ok [{ spec with period := some (.text (String.ofList t)) }]) ∧
      ((RawPeriod.number value.toDouble).seconds = (RawPeriod.text (String.ofList t)).seconds ∧
          run numeric = run quoted ∨
        n.decimal.IsParted value.toDouble)) ∧
    (n.value? = none → 2 ^ 1023 ≤ n.decimal.magnitude ∧ (n.decimal.toBinary .single).isFinite = false ∧
      ∃ reason, run numeric = (.error (.malformed reason), world)) ∧
    ((n.decimal.toBinary .single).isFinite = false → IsRefusal world (run quoted)) := by
  intro parse run
  obtain ⟨digits, digitsFraction⟩ := literal.digits
  have written := RawPeriod.seconds_text (literal.read .single)
  refine ⟨written, n.decimal.toBinary_isNearest, fun value read => ?_, fun unread => ?_, fun infinite => ?_⟩
  · have forms := parseStructured_forms read asNumber asText
    obtain ⟨nearest, near⟩ := toDouble_spec digits digitsFraction read
    refine ⟨RawPeriod.seconds_number _, nearest, forms, ?_⟩
    rcases toBinary_eq_or_isParted (d := n.decimal) nearest near with same | parted
    · have seconds : (RawPeriod.number value.toDouble).seconds =
          (RawPeriod.text (String.ofList t)).seconds := by
        rw [RawPeriod.seconds_number, written, same]
      refine .inl ⟨seconds, ?_⟩
      rcases forms with ⟨reason, refused, refusedOther⟩ | ⟨spec, parsed, parsedOther⟩
      · simp only [run, archiveStructured_run_of_error refused, archiveStructured_run_of_error refusedOther]
      · simp only [run, archiveStructured_run_of_ok parsed, archiveStructured_run_of_ok parsedOther,
          archiveBatch, archiveItems, archivePv_eq_of_seconds seconds]
    · exact .inr parted
  · rcases n.value?_spec digits digitsFraction with ⟨value, -, -, read, -⟩ | ⟨-, great⟩
    · cases unread.symm.trans read
    obtain ⟨e, refused⟩ := ArchiveSpec.exists_ofNode_error_of_period (asPeriod_unread unread _) before after
    have parsed := parseStructured_oneItem asNumber
    rw [refused] at parsed
    exact ⟨great, Decimal.isFinite_eq_false_of_great great, .json e, archiveStructured_run_of_error parsed ..⟩
  · have seconds : (RawPeriod.text (String.ofList t)).seconds =
        .error (.invalidPeriod (n.decimal.toBinary .single).positional) := by
      rw [written, RawPeriod.checked, infinite, if_neg Bool.false_ne_true]
    exact isRefusal_of_text asText seconds surroundings defaultPeriod world

/-- A period that has no exact single in either form, and one that is infinite in both. -/
theorem period_forms_agree_unless_parted_of_three_tenths :
    let body (period : List Char) :=
      "[\x7b\"pv\":\"A\",\"samplingperiod\":".toList ++ period ++ "\x7d]".toList
    let start : World := .fresh (.memoryOf .default) .noting
    let run (period : String) := (archiveStructured AdmissionConfig.default.defaultPeriod
      (Text.Utf8.encode (body period.toList))).run (.calm 0) start
    run "0.3" = run "\"0.3\"" ∧ (run "0.3").2.queue["A"]?.map (·.period.bits) = some 0x3e99999a ∧
      run "1e39" = run "\"1e39\"" ∧ IsRefusal start (run "\"1e39\"") := by
  intro body start run
  let pv : Option String × Node := (some "pv", .string (some "A"))
  have array {period : Node} {text : List Char} (spelled : Spells (.value period) text) :
      Spells (.value (oneItem [pv] period [])) (body text) := by
    have members := Spells.moreMembers _ _ _ _ _ _
      (.member _ _ _ _ (spells_quote "pv") (spells_string "A"))
      (.lastMember _ _ _ (.member _ _ _ _ (spells_quote "samplingperiod") spelled))
    have items := Spells.array _ _ (.lastItem _ _ (.object _ _ members))
    have whole : body text = "[\x7b\"pv\":\"A\",\"samplingperiod\":".toList ++ text ++ ['\x7d'] ++ [']'] :=
      (List.append_assoc _ ['\x7d'] [']']).symm
    rw [whole]
    exact items
  have law {n : NumberText} {text : String} (literal : SpellsNumber n text.toList) :=
    period_forms_agree_unless_parted literal (array (.number _ _ literal))
      (array (spells_string (String.ofList text.toList))) (.calm 0)
      AdmissionConfig.default.defaultPeriod start
  have agree {n : NumberText} {text : String} (literal : SpellsNumber n text.toList)
      (once : n.value?.map (·.toDouble.convert .single) = some (n.decimal.toBinary .single)) :
      run text = run (.ofList (quote text.toList)) := by
    obtain ⟨value, read, same⟩ := Option.map_eq_some_iff.mp once
    rcases ((law literal).2.2.1 value read).2.2.2 with ⟨-, equal⟩ | parted
    · simpa [run, Value.render] using equal
    · exact absurd same.symm parted.ne
  have tenths : SpellsNumber ⟨false, [0], [3], none⟩ "0.3".toList :=
    .intro [] false [0] [3] none ['0'] ".3".toList [] (by simp) .zero
      (.some 3 [] (by simp [AreDigits])) .none
  have great : SpellsNumber ⟨false, [1], [], some (false, [3, 9])⟩ "1e39".toList :=
    .intro [] false [1] [] (some (false, [3, 9])) ['1'] [] "e39".toList (by simp)
      (.other 1 [] (by decide) (by simp [AreDigits])) .none
      (.some 'e' [] false 3 [9] (by simp) (by simp) (by simp [AreDigits]))
  refine ⟨agree tenths (by decide +kernel), by decide +kernel, agree great (by decide +kernel), ?_⟩
  exact (law great).2.2.2.2 (by decide +kernel)

/-- As a number one and the middle above it are the same double, and a number that is too great for a double
is no request. -/
theorem period_forms_are_parted :
    let run (period : String) := (archiveStructured AdmissionConfig.default.defaultPeriod (Text.Utf8.encode
      ("[\x7b\"pv\":\"A\",\"samplingperiod\":".toList ++ period.toList ++ "\x7d]".toList))).run
        (.calm 0) (.fresh (.memoryOf .default) .noting)
    let queued (period : String) := (run period).2.queue["A"]?.map (·.period.bits)
    queued "1.00000005960464478" = some 0x3f800000 ∧ queued "\"1.00000005960464478\"" = some 0x3f800001 ∧
      (run "1e400").1.toOption = none ∧
      (run "\"1e400\"").1.toOption = some [⟨"A", .exceptionOccurred⟩] := by
  decide +kernel

end Forms

end ArchiveIntake
