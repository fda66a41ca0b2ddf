import ArchiveIntake.PlainRequest
import ArchiveIntake.Proofs.Number.Literal
import Mathlib.Data.List.TakeWhile

/-! The grammar of plain requests. The list of variables is cut at commas and line ends, an entry may have
white space around its name, and blank entries count for nothing. A request is accepted exactly if there is
an entry that is not blank and the shared method and period can be read, and then it has one item for each
name of the list, in their order. -/

namespace ArchiveIntake

namespace Text
variable {cs before after : List Char}

theorem trimChars_padded (leading : ∀ c ∈ before, isBlank c = true) (trailing : ∀ c ∈ after, isBlank c = true)
    (cs : List Char) : trimChars (before ++ cs ++ after) = trimChars cs := by
  have back : ((cs ++ after).dropWhile isBlank).reverse.dropWhile isBlank =
      (cs.dropWhile isBlank).reverse.dropWhile isBlank := by
    rw [List.dropWhile_append]
    split
    next blank =>
      rw [List.isEmpty_iff.mp blank, List.dropWhile_eq_nil_iff.mpr trailing]
    next =>
      have reversed : ∀ c ∈ after.reverse, isBlank c = true := fun c inside =>
        trailing c (List.mem_reverse.mp inside)
      rw [List.reverse_append, List.dropWhile_append_of_pos reversed]
  rw [trimChars, List.append_assoc, List.dropWhile_append_of_pos leading, back, trimChars]

theorem exists_padding (cs : List Char) :
    ∃ before after, (∀ c ∈ before, isBlank c = true) ∧ (∀ c ∈ after, isBlank c = true) ∧
      cs = before ++ trimChars cs ++ after ∧ (∀ c ∈ (trimChars cs).head?, isBlank c = false) ∧
      ∀ c ∈ (trimChars cs).getLast?, isBlank c = false := by
  have first (text : List Char) : ∀ c ∈ (text.dropWhile isBlank).head?, isBlank c = false := by
    intro c found
    have stopped := List.head?_dropWhile_not isBlank text
    rwa [Option.mem_def.mp found] at stopped
  have front : cs.takeWhile isBlank ++ cs.dropWhile isBlank = cs := List.takeWhile_append_dropWhile
  have back : trimChars cs ++ ((cs.dropWhile isBlank).reverse.takeWhile isBlank).reverse =
      cs.dropWhile isBlank := by
    rw [trimChars, ← List.reverse_append, List.takeWhile_append_dropWhile, List.reverse_reverse]
  refine ⟨cs.takeWhile isBlank, ((cs.dropWhile isBlank).reverse.takeWhile isBlank).reverse, ?_, ?_, ?_, ?_, ?_⟩
  · exact fun c inside => List.mem_takeWhile_imp inside
  · exact fun c inside => List.mem_takeWhile_imp (List.mem_reverse.mp inside)
  · rw [List.append_assoc, back, front]
  · intro c found
    apply first cs
    rw [← back]
    simp [Option.mem_def.mp found]
  · rw [trimChars, List.getLast?_reverse]
    exact first _

end Text

namespace PlainRequest

/-! The list of variables. -/

/-- White space that ends no line. -/
def IsPadding (text : List Char) : Prop := ∀ c ∈ text, Text.isBlank c = true ∧ c ≠ '\n'

/-- A name as it can stand in a list. -/
structure IsName (name : String) : Prop where
  nonempty : name ≠ ""
  whole : ∀ c ∈ name.toList, c ≠ ',' ∧ c ≠ '\n'
  first : ∀ c ∈ name.toList.head?, Text.isBlank c = false
  last : ∀ c ∈ name.toList.getLast?, Text.isBlank c = false

/-- How an entry may be written: with white space around its name, or with white space alone. -/
inductive SpellsEntry : Option String → List Char → Prop
  | blank (space : List Char) (padding : IsPadding space) : SpellsEntry none space
  | name (name : String) (before after : List Char) (isName : IsName name) (leading : IsPadding before)
      (trailing : IsPadding after) : SpellsEntry (some name) (before ++ name.toList ++ after)

/-- How a list of names may be written. -/
inductive SpellsList : List String → List Char → Prop
  | last (entry : Option String) (text : List Char) (spelled : SpellsEntry entry text) :
      SpellsList entry.toList text
  | entry (entry : Option String) (names : List String) (text : List Char) (separator : Char)
      (rest : List Char) (spelled : SpellsEntry entry text) (separates : separator ∈ [',', '\n'])
      (others : SpellsList names rest) : SpellsList (entry.toList ++ names) (text ++ separator :: rest)

def isSeparator (c : Char) : Bool := c = ',' || c = '\n'

def entryName (piece : List Char) : Option String :=
  if (Text.trimChars piece).isEmpty then none else some (String.ofList (Text.trimChars piece))

theorem entries_eq (list : String) :
    entries list = (Text.pieces isSeparator list.toList).filterMap entryName := by
  rw [entries, List.filterMap_map]
  rfl

variable {entry : Option String} {names : List String} {cs text : List Char}

theorem isSeparator_eq_false_iff {c : Char} : isSeparator c = false ↔ c ≠ ',' ∧ c ≠ '\n' := by
  simp [isSeparator]

theorem IsPadding.whole (padding : IsPadding text) : ∀ c ∈ text, isSeparator c = false := by
  intro c inside
  obtain ⟨blank, sameLine⟩ := padding c inside
  refine isSeparator_eq_false_iff.mpr ⟨?_, sameLine⟩
  rintro rfl
  cases blank

theorem SpellsEntry.whole (spelled : SpellsEntry entry text) : ∀ c ∈ text, isSeparator c = false := by
  cases spelled with
  | blank space padding => exact padding.whole
  | name name before after isName leading trailing =>
    have named : ∀ c ∈ name.toList, isSeparator c = false := fun c inside =>
      isSeparator_eq_false_iff.mpr (isName.whole c inside)
    exact List.forall_mem_append.mpr ⟨List.forall_mem_append.mpr ⟨leading.whole, named⟩, trailing.whole⟩

theorem SpellsEntry.entryName_eq (spelled : SpellsEntry entry text) : entryName text = entry := by
  cases spelled with
  | blank _ padding =>
    have trimmed : Text.trimChars (text ++ [] ++ []) = [] :=
      Text.trimChars_padded (fun c inside => (padding c inside).1) (by simp) []
    simp only [List.append_nil] at trimmed
    simp [entryName, trimmed]
  | name name before after isName leading trailing =>
    have trimmed : Text.trimChars (before ++ name.toList ++ after) = name.toList := by
      rw [Text.trimChars_padded (fun c inside => (leading c inside).1) fun c inside => (trailing c inside).1,
        Text.trimChars_eq_self isName.first isName.last]
    simp only [entryName, trimmed, String.ofList_toList]
    simp [isName.nonempty]

theorem spellsEntry_entryName (whole : ∀ c ∈ cs, isSeparator c = false) : SpellsEntry (entryName cs) cs := by
  obtain ⟨before, after, leading, trailing, shape, first, last⟩ := Text.exists_padding cs
  have padding {part : List Char} (blank : ∀ c ∈ part, Text.isBlank c = true) (within : ∀ c ∈ part, c ∈ cs) :
      IsPadding part := fun c inside =>
    ⟨blank c inside, (isSeparator_eq_false_iff.mp (whole c (within c inside))).2⟩
  by_cases blank : Text.trimChars cs = []
  · have none : entryName cs = none := by simp [entryName, blank]
    rw [none]
    refine .blank cs (padding ?_ fun c inside => inside)
    rw [shape, blank, List.append_nil]
    exact List.forall_mem_append.mpr ⟨leading, trailing⟩
  · have some : entryName cs = some (String.ofList (Text.trimChars cs)) := by simp [entryName, blank]
    have isName : IsName (String.ofList (Text.trimChars cs)) := by
      refine ⟨by simpa using blank, ?_, by simpa using first, by simpa using last⟩
      intro c inside
      rw [String.toList_ofList] at inside
      refine isSeparator_eq_false_iff.mp (whole c ?_)
      rw [shape]
      simp [inside]
    have spelled := SpellsEntry.name _ before after isName
      (padding leading fun c inside => by rw [shape]; simp [inside])
      (padding trailing fun c inside => by rw [shape]; simp [inside])
    rw [String.toList_ofList, ← shape] at spelled
    rwa [some]

theorem SpellsList.pieces_eq (spelled : SpellsList names cs) :
    (Text.pieces isSeparator cs).filterMap entryName = names := by
  induction spelled with
  | last entry text spelled =>
    rw [Text.pieces_of_whole spelled.whole]
    cases entry <;> simp [spelled.entryName_eq]
  | entry entry names text separator rest spelled separates others ih =>
    have ends : isSeparator separator = true := by simpa [isSeparator] using separates
    rw [Text.pieces_append spelled.whole ends]
    cases entry <;> simp [spelled.entryName_eq, ih]

theorem exists_spellsList (cs : List Char) : ∃ names, SpellsList names cs := by
  have front : cs.takeWhile (fun c => !isSeparator c) ++ cs.dropWhile (fun c => !isSeparator c) = cs :=
    List.takeWhile_append_dropWhile
  have whole : ∀ c ∈ cs.takeWhile (fun c => !isSeparator c), isSeparator c = false := fun c inside => by
    simpa using List.mem_takeWhile_imp inside
  have entry := spellsEntry_entryName whole
  cases rest : cs.dropWhile (fun c => !isSeparator c) with
  | nil =>
    rw [rest, List.append_nil] at front
    rw [front] at entry
    exact ⟨_, .last _ _ entry⟩
  | cons separator rest' =>
    have stopped := List.head?_dropWhile_not (fun c => !isSeparator c) cs
    have shorter : rest'.length < cs.length := by
      rw [← front, rest]
      simp only [List.length_append, List.length_cons]
      omega
    obtain ⟨names, others⟩ := exists_spellsList rest'
    rw [rest] at stopped front
    have separates : separator ∈ [',', '\n'] := by
      simpa [isSeparator, Decidable.or_iff_not_imp_left] using stopped
    have spelled := SpellsList.entry _ names _ separator rest' entry separates others
    rw [front] at spelled
    exact ⟨_, spelled⟩
termination_by cs.length

/-- Every text is a list of the names that are read from it, and of no others. -/
theorem entries_eq_iff {list : String} : entries list = names ↔ SpellsList names list.toList := by
  rw [entries_eq]
  constructor
  · rintro rfl
    obtain ⟨names, spelled⟩ := exists_spellsList list.toList
    rwa [spelled.pieces_eq]
  · exact SpellsList.pieces_eq

/-- A text has an entry that is not blank. -/
def HasEntry (text : List Char) : Prop := ∃ c ∈ text, Text.isBlank c = false ∧ c ≠ ','

theorem SpellsEntry.hasEntry_iff (spelled : SpellsEntry entry text) : HasEntry text ↔ entry.isSome = true := by
  cases spelled with
  | blank _ padding =>
    refine ⟨?_, nofun⟩
    rintro ⟨c, inside, visible, -⟩
    cases (padding c inside).1.symm.trans visible
  | name name before after isName =>
    refine ⟨fun _ => rfl, fun _ => ?_⟩
    cases letters : name.toList with
    | nil => exact absurd (String.toList_eq_nil_iff.mp letters) isName.nonempty
    | cons c rest =>
      have visible := isName.first c (by simp [letters])
      exact ⟨c, by simp, visible, (isName.whole c (by simp [letters])).1⟩

theorem SpellsList.hasEntry_iff (spelled : SpellsList names cs) : HasEntry cs ↔ names ≠ [] := by
  induction spelled with
  | last entry text spelled =>
    rw [spelled.hasEntry_iff]
    cases entry <;> simp
  | entry entry names text separator rest spelled separates others ih =>
    have parts : HasEntry (text ++ separator :: rest) ↔ HasEntry text ∨ HasEntry rest := by
      have separator : ¬(Text.isBlank separator = false ∧ separator ≠ ',') := by
        simp only [List.mem_cons, List.not_mem_nil, or_false] at separates
        rcases separates with rfl | rfl <;> decide
      simp only [HasEntry, List.mem_append, List.mem_cons, or_and_right, exists_or, exists_eq_left, separator,
        false_or]
    rw [parts, spelled.hasEntry_iff, ih]
    cases entry <;> simp

/-! The shared parameters. -/

variable {request : PlainRequest}

/-- The shared period, if there is one, is a finite number between white space, and the shared method is
spelled exactly. -/
structure HasUsableParameters (request : PlainRequest) : Prop where
  period : ∀ text, request.period = some text → text ≠ "" →
    ∃ value, Literal.Spells value (Text.trimChars text.toList) ∧ (value.toBinary .single).isFinite = true
  method : ∀ text, request.method = some text → text = "SCAN" ∨ text = "MONITOR"

def item (request : PlainRequest) (pv : String) : ArchiveSpec where
  pv
  period := (nonEmpty request.period).map .text
  method := request.method
  controllingPv := nonEmpty request.controllingPv
  policy := nonEmpty request.policy
  aliasName := none

theorem seconds_text_eq_ok_iff {written : String} {value : Single} :
    RawPeriod.seconds (.text written) = .ok value ↔
      Binary.read .single (Text.trim written) = .ok value ∧ value.isFinite = true := by
  cases read : Binary.read .single (Text.trim written) with
  | error e => simp [RawPeriod.seconds_of_unread read]
  | ok found =>
    rw [RawPeriod.seconds_text read]
    rcases RawPeriod.checked_cases found with ⟨accepted, finite⟩ | ⟨refused, infinite⟩
    · simp only [accepted, Except.ok.injEq]
      exact ⟨fun same => ⟨same, same ▸ finite⟩, And.left⟩
    · simp only [refused, reduceCtorEq, Except.ok.injEq, false_iff, not_and]
      rintro rfl
      simp [infinite]

theorem exists_seconds_text_iff {written : String} :
    (∃ value, RawPeriod.seconds (.text written) = .ok value) ↔
      ∃ value, Literal.Spells value (Text.trimChars written.toList) ∧
        (value.toBinary .single).isFinite = true := by
  simp only [seconds_text_eq_ok_iff, Binary.exists_read_isFinite_iff, Text.trim, String.toList_ofList]

theorem sharedPeriod_eq_ok_iff {period : Option RawPeriod} :
    request.sharedPeriod = .ok period ↔ period = (nonEmpty request.period).map .text ∧
      ∀ text, nonEmpty request.period = some text → ∃ value, RawPeriod.seconds (.text text) = .ok value := by
  unfold sharedPeriod
  cases nonEmpty request.period with
  | none => simp [eq_comm]
  | some text =>
    cases read : RawPeriod.seconds (.text text) with
    | error e => simp [read, Except.map]
    | ok value => simp [read, Except.map, eq_comm]

theorem sharedMethod_eq_ok_iff {method : Option String} :
    request.sharedMethod = .ok method ↔ method = request.method ∧
      ∀ text, request.method = some text → text = "SCAN" ∨ text = "MONITOR" := by
  unfold sharedMethod
  cases request.method with
  | none => simp [eq_comm]
  | some text =>
    simp only [SamplingMethod.ofName, Option.some.injEq, forall_eq']
    split
    next scan => simp [scan, Except.map, SamplingMethod.name, eq_comm]
    next notScan =>
      split
      next monitor => simp [monitor, Except.map, SamplingMethod.name, eq_comm]
      next notMonitor => simp [notScan, notMonitor, Except.map]

theorem hasUsableParameters_iff :
    request.HasUsableParameters ↔
      (∃ period, request.sharedPeriod = .ok period) ∧ ∃ method, request.sharedMethod = .ok method := by
  simp only [sharedPeriod_eq_ok_iff, sharedMethod_eq_ok_iff, exists_eq_left,
    exists_seconds_text_iff]
  constructor
  · rintro ⟨period, method⟩
    refine ⟨fun text given => ?_, method⟩
    obtain ⟨given, nonempty⟩ := Option.filter_eq_some_iff.mp given
    exact period text given (by simpa using nonempty)
  · rintro ⟨period, method⟩
    exact ⟨fun text given nonempty => period text (Option.filter_eq_some_iff.mpr ⟨given, by simpa⟩), method⟩

/-- A request is accepted together with all of its items. -/
theorem specs_eq_ok_iff {specs : List ArchiveSpec} :
    request.specs = .ok specs ↔ request.HasUsableParameters ∧
      ∃ list, request.pv = some list ∧ entries list ≠ [] ∧ specs = (entries list).map request.item := by
  rw [hasUsableParameters_iff]
  unfold PlainRequest.specs
  cases named : request.pv with
  | none => simp [throw, throwThe, MonadExceptOf.throw]
  | some list =>
    cases shared : request.sharedPeriod with
    | error e => simp [bind, Except.bind]
    | ok period =>
      cases asked : request.sharedMethod with
      | error e => simp [bind, Except.bind]
      | ok method =>
        obtain ⟨rfl, -⟩ := sharedPeriod_eq_ok_iff.mp shared
        obtain ⟨rfl, -⟩ := sharedMethod_eq_ok_iff.mp asked
        by_cases blank : entries list = []
        · simp [blank, bind, Except.bind, throw, throwThe, MonadExceptOf.throw]
        · have accepted : (entries list).isEmpty = false := by simpa using blank
          simp only [accepted, bind, Except.bind, pure, Except.pure, Bool.false_eq_true, if_false,
            Except.ok.injEq, Option.some.injEq, exists_eq_left', exists_eq', blank, ne_eq, not_false_eq_true,
            true_and]
          exact eq_comm

/-- A plain request is accepted exactly if its list has an entry that is not blank, its period is absent,
empty or a finite number, and its method is absent or spelled exactly. Then every list of names, however it
is padded and separated, gives one item for each name, in order and with the shared parameters; and every
request that is accepted is such a list. -/
theorem plain_requests_follow_their_grammar :
    (∀ request : PlainRequest, (∃ specs, request.specs = .ok specs) ↔
      request.HasUsableParameters ∧ ∃ list, request.pv = some list ∧ HasEntry list.toList) ∧
    (∀ (request : PlainRequest) (names : List String) (list : String), request.HasUsableParameters →
      names ≠ [] → request.pv = some list → SpellsList names list.toList →
      request.specs = .ok (names.map request.item)) ∧
    ∀ (request : PlainRequest) (specs : List ArchiveSpec), request.specs = .ok specs →
      ∃ names list, names ≠ [] ∧ request.pv = some list ∧ SpellsList names list.toList ∧
        specs = names.map request.item := by
  have listed (list : String) : HasEntry list.toList ↔ entries list ≠ [] :=
    (entries_eq_iff.mp rfl).hasEntry_iff
  refine ⟨fun request => ?_, ?_, ?_⟩
  · simp only [specs_eq_ok_iff, listed]
    constructor
    · rintro ⟨specs, usable, list, named, nonempty, -⟩
      exact ⟨usable, list, named, nonempty⟩
    · rintro ⟨usable, list, named, nonempty⟩
      exact ⟨_, usable, list, named, nonempty, rfl⟩
  · intro request names list usable nonempty named spelled
    obtain rfl := entries_eq_iff.mpr spelled
    exact specs_eq_ok_iff.mpr ⟨usable, list, named, nonempty, rfl⟩
  · intro request specs accepted
    obtain ⟨-, list, named, nonempty, rfl⟩ := specs_eq_ok_iff.mp accepted
    exact ⟨entries list, list, nonempty, named, entries_eq_iff.mp rfl, rfl⟩

/-- Two names, one with a blank in it, between separators of both kinds, blank entries and wide spaces. -/
theorem plain_requests_follow_their_grammar_of_padded_list :
    let list := " ,　A	,
, B C
"
    let request : PlainRequest :=
      { pv := some list, period := some " 25E-1 ", method := some "SCAN", controllingPv := some "" }
    let item (pv : String) : ArchiveSpec := { pv, period := some (.text " 25E-1 "), method := some "SCAN" }
    SpellsList ["A", "B C"] list.toList ∧ request.HasUsableParameters ∧
      request.specs = .ok [item "A", item "B C"] := by
  intro list request item
  have spelled : SpellsList ["A", "B C"] list.toList := entries_eq_iff.mp (by decide +kernel)
  have number : Literal.Spells ⟨false, 25, -1⟩ (Text.trimChars " 25E-1 ".toList) :=
    Literal.ofChars?_eq_decimal_iff.mp (by decide +kernel)
  have usable : request.HasUsableParameters := by
    refine ⟨?_, ?_⟩
    · rintro text ⟨⟩ -
      exact ⟨_, number, by decide +kernel⟩
    · rintro text ⟨⟩
      exact .inl rfl
  exact ⟨spelled, usable, plain_requests_follow_their_grammar.2.1 request _ list usable (by simp) rfl spelled⟩

end PlainRequest
end ArchiveIntake
