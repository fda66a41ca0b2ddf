import ArchiveIntake.Json.Decode

/-! The texts of JSON. A grammar says how a value may be written, with space between its tokens, with
characters of a string escaped or not, and with any order of members. Whatever is written so is read as
that value. The reading goes in two steps: the text has certain tokens, whatever comes after it, and these
tokens build the value, wherever it stands. -/

namespace ArchiveIntake.Json

def IsSpace (text : List Char) : Prop := ∀ c ∈ text, c ∈ [' ', '\n', '\t', '\r']

def shortEscapes : List (Char × Char) :=
  [('"', '"'), ('\\', '\\'), ('/', '/'), ('b', '\x08'), ('f', '\x0C'), ('n', '\n'), ('r', '\r'),
    ('t', '\t')]

/-- How a piece of a string is written: as it is, with a short escape, or as a code of four digits. -/
inductive SpellsPiece : Piece → List Char → Prop
  | plain (c : Char) (visible : 0x20 ≤ c.toNat) (unquoted : c ≠ '"') (unescaped : c ≠ '\\') :
      SpellsPiece (.char c) [c]
  | short (letter c : Char) (listed : (letter, c) ∈ shortEscapes) : SpellsPiece (.char c) ['\\', letter]
  | code (first second third last : Char) (a b c d : Nat) (readFirst : Text.hexValue? first = some a)
      (readSecond : Text.hexValue? second = some b) (readThird : Text.hexValue? third = some c)
      (readLast : Text.hexValue? last = some d) :
      SpellsPiece (.unit (((a * 16 + b) * 16 + c) * 16 + d)) ['\\', 'u', first, second, third, last]

inductive SpellsPieces : List Piece → List Char → Prop
  | nil : SpellsPieces [] []
  | cons (piece : Piece) (pieces : List Piece) (text rest : List Char) (spelled : SpellsPiece piece text)
      (others : SpellsPieces pieces rest) : SpellsPieces (piece :: pieces) (text ++ rest)

def AreDigits (digits : List Nat) : Prop := ∀ digit ∈ digits, digit < 10

def digitText (digits : List Nat) : List Char := digits.map Nat.digitChar

/-- A whole part has no zero in front. -/
inductive SpellsWhole : List Nat → List Char → Prop
  | zero : SpellsWhole [0] ['0']
  | other (first : Nat) (rest : List Nat) (nonzero : first ≠ 0) (digits : AreDigits (first :: rest)) :
      SpellsWhole (first :: rest) (digitText (first :: rest))

inductive SpellsFraction : List Nat → List Char → Prop
  | none : SpellsFraction [] []
  | some (first : Nat) (rest : List Nat) (digits : AreDigits (first :: rest)) :
      SpellsFraction (first :: rest) ('.' :: digitText (first :: rest))

inductive SpellsExponent : Option (Bool × List Nat) → List Char → Prop
  | none : SpellsExponent none []
  | some (mark : Char) (sign : List Char) (negative : Bool) (first : Nat) (rest : List Nat)
      (marked : mark ∈ ['e', 'E'])
      (signed : (sign, negative) ∈ [([], false), (['+'], false), (['-'], true)])
      (digits : AreDigits (first :: rest)) :
      SpellsExponent (some (negative, first :: rest)) (mark :: sign ++ digitText (first :: rest))

inductive SpellsNumber : NumberText → List Char → Prop
  | intro (sign : List Char) (negative : Bool) (whole fraction : List Nat)
      (exponent : Option (Bool × List Nat)) (wholeText fractionText exponentText : List Char)
      (signed : (sign, negative) ∈ [([], false), (['-'], true)]) (spelledWhole : SpellsWhole whole wholeText)
      (spelledFraction : SpellsFraction fraction fractionText)
      (spelledExponent : SpellsExponent exponent exponentText) :
      SpellsNumber ⟨negative, whole, fraction, exponent⟩ (sign ++ wholeText ++ fractionText ++ exponentText)

/-- What a stretch of text holds: a value, the text of a string, a member, or all that stands between the
brackets of a list or an object. -/
inductive Phrase where
  | value (node : Node)
  | text (content : Option String)
  | member (key : Option String) (node : Node)
  | items (items : List Node)
  | members (members : List (Option String × Node))

/-- How a phrase is written. Space may stand around any of them. -/
inductive Spells : Phrase → List Char → Prop
  | padded (phrase : Phrase) (before text after : List Char) (leading : IsSpace before)
      (inside : Spells phrase text) (trailing : IsSpace after) : Spells phrase (before ++ text ++ after)
  | null : Spells (.value .null) "null".toList
  | bool (value : Bool) : Spells (.value (.bool value)) (if value then "true" else "false").toList
  | number (number : NumberText) (text : List Char) (spelled : SpellsNumber number text) :
      Spells (.value (.number number)) text
  | text (pieces : List Piece) (text : List Char) (spelled : SpellsPieces pieces text) :
      Spells (.text ((Piece.text? pieces).map String.ofList)) ('"' :: text ++ ['"'])
  | string (content : Option String) (text : List Char) (inside : Spells (.text content) text) :
      Spells (.value (.string content)) text
  | array (items : List Node) (text : List Char) (inside : Spells (.items items) text) :
      Spells (.value (.array items)) ('[' :: text ++ [']'])
  | object (members : List (Option String × Node)) (text : List Char)
      (inside : Spells (.members members) text) :
      Spells (.value (.object members)) ('\x7b' :: text ++ ['\x7d'])
  | noItems : Spells (.items []) []
  | lastItem (item : Node) (text : List Char) (inside : Spells (.value item) text) :
      Spells (.items [item]) text
  | item (item next : Node) (rest : List Node) (text others : List Char)
      (inside : Spells (.value item) text) (more : Spells (.items (next :: rest)) others) :
      Spells (.items (item :: next :: rest)) (text ++ ',' :: others)
  | member (key : Option String) (node : Node) (name text : List Char) (named : Spells (.text key) name)
      (inside : Spells (.value node) text) : Spells (.member key node) (name ++ ':' :: text)
  | noMembers : Spells (.members []) []
  | lastMember (key : Option String) (node : Node) (text : List Char)
      (inside : Spells (.member key node) text) : Spells (.members [(key, node)]) text
  | moreMembers (key : Option String) (node : Node) (next : Option String × Node)
      (rest : List (Option String × Node)) (text others : List Char)
      (inside : Spells (.member key node) text) (more : Spells (.members (next :: rest)) others) :
      Spells (.members ((key, node) :: next :: rest)) (text ++ ',' :: others)

/-! The tokens of a text. -/

/-- The end of a text, or a character that can only stand after a number. -/
def Closes : List (Option Char) → Prop
  | [] => True
  | c :: _ => c ∈ [' ', '\n', '\t', '\r', ',', ':', ']', '\x7d'].map some

/-- A text has certain tokens, whatever comes after it that does not go on with a number. -/
def Lexes (text : List Char) (tokens : List Token) : Prop :=
  ∀ rest, Closes rest → Mode.between.run (text.map some ++ rest) = tokens ++ Mode.between.run rest

theorem run_space {space : List Char} (blank : IsSpace space) (rest : List (Option Char)) :
    Mode.between.run (space.map some ++ rest) = Mode.between.run rest := by
  induction space with
  | nil => rfl
  | cons c space ih =>
    obtain ⟨first, others⟩ := List.forall_mem_cons.mp blank
    have skipped : Mode.start c = ([], .between) := by
      simp only [List.mem_cons, List.not_mem_nil, or_false] at first
      rcases first with rfl | rfl | rfl | rfl <;> rfl
    simp only [List.map_cons, List.cons_append, Mode.run, Mode.advance, skipped, List.nil_append]
    exact ih others

theorem closes_space {space : List Char} (blank : IsSpace space) {rest : List (Option Char)}
    (closes : Closes rest) : Closes (space.map some ++ rest) := by
  cases space with
  | nil => exact closes
  | cons c space =>
    have first := blank c (by simp)
    simp only [List.mem_cons, List.not_mem_nil, or_false] at first
    rcases first with rfl | rfl | rfl | rfl <;> simp [Closes]

namespace Lexes
variable {text others : List Char} {tokens more : List Token}

theorem padded {before after : List Char} (leading : IsSpace before) (lexes : Lexes text tokens)
    (trailing : IsSpace after) : Lexes (before ++ text ++ after) tokens := by
  intro rest closes
  simp only [List.map_append, List.append_assoc]
  rw [run_space leading, lexes _ (closes_space trailing closes), run_space trailing]

theorem joined {mark : Char} {token : Token} (lexes : Lexes text tokens)
    (closes : Closes [some mark]) (read : Mode.start mark = ([token], .between))
    (lexesOthers : Lexes others more) : Lexes (text ++ mark :: others) (tokens ++ token :: more) := by
  intro rest closed
  have after : Closes (some mark :: (others.map some ++ rest)) := closes
  simp only [List.map_append, List.map_cons, List.append_assoc, List.cons_append]
  rw [lexes _ after]
  simp only [Mode.run, Mode.advance, read, List.cons_append, List.nil_append]
  rw [lexesOthers rest closed]

theorem enclosed {first last : Char} {opening closing : Token} (lexes : Lexes text tokens)
    (opens : Mode.start first = ([opening], .between)) (closes : Closes [some last])
    (ends : Mode.start last = ([closing], .between)) :
    Lexes (first :: text ++ [last]) (opening :: tokens ++ [closing]) := by
  intro rest _
  have after : Closes (some last :: rest) := closes
  simp only [List.map_append, List.map_cons, List.map_nil, List.append_assoc, List.cons_append,
    List.nil_append, Mode.run, Mode.advance, opens]
  rw [lexes _ after]
  simp only [Mode.run, Mode.advance, ends, List.cons_append, List.nil_append]

end Lexes

/-! The token of a string. -/

theorem run_piece {piece : Piece} {text : List Char} (spelled : SpellsPiece piece text)
    (held : List Piece) (rest : List (Option Char)) :
    (Mode.string held).run (text.map some ++ rest) = (Mode.string (piece :: held)).run rest := by
  cases spelled with
  | plain c visible unquoted unescaped =>
    have shown : ¬c.toNat < 0x20 := Nat.not_lt.mpr visible
    simp [Mode.run, Mode.advance, unquoted, unescaped, shown]
  | short letter c listed =>
    simp only [shortEscapes, List.mem_cons, Prod.mk.injEq, List.not_mem_nil, or_false] at listed
    rcases listed with ⟨rfl, rfl⟩ | ⟨rfl, rfl⟩ | ⟨rfl, rfl⟩ | ⟨rfl, rfl⟩ | ⟨rfl, rfl⟩ | ⟨rfl, rfl⟩ |
      ⟨rfl, rfl⟩ | ⟨rfl, rfl⟩ <;> rfl
  | code first second third last a b c d readFirst readSecond readThird readLast =>
    simp [Mode.run, Mode.advance, readFirst, readSecond, readThird, readLast]

theorem run_pieces {pieces : List Piece} {text : List Char} (spelled : SpellsPieces pieces text)
    (held : List Piece) (rest : List (Option Char)) :
    (Mode.string held).run (text.map some ++ rest) = (Mode.string (pieces.reverse ++ held)).run rest := by
  induction spelled generalizing held with
  | nil => rfl
  | cons piece pieces text others spelled _ ih =>
    rw [List.map_append, List.append_assoc, run_piece spelled, ih, List.reverse_cons, List.append_assoc]
    rfl

theorem lexes_text {pieces : List Piece} {text : List Char} (spelled : SpellsPieces pieces text) :
    Lexes ('"' :: text ++ ['"']) [.string ((Piece.text? pieces).map String.ofList)] := by
  intro rest _
  have inside := run_pieces spelled [] (some '"' :: rest)
  have opened : Mode.start '"' = ([], .string []) := rfl
  simp only [List.map_append, List.map_cons, List.map_nil, List.append_assoc, List.cons_append,
    List.nil_append, Mode.run, Mode.advance, opened]
  rw [inside]
  simp [Mode.run, Mode.advance]

/-! The token of a number. Its parts lead the reader from phase to phase. -/

theorem digitValue?_digitChar : ∀ digit < 10, Text.digitValue? (Nat.digitChar digit) = some digit := by
  decide

def NumberPhase.Takes (phase : NumberPhase) (push : NumberText → Nat → NumberText) : Prop :=
  ∀ n c digit, Text.digitValue? c = some digit → phase.step n c = .more phase (push n digit)

theorem NumberPhase.takes_whole : NumberPhase.whole.Takes NumberText.pushWhole :=
  fun _ _ _ read => by simp only [step, read]

theorem NumberPhase.takes_fraction : NumberPhase.fraction.Takes NumberText.pushFraction :=
  fun _ _ _ read => by simp only [step, read]

theorem NumberPhase.takes_exponent : NumberPhase.exponent.Takes NumberText.pushExponent :=
  fun _ _ _ read => by simp only [step, read]

section Digits
variable {before phase : NumberPhase} {push : NumberText → Nat → NumberText} {first : Nat}
  {digits : List Nat} {n begun : NumberText}

theorem run_digits (takes : phase.Takes push) (areDigits : AreDigits digits) (n : NumberText)
    (rest : List (Option Char)) :
    (Mode.number phase n).run ((digitText digits).map some ++ rest) =
      (Mode.number phase (digits.foldl push n)).run rest := by
  induction digits generalizing n with
  | nil => rfl
  | cons digit digits ih =>
    obtain ⟨first, others⟩ := List.forall_mem_cons.mp areDigits
    have step := takes n _ digit (digitValue?_digitChar digit first)
    have continued := ih others (push n digit)
    simpa [digitText, Mode.run, Mode.advance, step] using continued

theorem run_part (begins : before.step n (Nat.digitChar first) = .more phase begun)
    (takes : phase.Takes push) (areDigits : AreDigits (first :: digits)) (rest : List (Option Char)) :
    (Mode.number before n).run ((digitText (first :: digits)).map some ++ rest) =
      (Mode.number phase (digits.foldl push begun)).run rest := by
  obtain ⟨-, others⟩ := List.forall_mem_cons.mp areDigits
  have continued := run_digits takes others begun rest
  simpa [digitText, Mode.run, Mode.advance, begins] using continued

end Digits

section Pushes
variable (n : NumberText) (negative : Bool) (digits : List Nat)

theorem foldl_pushWhole :
    digits.foldl NumberText.pushWhole n = { n with whole := n.whole ++ digits } := by
  induction digits generalizing n with
  | nil => simp
  | cons digit digits ih => simp [ih, NumberText.pushWhole]

theorem foldl_pushFraction :
    digits.foldl NumberText.pushFraction n = { n with fraction := n.fraction ++ digits } := by
  induction digits generalizing n with
  | nil => simp
  | cons digit digits ih => simp [ih, NumberText.pushFraction]

theorem foldl_pushExponent (before : List Nat) (held : n.exponent = some (negative, before)) :
    digits.foldl NumberText.pushExponent n = { n with exponent := some (negative, before ++ digits) } := by
  induction digits generalizing n before with
  | nil => simp [← held]
  | cons digit digits ih =>
    have pushed : (n.pushExponent digit).exponent = some (negative, before ++ [digit]) := by
      simp [NumberText.pushExponent, held]
    rw [List.foldl_cons, ih _ _ pushed]
    simp [NumberText.pushExponent]

end Pushes

theorem run_digit {digit : Nat} (small : digit < 10) (rest : List (Option Char)) :
    Mode.between.run (some (Nat.digitChar digit) :: rest) =
      (Mode.number .sign ⟨false, [], [], none⟩).run (some (Nat.digitChar digit) :: rest) := by
  have cases : digit = 0 ∨ digit = 1 ∨ digit = 2 ∨ digit = 3 ∨ digit = 4 ∨ digit = 5 ∨ digit = 6 ∨
      digit = 7 ∨ digit = 8 ∨ digit = 9 := by
    omega
  rcases cases with rfl | rfl | rfl | rfl | rfl | rfl | rfl | rfl | rfl | rfl <;> rfl

theorem run_whole {whole : List Nat} {text : List Char} (spelled : SpellsWhole whole text) :
    ∃ phase ∈ [NumberPhase.zero, .whole], ∀ negative rest,
      (Mode.number .sign ⟨negative, [], [], none⟩).run (text.map some ++ rest) =
        (Mode.number phase ⟨negative, whole, [], none⟩).run rest := by
  cases spelled with
  | zero => exact ⟨.zero, by simp, fun _ _ => rfl⟩
  | other first others nonzero digits =>
    refine ⟨.whole, by simp, fun negative rest => ?_⟩
    have begins : NumberPhase.step .sign ⟨negative, [], [], none⟩ (Nat.digitChar first) =
        .more .whole ⟨negative, [first], [], none⟩ := by
      simp only [NumberPhase.step, digitValue?_digitChar first (digits first (by simp)), if_neg nonzero]
      rfl
    rw [run_part begins NumberPhase.takes_whole digits, foldl_pushWhole]
    rfl

theorem run_fraction {fraction : List Nat} {text : List Char} (spelled : SpellsFraction fraction text)
    {phase : NumberPhase} (before : phase ∈ [NumberPhase.zero, .whole]) (negative : Bool)
    (whole : List Nat) :
    ∃ later ∈ [NumberPhase.fraction, .zero, .whole], ∀ rest,
      (Mode.number phase ⟨negative, whole, [], none⟩).run (text.map some ++ rest) =
        (Mode.number later ⟨negative, whole, fraction, none⟩).run rest := by
  cases spelled with
  | none => exact ⟨phase, List.mem_cons_of_mem _ before, fun _ => rfl⟩
  | some first others digits =>
    refine ⟨.fraction, by simp, fun rest => ?_⟩
    have point : phase.step ⟨negative, whole, [], none⟩ '.' = .more .point ⟨negative, whole, [], none⟩ := by
      simp only [List.mem_cons, List.not_mem_nil, or_false] at before
      rcases before with rfl | rfl <;> rfl
    have begins : NumberPhase.step .point ⟨negative, whole, [], none⟩ (Nat.digitChar first) =
        .more .fraction ⟨negative, whole, [first], none⟩ := by
      simp only [NumberPhase.step, digitValue?_digitChar first (digits first (by simp))]
      rfl
    have continued := run_part begins NumberPhase.takes_fraction digits rest
    rw [foldl_pushFraction] at continued
    simpa [Mode.run, Mode.advance, point] using continued

theorem run_mark {phase : NumberPhase} (before : phase ∈ [NumberPhase.fraction, .zero, .whole])
    {mark : Char} (marked : mark ∈ ['e', 'E']) {sign : List Char} {below : Bool}
    (signed : (sign, below) ∈ [([], false), (['+'], false), (['-'], true)]) (n : NumberText) :
    ∃ later ∈ [NumberPhase.exponentMark, .exponentSign], ∀ rest,
      (Mode.number phase n).run ((mark :: sign).map some ++ rest) =
        (Mode.number later (n.startExponent below)).run rest := by
  have step : phase.step n mark = .more .exponentMark (n.startExponent false) := by
    simp only [List.mem_cons, List.not_mem_nil, or_false] at before marked
    rcases before with rfl | rfl | rfl <;> rcases marked with rfl | rfl <;> rfl
  simp only [List.mem_cons, Prod.mk.injEq, List.not_mem_nil, or_false] at signed
  rcases signed with ⟨rfl, rfl⟩ | ⟨rfl, rfl⟩ | ⟨rfl, rfl⟩
  · exact ⟨.exponentMark, by simp, fun rest => by simp [Mode.run, Mode.advance, step]⟩
  · refine ⟨.exponentSign, by simp, fun rest => ?_⟩
    have plus : NumberPhase.step .exponentMark (n.startExponent false) '+' =
        .more .exponentSign (n.startExponent false) := rfl
    simp [Mode.run, Mode.advance, step, plus]
  · refine ⟨.exponentSign, by simp, fun rest => ?_⟩
    have minus : NumberPhase.step .exponentMark (n.startExponent false) '-' =
        .more .exponentSign (n.startExponent true) := rfl
    simp [Mode.run, Mode.advance, step, minus]

theorem run_exponent {exponent : Option (Bool × List Nat)} {text : List Char}
    (spelled : SpellsExponent exponent text) {phase : NumberPhase}
    (before : phase ∈ [NumberPhase.fraction, .zero, .whole]) (negative : Bool)
    (whole fraction : List Nat) :
    ∃ later ∈ [NumberPhase.exponent, .fraction, .zero, .whole], ∀ rest,
      (Mode.number phase ⟨negative, whole, fraction, none⟩).run (text.map some ++ rest) =
        (Mode.number later ⟨negative, whole, fraction, exponent⟩).run rest := by
  cases spelled with
  | none => exact ⟨phase, List.mem_cons_of_mem _ before, fun _ => rfl⟩
  | some mark sign below first others marked signed digits =>
    refine ⟨.exponent, by simp, fun rest => ?_⟩
    let n : NumberText := ⟨negative, whole, fraction, none⟩
    obtain ⟨middle, within, begun⟩ := run_mark before marked signed n
    have begins : middle.step (n.startExponent below) (Nat.digitChar first) =
        .more .exponent ((n.startExponent below).pushExponent first) := by
      have small := digits first (by simp)
      simp only [List.mem_cons, List.not_mem_nil, or_false] at within
      rcases within with rfl | rfl <;> simp only [NumberPhase.step, digitValue?_digitChar first small]
    rw [List.map_append, List.append_assoc, begun, run_part begins NumberPhase.takes_exponent digits,
      foldl_pushExponent _ below _ [first] rfl]
    rfl

/-- After a complete number the reader goes on as it would between tokens. -/
theorem run_end {phase : NumberPhase}
    (complete : phase ∈ [NumberPhase.exponent, .fraction, .zero, .whole]) (n : NumberText)
    {rest : List (Option Char)} (closes : Closes rest) :
    (Mode.number phase n).run rest = .number n :: Mode.between.run rest := by
  simp only [List.mem_cons, List.not_mem_nil, or_false] at complete
  cases rest with
  | nil => rcases complete with rfl | rfl | rfl | rfl <;> rfl
  | cons c rest =>
    have ended : ∃ d, c = some d ∧ phase.step n d = .ends := by
      simp only [Closes, List.map_cons, List.map_nil, List.mem_cons, List.not_mem_nil, or_false] at closes
      rcases closes with rfl | rfl | rfl | rfl | rfl | rfl | rfl | rfl <;>
        rcases complete with rfl | rfl | rfl | rfl <;> exact ⟨_, rfl, rfl⟩
    obtain ⟨d, rfl, step⟩ := ended
    simp [Mode.run, Mode.advance, step]

theorem run_sign {sign : List Char} {negative : Bool}
    (signed : (sign, negative) ∈ [([], false), (['-'], true)]) {whole : List Nat} {text : List Char}
    (spelled : SpellsWhole whole text) (rest : List (Option Char)) :
    Mode.between.run ((sign ++ text).map some ++ rest) =
      (Mode.number .sign ⟨negative, [], [], none⟩).run (text.map some ++ rest) := by
  simp only [List.mem_cons, Prod.mk.injEq, List.not_mem_nil, or_false] at signed
  rcases signed with ⟨rfl, rfl⟩ | ⟨rfl, rfl⟩
  · cases spelled with
    | zero => exact run_digit (show 0 < 10 by decide) rest
    | other first others _ digits => exact run_digit (digits first (by simp)) _
  · rfl

theorem lexes_number {number : NumberText} {text : List Char} (spelled : SpellsNumber number text) :
    Lexes text [.number number] := by
  intro rest closes
  obtain ⟨sign, negative, whole, fraction, exponent, _, _, _, signed, wholePart, fractionPart,
    exponentPart⟩ := spelled
  obtain ⟨first, begun, readWhole⟩ := run_whole wholePart
  obtain ⟨second, inside, readFraction⟩ := run_fraction fractionPart begun negative whole
  obtain ⟨third, complete, readExponent⟩ := run_exponent exponentPart inside negative whole fraction
  rw [List.map_append, List.append_assoc, List.map_append, List.append_assoc, run_sign signed wholePart,
    readWhole, readFraction, readExponent, run_end complete _ closes]
  rfl

/-! The value that tokens build. -/

/-- What the tokens of a phrase do to the containers that are open. Those of the content of a container
do it together with its closing bracket, because a container may have no content. -/
def Builds : Phrase → List Token → Prop
  | .value node, tokens => ∀ frames,
      tokens.foldl ReadState.step (.reading .value frames) = .complete node frames ∧
        tokens.foldl ReadState.step (.reading .itemOrClose frames) = .complete node frames
  | .text content, tokens => tokens = [.string content]
  | .member key node, tokens => ∀ members frames,
      let read : ReadState := .reading .separator (.object ((key, node) :: members) :: frames)
      tokens.foldl ReadState.step (.reading .key (.object members :: frames)) = read ∧
        tokens.foldl ReadState.step (.reading .keyOrClose (.object members :: frames)) = read
  | .items items, tokens => ∀ seen frames,
      let read : ReadState := .complete (.array (seen.reverse ++ items)) frames
      let closed := tokens ++ [.closeArray]
      closed.foldl ReadState.step (.reading .itemOrClose (.array seen :: frames)) = read ∧
        (items ≠ [] → closed.foldl ReadState.step (.reading .value (.array seen :: frames)) = read)
  | .members members, tokens => ∀ seen frames,
      let read : ReadState := .complete (.object (seen.reverse ++ members)) frames
      let closed := tokens ++ [.closeObject]
      closed.foldl ReadState.step (.reading .keyOrClose (.object seen :: frames)) = read ∧
        (members ≠ [] → closed.foldl ReadState.step (.reading .key (.object seen :: frames)) = read)

/-- By induction on how the phrase is written. -/
theorem Spells.reads {phrase : Phrase} {text : List Char} (spelled : Spells phrase text) :
    ∃ tokens, Lexes text tokens ∧ Builds phrase tokens := by
  induction spelled with
  | padded phrase before text after leading _ trailing ih =>
    obtain ⟨tokens, lexes, builds⟩ := ih
    exact ⟨tokens, lexes.padded leading trailing, builds⟩
  | null => exact ⟨[.null], fun _ _ => rfl, fun _ => ⟨rfl, rfl⟩⟩
  | bool value => exact ⟨[.bool value], fun _ _ => by cases value <;> rfl, fun _ => ⟨rfl, rfl⟩⟩
  | number number text spelled => exact ⟨[.number number], lexes_number spelled, fun _ => ⟨rfl, rfl⟩⟩
  | text pieces text spelled => exact ⟨_, lexes_text spelled, rfl⟩
  | string content text _ ih =>
    obtain ⟨_, lexes, rfl⟩ := ih
    exact ⟨_, lexes, fun _ => ⟨rfl, rfl⟩⟩
  | array items text _ ih =>
    obtain ⟨tokens, lexes, builds⟩ := ih
    refine ⟨_, lexes.enclosed rfl (by simp [Closes]) rfl, fun frames => ?_⟩
    exact ⟨(builds [] frames).1, (builds [] frames).1⟩
  | object members text _ ih =>
    obtain ⟨tokens, lexes, builds⟩ := ih
    refine ⟨_, lexes.enclosed rfl (by simp [Closes]) rfl, fun frames => ?_⟩
    exact ⟨(builds [] frames).1, (builds [] frames).1⟩
  | noItems =>
    refine ⟨[], fun _ _ => rfl, fun seen frames => ⟨?_, fun present => absurd rfl present⟩⟩
    rw [List.append_nil]
    rfl
  | lastItem item text _ ih =>
    obtain ⟨tokens, lexes, builds⟩ := ih
    refine ⟨tokens, lexes, fun seen frames => ?_⟩
    obtain ⟨first, second⟩ := builds (.array seen :: frames)
    simp [List.foldl_append, first, second, ReadState.complete, ReadState.step, ReadState.closeArray]
  | item item next rest text others _ _ ih more =>
    obtain ⟨tokens, lexes, builds⟩ := ih
    obtain ⟨tail, lexesTail, buildsTail⟩ := more
    refine ⟨_, lexes.joined (by simp [Closes]) rfl lexesTail, fun seen frames => ?_⟩
    obtain ⟨first, second⟩ := builds (.array seen :: frames)
    have closed := (buildsTail (item :: seen) frames).2 (by simp)
    simp only [List.append_assoc, List.cons_append, List.foldl_append, List.foldl_cons, first, second]
    simpa [ReadState.complete, ReadState.step] using closed
  | member key node name text _ _ named ih =>
    obtain ⟨_, lexesName, rfl⟩ := named
    obtain ⟨tokens, lexes, builds⟩ := ih
    refine ⟨_, lexesName.joined (by simp [Closes]) rfl lexes, fun members frames => ?_⟩
    exact ⟨(builds _).1, (builds _).1⟩
  | noMembers =>
    refine ⟨[], fun _ _ => rfl, fun seen frames => ⟨?_, fun present => absurd rfl present⟩⟩
    rw [List.append_nil]
    rfl
  | lastMember key node text _ ih =>
    obtain ⟨tokens, lexes, builds⟩ := ih
    refine ⟨tokens, lexes, fun seen frames => ?_⟩
    obtain ⟨first, second⟩ := builds seen frames
    simp [List.foldl_append, first, second, ReadState.step, ReadState.closeObject]
  | moreMembers key node next rest text others _ _ ih more =>
    obtain ⟨tokens, lexes, builds⟩ := ih
    obtain ⟨tail, lexesTail, buildsTail⟩ := more
    refine ⟨_, lexes.joined (by simp [Closes]) rfl lexesTail, fun seen frames => ?_⟩
    obtain ⟨first, second⟩ := builds seen frames
    have closed := (buildsTail ((key, node) :: seen) frames).2 (by simp)
    simp only [List.append_assoc, List.cons_append, List.foldl_append, List.foldl_cons, first, second]
    simpa [ReadState.step] using closed

theorem Spells.document {node : Node} {text : List Char} (spelled : Spells (.value node) text) :
    Document.ofChars (text.map some) = ⟨node, false⟩ := by
  obtain ⟨tokens, lexes, builds⟩ := spelled.reads
  have whole : Json.tokens (text.map some) = tokens := by
    have ended := lexes [] trivial
    simp only [List.append_nil] at ended
    simpa [Json.tokens, Mode.run, Mode.finish] using ended
  rw [Document.ofChars, whole, Document.ofTokens, (builds []).1]
  rfl

def Phrase.skippable : Phrase → Bool
  | .value node => node.skippable
  | .text _ => true
  | .member _ node => node.skippable
  | .items list => Node.skippableItems list
  | .members list => Node.skippableMembers list

theorem Spells.skippable {phrase : Phrase} {text : List Char} (spelled : Spells phrase text) :
    phrase.skippable = true := by
  induction spelled <;> simp_all [Phrase.skippable, Node.skippable, Node.skippableItems, Node.skippableMembers]

end ArchiveIntake.Json
