import ArchiveIntake.Json.Value
import ArchiveIntake.Proofs.Json.Decoding
import ArchiveIntake.Proofs.Json.Grammar

/-! Reading back what was written. The writer keeps to the grammar: it writes no space and escapes as
little as it can. So what it writes is read as what was meant. -/

namespace ArchiveIntake.Json

theorem hexValue?_hexDigit : ∀ n < 16, Text.hexValue? (hexDigit n) = some n := by decide

/-- The code of a control character is no surrogate, so it is read as that character. -/
private theorem text?_unit {c : Char} (control : c.toNat < 0x20) (rest : List Piece) :
    Piece.text? (.unit c.toNat :: rest) = (Piece.text? rest).map (c :: ·) := by
  have high : Piece.isHighSurrogate c.toNat = false := by
    simp [Piece.isHighSurrogate]; omega
  have low : Piece.isLowSurrogate c.toNat = false := by
    simp [Piece.isLowSurrogate]; omega
  rcases rest with _ | ⟨_ | _ | _, rest⟩ <;> simp [Piece.text?, high, low, Char.ofNat_toNat]

private theorem spells_escape (c : Char) :
    ∃ piece, SpellsPiece piece (escape c) ∧
      ∀ rest, Piece.text? (piece :: rest) = (Piece.text? rest).map (c :: ·) := by
  by_cases listed : c ∈ ['"', '\\', '\x08', '\x0C', '\n', '\r', '\t']
  · have short : ∃ letter, escape c = ['\\', letter] ∧ (letter, c) ∈ shortEscapes := by
      simp only [List.mem_cons, List.not_mem_nil, or_false] at listed
      rcases listed with rfl | rfl | rfl | rfl | rfl | rfl | rfl <;> exact ⟨_, rfl, by decide⟩
    obtain ⟨letter, written, escapes⟩ := short
    exact ⟨.char c, written ▸ .short letter c escapes, fun _ => rfl⟩
  · simp only [List.mem_cons, List.not_mem_nil, or_false, not_or] at listed
    obtain ⟨quote, backslash, backspace, feed, line, carriage, tab⟩ := listed
    by_cases control : c.toNat < 0x20
    · have written : escape c =
          ['\\', 'u', '0', '0', hexDigit (c.toNat / 16), hexDigit (c.toNat % 16)] := by
        simp [escape, *]
      have zero : Text.hexValue? '0' = some 0 := by decide
      have code := SpellsPiece.code '0' '0' _ _ 0 0 _ _ zero zero
        (hexValue?_hexDigit (c.toNat / 16) (by omega)) (hexValue?_hexDigit (c.toNat % 16) (by omega))
      have whole : ((0 * 16 + 0) * 16 + c.toNat / 16) * 16 + c.toNat % 16 = c.toNat := by omega
      rw [whole, ← written] at code
      exact ⟨_, code, text?_unit control⟩
    · have written : escape c = [c] := by simp [escape, *]
      exact ⟨.char c, written ▸ .plain c (Nat.not_lt.mp control) quote backslash, fun _ => rfl⟩

theorem spells_quote (text : String) : Spells (.text (some text)) (quote text.toList) := by
  have inside (cs : List Char) :
      ∃ pieces, SpellsPieces pieces (cs.flatMap escape) ∧ Piece.text? pieces = some cs := by
    induction cs with
    | nil => exact ⟨[], .nil, rfl⟩
    | cons c cs ih =>
      obtain ⟨pieces, others, read⟩ := ih
      obtain ⟨piece, spelled, first⟩ := spells_escape c
      exact ⟨piece :: pieces, .cons piece pieces _ _ spelled others, by rw [first, read]; rfl⟩
  obtain ⟨pieces, spelled, read⟩ := inside text.toList
  have quoted := Spells.text pieces _ spelled
  rwa [read, Option.map_some, String.ofList_toList] at quoted

theorem spells_string (text : String) : Spells (.value (.string (some text))) (Value.string text).render :=
  .string _ _ (spells_quote text)

theorem renderItems_eq_map (items : List Value) : Value.renderItems items = items.map Value.render := by
  induction items with
  | nil => rfl
  | cons item items ih => rw [Value.renderItems, ih, List.map_cons]

theorem renderMembers_eq_map (members : List (String × Value)) :
    Value.renderMembers members =
      members.map fun (key, value) => quote key.toList ++ ':' :: value.render := by
  induction members with
  | nil => rfl
  | cons member members ih => rw [Value.renderMembers, ih, List.map_cons]

section Containers
variable {value : α → Value} {node : α → Node}

theorem spells_array {items : List α}
    (spelled : ∀ item ∈ items, Spells (.value (node item)) (value item).render) :
    Spells (.value (.array (items.map node))) (Value.array (items.map value)).render := by
  rw [Value.render, renderItems_eq_map]
  refine .array _ _ ?_
  induction items with
  | nil => exact .noItems
  | cons item items ih =>
    obtain ⟨first, others⟩ := List.forall_mem_cons.mp spelled
    cases items with
    | nil => exact .lastItem _ _ first
    | cons next items => exact .item _ _ _ _ _ first (ih others)

theorem spells_object {key : α → String} {members : List α}
    (spelled : ∀ member ∈ members, Spells (.value (node member)) (value member).render) :
    Spells (.value (.object (members.map fun member => (some (key member), node member))))
      (Value.object (members.map fun member => (key member, value member))).render := by
  rw [Value.render, renderMembers_eq_map]
  refine .object _ _ ?_
  have named (member : α) (inside : Spells (.value (node member)) (value member).render) :
      Spells (.member (some (key member)) (node member))
        (quote (key member).toList ++ ':' :: (value member).render) :=
    .member _ _ _ _ (spells_quote (key member)) inside
  induction members with
  | nil => exact .noMembers
  | cons member members ih =>
    obtain ⟨first, others⟩ := List.forall_mem_cons.mp spelled
    cases members with
    | nil => exact .lastMember _ _ _ (named member first)
    | cons next members => exact .moreMembers _ _ _ _ _ _ (named member first) (ih others)

end Containers

theorem Spells.document_text {node : Node} {value : Value} (spelled : Spells (.value node) value.render) :
    Document.ofText value.text = ⟨node, false⟩ := by
  rw [Document.ofText, Value.text, String.toList_ofList, spelled.document]

theorem decode_strings (texts : List String) :
    (Document.ofText (Value.strings texts).text).decode (Node.asList Node.asText) = .ok texts := by
  have spelled := spells_array fun text (_ : text ∈ texts) => spells_string text
  have decoded : Node.asList Node.asText (.array (texts.map fun text => .string (some text))) = .ok texts := by
    rw [Node.asList_array_eq_ok_iff, List.forall₂_map_left_iff, List.forall₂_same]
    exact fun _ _ => rfl
  rw [Value.strings, spelled.document_text, Document.decode]
  simp only [decoded, Bool.false_eq_true, if_false]

theorem Document.decode_map (document : Document) (decode : Node → Decoded α) (f : α → β) :
    (document.decode fun node => (decode node).map f) = (document.decode decode).map f := by
  unfold Document.decode
  cases found : decode document.root with
  | error e => simp [found, Except.map]
  | ok value => cases document.trailing <;> simp [found, Except.map]

end ArchiveIntake.Json
