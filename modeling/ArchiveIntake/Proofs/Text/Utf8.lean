import ArchiveIntake.Text.Utf8

/-! Reading what was written. The bytes of a character are read one after another: the first says how
many follow and from where the next may be, and each of them brings six bits. -/

namespace ArchiveIntake.Text.Utf8

/-! The first byte of a character of two, three or four bytes, by the bits it brings. -/

theorem lead_two : ∀ bits < 32, 2 ≤ bits →
    lead (bits + 192) = ([], .inside 0x80 0xBF 0 bits) := by
  decide

theorem lead_three : ∀ bits < 16, lead (bits + 224) =
    ([], .inside (if bits = 0 then 0xA0 else 0x80) (if bits = 13 then 0x9F else 0xBF) 1 bits) := by
  decide

theorem lead_four : ∀ bits < 5, lead (bits + 240) =
    ([], .inside (if bits = 0 then 0x90 else 0x80) (if bits = 4 then 0x8F else 0xBF) 2 bits) := by
  decide

/-! How each further byte moves the reader on. -/

section Reader
variable {low high more value byte bits : Nat} {rest : List UInt8}

theorem decodeFrom_lead {next : Pending} (small : byte < 256) (read : lead byte = ([], next)) :
    decodeFrom .start (UInt8.ofNat byte :: rest) = decodeFrom next rest := by
  simp only [decodeFrom, advance, UInt8.toNat_ofNat_of_lt' small, read, List.nil_append]

theorem decodeFrom_inside (few : bits < 64) (above : low ≤ bits + 128) (below : bits + 128 ≤ high) :
    decodeFrom (.inside low high (more + 1) value) (UInt8.ofNat (bits + 128) :: rest) =
      decodeFrom (.inside 0x80 0xBF more (value * 64 + bits)) rest := by
  have small : bits + 128 < 256 := by omega
  simp only [decodeFrom, advance, UInt8.toNat_ofNat_of_lt' small, above, below, and_self, if_true,
    Nat.add_sub_cancel, List.nil_append]

theorem decodeFrom_last (few : bits < 64) (above : low ≤ bits + 128) (below : bits + 128 ≤ high) :
    decodeFrom (.inside low high 0 value) (UInt8.ofNat (bits + 128) :: rest) =
      some (Char.ofNat (value * 64 + bits)) :: decodeFrom .start rest := by
  have small : bits + 128 < 256 := by omega
  simp only [decodeFrom, advance, UInt8.toNat_ofNat_of_lt' small, above, below, and_self, if_true,
    Nat.add_sub_cancel, List.cons_append, List.nil_append]

end Reader

/-! The bytes of a character, by its size. -/

section Writer
variable {c : Char}

theorem encodeChar_one (upper : c.toNat < 0x80) :
    String.utf8EncodeChar c = [UInt8.ofNat c.toNat] :=
  if_pos (Nat.le_of_lt_succ upper)

theorem encodeChar_two (lower : 0x80 ≤ c.toNat) (upper : c.toNat < 0x800) :
    String.utf8EncodeChar c =
      [UInt8.ofNat (c.toNat / 64 + 192), UInt8.ofNat (c.toNat % 64 + 128)] := by
  refine (if_neg (Nat.not_le_of_lt lower)).trans ((if_pos (Nat.le_of_lt_succ upper)).trans ?_)
  have fits : c.toNat / 64 < 32 := by omega
  change [UInt8.ofNat (c.toNat / 64 % 32 + 192), _] = _
  rw [Nat.mod_eq_of_lt fits]
  rfl

theorem encodeChar_three (lower : 0x800 ≤ c.toNat) (upper : c.toNat < 0x10000) :
    String.utf8EncodeChar c =
      [UInt8.ofNat (c.toNat / 4096 + 224), UInt8.ofNat (c.toNat / 64 % 64 + 128),
        UInt8.ofNat (c.toNat % 64 + 128)] := by
  have past : 127 < c.toNat := by omega
  refine (if_neg (Nat.not_le_of_lt past)).trans ((if_neg (Nat.not_le_of_lt lower)).trans
    ((if_pos (Nat.le_of_lt_succ upper)).trans ?_))
  have fits : c.toNat / 4096 < 16 := by omega
  change [UInt8.ofNat (c.toNat / 4096 % 16 + 224), _, _] = _
  rw [Nat.mod_eq_of_lt fits]
  rfl

theorem encodeChar_four (lower : 0x10000 ≤ c.toNat) (upper : c.toNat < 0x110000) :
    String.utf8EncodeChar c =
      [UInt8.ofNat (c.toNat / 262144 + 240), UInt8.ofNat (c.toNat / 4096 % 64 + 128),
        UInt8.ofNat (c.toNat / 64 % 64 + 128), UInt8.ofNat (c.toNat % 64 + 128)] := by
  have past : 127 < c.toNat ∧ 2047 < c.toNat := by omega
  refine (if_neg (Nat.not_le_of_lt past.1)).trans ((if_neg (Nat.not_le_of_lt past.2)).trans
    ((if_neg (Nat.not_le_of_lt lower)).trans ?_))
  have fits : c.toNat / 262144 < 8 := by omega
  change [UInt8.ofNat (c.toNat / 262144 % 8 + 240), _, _, _] = _
  rw [Nat.mod_eq_of_lt fits]
  rfl

end Writer

/-- The bytes of a character are read as that character, whatever follows. -/
theorem decodeFrom_encodeChar (c : Char) (rest : List UInt8) :
    decodeFrom .start (String.utf8EncodeChar c ++ rest) = some c :: decodeFrom .start rest := by
  have scalar : c.toNat < 0xD800 ∨ 0xDFFF < c.toNat ∧ c.toNat < 0x110000 := c.valid
  have whole {value : Nat} (same : value = c.toNat) : some (Char.ofNat value) = some c := by
    rw [same, Char.ofNat_toNat]
  -- One case for each size. What the bytes bring adds up to the character in base 64.
  rcases Nat.lt_or_ge c.toNat 0x80 with one | more
  · rw [encodeChar_one one]
    have small : c.toNat < 256 := by omega
    simp only [List.cons_append, List.nil_append, decodeFrom, advance,
      UInt8.toNat_ofNat_of_lt' small, lead, one, if_true, whole rfl]
  rcases Nat.lt_or_ge c.toNat 0x800 with two | more
  · rw [encodeChar_two more two]
    simp only [List.cons_append, List.nil_append]
    rw [decodeFrom_lead (by omega) (lead_two _ (by omega) (by omega)),
      decodeFrom_last (by omega) (by omega) (by omega), whole (by omega)]
  rcases Nat.lt_or_ge c.toNat 0x10000 with three | more
  · rw [encodeChar_three more three]
    simp only [List.cons_append, List.nil_append]
    rw [decodeFrom_lead (by omega) (lead_three _ (by omega)),
      decodeFrom_inside (by omega) (by split <;> omega) (by split <;> omega),
      decodeFrom_last (by omega) (by omega) (by omega), whole (by omega)]
  · have four : c.toNat < 0x110000 := by omega
    rw [encodeChar_four more four]
    simp only [List.cons_append, List.nil_append]
    rw [decodeFrom_lead (by omega) (lead_four _ (by omega)),
      decodeFrom_inside (by omega) (by split <;> omega) (by split <;> omega),
      decodeFrom_inside (by omega) (by omega) (by omega),
      decodeFrom_last (by omega) (by omega) (by omega), whole (by omega)]

theorem decode_encode (cs : List Char) : decode (encode cs) = cs.map some := by
  unfold decode encode
  induction cs with
  | nil => rfl
  | cons c rest ih => rw [List.flatMap_cons, decodeFrom_encodeChar, ih, List.map_cons]

theorem lossy_encode (text : String) : lossy (encode text.toList) = text := by
  simp only [lossy, decode_encode, List.map_map, Function.comp_def, Option.getD_some, List.map_id',
    String.ofList_toList]

theorem encode_ne_nil {text : String} (nonEmpty : text ≠ "") : encode text.toList ≠ [] := by
  cases read : text.toList with
  | nil => exact absurd (String.toList_inj.mp read) nonEmpty
  | cons c rest => simp [encode, String.utf8EncodeChar_ne_nil]

end ArchiveIntake.Text.Utf8
