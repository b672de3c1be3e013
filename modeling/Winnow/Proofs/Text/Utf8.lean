import Winnow.Text.Utf8

/-!
# Reading bytes back

Reading the bytes of a text gives the text back (`decodeLossy_encode`), so different texts have
different bytes.

The bytes of a character cannot be taken for others. A byte below 0x80 is a character by itself
wherever it occurs (`eq_singleton_of_ascii_mem`), and a byte that starts a character occurs nowhere
else in one. A text whose bytes are cut before such a byte is therefore cut between two characters
(`exists_texts_of_encode_eq`).
-/

namespace Winnow.Text.Utf8

section Decoding

variable {bits value missing lead : Nat} {low high : UInt8}

/-- The byte that carries the last six bits of a value. -/
def tailByte (value : Nat) : UInt8 := UInt8.ofNat (value % 64 + 0x80)

theorem toNat_tailByte (value : Nat) : (tailByte value).toNat = value % 64 + 0x80 := by
  rw [tailByte, UInt8.toNat_ofNat']
  omega

/-- Every tail byte may follow once the second byte has been read. -/
theorem tailByte_mem_bounds (value : Nat) : 0x80 ≤ tailByte value ∧ tailByte value ≤ 0xBF := by
  simp only [UInt8.le_iff_toNat_le, toNat_tailByte, UInt8.toNat_ofNat]
  omega

/-- The last tail byte completes a character. -/
theorem decodeFrom_last (fits : low ≤ tailByte value ∧ tailByte value ≤ high)
    (rest : List UInt8) :
    decodeFrom (some ⟨bits, low, high, 0⟩) (tailByte value :: rest) =
      Char.ofNat (bits * 64 + value % 64) :: decodeFrom none rest := by
  simp [decodeFrom, Started.add, fits, toNat_tailByte]

/-- A tail byte before the last one adds its bits. -/
theorem decodeFrom_next (fits : low ≤ tailByte value ∧ tailByte value ≤ high)
    (rest : List UInt8) :
    decodeFrom (some ⟨bits, low, high, missing + 1⟩) (tailByte value :: rest) =
      decodeFrom (some ⟨bits * 64 + value % 64, 0x80, 0xBF, missing⟩) rest := by
  simp [decodeFrom, Started.add, fits, toNat_tailByte]

theorem decodeFrom_start {byte : UInt8} {started : Started}
    (starts : start byte = ([], some started)) (rest : List UInt8) :
    decodeFrom none (byte :: rest) = decodeFrom (some started) rest := by
  simp [decodeFrom, starts]

/-- The first byte of a character of one byte. -/
theorem start_single (ascii : value < 0x80) :
    start (UInt8.ofNat value) = ([Char.ofNat value], none) := by
  have read : (UInt8.ofNat value).toNat = value := by
    rw [UInt8.toNat_ofNat']
    omega
  simp only [start, UInt8.lt_iff_toNat_lt, read, UInt8.toNat_ofNat]
  exact if_pos ascii

/-- The first byte of a character of two bytes. -/
theorem start_pair (notOverlong : 2 ≤ lead) (bounded : lead < 0x20) :
    start (UInt8.ofNat (lead + 0xC0)) = ([], some ⟨lead, 0x80, 0xBF, 0⟩) := by
  have read : (UInt8.ofNat (lead + 0xC0)).toNat = lead + 0xC0 := by
    rw [UInt8.toNat_ofNat']
    omega
  simp only [start, UInt8.lt_iff_toNat_lt, read, UInt8.toNat_ofNat]
  rw [if_neg (by omega), if_neg (by omega), if_pos (by omega), Nat.add_sub_cancel]

/-- The first byte of a character of three bytes; its second byte leaves out overlong forms and
surrogates. -/
theorem start_triple (bounded : lead < 0x10) :
    start (UInt8.ofNat (lead + 0xE0)) =
      ([], some ⟨lead, if lead = 0 then 0xA0 else 0x80, if lead = 0xD then 0x9F else 0xBF, 1⟩) := by
  have read : (UInt8.ofNat (lead + 0xE0)).toNat = lead + 0xE0 := by
    rw [UInt8.toNat_ofNat']
    omega
  simp only [start, UInt8.lt_iff_toNat_lt, ← UInt8.toNat_inj, read, UInt8.toNat_ofNat]
  rw [if_neg (by omega), if_neg (by omega), if_neg (by omega)]
  by_cases least : lead = 0
  · simp [least]
  · by_cases surrogate : lead = 0xD
    · simp [surrogate]
    · rw [if_neg (by omega), if_neg (by omega), if_pos (by omega), if_neg least, if_neg surrogate,
        Nat.add_sub_cancel]

/-- The first byte of a character of four bytes; its second byte leaves out overlong forms and
values above the last code point. -/
theorem start_quadruple (bounded : lead ≤ 4) :
    start (UInt8.ofNat (lead + 0xF0)) =
      ([], some ⟨lead, if lead = 0 then 0x90 else 0x80, if lead = 4 then 0x8F else 0xBF, 2⟩) := by
  have read : (UInt8.ofNat (lead + 0xF0)).toNat = lead + 0xF0 := by
    rw [UInt8.toNat_ofNat']
    omega
  simp only [start, UInt8.lt_iff_toNat_lt, ← UInt8.toNat_inj, read, UInt8.toNat_ofNat]
  rw [if_neg (by omega), if_neg (by omega), if_neg (by omega), if_neg (by omega),
    if_neg (by omega), if_neg (by omega)]
  by_cases least : lead = 0
  · simp [least]
  · by_cases greatest : lead = 4
    · simp [greatest]
    · rw [if_neg (by omega), if_pos (by omega), if_neg least, if_neg greatest, Nat.add_sub_cancel]

/-- The second byte of a scalar value of three bytes is one that its first byte admits. -/
theorem second_of_triple (notOverlong : 0x800 ≤ value) (scalar : value < 0xD800 ∨ 0xDFFF < value) :
    (if value / 4096 = 0 then 0xA0 else 0x80 : UInt8) ≤ tailByte (value / 64) ∧
      tailByte (value / 64) ≤ (if value / 4096 = 0xD then 0x9F else 0xBF : UInt8) := by
  simp only [UInt8.le_iff_toNat_le, toNat_tailByte, apply_ite UInt8.toNat, UInt8.toNat_ofNat]
  constructor
  · split <;> omega
  · split <;> omega

/-- The second byte of a scalar value of four bytes is one that its first byte admits. -/
theorem second_of_quadruple (notOverlong : 0x10000 ≤ value) (bounded : value < 0x110000) :
    (if value / 262144 = 0 then 0x90 else 0x80 : UInt8) ≤ tailByte (value / 4096) ∧
      tailByte (value / 4096) ≤ (if value / 262144 = 4 then 0x8F else 0xBF : UInt8) := by
  simp only [UInt8.le_iff_toNat_le, toNat_tailByte, apply_ite UInt8.toNat, UInt8.toNat_ofNat]
  constructor
  · split <;> omega
  · split <;> omega

/-- The bytes of a character are read as the character, whatever follows them. -/
theorem decodeFrom_utf8EncodeChar (c : Char) (rest : List UInt8) :
    decodeFrom none (String.utf8EncodeChar c ++ rest) = c :: decodeFrom none rest := by
  have scalar : c.toNat < 0xD800 ∨ 0xDFFF < c.toNat ∧ c.toNat < 0x110000 := c.valid
  have back : Char.ofNat c.toNat = c := Char.ofNat_toNat c
  generalize named : c.toNat = value at scalar back
  fun_cases String.utf8EncodeChar c with
  | case1 v small =>
      obtain rfl : v = value := named
      simp [decodeFrom, start_single (Nat.lt_succ_of_le small), back]
  | case2 v large small =>
      obtain rfl : v = value := named
      change decodeFrom none (_ :: tailByte v :: rest) = _
      rw [Nat.mod_eq_of_lt (by omega), decodeFrom_start (start_pair (by omega) (by omega)),
        decodeFrom_last (tailByte_mem_bounds v), Nat.div_add_mod', back]
  | case3 v _ large small =>
      obtain rfl : v = value := named
      have joined : (v / 4096 * 64 + v / 64 % 64) * 64 + v % 64 = v := by omega
      change decodeFrom none (_ :: tailByte (v / 64) :: tailByte v :: rest) = _
      rw [Nat.mod_eq_of_lt (by omega), decodeFrom_start (start_triple (by omega)),
        decodeFrom_next (second_of_triple (by omega) (by omega)),
        decodeFrom_last (tailByte_mem_bounds v), joined, back]
  | case4 v _ _ large =>
      obtain rfl : v = value := named
      have joined :
          ((v / 262144 * 64 + v / 4096 % 64) * 64 + v / 64 % 64) * 64 + v % 64 = v := by omega
      change decodeFrom none
        (_ :: tailByte (v / 4096) :: tailByte (v / 64) :: tailByte v :: rest) = _
      rw [Nat.mod_eq_of_lt (by omega), decodeFrom_start (start_quadruple (by omega)),
        decodeFrom_next (second_of_quadruple (by omega) (by omega)),
        decodeFrom_next (tailByte_mem_bounds _), decodeFrom_last (tailByte_mem_bounds v), joined,
        back]

end Decoding

/-- A text is read from its bytes, whatever follows them. -/
theorem decodeFrom_encode_append (text : String) (rest : List UInt8) :
    decodeFrom none (encode text ++ rest) = text.toList ++ decodeFrom none rest := by
  rw [encode]
  induction text.toList with
  | nil => rfl
  | cons c chars inductionHypothesis =>
      rw [List.flatMap_cons, List.append_assoc, decodeFrom_utf8EncodeChar, inductionHypothesis,
        List.cons_append]

/-- The bytes of a text are read as the text. -/
@[simp]
theorem decodeLossy_encode (text : String) : decodeLossy (encode text) = text := by
  have read := decodeFrom_encode_append text []
  rw [List.append_nil] at read
  rw [decodeLossy, read, decodeFrom, List.append_nil, String.ofList_toList]

/-- Texts with the same bytes are equal. -/
theorem encode_injective {left right : String} (same : encode left = encode right) :
    left = right := by
  rw [← decodeLossy_encode left, same, decodeLossy_encode]

@[simp]
theorem encode_append (left right : String) :
    encode (left ++ right) = encode left ++ encode right := by
  simp [encode]

/-- The bytes of a text that start like those of another one belong to a text that starts like the
other one. -/
theorem exists_text_of_encode_eq {text lead : String} {rest : List UInt8}
    (cut : encode text = encode lead ++ rest) :
    ∃ after, text = lead ++ after ∧ rest = encode after := by
  have read : text.toList = lead.toList ++ decodeFrom none rest := by
    have whole := decodeFrom_encode_append text []
    rw [List.append_nil, cut, decodeFrom_encode_append, decodeFrom, List.append_nil] at whole
    exact whole.symm
  have joined : text = lead ++ String.ofList (decodeFrom none rest) :=
    String.toList_injective (by simp [read])
  refine ⟨String.ofList (decodeFrom none rest), joined, ?_⟩
  rw [joined, encode_append] at cut
  exact (List.append_cancel_left cut).symm

/-- A character is a single byte, or none of its bytes is below 0x80. -/
theorem eq_singleton_or_le_of_mem (c : Char) :
    (∃ byte, String.utf8EncodeChar c = [byte]) ∨
      ∀ byte ∈ String.utf8EncodeChar c, 0x80 ≤ byte := by
  fun_cases String.utf8EncodeChar c with
  | case1 v small => exact Or.inl ⟨_, rfl⟩
  | case2 v large small =>
      right
      simp [UInt8.le_iff_toNat_le]
      omega
  | case3 v _ large small =>
      right
      simp [UInt8.le_iff_toNat_le]
      omega
  | case4 v _ _ large =>
      right
      simp [UInt8.le_iff_toNat_le]
      omega

/-- A byte below 0x80 is a character by itself wherever it occurs. -/
theorem eq_singleton_of_ascii_mem {c : Char} {byte : UInt8}
    (member : byte ∈ String.utf8EncodeChar c) (ascii : byte < 0x80) :
    String.utf8EncodeChar c = [byte] := by
  rcases eq_singleton_or_le_of_mem c with ⟨single, bytes⟩ | large
  · rw [bytes, List.mem_singleton] at member
    rw [bytes, member]
  · exact absurd (large byte member) (UInt8.not_le.2 ascii)

/-- A character of a single byte below 0x80 is in a text when its byte is in the bytes of the
text. -/
theorem mem_encode_iff {c : Char} {byte : UInt8} {text : String}
    (single : String.utf8EncodeChar c = [byte]) (ascii : byte < 0x80) :
    byte ∈ encode text ↔ c ∈ text.toList := by
  rw [encode, List.mem_flatMap]
  constructor
  · rintro ⟨other, listed, member⟩
    have same : encode (String.ofList [other]) = encode (String.ofList [c]) := by
      simp [encode, single, eq_singleton_of_ascii_mem member ascii]
    have equal : [other] = [c] := by simpa using congrArg String.toList (encode_injective same)
    rwa [← List.singleton_inj.1 equal]
  · intro listed
    exact ⟨c, listed, by simp [single]⟩

/-- Bytes that follow a whole character: there are none, or the first of them starts one. -/
def StartsCharacter (bytes : List UInt8) : Prop :=
  ∀ byte ∈ bytes.head?, byte.IsUTF8FirstByte

theorem startsCharacter_utf8EncodeChar_append (c : Char) (rest : List UInt8) :
    StartsCharacter (String.utf8EncodeChar c ++ rest) := by
  have nonempty : 0 < (String.utf8EncodeChar c).length := by
    rw [String.length_utf8EncodeChar]
    exact c.utf8Size_pos
  intro byte first
  rw [List.head?_eq_getElem?, List.getElem?_append_left nonempty,
    List.getElem?_eq_getElem nonempty] at first
  obtain rfl := Option.some.inj first
  exact UInt8.isUTF8FirstByte_getElem_zero_utf8EncodeChar

/-- A text whose bytes are cut before the first byte of a character, or at their end, is cut
between two characters. -/
theorem exists_texts_of_encode_eq {text : String} {left right : List UInt8}
    (cut : encode text = left ++ right) (starts : StartsCharacter right) :
    ∃ before after, text = before ++ after ∧ left = encode before ∧ right = encode after := by
  suffices general : ∀ (chars : List Char) (left : List UInt8),
      chars.flatMap String.utf8EncodeChar = left ++ right →
        ∃ before after, chars = before ++ after ∧ left = before.flatMap String.utf8EncodeChar ∧
          right = after.flatMap String.utf8EncodeChar by
    obtain ⟨before, after, chars, leftBytes, rightBytes⟩ := general text.toList left cut
    refine ⟨String.ofList before, String.ofList after, String.toList_injective ?_, ?_, ?_⟩
    · simpa using chars
    · simpa [encode] using leftBytes
    · simpa [encode] using rightBytes
  intro chars
  induction chars with
  | nil =>
      intro left cut
      obtain ⟨rfl, rfl⟩ := List.append_eq_nil_iff.1 cut.symm
      exact ⟨[], [], rfl, rfl, rfl⟩
  | cons c chars inductionHypothesis =>
      intro left cut
      rw [List.flatMap_cons] at cut
      rcases List.append_eq_append_iff.1 cut with ⟨more, rfl, rest⟩ | ⟨more, first, rfl⟩
      · obtain ⟨before, after, rfl, rfl, rightBytes⟩ := inductionHypothesis more rest
        exact ⟨c :: before, after, rfl, rfl, rightBytes⟩
      · -- The cut lies in the bytes of `c`, so it is at their start or at their end.
        cases left with
        | nil =>
            rw [List.nil_append] at first
            exact ⟨[], c :: chars, rfl, rfl, by rw [List.flatMap_cons, first]⟩
        | cons byte left =>
            cases more with
            | nil =>
                rw [List.append_nil] at first
                exact ⟨[c], chars, rfl, by simp [first], rfl⟩
            | cons next more =>
                have placed : (String.utf8EncodeChar c)[(byte :: left).length]? = some next := by
                  rw [first, List.getElem?_append_right (Nat.le_refl _), Nat.sub_self]
                  rfl
                obtain ⟨_, rfl⟩ := List.getElem?_eq_some_iff.1 placed
                cases UInt8.isUTF8FirstByte_getElem_utf8EncodeChar.1 (starts _ rfl)

/-- A text starts with a character. -/
theorem startsCharacter_encode (text : String) : StartsCharacter (encode text) := by
  rw [encode]
  cases text.toList with
  | nil => exact nofun
  | cons c chars => exact startsCharacter_utf8EncodeChar_append c _

/-- A single byte between two texts is a character below 0x80. -/
theorem exists_ascii_of_encode_eq {text lead after : String} {byte : UInt8}
    (cut : encode text = encode lead ++ byte :: encode after) :
    ∃ c : Char, c.toNat < 0x80 ∧ byte = c.toUInt8 := by
  rw [← List.singleton_append, ← List.append_assoc] at cut
  obtain ⟨before, _, -, leadBytes, -⟩ :=
    exists_texts_of_encode_eq cut (startsCharacter_encode after)
  obtain ⟨middle, -, middleBytes⟩ := exists_text_of_encode_eq leadBytes.symm
  rw [encode] at middleBytes
  cases chars : middle.toList with
  | nil => simp [chars] at middleBytes
  | cons c chars =>
      rw [chars, List.flatMap_cons] at middleBytes
      have lengths := congrArg List.length middleBytes
      rw [List.length_append, String.length_utf8EncodeChar, List.length_singleton] at lengths
      have positive := c.utf8Size_pos
      have single : c.utf8Size = 1 := by omega
      rw [String.utf8EncodeChar_eq_singleton single] at middleBytes
      have ascii := Char.utf8Size_eq_one_iff.1 single
      exact ⟨c, Nat.lt_succ_of_le ascii, (List.cons.inj middleBytes).1⟩

end Winnow.Text.Utf8
