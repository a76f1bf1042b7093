import UnusedImports.Text.Utf8

/-!
# Reading bytes as far as possible

What `Text.decodePrefix` reads is written again as the bytes that it took (`octets_decodePrefix`),
and it stops where no further character can be read (`decodePrefix_stuck`). So bytes of which
nothing is left over are UTF-8 (`decode?_isSome_of_octets`).
-/

set_option autoImplicit false

namespace UnusedImports.Text

/-- The bytes of a text, one after the other. -/
def octets (t : Text) : List UInt8 :=
  t.flatMap String.utf8EncodeChar

theorem octets_cons (c : Char) (t : Text) :
    octets (c :: t) = String.utf8EncodeChar c ++ octets t :=
  List.flatMap_cons

theorem octets_append (t u : Text) : octets (t ++ u) = octets t ++ octets u :=
  List.flatMap_append

theorem length_le_length_octets (t : Text) : t.length ≤ (octets t).length := by
  induction t with
  | nil => exact Nat.le_refl 0
  | cons c rest ih =>
    have hpos : 0 < c.utf8Size := c.utf8Size_pos
    rw [octets_cons, List.length_append, String.length_utf8EncodeChar, List.length_cons]
    omega

/-! ## Lists of bytes -/

/-- The bytes from a place on. -/
theorem toList_loop_eq (bytes : ByteArray) (i : Nat) (done : List UInt8) :
    ByteArray.toList.loop bytes i done = done.reverse ++ bytes.data.toList.drop i := by
  fun_induction ByteArray.toList.loop bytes i done with
  | case1 i done h ih =>
    have hi : i < bytes.data.toList.length := by simpa using h
    have hget : bytes.get! i = bytes.data.toList[i] := getElem!_pos bytes.data i h
    rw [ih, List.drop_eq_getElem_cons hi, List.reverse_cons, List.append_assoc, hget]
    rfl
  | case2 i done h =>
    have hi : bytes.data.toList.length ≤ i := by simpa using h
    rw [List.drop_eq_nil_of_le hi, List.append_nil]

theorem toList_eq (bytes : ByteArray) : bytes.toList = bytes.data.toList := by
  rw [ByteArray.toList, toList_loop_eq]
  rfl

/-- Bytes that are those of a text are UTF-8. -/
theorem decode?_isSome_of_octets {bytes : ByteArray} {t : Text} (h : bytes.toList = octets t) :
    (decode? bytes).isSome = true := by
  have hbytes : bytes = encode t := by
    rw [toList_eq] at h
    rw [encode, String.toUTF8_eq_toByteArray, String.toByteArray_ofList, List.utf8Encode]
    apply ByteArray.ext
    rw [List.data_toByteArray, ← Array.toList_inj, h]
    rfl
  rw [hbytes, decode?_encode]
  rfl

/-! ## Characters -/

/-- The bytes of the character with a number. -/
theorem utf8EncodeChar_ofNat {n : Nat} (h : n.isValidChar) :
    String.utf8EncodeChar (Char.ofNat n) =
      if n ≤ 0x7f then [UInt8.ofNat n]
      else if n ≤ 0x7ff then [UInt8.ofNat (n / 64 % 32 + 192), UInt8.ofNat (n % 64 + 128)]
      else if n ≤ 0xffff then
        [UInt8.ofNat (n / 4096 % 16 + 224), UInt8.ofNat (n / 64 % 64 + 128),
          UInt8.ofNat (n % 64 + 128)]
      else
        [UInt8.ofNat (n / 262144 % 8 + 240), UInt8.ofNat (n / 4096 % 64 + 128),
          UInt8.ofNat (n / 64 % 64 + 128), UInt8.ofNat (n % 64 + 128)] := by
  have hn : (Char.ofNat n).val.toNat = n := by
    rw [Char.ofNat, dif_pos h]
    rfl
  simp only [String.utf8EncodeChar, hn]

theorem ofNat_eq_iff {n : Nat} {b : UInt8} : UInt8.ofNat n = b ↔ n % 256 = b.toNat := by
  rw [← UInt8.toNat_inj, UInt8.toNat_ofNat']

/-- What the second byte of a character says about the first one. -/
theorem toNat_of_canFollow {a b : UInt8} (h : canFollow a b = true) :
    (128 ≤ b.toNat ∧ b.toNat < 192) ∧ (194 ≤ a.toNat ∧ a.toNat < 224 ∨
      a.toNat = 224 ∧ 160 ≤ b.toNat ∨
      (225 ≤ a.toNat ∧ a.toNat < 240 ∧ (a.toNat ≠ 237 ∨ b.toNat < 160)) ∨
      a.toNat = 240 ∧ 144 ≤ b.toNat ∨ 241 ≤ a.toNat ∧ a.toNat < 244 ∨
      a.toNat = 244 ∧ b.toNat < 144) := by
  simpa [canFollow, isContinuation, UInt8.le_iff_toNat_le, UInt8.lt_iff_toNat_lt,
    ← UInt8.toNat_inj, and_assoc, or_assoc] using h

theorem toNat_of_isContinuation {b : UInt8} (h : isContinuation b = true) :
    128 ≤ b.toNat ∧ b.toNat < 192 := by
  simpa [isContinuation, UInt8.le_iff_toNat_le, UInt8.lt_iff_toNat_lt] using h

theorem utf8EncodeChar_one {a : UInt8} (ha : a < 0x80) :
    String.utf8EncodeChar (Char.ofNat a.toNat) = [a] := by
  have hlt : a.toNat < 128 := UInt8.lt_iff_toNat_lt.1 ha
  rw [utf8EncodeChar_ofNat (Or.inl (by omega)), if_pos (by omega), List.cons.injEq, ofNat_eq_iff]
  exact ⟨by omega, rfl⟩

theorem utf8EncodeChar_two {a b : UInt8} (hb : canFollow a b = true) (ha : a < 0xe0) :
    String.utf8EncodeChar (Char.ofNat (a.toNat % 0x20 * 0x40 + payload b)) = [a, b] := by
  have hlt : a.toNat < 224 := UInt8.lt_iff_toNat_lt.1 ha
  have hrange := toNat_of_canFollow hb
  rw [payload, utf8EncodeChar_ofNat (Or.inl (by omega)), if_neg (by omega), if_pos (by omega)]
  simp only [List.cons.injEq, ofNat_eq_iff, and_true]
  omega

theorem utf8EncodeChar_three {a b c : UInt8} (hb : canFollow a b = true)
    (hc : isContinuation c = true) (hlow : ¬ a < 0xe0) (ha : a < 0xf0) :
    String.utf8EncodeChar
        (Char.ofNat ((a.toNat % 0x10 * 0x40 + payload b) * 0x40 + payload c)) = [a, b, c] := by
  have hge : ¬ a.toNat < 224 := fun h => hlow (UInt8.lt_iff_toNat_lt.2 h)
  have hlt : a.toNat < 240 := UInt8.lt_iff_toNat_lt.1 ha
  have hrange := toNat_of_canFollow hb
  have hlast := toNat_of_isContinuation hc
  -- the numbers of surrogates are left out, since their second byte cannot follow
  have hvalid : ((a.toNat % 0x10 * 0x40 + payload b) * 0x40 + payload c).isValidChar := by
    simp only [Nat.isValidChar, payload]
    omega
  simp only [payload] at hvalid ⊢
  rw [utf8EncodeChar_ofNat hvalid, if_neg (by omega), if_neg (by omega), if_pos (by omega)]
  simp only [List.cons.injEq, ofNat_eq_iff, and_true]
  omega

theorem utf8EncodeChar_four {a b c d : UInt8} (hb : canFollow a b = true)
    (hc : isContinuation c = true) (hd : isContinuation d = true) (hlow : ¬ a < 0xf0) :
    String.utf8EncodeChar
        (Char.ofNat (((a.toNat % 8 * 0x40 + payload b) * 0x40 + payload c) * 0x40 + payload d)) =
      [a, b, c, d] := by
  have hge : ¬ a.toNat < 240 := fun h => hlow (UInt8.lt_iff_toNat_lt.2 h)
  have hrange := toNat_of_canFollow hb
  have hthird := toNat_of_isContinuation hc
  have hlast := toNat_of_isContinuation hd
  have hvalid : (((a.toNat % 8 * 0x40 + payload b) * 0x40 + payload c) * 0x40
      + payload d).isValidChar := by
    simp only [Nat.isValidChar, payload]
    omega
  simp only [payload] at hvalid ⊢
  rw [utf8EncodeChar_ofNat hvalid, if_neg (by omega), if_neg (by omega), if_neg (by omega)]
  simp only [List.cons.injEq, ofNat_eq_iff, and_true]
  omega

/-- A first character is read from its bytes. -/
theorem eq_append_of_character? {bytes rest : List UInt8} {x : Char}
    (h : character? bytes = some (x, rest)) : bytes = String.utf8EncodeChar x ++ rest := by
  revert h
  fun_cases character? bytes with
  | case2 a tail ha =>
    rintro ⟨⟩
    rw [utf8EncodeChar_one ha]
    rfl
  | case5 a _ b tail hb ha =>
    rintro ⟨⟩
    rw [utf8EncodeChar_two (by simpa using hb) ha]
    rfl
  | case8 a _ b hb hlow c tail hc ha =>
    rintro ⟨⟩
    rw [utf8EncodeChar_three (by simpa using hb) (by simpa using hc) hlow ha]
    rfl
  | case11 a _ b hb _ c hc hlow d tail hd =>
    rintro ⟨⟩
    rw [utf8EncodeChar_four (by simpa using hb) (by simpa using hc) (by simpa using hd) hlow]
    rfl
  | _ =>
    -- too few bytes, or one that does not continue the character
    intro h
    cases h

/-! ## Beginnings of bytes -/

/-- The characters read are written as the bytes that were taken, and no further character can be
read if the bytes were not more than the characters asked for. -/
theorem octets_characters (count : Nat) (bytes : List UInt8) :
    bytes = octets (characters count bytes).1 ++ (characters count bytes).2 ∧
      (bytes.length ≤ count → character? (characters count bytes).2 = none) := by
  fun_induction characters count bytes with
  | case1 bytes =>
    refine ⟨rfl, ?_⟩
    intro hlength
    rw [List.length_eq_zero_iff.1 (Nat.le_zero.1 hlength)]
    rfl
  | case2 count bytes hnone => exact ⟨rfl, fun _ => hnone⟩
  | case3 count bytes c rest hsome t last hrest ih =>
    rw [hrest] at ih
    have hbytes := eq_append_of_character? hsome
    have hpos : 0 < c.utf8Size := c.utf8Size_pos
    refine ⟨?_, ?_⟩
    · rw [octets_cons, List.append_assoc, ← ih.1, hbytes]
    · intro hlength
      apply ih.2
      rw [hbytes, List.length_append, String.length_utf8EncodeChar] at hlength
      omega

/-- What was read and what is left over are the bytes again. -/
theorem octets_decodePrefix (bytes : List UInt8) :
    bytes = octets (decodePrefix bytes).1 ++ (decodePrefix bytes).2 :=
  (octets_characters bytes.length bytes).1

/-- No character can be read from what is left over. -/
theorem decodePrefix_stuck (bytes : List UInt8) :
    decodePrefix (decodePrefix bytes).2 = ([], (decodePrefix bytes).2) := by
  have hnone := (octets_characters bytes.length bytes).2 (Nat.le_refl _)
  rw [decodePrefix, decodePrefix]
  cases hlength : (characters bytes.length bytes).2.length with
  | zero => rfl
  | succ count => rw [characters, hnone]

end UnusedImports.Text
