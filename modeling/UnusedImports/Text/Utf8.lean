import UnusedImports.Text

/-!
# Texts as bytes

`Text.encode` writes a text in UTF-8, and `Text.decode?` reads it back and refuses bytes that are
not UTF-8. Bytes that can be read are the encoding of what was read
(`encode_of_decode?_eq_some`), and every text can be read back (`decode?_encode`).

Bytes that arrive in blocks are read as far as possible by `Text.decodePrefix`. What is left is
either the beginning of a character (`Text.beginsCharacter`) or no part of a text.
-/

set_option autoImplicit false

namespace UnusedImports.Text

/-- The bytes of a text. -/
def encode (t : Text) : ByteArray :=
  (String.ofList t).toUTF8

/-- The text with these bytes, if they are UTF-8. -/
def decode? (bytes : ByteArray) : Option Text :=
  (String.fromUTF8? bytes).map String.toList

theorem encode_of_decode?_eq_some {bytes : ByteArray} {t : Text} (h : decode? bytes = some t) :
    encode t = bytes := by
  unfold decode? String.fromUTF8? at h
  split at h
  · simp only [Option.map_some, Option.some.injEq] at h
    subst h
    simp [encode, String.fromUTF8]
  · simp at h

theorem decode?_encode (t : Text) : decode? (encode t) = some t := by
  have h : (encode t).IsValidUTF8 := (String.ofList t).isValidUTF8
  have hs : String.fromUTF8 (encode t) h = String.ofList t := rfl
  simp only [decode?, String.fromUTF8?, dif_pos h, hs, Option.map_some, String.toList_ofList]

/-! ## Bytes that arrive in blocks -/

/-- The byte continues a character. -/
def isContinuation (b : UInt8) : Bool :=
  0x80 ≤ b && b < 0xc0

/-- The second byte of a character can follow the first one. -/
def canFollow (first second : UInt8) : Bool :=
  isContinuation second
    && ((0xc2 ≤ first && first < 0xe0)
      || (first = 0xe0 && 0xa0 ≤ second)
      || (0xe1 ≤ first && first < 0xf0 && (first ≠ 0xed || second < 0xa0))
      || (first = 0xf0 && 0x90 ≤ second)
      || (0xf1 ≤ first && first < 0xf4)
      || (first = 0xf4 && second < 0x90))

/-- The bits that a byte which continues a character contributes. -/
def payload (b : UInt8) : Nat :=
  b.toNat % 0x40

/-- The first character of bytes, and the bytes behind it. -/
def character? : List UInt8 → Option (Char × List UInt8)
  | [] => none
  | a :: rest =>
    if a < 0x80 then some (Char.ofNat a.toNat, rest)
    else
      match rest with
      | [] => none
      | b :: rest =>
        if !canFollow a b then none
        else if a < 0xe0 then some (Char.ofNat (a.toNat % 0x20 * 0x40 + payload b), rest)
        else
          match rest with
          | [] => none
          | c :: rest =>
            if !isContinuation c then none
            else if a < 0xf0 then
              some (Char.ofNat ((a.toNat % 0x10 * 0x40 + payload b) * 0x40 + payload c), rest)
            else
              match rest with
              | [] => none
              | d :: rest =>
                if !isContinuation d then none
                else
                  let n := ((a.toNat % 8 * 0x40 + payload b) * 0x40 + payload c) * 0x40 + payload d
                  some (Char.ofNat n, rest)

/-- At most `count` characters, and the bytes behind them. -/
def characters : Nat → List UInt8 → Text × List UInt8
  | 0, bytes => ([], bytes)
  | count + 1, bytes =>
    match character? bytes with
    | none => ([], bytes)
    | some (c, rest) =>
      let (t, last) := characters count rest
      (c :: t, last)

/-- The characters at the start of bytes, and the bytes from which no further one can be read. -/
def decodePrefix (bytes : List UInt8) : Text × List UInt8 :=
  characters bytes.length bytes

/-- The bytes can be the beginning of a character, or are none. Two bytes of a surrogate pass for
a beginning too: they are refused only with the third one. -/
def beginsCharacter : List UInt8 → Bool
  | [] => true
  | [a] => 0xc2 ≤ a && a < 0xf5
  | [a, b] => 0xe0 ≤ a && (canFollow a b || (a = 0xed && isContinuation b))
  | [a, b, c] => 0xf0 ≤ a && canFollow a b && isContinuation c
  | _ => false

end UnusedImports.Text
