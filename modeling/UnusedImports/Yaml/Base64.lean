import UnusedImports.Text

/-!
# Bytes in base 64

Four characters of the alphabet stand for three bytes. Reading passes over all other characters
and ends at complete padding; writing pads the last group.
-/

set_option autoImplicit false

namespace UnusedImports.Yaml.Base64

/-- The characters of the alphabet in order. -/
def alphabet : List Char :=
  "ABCDEFGHIJKLMNOPQRSTUVWXYZabcdefghijklmnopqrstuvwxyz0123456789+/".toList

/-- The bytes of the complete characters in a group of up to four. -/
def groupBytes : List Nat → List UInt8
  | [a, b] => [UInt8.ofNat (a * 4 + b / 16)]
  | [a, b, c] => [UInt8.ofNat (a * 4 + b / 16), UInt8.ofNat (b % 16 * 16 + c / 4)]
  | [a, b, c, d] =>
    [UInt8.ofNat (a * 4 + b / 16), UInt8.ofNat (b % 16 * 16 + c / 4), UInt8.ofNat (c % 4 * 64 + d)]
  | _ => []

/-- Read on with an incomplete group and the padding seen behind it. A group that is neither
complete nor padded is refused. -/
def readFrom (group : List Nat) (pads : Nat) : Text → Option (List UInt8)
  | [] => if group.isEmpty then some [] else none
  | c :: rest =>
    if c = '=' then
      if 2 ≤ group.length && 4 ≤ group.length + pads + 1 then some (groupBytes group)
      else readFrom group (if 2 ≤ group.length then pads + 1 else pads) rest
    else
      match alphabet.idxOf? c with
      | none => readFrom group pads rest
      | some n =>
        if group.length = 3 then
          (readFrom [] 0 rest).map (groupBytes (group ++ [n]) ++ ·)
        else readFrom (group ++ [n]) 0 rest

/-- The bytes that a text denotes. -/
def read? (t : Text) : Option (List UInt8) :=
  readFrom [] 0 t

/-- The character for a number below 64. -/
def digit (n : Nat) : Char :=
  alphabet.getD n '='

/-- The text of bytes. -/
def write : List UInt8 → Text
  | [] => []
  | [a] => [digit (a.toNat / 4), digit (a.toNat % 4 * 16), '=', '=']
  | [a, b] =>
    [digit (a.toNat / 4), digit (a.toNat % 4 * 16 + b.toNat / 16), digit (b.toNat % 16 * 4), '=']
  | a :: b :: c :: rest =>
    digit (a.toNat / 4) :: digit (a.toNat % 4 * 16 + b.toNat / 16)
      :: digit (b.toNat % 16 * 4 + c.toNat / 64) :: digit (c.toNat % 64) :: write rest

end UnusedImports.Yaml.Base64
