import UnusedImports.Value

/-!
# The order of sets

A set lists its items by their places in a table. An item is put at the place that its number asks
for, or, if that is taken, at one of the places that follow from the number. `Value.scattered` gives
this order for items of which each has a number that depends on nothing but the item: numbers,
moments in universal time, and empty texts. A set with other items keeps the order in which it was
written.
-/

set_option autoImplicit false

namespace UnusedImports

/-! ## Numbers of items -/

/-- Numbers of items have 64 bits. -/
def wordSize : Nat := Nat.pow 2 64

/-- The prime that numbers are reduced by. Two to the power of 61 leaves one. -/
def scatterPrime : Nat := Nat.pow 2 61 - 1

/-- A reduced number with its sign as a word. Minus one is not used. -/
def signedWord (negative : Bool) (n : Nat) : Nat :=
  let n := if negative && n = 1 then 2 else n
  if negative && n ≠ 0 then wordSize - n else n

/-- The number of a quantity: its remainder by the prime, or a number of its own for infinity. -/
def Quantity.scatter : Quantity → Nat
  | .integer n => signedWord (n < 0) (n.natAbs % scatterPrime)
  | .other (.finite negative mantissa exponent) =>
    signedWord negative (mantissa * Nat.pow 2 (exponent % 61).toNat % scatterPrime)
  | .other (.infinite negative) => signedWord negative 314159
  | .other .nan => 0

/-- A word with its bits turned to the left by 31 places. -/
def turned (n : Nat) : Nat :=
  (n * Nat.pow 2 31) % wordSize + n / Nat.pow 2 33

/-- The number of a row of numbers. -/
def scatterRow (ns : List Nat) : Nat :=
  let mixed := ns.foldl
    (fun acc n =>
      turned ((acc + n * 14029467366897019727) % wordSize) * 11400714785074694791 % wordSize)
    2870177450012600261
  (mixed + (ns.length ^^^ (2870177450012600261 ^^^ 3527539))) % wordSize

/-- The number of a key, if it depends on nothing but the key. -/
def Key.scatter? : Key → Option Nat
  | .number q => some q.scatter
  | .instant micros =>
    let seconds := micros / 1000000
    some (scatterRow
      [(seconds / 86400 + 1).toNat, (seconds % 86400).toNat, (micros % 1000000).toNat])
  | .text [] => some 0
  | .bytes [] => some 0
  | _ => none

/-! ## Places -/

/-- The number of places for `count` items. -/
def tableSize (count : Nat) : Nat :=
  if count < 5 then 8 else Nat.pow 2 ((2 * count).log2 + 1)

/-- The places next to `place` that are tried together with it. -/
def neighbours (size place : Nat) : List Nat :=
  if place + 10 ≤ size then List.range' place 10 else [place]

/-- The first free place for an item, the places being tried in rounds. -/
def freePlace (taken : List Nat) (size : Nat) : Nat → Nat → Nat → Nat
  | 0, place, _ => place
  | rounds + 1, place, rest =>
    match (neighbours size place).find? fun p => !taken.contains p with
    | some p => p
    | none =>
      let rest := rest / 32
      freePlace taken size rounds ((place * 5 + 1 + rest) % size) rest

/-- Put items with their numbers at their places, one after the other. -/
def placedItems (size : Nat) (items : List (Nat × Value)) : List (Nat × Value) :=
  items.foldl
    (fun placed (n, v) =>
      (freePlace (placed.map Prod.fst) size (size + 16) (n % size) n, v) :: placed)
    []

namespace Value

/-- The number of an item of a set. -/
def scatter? (v : Value) : Option Nat :=
  v.key?.bind Key.scatter?

/-- The items of a set in the order in which it lists them. -/
def scattered (items : List Value) : List Value :=
  match items.mapM scatter? with
  | none => items
  | some ns =>
    let placed := placedItems (tableSize items.length) (ns.zip items)
    (placed.mergeSort fun a b => a.1 ≤ b.1).map Prod.snd

end Value

end UnusedImports
