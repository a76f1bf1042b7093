/-!
# Keyed stores

A store keeps values under keys, in the order in which the keys were first used since they were
last erased. `Keyed.get?` is the view of a store; `get?_put` and `get?_erase` say what the two
changes do to it.
-/

set_option autoImplicit false

namespace UnusedImports

/-- Values stored under keys, in the order of the keys' first use. -/
structure Keyed (κ α : Type) where
  entries : List (κ × α)
  deriving Repr

namespace Keyed

variable {κ α : Type} [DecidableEq κ]

/-- The store without keys. -/
def empty : Keyed κ α := ⟨[]⟩

/-- The keys in use. -/
def keys (m : Keyed κ α) : List κ :=
  m.entries.map Prod.fst

/-- The first value under `k` in a list of entries. -/
def find? (k : κ) : List (κ × α) → Option α
  | [] => none
  | (j, a) :: rest => if j = k then some a else find? k rest

/-- The value stored under `k`. -/
def get? (m : Keyed κ α) (k : κ) : Option α :=
  find? k m.entries

/-- Replace the value of the first entry with key `k`, or add an entry at the end. -/
def putIn (k : κ) (a : α) : List (κ × α) → List (κ × α)
  | [] => [(k, a)]
  | (j, b) :: rest => if j = k then (j, a) :: rest else (j, b) :: putIn k a rest

/-- Store `a` under `k`; a key in use keeps its place. -/
def put (m : Keyed κ α) (k : κ) (a : α) : Keyed κ α :=
  ⟨putIn k a m.entries⟩

/-- Remove the key `k`. -/
def erase (m : Keyed κ α) (k : κ) : Keyed κ α :=
  ⟨m.entries.filter fun e => e.1 ≠ k⟩

/-- The number of keys in use. -/
def size (m : Keyed κ α) : Nat :=
  m.entries.length

/-! ## The view -/

@[simp] theorem get?_empty (k : κ) : (empty : Keyed κ α).get? k = none := rfl

theorem find?_putIn (k j : κ) (a : α) (l : List (κ × α)) :
    find? j (putIn k a l) = if k = j then some a else find? j l := by
  induction l with
  | nil => simp [putIn, find?]
  | cons e rest ih => grind [putIn, find?]

/-- A stored value is found under its key, and every other key keeps its value. -/
theorem get?_put (m : Keyed κ α) (k j : κ) (a : α) :
    (m.put k a).get? j = if k = j then some a else m.get? j :=
  find?_putIn k j a m.entries

/-- An erased key has no value, and every other key keeps its value. -/
theorem get?_erase (m : Keyed κ α) (k j : κ) :
    (m.erase k).get? j = if k = j then none else m.get? j := by
  unfold get? erase
  induction m.entries with
  | nil => simp [find?]
  | cons e rest ih => grind [find?]

/-! ## Keys and entries -/

/-- The keys in use are those with a value. -/
theorem mem_keys {m : Keyed κ α} {k : κ} : k ∈ m.keys ↔ m.get? k ≠ none := by
  unfold keys get?
  induction m.entries with
  | nil => simp [find?]
  | cons e rest ih => grind [find?]

/-- The value found under a key is stored in an entry. -/
theorem mem_entries_of_get? {m : Keyed κ α} {k : κ} {a : α} (h : m.get? k = some a) :
    (k, a) ∈ m.entries := by
  revert h
  unfold get?
  induction m.entries with
  | nil => simp [find?]
  | cons e rest ih => grind [find?]

/-- After a change the entries are old ones or the new one. -/
theorem mem_entries_put {m : Keyed κ α} {k : κ} {a : α} {e : κ × α}
    (h : e ∈ (m.put k a).entries) : e = (k, a) ∨ e ∈ m.entries := by
  revert h
  unfold put
  induction m.entries with
  | nil => simp [putIn]
  | cons f rest ih => grind [putIn]

/-- A new key comes last. -/
theorem keys_put (m : Keyed κ α) (k : κ) (a : α) :
    (m.put k a).keys = if k ∈ m.keys then m.keys else m.keys ++ [k] := by
  unfold put keys
  induction m.entries with
  | nil => simp [putIn]
  | cons e rest ih => grind [putIn]

theorem keys_erase (m : Keyed κ α) (k : κ) : (m.erase k).keys = m.keys.filter fun j => j ≠ k := by
  unfold erase keys
  rw [List.filter_map]
  rfl

end Keyed

end UnusedImports
