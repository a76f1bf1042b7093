import UnusedImports.Proofs.Value.Writing
import UnusedImports.Yaml.Writer
import Mathlib.Data.Int.Order.Basic
import Mathlib.Data.List.Lex
import Mathlib.Data.List.Perm.Basic

/-!
# The order in which mappings are written

The entries of a mapping are written in the order of their keys. `Value.sorted` is a value with all
its mappings in this order, which is how a value comes back from a document. Sorting only moves
entries (`Yaml.byKey_perm`), so a sorted value is equal to the value (`Value.same_sorted`), and
sorting a second time changes nothing (`Value.sorted_sorted`).
-/

set_option autoImplicit false

namespace UnusedImports

namespace Yaml

variable {α β : Type}

/-! ## Sorting entries -/

theorem keyLe_total (a b : Value) : (keyLe a b || keyLe b a) = true := by
  rw [keyLe, keyLe]
  cases rank? a with
  | none => rfl
  | some r =>
    cases rank? b with
    | none => rfl
    | some q =>
      simp only [Bool.or_eq_true, Bool.not_eq_true', decide_eq_false_iff_not, not_lt]
      exact le_total r.2 q.2

theorem keyLe_trans (a b c : Value) (hab : keyLe a b = true) (hbc : keyLe b c = true) :
    keyLe a c = true := by
  rw [keyLe] at hab hbc ⊢
  cases ha : rank? a with
  | none => rfl
  | some r =>
    cases hb : rank? b with
    | none => simp [ha, hb] at hab
    | some q =>
      cases hc : rank? c with
      | none => simp [hb, hc] at hbc
      | some p =>
        simp only [ha, hb, hc, Bool.not_eq_true', decide_eq_false_iff_not, not_lt] at hab hbc ⊢
        exact le_trans hab hbc

/-- Sorting moves entries and does nothing else. -/
theorem byKey_perm (entries : List (Value × α)) : (byKey entries).Perm entries := by
  cases entries with
  | nil => exact .nil
  | cons e rest =>
    rw [byKey]
    split
    · exact List.mergeSort_perm _ _
    · exact .refl _

/-- The order depends on the keys alone. -/
theorem byKey_map (f : Value × α → β) (entries : List (Value × α)) :
    byKey (entries.map fun e => (e.1, f e)) = (byKey entries).map fun e => (e.1, f e) := by
  cases entries with
  | nil => rfl
  | cons e rest =>
    have hall : ((rest.map fun e => (e.1, f e)).all fun g => areComparable e.1 g.1) =
        rest.all fun g => areComparable e.1 g.1 := List.all_map
    rw [List.map_cons, byKey, byKey, hall]
    by_cases hcomparable : (rest.all fun g => areComparable e.1 g.1) = true
    · rw [if_pos hcomparable, if_pos hcomparable]
      have hmap : ((e :: rest).mergeSort fun a b => keyLe a.1 b.1).map (fun e => (e.1, f e)) =
          ((e :: rest).map fun e => (e.1, f e)).mergeSort fun a b => keyLe a.1 b.1 :=
        List.map_mergeSort fun _ _ _ _ => rfl
      exact hmap.symm
    · rw [if_neg hcomparable, if_neg hcomparable, List.map_cons]

theorem areComparable_iff {a b : Value} :
    areComparable a b = true ↔ ∃ k x y, rank? a = some (k, x) ∧ rank? b = some (k, y) := by
  rw [areComparable]
  cases rank? a with
  | none => simp
  | some r =>
    cases rank? b with
    | none => simp
    | some q =>
      obtain ⟨k, x⟩ := r
      obtain ⟨l, y⟩ := q
      simp [eq_comm]

theorem byKey_eq_mergeSort {entries : List (Value × α)}
    (h : ∀ a ∈ entries, ∀ b ∈ entries, areComparable a.1 b.1 = true) :
    byKey entries = entries.mergeSort fun a b => keyLe a.1 b.1 := by
  cases entries with
  | nil => exact List.mergeSort_nil.symm
  | cons e rest =>
    rw [byKey, if_pos]
    rw [List.all_eq_true]
    exact fun f hf => h e List.mem_cons_self f (List.mem_cons_of_mem e hf)

/-- Entries are put into the order in which they are sorted, if no two of them have keys of the same
rank. -/
theorem byKey_eq_of_perm {entries sorted : List (Value × α)}
    (hcomparable : ∀ a ∈ entries, ∀ b ∈ entries, areComparable a.1 b.1 = true)
    (hdistinct : ∀ a ∈ entries, ∀ b ∈ entries,
      keyLe a.1 b.1 = true → keyLe b.1 a.1 = true → a = b)
    (hperm : entries.Perm sorted) (hsorted : sorted.Pairwise fun a b => keyLe a.1 b.1 = true) :
    byKey entries = sorted := by
  have hmerged := List.mergeSort_perm entries fun a b => keyLe a.1 b.1
  have hpairwise := List.pairwise_mergeSort (fun a b c => keyLe_trans a.1 b.1 c.1)
    (fun a b => keyLe_total a.1 b.1) entries
  rw [byKey_eq_mergeSort hcomparable]
  refine (hmerged.trans hperm).eq_of_pairwise ?_ hpairwise hsorted
  intro a b ha hb
  exact hdistinct a (hmerged.mem_iff.1 ha) b (hperm.mem_iff.2 hb)

/-- Entries that are sorted stay where they are. -/
theorem byKey_byKey (entries : List (Value × α)) : byKey (byKey entries) = byKey entries := by
  cases entries with
  | nil => rfl
  | cons e rest =>
    by_cases hcomparable : (rest.all fun f => areComparable e.1 f.1) = true
    · cases rest with
      | nil =>
        have hone : byKey [e] = [e] := List.mergeSort_singleton e
        rw [hone, hone]
      | cons f rest =>
        -- with a second key, all keys have a rank of one kind
        rw [List.all_eq_true] at hcomparable
        obtain ⟨k, x, -, he, -⟩ := areComparable_iff.1 (hcomparable f List.mem_cons_self)
        have hranks : ∀ a ∈ e :: f :: rest, ∃ y, rank? a.1 = some (k, y) := by
          intro a ha
          rcases List.mem_cons.1 ha with rfl | ha
          · exact ⟨x, he⟩
          · obtain ⟨l, z, y, hz, hy⟩ := areComparable_iff.1 (hcomparable a ha)
            rw [he] at hz
            cases hz
            exact ⟨y, hy⟩
        have hall : ∀ a ∈ e :: f :: rest, ∀ b ∈ e :: f :: rest, areComparable a.1 b.1 = true := by
          intro a ha b hb
          obtain ⟨y, hy⟩ := hranks a ha
          obtain ⟨z, hz⟩ := hranks b hb
          exact areComparable_iff.2 ⟨k, y, z, hy, hz⟩
        have hperm := List.mergeSort_perm (e :: f :: rest) fun a b => keyLe a.1 b.1
        rw [byKey_eq_mergeSort hall, byKey_eq_mergeSort fun a ha b hb =>
          hall a (hperm.mem_iff.1 ha) b (hperm.mem_iff.1 hb)]
        apply List.mergeSort_of_pairwise
        exact List.pairwise_mergeSort (fun a b c => keyLe_trans a.1 b.1 c.1)
          (fun a b => keyLe_total a.1 b.1) _
    · have hkeep : byKey (e :: rest) = e :: rest := by
        rw [byKey, if_neg hcomparable]
      rw [hkeep, hkeep]

/-! ## Texts of entries -/

/-- The text of an entry of a mapping. -/
def entryText (indent : Nat) (key v : Value) : Text :=
  stacked indent ((entryTexts indent [(key, v)]).map (·.2))

theorem entryTexts_eq_map (indent : Nat) (entries : List (Value × Value)) :
    entryTexts indent entries = entries.map fun e => (e.1, entryText indent e.1 e.2) := by
  induction entries with
  | nil => rfl
  | cons e rest ih =>
    rw [entryTexts, ih, List.map_cons]
    rfl

/-- The texts of sorted entries are the sorted texts of entries. -/
theorem byKey_entryTexts (indent : Nat) (entries : List (Value × Value)) :
    byKey (entryTexts indent entries) = entryTexts indent (byKey entries) := by
  rw [entryTexts_eq_map, entryTexts_eq_map]
  exact byKey_map (fun e => entryText indent e.1 e.2) entries

end Yaml

namespace Value

/-! ## Sorted values -/

mutual

/-- A value with all its mappings in the order of their keys. -/
def sorted : Value → Value
  | .pair a b => .pair (sorted a) (sorted b)
  | .list items => .list (sortedItems items)
  | .map entries => .map (Yaml.byKey (sortedEntries entries))
  | v => v

/-- The items of a list, each of them sorted. -/
def sortedItems : List Value → List Value
  | [] => []
  | v :: vs => sorted v :: sortedItems vs

/-- The entries of a mapping, each with its value sorted. Keys hold no mappings. -/
def sortedEntries : List (Value × Value) → List (Value × Value)
  | [] => []
  | (k, v) :: entries => (k, sorted v) :: sortedEntries entries

end

theorem sortedItems_eq_map (items : List Value) : sortedItems items = items.map sorted := by
  induction items with
  | nil => rfl
  | cons v rest ih => rw [sortedItems, ih, List.map_cons]

theorem sortedEntries_eq_map (entries : List (Value × Value)) :
    sortedEntries entries = entries.map fun e => (e.1, e.2.sorted) := by
  induction entries with
  | nil => rfl
  | cons e rest ih => rw [sortedEntries, ih, List.map_cons]

mutual

/-- What is sorted stays as it is. -/
theorem sorted_sorted : ∀ v : Value, v.sorted.sorted = v.sorted
  | .null => rfl
  | .bool _ => rfl
  | .int _ => rfl
  | .float _ => rfl
  | .text _ => rfl
  | .points _ => rfl
  | .bytes _ => rfl
  | .stamp _ => rfl
  | .pair a b => by simp only [sorted, sorted_sorted a, sorted_sorted b]
  | .list items => by
    rw [sorted, sorted, sortedItems_sortedItems items]
  | .set _ => rfl
  | .map entries => by
    rw [sorted, sorted, sortedEntries_eq_map (Yaml.byKey _), ← Yaml.byKey_map,
      ← sortedEntries_eq_map, sortedEntries_sortedEntries entries, Yaml.byKey_byKey]
  | .again _ => rfl

theorem sortedItems_sortedItems :
    ∀ items : List Value, sortedItems (sortedItems items) = sortedItems items
  | [] => rfl
  | v :: vs => by simp only [sortedItems, sorted_sorted v, sortedItems_sortedItems vs]

theorem sortedEntries_sortedEntries :
    ∀ entries : List (Value × Value),
      sortedEntries (sortedEntries entries) = sortedEntries entries
  | [] => rfl
  | (k, v) :: entries => by
    simp only [sortedEntries, sorted_sorted v, sortedEntries_sortedEntries entries]

end

/-! ## Sorted values are equal -/

mutual

/-- The value is built from null, truth values, numbers, texts, lists and mappings. What is not a
number is left out, as it is not equal to itself. -/
def isPlain : Value → Bool
  | .null => true
  | .bool _ => true
  | .int _ => true
  | .float x => x ≠ .nan
  | .text _ => true
  | .points ps => ps.text?.isNone
  | .list items => arePlain items
  | .map entries => arePlainEntries entries
  | _ => false

/-- All items of a list are plain. -/
def arePlain : List Value → Bool
  | [] => true
  | v :: vs => isPlain v && arePlain vs

/-- All values of a mapping are plain, and so are its keys, which are no collections. -/
def arePlainEntries : List (Value × Value) → Bool
  | [] => true
  | (k, v) :: entries => isPlain k && k.key?.isSome && isPlain v && arePlainEntries entries

end

theorem allEntriesAmong_iff {es fs : List (Value × Value)} :
    allEntriesAmong es fs = true ↔
      ∀ e ∈ es, ∃ f ∈ fs, e.1.same f.1 = true ∧ e.2.same f.2 = true := by
  induction es with
  | nil => simp [allEntriesAmong]
  | cons e rest ih =>
    rw [allEntriesAmong, Bool.and_eq_true, ih, List.forall_mem_cons, List.any_eq_true]
    simp only [Bool.and_eq_true]

/-- A plain value that can be a key is equal to itself. -/
theorem same_self_of_key {v : Value} (h : v.isPlain = true) (hkey : v.key?.isSome = true) :
    v.same v = true := by
  cases v with
  | float x => cases x <;> simp_all [same, sameKey, key?, isPlain]
  | null | bool | int | text | points => simp [same, sameKey, key?]
  | _ => simp_all [isPlain, key?]

mutual

/-- A plain value with all its mappings sorted is equal to the value. -/
theorem same_sorted : ∀ v : Value, v.isPlain = true → v.sorted.same v = true
  | .null, h => same_self_of_key h rfl
  | .bool _, h => same_self_of_key h rfl
  | .int _, h => same_self_of_key h rfl
  | .float x, h => same_self_of_key h (by cases x <;> rfl)
  | .text _, h => same_self_of_key h rfl
  | .points _, h => same_self_of_key h rfl
  | .list items, h => by
    rw [sorted, same]
    exact sameItems_sortedItems items h
  | .map entries, h => by
    rw [sorted, same, Bool.and_eq_true, decide_eq_true_eq, allEntriesAmong_iff]
    have hperm := Yaml.byKey_perm (sortedEntries entries)
    rw [sortedEntries_eq_map] at hperm ⊢
    refine ⟨hperm.length_eq.trans (List.length_map _), fun e he => ?_⟩
    obtain ⟨f, hf, rfl⟩ := List.mem_map.1 (hperm.mem_iff.1 he)
    exact ⟨f, hf, same_of_mem_entries entries h f hf⟩
  | .bytes _, h => by simp [isPlain] at h
  | .stamp _, h => by simp [isPlain] at h
  | .pair _ _, h => by simp [isPlain] at h
  | .set _, h => by simp [isPlain] at h
  | .again _, h => by simp [isPlain] at h

theorem sameItems_sortedItems :
    ∀ items : List Value, arePlain items = true → sameItems (sortedItems items) items = true
  | [], _ => by rw [sortedItems, sameItems]
  | v :: vs, h => by
    rw [arePlain, Bool.and_eq_true] at h
    rw [sortedItems, sameItems, same_sorted v h.1, sameItems_sortedItems vs h.2]
    rfl

theorem same_of_mem_entries :
    ∀ entries : List (Value × Value), arePlainEntries entries = true →
      ∀ e ∈ entries, e.1.same e.1 = true ∧ e.2.sorted.same e.2 = true
  | (k, v) :: entries, h, e, he => by
    rw [arePlainEntries, Bool.and_eq_true, Bool.and_eq_true, Bool.and_eq_true] at h
    obtain ⟨⟨⟨hplain, hkey⟩, hv⟩, hrest⟩ := h
    rcases List.mem_cons.1 he with rfl | he
    · exact ⟨same_self_of_key hplain hkey, same_sorted v hv⟩
    · exact same_of_mem_entries entries hrest e he

end

/-! ## Sorted values are writable -/

mutual

theorem isWritable_sorted : ∀ v : Value, v.sorted.isWritable = v.isWritable
  | .null => rfl
  | .bool _ => rfl
  | .int _ => rfl
  | .float _ => rfl
  | .text _ => rfl
  | .points _ => rfl
  | .bytes _ => rfl
  | .stamp _ => rfl
  | .pair a b => by simp only [sorted, isWritable, isWritable_sorted a, isWritable_sorted b]
  | .list items => areWritable_sortedItems items
  | .set _ => rfl
  | .map entries => by
    have hsorted : areWritableEntries (Yaml.byKey (sortedEntries entries)) =
        areWritableEntries (sortedEntries entries) := by
      rw [Bool.eq_iff_iff, areWritableEntries_iff, areWritableEntries_iff]
      simp only [(Yaml.byKey_perm _).mem_iff]
    rw [sorted, isWritable, isWritable, hsorted, areWritableEntries_sortedEntries entries]
  | .again _ => rfl

theorem areWritable_sortedItems :
    ∀ items : List Value, areWritable (sortedItems items) = areWritable items
  | [] => rfl
  | v :: vs => by
    rw [sortedItems, areWritable, areWritable, isWritable_sorted v, areWritable_sortedItems vs]

theorem areWritableEntries_sortedEntries :
    ∀ entries : List (Value × Value),
      areWritableEntries (sortedEntries entries) = areWritableEntries entries
  | [] => rfl
  | (k, v) :: entries => by
    rw [sortedEntries, areWritableEntries, areWritableEntries, isWritable_sorted v,
      areWritableEntries_sortedEntries entries]

end

end Value

end UnusedImports
