import Mathlib.Data.List.Basic
import Mathlib.Data.List.Flatten
import Mathlib.Data.List.Sort

/-!
# Stable sorting by a key

Findings, clauses and edits are sorted by integer keys, and elements with the same key keep their
order. A list that is sorted by a key is therefore determined by its parts of equal key
(`eq_of_sorted`): sorting keeps these parts (`filter_key_mergeSort`), so it commutes with filters
(`filter_mergeSort`) and with maps to lists of one key each (`mergeSort_flatMap`). When all keys
differ, the order of the input plays no part (`mergeSort_eq_of_perm`).
-/

set_option autoImplicit false

namespace UnusedImports.Sorting

variable {α β : Type}

theorem keyLe_trans (key : α → Int) (a b c : α) (hab : decide (key a ≤ key b) = true)
    (hbc : decide (key b ≤ key c) = true) : decide (key a ≤ key c) = true := by
  simp only [decide_eq_true_eq] at hab hbc ⊢
  exact Int.le_trans hab hbc

theorem keyLe_total (key : α → Int) (a b : α) :
    (decide (key a ≤ key b) || decide (key b ≤ key a)) = true := by
  simp only [Bool.or_eq_true, decide_eq_true_eq]
  exact Int.le_total (key a) (key b)

/-- A list sorted by a key has its keys in order. -/
theorem pairwise_key_mergeSort (key : α → Int) (l : List α) :
    (l.mergeSort fun a b => key a ≤ key b).Pairwise fun a b => key a ≤ key b := by
  have h := List.pairwise_mergeSort (keyLe_trans key) (keyLe_total key) l
  simpa only [decide_eq_true_eq] using h

/-- Sorting keeps the elements of one key in their order. -/
theorem filter_key_mergeSort (key : α → Int) (l : List α) (k : Int) :
    (l.mergeSort fun a b => key a ≤ key b).filter (key · = k) = l.filter (key · = k) := by
  have hsame : (l.filter (key · = k)).Pairwise fun a b => decide (key a ≤ key b) = true := by
    rw [List.pairwise_iff_forall_sublist]
    intro a b hab
    have ha : a ∈ l.filter (key · = k) := hab.subset (by simp)
    have hb : b ∈ l.filter (key · = k) := hab.subset (by simp)
    simp only [List.mem_filter, decide_eq_true_eq] at ha hb
    simp [ha.2, hb.2]
  -- the elements of one key are sorted already, so they stand in the sorted list in this order
  have hsub := (List.sublist_mergeSort (keyLe_trans key) (keyLe_total key) hsame
    List.filter_sublist).filter (key · = k)
  have hlen := ((List.mergeSort_perm l fun a b => decide (key a ≤ key b)).filter
    (key · = k)).length_eq
  rw [List.filter_filter] at hsub
  simp only [Bool.and_self] at hsub
  exact (hsub.eq_of_length hlen.symm).symm

/-- Two lists with the same elements of every key have the same members. -/
theorem mem_of_filter_eq {key : α → Int} {l m : List α}
    (h : ∀ k, l.filter (key · = k) = m.filter (key · = k)) {a : α} (ha : a ∈ l) : a ∈ m := by
  have hmem : a ∈ l.filter (key · = key a) := by simp [ha]
  rw [h] at hmem
  exact List.mem_of_mem_filter hmem

/-- A list sorted by a key is determined by its elements of every key. -/
theorem eq_of_sorted {key : α → Int} {l m : List α}
    (hl : l.Pairwise fun a b => key a ≤ key b) (hm : m.Pairwise fun a b => key a ≤ key b)
    (h : ∀ k, l.filter (key · = k) = m.filter (key · = k)) : l = m := by
  induction l generalizing m with
  | nil =>
    cases m with
    | nil => rfl
    | cons b m =>
      have hb : b ∈ ([] : List α) := mem_of_filter_eq (fun k => (h k).symm) List.mem_cons_self
      exact absurd hb (List.not_mem_nil)
  | cons a l ih =>
    cases m with
    | nil =>
      have ha : a ∈ ([] : List α) := mem_of_filter_eq h List.mem_cons_self
      exact absurd ha (List.not_mem_nil)
    | cons b m =>
      rw [List.pairwise_cons] at hl hm
      -- both heads have the least key, and of the elements of this key both come first
      have hab : key a ≤ key b := by
        have hb : b ∈ a :: l := mem_of_filter_eq (fun k => (h k).symm) List.mem_cons_self
        rcases List.mem_cons.1 hb with rfl | hb
        · exact Int.le_refl _
        · exact hl.1 b hb
      have hba : key b ≤ key a := by
        have ha : a ∈ b :: m := mem_of_filter_eq h List.mem_cons_self
        rcases List.mem_cons.1 ha with rfl | ha
        · exact Int.le_refl _
        · exact hm.1 a ha
      have hkey : key b = key a := Int.le_antisymm hba hab
      have hhead := h (key a)
      simp only [List.filter_cons, hkey, decide_true, if_true, List.cons.injEq] at hhead
      obtain ⟨rfl, -⟩ := hhead
      congr 1
      refine ih hl.2 hm.2 fun k => ?_
      have hk := h k
      simp only [List.filter_cons] at hk
      split at hk
      · exact (List.cons.inj hk).2
      · exact hk

/-- Sorting by a key commutes with filters. -/
theorem filter_mergeSort (key : α → Int) (p : α → Bool) (l : List α) :
    (l.mergeSort fun a b => key a ≤ key b).filter p =
      (l.filter p).mergeSort fun a b => key a ≤ key b := by
  refine eq_of_sorted ((pairwise_key_mergeSort key l).filter p)
    (pairwise_key_mergeSort key _) fun k => ?_
  rw [filter_key_mergeSort, List.filter_comm, filter_key_mergeSort, List.filter_comm]

/-- A filter that holds of all or none of the elements that replace one element. -/
theorem filter_flatMap {f : α → List β} {p : β → Bool} {q : α → Bool} {l : List α}
    (h : ∀ a ∈ l, ∀ b ∈ f a, p b = q a) : (l.flatMap f).filter p = (l.filter q).flatMap f := by
  induction l with
  | nil => rfl
  | cons a rest ih =>
    have hrest := ih fun b hb => h b (List.mem_cons_of_mem a hb)
    have ha := h a List.mem_cons_self
    rw [List.flatMap_cons, List.filter_append, hrest, List.filter_cons]
    cases hq : q a with
    | true =>
      rw [if_pos rfl, List.flatMap_cons, List.filter_eq_self.2]
      intro b hb
      rw [ha b hb, hq]
    | false =>
      rw [if_neg Bool.false_ne_true, List.filter_eq_nil_iff.2, List.nil_append]
      intro b hb
      rw [ha b hb, hq]
      exact Bool.false_ne_true

/-- A stable sort may be done before or after every element is replaced by elements of its key. -/
theorem mergeSort_flatMap (keyα : α → Int) (keyβ : β → Int) (f : α → List β) (l : List α)
    (hf : ∀ a ∈ l, ∀ b ∈ f a, keyβ b = keyα a) :
    ((l.flatMap f).mergeSort fun a b => keyβ a ≤ keyβ b) =
      (l.mergeSort fun a b => keyα a ≤ keyα b).flatMap f := by
  refine @eq_of_sorted _ keyβ _ _ (pairwise_key_mergeSort keyβ _) ?_ fun k => ?_
  · rw [List.pairwise_flatMap]
    constructor
    · intro a ha
      have ha := List.mem_mergeSort.1 ha
      rw [List.pairwise_iff_forall_sublist]
      intro b c hbc
      rw [hf a ha b (hbc.subset (by simp)), hf a ha c (hbc.subset (by simp))]
    · refine (pairwise_key_mergeSort keyα l).imp_of_mem ?_
      intro a b ha hb hab c hc d hd
      rw [hf a (List.mem_mergeSort.1 ha) c hc, hf b (List.mem_mergeSort.1 hb) d hd]
      exact hab
  · have hkeys : ∀ a ∈ l, ∀ b ∈ f a, decide (keyβ b = k) = decide (keyα a = k) := by
      intro a ha b hb
      rw [hf a ha b hb]
    rw [filter_key_mergeSort, filter_flatMap hkeys,
      filter_flatMap fun a ha => hkeys a (List.mem_mergeSort.1 ha), filter_key_mergeSort]

/-- If all keys differ, the sorted list does not depend on the order of the input. -/
theorem mergeSort_eq_of_perm {key : α → Int} {l m : List α} (hperm : l.Perm m)
    (hnodup : (l.map key).Nodup) :
    (l.mergeSort fun a b => key a ≤ key b) = m.mergeSort fun a b => key a ≤ key b := by
  refine List.Perm.eq_of_pairwise ?_ (pairwise_key_mergeSort key l) (pairwise_key_mergeSort key m)
    (((List.mergeSort_perm l _).trans hperm).trans (List.mergeSort_perm m _).symm)
  intro a b ha hb hab hba
  exact List.inj_on_of_nodup_map hnodup (List.mem_mergeSort.1 ha)
    (hperm.mem_iff.2 (List.mem_mergeSort.1 hb)) (Int.le_antisymm hab hba)

end UnusedImports.Sorting
