import Mathlib.Data.List.Basic
import Mathlib.Data.List.Perm.Basic

/-!
# Grouping by a key

`grouped key l` lists the elements of `l` key by key, in the order in which the keys first occur.
It has the same elements as `l` (`grouped_perm`), and it is `l` itself if the elements of every key
stand together (`grouped_eq_self`).
-/

set_option autoImplicit false

namespace UnusedImports.Grouping

variable {α : Type}

/-- The elements of a list, key by key. -/
def grouped (key : α → Int) (l : List α) : List α :=
  (l.map key).eraseDups.flatMap fun k => l.filter (key · = k)

/-- Between two elements of one key there are only elements of this key. -/
def Together (key : α → Int) (l : List α) : Prop :=
  ∀ a b c, [a, b, c].Sublist l → key a = key c → key b = key a

variable {key : α → Int}

/-- Erasing duplicates leaves none. -/
theorem nodup_eraseDups (l : List Int) : l.eraseDups.Nodup := by
  induction hn : l.length using Nat.strongRecOn generalizing l with
  | ind n ih =>
    cases l with
    | nil => exact List.nodup_nil
    | cons a rest =>
      rw [List.eraseDups_cons, List.nodup_cons]
      constructor
      · simp [List.mem_eraseDups]
      · refine ih _ ?_ _ rfl
        rw [← hn, List.length_cons]
        exact Nat.lt_succ_of_le (List.length_filter_le _ rest)

/-- If all keys differ, one element has the key of `a`. -/
theorem filter_key_eq_singleton {l : List α} (h : (l.map key).Nodup) {a : α} (ha : a ∈ l) :
    (l.filter fun b => key b = key a) = [a] := by
  induction l with
  | nil => exact absurd ha List.not_mem_nil
  | cons b rest ih =>
    rw [List.map_cons, List.nodup_cons] at h
    rcases List.mem_cons.1 ha with rfl | ha
    · rw [List.filter_cons_of_pos (by simp), List.filter_eq_nil_iff.2]
      intro c hc
      have hne : key c ≠ key a := fun heq => h.1 (heq ▸ List.mem_map_of_mem hc)
      simpa using hne
    · have hne : key b ≠ key a := fun heq => h.1 (heq ▸ List.mem_map_of_mem ha)
      rw [List.filter_cons_of_neg (by simpa using hne), ih h.2 ha]

/-- Elements for which nothing is listed can be left out. -/
theorem flatMap_filter {β : Type} {f : α → List β} {p : α → Bool} {l : List α}
    (h : ∀ a ∈ l, p a = false → f a = []) : (l.filter p).flatMap f = l.flatMap f := by
  induction l with
  | nil => rfl
  | cons a rest ih =>
    have hrest := ih fun b hb => h b (List.mem_cons_of_mem a hb)
    rw [List.filter_cons, List.flatMap_cons]
    cases hp : p a with
    | true => rw [if_pos rfl, List.flatMap_cons, hrest]
    | false => rw [if_neg Bool.false_ne_true, hrest, h a List.mem_cons_self hp, List.nil_append]

/-- The group of the first element comes first. -/
theorem grouped_cons (a : α) (rest : List α) :
    grouped key (a :: rest) =
      a :: rest.filter (key · = key a) ++ grouped key (rest.filter (key · ≠ key a)) := by
  -- erasing the duplicates of the first key leaves the keys of the elements of other keys
  have hkeys : (rest.map key).filter (fun k => !k == key a) =
      (rest.filter (key · ≠ key a)).map key := by
    rw [List.filter_map]
    congr 1
    refine List.filter_congr fun b _ => ?_
    by_cases hb : key b = key a <;> simp [hb]
  have hothers : ∀ k ∈ ((rest.filter (key · ≠ key a)).map key).eraseDups,
      (a :: rest).filter (key · = k) = (rest.filter (key · ≠ key a)).filter (key · = k) := by
    intro k hk
    rw [List.mem_eraseDups] at hk
    obtain ⟨b, hb, rfl⟩ := List.mem_map.1 hk
    have hne : key b ≠ key a := by simpa using (List.mem_filter.1 hb).2
    rw [List.filter_cons_of_neg (by simpa using Ne.symm hne), List.filter_filter]
    refine List.filter_congr fun c _ => ?_
    by_cases hc : key c = key b <;> simp [hc, hne]
  rw [grouped, List.map_cons, List.eraseDups_cons, hkeys, List.flatMap_cons,
    List.flatMap_congr hothers, List.filter_cons_of_pos (by simp)]
  rfl

/-- Grouping a list rearranges it. -/
theorem grouped_perm (key : α → Int) (l : List α) : (grouped key l).Perm l := by
  induction hn : l.length using Nat.strongRecOn generalizing l with
  | ind n ih =>
    cases l with
    | nil => exact List.Perm.refl _
    | cons a rest =>
      have hrest := ih (rest.filter (key · ≠ key a)).length (by
        rw [← hn, List.length_cons]
        exact Nat.lt_succ_of_le (List.length_filter_le _ rest)) (rest.filter (key · ≠ key a)) rfl
      have hsplit := List.filter_append_perm (fun b => decide (key b = key a)) rest
      rw [grouped_cons, List.cons_append]
      refine List.Perm.cons a ((hrest.append_left _).trans ?_)
      simpa using hsplit

theorem Together.tail {a : α} {l : List α} (h : Together key (a :: l)) : Together key l :=
  fun b c d hsub hkey => h b c d (hsub.cons a) hkey

/-- If the elements of every key stand together, the group of the first element is a front part. -/
theorem Together.filter_append {a : α} {l : List α} (h : Together key (a :: l)) :
    l.filter (key · = key a) ++ l.filter (key · ≠ key a) = l := by
  induction l with
  | nil => rfl
  | cons b rest ih =>
    by_cases hb : key b = key a
    · have hrest : Together key (a :: rest) := by
        intro c d e hsub hkey
        exact h c d e (hsub.trans ((List.Sublist.refl rest).cons b |>.cons_cons a)) hkey
      rw [List.filter_cons_of_pos (by simpa using hb), List.filter_cons_of_neg (by simpa using hb),
        List.cons_append, ih hrest]
    · -- the group of `a` has ended: a later element of it would enclose `b`
      have hnone : (b :: rest).filter (key · = key a) = [] := by
        rw [List.filter_eq_nil_iff]
        intro c hc hkey
        rw [decide_eq_true_eq] at hkey
        rcases List.mem_cons.1 hc with rfl | hc
        · exact hb hkey
        · have hsub : [a, b, c].Sublist (a :: b :: rest) :=
            ((List.singleton_sublist.2 hc).cons_cons b).cons_cons a
          exact hb (h a b c hsub hkey.symm)
      have hall : (b :: rest).filter (key · ≠ key a) = b :: rest := by
        rw [List.filter_eq_self]
        intro c hc
        have hne : ¬ decide (key c = key a) = true :=
          fun hkey => List.filter_eq_nil_iff.1 hnone c hc hkey
        simpa using hne
      rw [hnone, hall, List.nil_append]

/-- A list in which the elements of every key stand together is not rearranged. -/
theorem grouped_eq_self {l : List α} (h : Together key l) : grouped key l = l := by
  induction hn : l.length using Nat.strongRecOn generalizing l with
  | ind n ih =>
    cases l with
    | nil => rfl
    | cons a rest =>
      have hfilter : Together key (rest.filter (key · ≠ key a)) :=
        fun b c d hsub hkey => h.tail b c d (hsub.trans List.filter_sublist) hkey
      have hrest := ih (rest.filter (key · ≠ key a)).length (by
        rw [← hn, List.length_cons]
        exact Nat.lt_succ_of_le (List.length_filter_le _ rest)) hfilter rfl
      rw [grouped_cons, hrest, List.cons_append, h.filter_append]

end UnusedImports.Grouping
