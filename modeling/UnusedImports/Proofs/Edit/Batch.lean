import UnusedImports.Edit
import Mathlib.Data.List.Sort

/-!
# Batches of edits that can be applied

Two edits are apart if one stops before the other starts. A batch is accepted exactly if all its
edits lie in the text and are apart from each other (`applyAll_ok_iff`); the order of the batch
plays no part in it. `Edit.Tiled lo hi es` says of a list of edits that they follow one another
from `lo` up to `hi`, which is how batches that are apart are put together.
-/

set_option autoImplicit false

namespace UnusedImports.Edit

/-- One of the edits stops before the other starts. -/
def Apart (a b : Edit) : Prop :=
  a.stop ≤ b.start ∨ b.stop ≤ a.start

theorem Apart.symm {a b : Edit} (h : Apart a b) : Apart b a :=
  Or.symm h

theorem le_iff {a b : Edit} :
    le a b = true ↔ a.start < b.start ∨ (a.start = b.start ∧ a.stop ≤ b.stop) := by
  simp [le]

theorem trans_le (a b c : Edit) (hab : le a b = true) (hbc : le b c = true) : le a c = true := by
  rw [le_iff] at hab hbc ⊢
  omega

theorem total_le (a b : Edit) : (le a b || le b a) = true := by
  rw [Bool.or_eq_true, le_iff, le_iff]
  omega

/-- A sorted batch is in order. -/
theorem pairwise_inOrder (es : List Edit) : (inOrder es).Pairwise fun a b => le a b = true :=
  List.pairwise_mergeSort trans_le total_le es

theorem inOrder_perm (es : List Edit) : (inOrder es).Perm es :=
  List.mergeSort_perm es le

/-! ## The check -/

/-- A sorted batch has no fault if its edits lie in the text and follow one another. -/
theorem fault?_eq_none_iff {length : Nat} (previous : Option Edit) (es : List Edit) :
    fault? length previous es = none ↔
      (∀ e ∈ es, e.Within length) ∧ (∀ p ∈ previous, ∀ e ∈ es, p.stop ≤ e.start) ∧
        es.Pairwise fun a b => a.stop ≤ b.start := by
  induction es generalizing previous with
  | nil => simp [fault?]
  | cons e rest ih =>
    by_cases hwithin : e.Within length
    · have hrest := ih (some e)
      have hnext : fault? length previous (e :: rest) = none ↔
          (∀ p ∈ previous, p.stop ≤ e.start) ∧ fault? length (some e) rest = none := by
        cases previous with
        | none => simp [fault?, hwithin]
        | some p =>
          by_cases hoverlap : e.start < p.stop
          · simp [fault?, hwithin, hoverlap]
          · simp [fault?, hwithin, hoverlap, Int.not_lt.1 hoverlap]
      rw [hnext, hrest, List.pairwise_cons]
      constructor
      · -- what starts behind `e` starts behind the edit in front of `e` as well
        rintro ⟨hprevious, hin, hafter, hpairs⟩
        refine ⟨List.forall_mem_cons.2 ⟨hwithin, hin⟩, fun p hp => ?_, hafter e rfl, hpairs⟩
        have hstop := hprevious p hp
        refine List.forall_mem_cons.2 ⟨hstop, fun f hf => ?_⟩
        exact hstop.trans (hwithin.2.1.trans (hafter e rfl f hf))
      · rintro ⟨hin, hprevious, hafter, hpairs⟩
        refine ⟨fun p hp => hprevious p hp e List.mem_cons_self,
          fun f hf => hin f (List.mem_cons_of_mem e hf), ?_, hpairs⟩
        rintro p hp
        cases hp
        exact hafter
    · have hfault : fault? length previous (e :: rest) ≠ none := by
        cases previous <;> simp [fault?, hwithin]
      exact iff_of_false hfault fun h => hwithin (h.1 e List.mem_cons_self)

/-- Edits in order that lie in the text follow one another exactly if they are apart. -/
theorem pairwise_stop_le_start_iff {length : Nat} {es : List Edit}
    (hwithin : ∀ e ∈ es, e.Within length) (hsorted : es.Pairwise fun a b => le a b = true) :
    (es.Pairwise fun a b => a.stop ≤ b.start) ↔ es.Pairwise Apart := by
  constructor
  · exact fun h => h.imp Or.inl
  · intro h
    refine (h.and hsorted).imp_of_mem ?_
    rintro a b ha hb ⟨hapart, hle⟩
    rw [le_iff] at hle
    have hab := (hwithin a ha).2.1
    have hbb := (hwithin b hb).2.1
    rcases hapart with hapart | hapart
    · exact hapart
    · -- `b` stops before `a` starts, and yet comes behind it: both are empty
      omega

/-- What a batch without a fault does. -/
theorem applyAll_eq_ok {t : Text} {es : List Edit}
    (h : fault? t.length none (inOrder es) = none) :
    applyAll t es = .ok ((inOrder es).foldr apply t) := by
  rw [applyAll, check, h]
  rfl

/-- A batch can be applied exactly if its edits lie in the text and are apart. -/
theorem applyAll_ok_iff {t : Text} {es : List Edit} :
    (∃ t', applyAll t es = .ok t') ↔ (∀ e ∈ es, e.Within t.length) ∧ es.Pairwise Apart := by
  have hcheck : (∃ t', applyAll t es = .ok t') ↔ fault? t.length none (inOrder es) = none := by
    constructor
    · rintro ⟨t', h⟩
      rw [applyAll, check] at h
      cases hfault : fault? t.length none (inOrder es) with
      | none => rfl
      | some refusal =>
        rw [hfault] at h
        cases h
    · exact fun h => ⟨_, applyAll_eq_ok h⟩
  have hperm := inOrder_perm es
  have hwithin : (∀ e ∈ inOrder es, e.Within t.length) ↔ ∀ e ∈ es, e.Within t.length :=
    forall_congr' fun e => imp_congr_left hperm.mem_iff
  rw [hcheck, fault?_eq_none_iff, hwithin]
  constructor
  · rintro ⟨hin, -, hpairs⟩
    have hapart := (pairwise_stop_le_start_iff (hwithin.2 hin) (pairwise_inOrder es)).1 hpairs
    exact ⟨hin, (hperm.pairwise_iff Apart.symm).1 hapart⟩
  · rintro ⟨hin, hapart⟩
    refine ⟨hin, by simp, ?_⟩
    rw [pairwise_stop_le_start_iff (hwithin.2 hin) (pairwise_inOrder es)]
    exact (hperm.pairwise_iff Apart.symm).2 hapart

/-- A batch of one edit that lies in the text. -/
theorem applyAll_singleton {t : Text} {e : Edit} (h : e.Within t.length) :
    applyAll t [e] = .ok (apply e t) := by
  have hinOrder : inOrder [e] = [e] := List.mergeSort_singleton e
  have hfault : fault? t.length none (inOrder [e]) = none := by
    rw [hinOrder]
    simp [fault?, h]
  rw [applyAll_eq_ok hfault, hinOrder]
  rfl

/-! ## Edits that follow one another -/

/-- The edits follow one another from `lo` up to `hi`. -/
def Tiled (lo hi : Int) : List Edit → Prop
  | [] => lo ≤ hi
  | e :: rest => lo ≤ e.start ∧ e.start ≤ e.stop ∧ Tiled e.stop hi rest

namespace Tiled

variable {lo mid hi : Int} {es ds : List Edit}

theorem bounds (h : Tiled lo hi es) : lo ≤ hi := by
  induction es generalizing lo with
  | nil => exact h
  | cons e rest ih => exact h.1.trans (h.2.1.trans (ih h.2.2))

theorem singleton {e : Edit} (hlo : lo ≤ e.start) (he : e.start ≤ e.stop) (hhi : e.stop ≤ hi) :
    Tiled lo hi [e] :=
  ⟨hlo, he, hhi⟩

theorem mono_left {lo' : Int} (h : Tiled lo hi es) (hlo : lo' ≤ lo) : Tiled lo' hi es := by
  cases es with
  | nil => exact hlo.trans h
  | cons e rest => exact ⟨hlo.trans h.1, h.2⟩

theorem mono_right {hi' : Int} (h : Tiled lo hi es) (hhi : hi ≤ hi') : Tiled lo hi' es := by
  induction es generalizing lo with
  | nil => exact Int.le_trans h hhi
  | cons e rest ih => exact ⟨h.1, h.2.1, ih h.2.2⟩

theorem append (h : Tiled lo mid es) (h' : Tiled mid hi ds) : Tiled lo hi (es ++ ds) := by
  induction es generalizing lo with
  | nil => exact h'.mono_left h
  | cons e rest ih => exact ⟨h.1, h.2.1, ih h.2.2⟩

/-- Every edit lies between the two ends. -/
theorem mem_bounds (h : Tiled lo hi es) {e : Edit} (he : e ∈ es) :
    lo ≤ e.start ∧ e.start ≤ e.stop ∧ e.stop ≤ hi := by
  induction es generalizing lo with
  | nil => exact absurd he List.not_mem_nil
  | cons f rest ih =>
    rcases List.mem_cons.1 he with rfl | he
    · exact ⟨h.1, h.2.1, h.2.2.bounds⟩
    · obtain ⟨hstart, hrest⟩ := ih h.2.2 he
      exact ⟨h.1.trans (h.2.1.trans hstart), hrest⟩

theorem pairwise_stop_le_start (h : Tiled lo hi es) :
    es.Pairwise fun a b => a.stop ≤ b.start := by
  induction es generalizing lo with
  | nil => exact List.Pairwise.nil
  | cons e rest ih =>
    exact List.pairwise_cons.2 ⟨fun f hf => (h.2.2.mem_bounds hf).1, ih h.2.2⟩

/-- Edits that follow one another are apart. -/
theorem pairwise_apart (h : Tiled lo hi es) : es.Pairwise Apart :=
  h.pairwise_stop_le_start.imp Or.inl

/-- Edits that follow one another are in order. -/
theorem inOrder_eq (h : Tiled lo hi es) : inOrder es = es := by
  refine List.mergeSort_of_pairwise ((h.pairwise_stop_le_start).imp_of_mem ?_)
  intro a b ha hb hab
  have hwidth := (h.mem_bounds ha).2.1
  have hwidth' := (h.mem_bounds hb).2.1
  rw [le_iff]
  omega

/-- Edits that follow one another and replace something are sorted in one way only. -/
theorem inOrder_of_perm (h : Tiled lo hi es) (hproper : ∀ e ∈ es, e.start < e.stop)
    (hperm : ds.Perm es) : inOrder ds = es := by
  have hstarts : es.Pairwise fun a b => a.start < b.start :=
    h.pairwise_stop_le_start.imp_of_mem fun ha _ hab => Int.lt_of_lt_of_le (hproper _ ha) hab
  have hsorted : es.Pairwise fun a b => le a b = true :=
    hstarts.imp fun hab => le_iff.2 (Or.inl hab)
  have hnodup : (es.map Edit.start).Nodup :=
    List.pairwise_map.2 (hstarts.imp fun hab => Int.ne_of_lt hab)
  have hmem := (inOrder_perm ds).trans hperm
  refine List.Perm.eq_of_pairwise ?_ (pairwise_inOrder ds) hsorted hmem
  intro a b ha hb hab hba
  rw [le_iff] at hab hba
  exact List.inj_on_of_nodup_map hnodup (hmem.mem_iff.1 ha) hb (by omega)

end Tiled

end UnusedImports.Edit
