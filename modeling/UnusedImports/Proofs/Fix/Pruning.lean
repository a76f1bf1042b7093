import UnusedImports.Fix
import Mathlib.Data.List.Perm.Basic

/-!
# Pruning a list with separators

The clauses of a statement and the selectors between braces are pruned in the same way: a member
that goes is deleted up to the next one, and when the last members go, the separator after the
last one that stays goes as well. `Pruning.edits` lists the edits in the order of the source.

Fixes come in another order, one member after the other, with the separator at the very end
(`Pruning.inTurn`). The two lists have the same edits (`inTurn_perm_edits`).
-/

set_option autoImplicit false

namespace UnusedImports.Fix

variable {α : Type}

/-- How the members of a list with separators are edited. -/
structure Pruning (α : Type) where
  /-- The member stays. -/
  alive : α → Bool
  /-- The edits inside a member that stays. -/
  own : α → List Edit
  /-- Delete a member up to the next one. -/
  cut : α → α → Edit
  /-- Delete the separator behind the last member that stays, up to the next member. -/
  bridge : α → α → Edit
  /-- Delete the last member of the list; `close kept a` deletes `a` if `kept` is the last member
  that stays. -/
  close : α → α → Edit

namespace Pruning

variable (p : Pruning α)

/-- The edits that delete all members of a list, the last members behind `kept`. -/
def tailEdits (kept : α) : List α → List Edit
  | [] => []
  | [a] => [p.close kept a]
  | a :: b :: rest => p.cut a b :: tailEdits kept (b :: rest)

/-- The edits that delete everything behind the last member that stays. -/
def afterLast (kept : α) : List α → List Edit
  | [] => []
  | a :: rest => p.bridge kept a :: p.tailEdits kept (a :: rest)

/-- The edits of a list of which something stays, in the order of the source. -/
def edits : List α → List Edit
  | [] => []
  | a :: rest =>
    if p.alive a then
      p.own a ++ if rest.any p.alive then edits rest else p.afterLast a rest
    else
      match rest with
      | [] => []
      | b :: _ => p.cut a b :: edits rest

/-- The edits for the member `a` in front of `rest`, where `final` lists the edits for a last member
that goes. -/
def turn (final : α → List Edit) (a : α) (rest : List α) : List Edit :=
  if p.alive a then p.own a
  else
    match rest with
    | [] => final a
    | b :: _ => [p.cut a b]

/-- The edits in the order of the members, where `final` lists the edits for a last member that
goes. -/
def inTurn (final : α → List Edit) : List α → List Edit
  | [] => []
  | a :: rest =>
    (if p.alive a then p.own a
    else
      match rest with
      | [] => final a
      | b :: _ => [p.cut a b]) ++ inTurn final rest

variable {p}

theorem edits_cons_alive {a : α} {rest : List α} (ha : p.alive a = true) :
    p.edits (a :: rest) =
      p.own a ++ if rest.any p.alive then p.edits rest else p.afterLast a rest := by
  simp only [edits, ha, if_true]

theorem edits_cons_cons_dead {a b : α} {rest : List α} (ha : p.alive a = false) :
    p.edits (a :: b :: rest) = p.cut a b :: p.edits (b :: rest) := by
  simp only [edits, ha, Bool.false_eq_true, if_false]

theorem inTurn_cons (final : α → List Edit) (a : α) (rest : List α) :
    p.inTurn final (a :: rest) = p.turn final a rest ++ p.inTurn final rest := rfl

theorem turn_of_alive {final : α → List Edit} {a : α} {rest : List α} (ha : p.alive a = true) :
    p.turn final a rest = p.own a := by
  simp only [turn, ha, if_true]

theorem turn_of_dead {final : α → List Edit} {a : α} {rest : List α} (ha : p.alive a = false) :
    p.turn final a rest =
      match rest with
      | [] => final a
      | b :: _ => [p.cut a b] := by
  simp only [turn, ha, Bool.false_eq_true, if_false]

theorem inTurn_cons_alive {final : α → List Edit} {a : α} {rest : List α}
    (ha : p.alive a = true) : p.inTurn final (a :: rest) = p.own a ++ p.inTurn final rest := by
  cases rest <;> simp only [inTurn, ha, if_true]

theorem inTurn_singleton_dead {final : α → List Edit} {a : α} (ha : p.alive a = false) :
    p.inTurn final [a] = final a := by
  simp [inTurn, ha]

theorem inTurn_cons_cons_dead {final : α → List Edit} {a b : α} {rest : List α}
    (ha : p.alive a = false) :
    p.inTurn final (a :: b :: rest) = p.cut a b :: p.inTurn final (b :: rest) := by
  simp [inTurn, ha]

/-- A list from which nothing goes and in which nothing is edited has no edits. -/
theorem edits_eq_nil {l : List α} (h : ∀ a ∈ l, p.alive a = true ∧ p.own a = []) :
    p.edits l = [] := by
  induction l with
  | nil => rfl
  | cons a rest ih =>
    have hrest := fun b hb => h b (List.mem_cons_of_mem a hb)
    obtain ⟨halive, hown⟩ := h a List.mem_cons_self
    rw [edits_cons_alive halive, hown, ih hrest, List.nil_append]
    cases rest with
    | nil => rfl
    | cons b rest => simp [(hrest b List.mem_cons_self).1]

/-- A list from which nothing goes and in which nothing is edited has no edits in turn. -/
theorem inTurn_eq_nil {final : α → List Edit} {l : List α}
    (h : ∀ a ∈ l, p.alive a = true ∧ p.own a = []) : p.inTurn final l = [] := by
  induction l with
  | nil => rfl
  | cons a rest ih =>
    obtain ⟨halive, hown⟩ := h a List.mem_cons_self
    rw [inTurn_cons_alive halive, hown, List.nil_append,
      ih fun b hb => h b (List.mem_cons_of_mem a hb)]

/-! ## Members that are left alone -/

/-- The pruning that leaves the members with `muted` alone. -/
def mute (p : Pruning α) (muted : α → Bool) : Pruning α where
  alive a := muted a || p.alive a
  own a := if muted a then [] else p.own a
  cut := p.cut
  bridge := p.bridge
  close := p.close

/-- A member that is left alone has no edits, and any other one has its own. -/
theorem turn_mute {muted : α → Bool} {final : α → List Edit} (a : α) (rest : List α) :
    (p.mute muted).turn final a rest = if muted a then [] else p.turn final a rest := by
  cases hmuted : muted a with
  | true => simp [turn, mute, hmuted]
  | false => simp [turn, mute, hmuted]

/-! ## Prunings that agree -/

/-- A member is edited as its image is. -/
structure Agrees {β : Type} (p : Pruning α) (q : Pruning β) (f : α → β) (a : α) : Prop where
  alive : p.alive a = q.alive (f a)
  own : p.own a = q.own (f a)
  cut : ∀ b, p.cut a b = q.cut (f a) (f b)
  bridge : ∀ b, p.bridge a b = q.bridge (f a) (f b)
  close : ∀ kept, p.close kept a = q.close (f kept) (f a)

/-- A list is edited as the list of the images of its members is. -/
theorem edits_map {β : Type} {q : Pruning β} {f : α → β} {l : List α}
    (h : ∀ a ∈ l, Agrees p q f a) : p.edits l = q.edits (l.map f) := by
  have htail : ∀ (kept : α) (l : List α), (∀ a ∈ l, Agrees p q f a) →
      p.tailEdits kept l = q.tailEdits (f kept) (l.map f) := by
    intro kept l hl
    induction l with
    | nil => rfl
    | cons a rest ih =>
      have ha := hl a List.mem_cons_self
      have hrest := ih fun b hb => hl b (List.mem_cons_of_mem a hb)
      cases rest with
      | nil => simp [tailEdits, ha.close]
      | cons b rest =>
        rw [tailEdits, hrest, ha.cut]
        rfl
  induction l with
  | nil => rfl
  | cons a rest ih =>
    have ha := h a List.mem_cons_self
    have hrest := fun b hb => h b (List.mem_cons_of_mem a hb)
    have hany : rest.any p.alive = (rest.map f).any q.alive := by
      rw [List.any_map, Bool.eq_iff_iff, List.any_eq_true, List.any_eq_true]
      exact exists_congr fun b => and_congr_right fun hb => by
        rw [(hrest b hb).alive, Function.comp_apply]
    rw [List.map_cons]
    cases halive : p.alive a with
    | true =>
      rw [edits_cons_alive halive, edits_cons_alive (ha.alive.symm.trans halive), ← ha.own,
        ih hrest, hany]
      cases rest with
      | nil => rfl
      | cons b rest =>
        rw [afterLast, htail a (b :: rest) hrest, ha.bridge]
        rfl
    | false =>
      have hdead : q.alive (f a) = false := ha.alive.symm.trans halive
      cases rest with
      | nil => simp [edits, halive, hdead]
      | cons b rest =>
        rw [edits_cons_cons_dead halive, ih hrest, ha.cut, List.map_cons,
          edits_cons_cons_dead hdead]

/-- A first member can be replaced by another one that is edited in the same way. -/
theorem edits_cons_congr {a a' : α} (halive : p.alive a = p.alive a') (hown : p.own a = p.own a')
    (hcut : p.cut a = p.cut a') (hbridge : p.bridge a = p.bridge a')
    (hclose : p.close a = p.close a') (rest : List α) :
    p.edits (a :: rest) = p.edits (a' :: rest) := by
  have htail : ∀ l : List α, p.tailEdits a l = p.tailEdits a' l := by
    intro l
    induction l with
    | nil => rfl
    | cons b rest ih =>
      cases rest with
      | nil => rw [tailEdits, tailEdits, hclose]
      | cons d rest => rw [tailEdits, tailEdits, ih]
  cases rest with
  | nil => simp [edits, afterLast, halive, hown]
  | cons b rest => simp only [edits, afterLast, halive, hown, hcut, hbridge, htail]

/-! ## The order of the members -/

/-- The members behind the last one that stays, one after the other. -/
theorem inTurn_perm_tailEdits {final : α → List Edit} {kept next : α} {l : List α} (hl : l ≠ [])
    (hdead : ∀ a ∈ l, p.alive a = false)
    (hfinal : ∀ a, l.getLast? = some a → final a = [p.bridge kept next, p.close kept a]) :
    (p.inTurn final l).Perm (p.bridge kept next :: p.tailEdits kept l) := by
  induction l with
  | nil => exact absurd rfl hl
  | cons a rest ih =>
    have ha : p.alive a = false := hdead a List.mem_cons_self
    cases rest with
    | nil =>
      rw [inTurn_singleton_dead ha, hfinal a rfl, tailEdits]
    | cons b rest =>
      have hrest := ih (List.cons_ne_nil b rest)
        (fun c hc => hdead c (List.mem_cons_of_mem a hc))
        (fun c hc => hfinal c (by rw [List.getLast?_cons_cons]; exact hc))
      rw [inTurn_cons_cons_dead ha, tailEdits]
      exact (hrest.cons (p.cut a b)).trans (List.Perm.swap _ _ _)

/-- The edits in the order of the members are the edits in the order of the source, if a last
member that goes brings the separator behind the last member that stays. -/
theorem inTurn_perm_edits {final : α → List Edit} {l : List α}
    (hlive : l.any p.alive = true)
    (hfinal : ∀ front kept next tail a, l = front ++ kept :: next :: tail →
      p.alive kept = true → (∀ b ∈ next :: tail, p.alive b = false) → l.getLast? = some a →
      final a = [p.bridge kept next, p.close kept a]) :
    (p.inTurn final l).Perm (p.edits l) := by
  induction l with
  | nil => exact List.Perm.refl _
  | cons a rest ih =>
    have ih : rest.any p.alive = true → (p.inTurn final rest).Perm (p.edits rest) := by
      intro hrest
      refine ih hrest fun front kept next tail b heq hkept htail hlast => ?_
      refine hfinal (a :: front) kept next tail b (by rw [heq, List.cons_append]) hkept htail ?_
      rw [List.getLast?_cons, hlast, Option.getD_some]
    cases ha : p.alive a with
    | true =>
      rw [inTurn_cons_alive ha, edits_cons_alive ha]
      refine List.Perm.append_left (p.own a) ?_
      by_cases hrest : rest.any p.alive = true
      · rw [if_pos hrest]
        exact ih hrest
      · -- the last member that stays: the separator moves from the end of the tail to its front
        rw [if_neg hrest]
        cases rest with
        | nil => exact List.Perm.refl _
        | cons b rest =>
          have hdead : ∀ c ∈ b :: rest, p.alive c = false := by
            simpa using hrest
          exact inTurn_perm_tailEdits (List.cons_ne_nil b rest) hdead fun c hc =>
            hfinal [] a b rest c rfl ha hdead (by rw [List.getLast?_cons_cons]; exact hc)
    | false =>
      rw [List.any_cons, ha, Bool.false_or] at hlive
      cases rest with
      | nil => simp at hlive
      | cons b rest =>
        rw [inTurn_cons_cons_dead ha, edits_cons_cons_dead ha]
        exact (ih hlive).cons (p.cut a b)

end Pruning

/-! ## The last member that stays -/

/-- The last place of a list where something holds, with what stands there. -/
theorem lastPlace?_append_cons {q : α → Bool} {front tail : List α} {k : α} (hk : q k = true)
    (htail : ∀ a ∈ tail, q a = false) :
    lastPlace? q (front ++ k :: tail) = some front.length := by
  have hfind : ((front ++ k :: tail).reverse).findIdx? q = some tail.length := by
    rw [List.reverse_append, List.reverse_cons, List.append_assoc, List.findIdx?_append]
    have hnone : tail.reverse.findIdx? q = none := by
      rw [List.findIdx?_eq_none_iff]
      intro a ha
      exact htail a (List.mem_reverse.1 ha)
    have hsome : (k :: front.reverse).findIdx? q = some 0 := by
      rw [List.findIdx?_cons, hk, if_pos rfl]
    simp [hnone, hsome]
  rw [lastPlace?, hfind, Option.map_some]
  congr 1
  simp only [List.length_append, List.length_cons]
  omega

/-- A list splits at the last member that stays. -/
theorem exists_last_alive {q : α → Bool} {l : List α} (h : l.any q = true) :
    ∃ front k tail, l = front ++ k :: tail ∧ q k = true ∧ ∀ a ∈ tail, q a = false := by
  induction l with
  | nil => simp at h
  | cons a rest ih =>
    by_cases hrest : rest.any q = true
    · obtain ⟨front, k, tail, rfl, hk, htail⟩ := ih hrest
      exact ⟨a :: front, k, tail, rfl, hk, htail⟩
    · refine ⟨[], a, rest, rfl, ?_, by simpa using hrest⟩
      simpa [List.any_cons, hrest] using h

end UnusedImports.Fix
