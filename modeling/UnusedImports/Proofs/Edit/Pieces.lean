import UnusedImports.Proofs.Edit.Batch

/-!
# Edited texts as pieces

A text that is edited is cut into pieces that are kept and pieces that are swapped for another
text. The swaps are a batch of edits (`Piece.cuts`), and applying this batch, in any order, puts the
new text of every piece in the place of its old one (`applyAll_cuts`).
-/

set_option autoImplicit false

namespace UnusedImports

/-- A piece of a text that is kept or swapped for another text. -/
inductive Piece where
  | keep (t : Text)
  | swap (old new : Text)

namespace Piece

/-- The text of a piece before the edits. -/
def before : Piece → Text
  | keep t => t
  | swap old _ => old

/-- The text of a piece after the edits. -/
def after : Piece → Text
  | keep t => t
  | swap _ new => new

/-- A swapped piece has a text. -/
def Proper : Piece → Prop
  | keep _ => True
  | swap old _ => old ≠ []

/-- A text that is kept is a proper list of pieces. -/
theorem proper_keep (t : Text) : ∀ p ∈ [keep t], p.Proper := by
  intro p hp
  rw [List.mem_singleton.1 hp]
  trivial

/-- A text that is swapped is a proper list of pieces, if there is one. -/
theorem proper_swap {old : Text} (h : old ≠ []) (new : Text) : ∀ p ∈ [swap old new], p.Proper := by
  intro p hp
  rw [List.mem_singleton.1 hp]
  exact h

/-- The text of a list of pieces before the edits. -/
def old (ps : List Piece) : Text :=
  ps.flatMap before

/-- The text of a list of pieces after the edits. -/
def new (ps : List Piece) : Text :=
  ps.flatMap after

/-- The edits of a list of pieces that stands at `offset`. -/
def cuts (offset : Nat) : List Piece → List Edit
  | [] => []
  | keep t :: rest => cuts (offset + t.length) rest
  | swap old new :: rest =>
    ⟨offset, (offset + old.length : Nat), new⟩ :: cuts (offset + old.length) rest

@[simp] theorem old_nil : old [] = [] := rfl

@[simp] theorem new_nil : new [] = [] := rfl

@[simp] theorem cuts_nil (offset : Nat) : cuts offset [] = [] := rfl

@[simp] theorem old_cons (p : Piece) (ps : List Piece) : old (p :: ps) = p.before ++ old ps := rfl

@[simp] theorem new_cons (p : Piece) (ps : List Piece) : new (p :: ps) = p.after ++ new ps := rfl

@[simp] theorem old_append (ps qs : List Piece) : old (ps ++ qs) = old ps ++ old qs :=
  List.flatMap_append

@[simp] theorem new_append (ps qs : List Piece) : new (ps ++ qs) = new ps ++ new qs :=
  List.flatMap_append

@[simp] theorem cuts_keep (offset : Nat) (t : Text) (ps : List Piece) :
    cuts offset (keep t :: ps) = cuts (offset + t.length) ps := rfl

@[simp] theorem cuts_swap (offset : Nat) (old new : Text) (ps : List Piece) :
    cuts offset (swap old new :: ps) =
      ⟨offset, (offset + old.length : Nat), new⟩ :: cuts (offset + old.length) ps := rfl

theorem cuts_append (offset : Nat) (ps qs : List Piece) :
    cuts offset (ps ++ qs) = cuts offset ps ++ cuts (offset + (old ps).length) qs := by
  induction ps generalizing offset with
  | nil => rfl
  | cons p rest ih =>
    cases p with
    | keep t =>
      rw [List.cons_append, cuts_keep, cuts_keep, ih, old_cons, before, List.length_append,
        Nat.add_assoc]
    | swap o n =>
      rw [List.cons_append, cuts_swap, cuts_swap, ih, old_cons, before, List.length_append,
        Nat.add_assoc, List.cons_append]

/-! ## Applying the edits -/

/-- The edits of a list of pieces follow one another. -/
theorem tiled_cuts (offset : Nat) (ps : List Piece) :
    Edit.Tiled offset (offset + (old ps).length : Nat) (cuts offset ps) := by
  induction ps generalizing offset with
  | nil => exact Int.le_refl _
  | cons p rest ih =>
    cases p with
    | keep t =>
      have hrest := ih (offset + t.length)
      rw [cuts_keep, old_cons, before, List.length_append, ← Nat.add_assoc]
      exact hrest.mono_left (Int.ofNat_le.2 (Nat.le_add_right _ _))
    | swap o n =>
      have hrest := ih (offset + o.length)
      rw [cuts_swap, old_cons, before, List.length_append, ← Nat.add_assoc]
      exact ⟨Int.le_refl _, Int.ofNat_le.2 (Nat.le_add_right _ _), hrest⟩

/-- Every edit of a list of pieces replaces something, if the pieces are proper. -/
theorem start_lt_stop_of_mem_cuts {offset : Nat} {ps : List Piece} (hps : ∀ p ∈ ps, p.Proper)
    {e : Edit} (he : e ∈ cuts offset ps) : e.start < e.stop := by
  induction ps generalizing offset with
  | nil => exact absurd he List.not_mem_nil
  | cons p rest ih =>
    have hrest := fun q hq => hps q (List.mem_cons_of_mem p hq)
    cases p with
    | keep t => exact ih hrest he
    | swap o n =>
      rcases List.mem_cons.1 he with rfl | he
      · have hne : o ≠ [] := hps _ List.mem_cons_self
        have hlength := List.length_pos_iff.2 hne
        dsimp only
        omega
      · exact ih hrest he

/-- The edits of proper pieces are sorted in one way only. -/
theorem inOrder_eq_cuts {offset : Nat} {ps : List Piece} (hps : ∀ p ∈ ps, p.Proper)
    {es : List Edit} (hperm : es.Perm (cuts offset ps)) : Edit.inOrder es = cuts offset ps :=
  (tiled_cuts offset ps).inOrder_of_perm (fun _ he => start_lt_stop_of_mem_cuts hps he) hperm

/-- Replacing every swapped piece. -/
theorem foldr_apply_cuts (front back : Text) (ps : List Piece) :
    (cuts front.length ps).foldr Edit.apply (front ++ old ps ++ back) =
      front ++ new ps ++ back := by
  -- the front grows by the old text of every piece, because the last edit is applied first
  induction ps generalizing front with
  | nil => rfl
  | cons p rest ih =>
    cases p with
    | keep t =>
      have hrest := ih (front ++ t)
      rw [List.length_append] at hrest
      simpa [before, after] using hrest
    | swap o n =>
      have hrest := ih (front ++ o)
      rw [List.length_append] at hrest
      rw [cuts_swap, List.foldr_cons, old_cons, new_cons, before, after]
      have hassoc : front ++ (o ++ old rest) ++ back = front ++ o ++ old rest ++ back := by
        simp only [List.append_assoc]
      rw [hassoc, hrest, Edit.apply]
      have htake : (front ++ o ++ new rest ++ back).take front.length = front := by
        simp only [List.append_assoc, List.take_left]
      have hdrop : (front ++ o ++ new rest ++ back).drop (front.length + o.length) =
          new rest ++ back := by
        rw [← List.length_append, List.append_assoc (front ++ o), List.drop_left]
      simp only [Int.toNat_natCast]
      rw [htake, hdrop]
      simp only [List.append_assoc]

/-- The edits of a text cut into proper pieces can be applied, and give the new text. -/
theorem applyAll_cuts {ps : List Piece} (hps : ∀ p ∈ ps, p.Proper) {es : List Edit}
    (hperm : es.Perm (cuts 0 ps)) : Edit.applyAll (old ps) es = .ok (new ps) := by
  have hinOrder := inOrder_eq_cuts hps hperm
  have htiled := tiled_cuts 0 ps
  rw [Nat.zero_add] at htiled
  have hfault : Edit.fault? (old ps).length none (Edit.inOrder es) = none := by
    rw [hinOrder, Edit.fault?_eq_none_iff]
    exact ⟨fun e he => htiled.mem_bounds he, by simp, htiled.pairwise_stop_le_start⟩
  have happly := foldr_apply_cuts [] [] ps
  rw [Edit.applyAll_eq_ok hfault, hinOrder]
  simpa using happly

end Piece

end UnusedImports
