import UnusedImports.Text

/-!
# Texts that are cut and joined

Cutting a text at a character gives pieces without it (`Text.not_mem_of_mem_cutAt`), and cuts the
texts around the character for themselves (`Text.cutAt_append_cons`). Pieces that are joined with
the character are cut into the pieces again (`Text.cutAt_join`).
-/

set_option autoImplicit false

namespace UnusedImports.Text

variable {c : Char}

/-- Joined texts are the first one, and the others with the separator in front of them. -/
theorem join_cons (separator t : Text) (ts : List Text) :
    join separator (t :: ts) = t ++ ts.flatMap fun u => separator ++ u := by
  induction ts generalizing t with
  | nil => exact (List.append_nil t).symm
  | cons u ts ih => rw [join, ih, List.flatMap_cons, List.append_assoc, List.append_assoc]

/-- A text of pieces with cuts between them is cut into the pieces. -/
theorem cutAt_pieces {t : Text} {ts : List Text} (ht : c ∉ t) (hts : ∀ u ∈ ts, c ∉ u) :
    (t ++ ts.flatMap fun u => c :: u).cutAt c = t :: ts := by
  induction ts generalizing t with
  | nil => rw [List.flatMap_nil, List.append_nil, cutAt_of_not_mem ht]
  | cons u ts ih =>
    rw [List.forall_mem_cons] at hts
    rw [List.flatMap_cons, List.cons_append, cutAt_append ht, ih hts.1 hts.2]

/-- Joined pieces are cut into the pieces. -/
theorem cutAt_join {ts : List Text} (hne : ts ≠ []) (hts : ∀ u ∈ ts, c ∉ u) :
    (join [c] ts).cutAt c = ts := by
  obtain ⟨t, ts, rfl⟩ := List.exists_cons_of_ne_nil hne
  rw [List.forall_mem_cons] at hts
  rw [join_cons]
  exact cutAt_pieces hts.1 hts.2

/-- Pieces that are joined in front of one more. -/
theorem join_concat (separator : Text) {ts : List Text} (hne : ts ≠ []) (t : Text) :
    join separator (ts ++ [t]) = join separator ts ++ (separator ++ t) := by
  obtain ⟨u, ts, rfl⟩ := List.exists_cons_of_ne_nil hne
  rw [List.cons_append, join_cons, join_cons, List.flatMap_append, List.flatMap_singleton,
    List.append_assoc]

theorem cutAt_ne_nil (t : Text) : t.cutAt c ≠ [] := by
  cases t with
  | nil => exact List.cons_ne_nil _ _
  | cons x rest =>
    rw [cutAt]
    split
    · exact List.cons_ne_nil _ _
    · split <;> exact List.cons_ne_nil _ _

/-- The texts around a cut are cut for themselves. -/
theorem cutAt_append_cons (a b : Text) : (a ++ c :: b).cutAt c = a.cutAt c ++ b.cutAt c := by
  induction a with
  | nil => simp [cutAt]
  | cons x rest ih =>
    obtain ⟨piece, others, hrest⟩ := List.exists_cons_of_ne_nil (cutAt_ne_nil (c := c) rest)
    rw [List.cons_append, cutAt, cutAt, ih, hrest]
    split <;> rfl

/-- No piece has a character at which the text is cut. -/
theorem not_mem_of_mem_cutAt {t w : Text} (h : w ∈ t.cutAt c) : c ∉ w := by
  induction t generalizing w with
  | nil =>
    rw [List.mem_singleton.1 h]
    exact List.not_mem_nil
  | cons x rest ih =>
    obtain ⟨piece, others, hrest⟩ := List.exists_cons_of_ne_nil (cutAt_ne_nil (c := c) rest)
    rw [hrest] at ih
    rw [cutAt, hrest] at h
    split at h
    · rcases List.mem_cons.1 h with rfl | h
      · exact List.not_mem_nil
      · exact ih h
    · rename_i hx
      rcases List.mem_cons.1 h with rfl | h
      · rw [List.mem_cons, not_or]
        exact ⟨Ne.symm hx, ih List.mem_cons_self⟩
      · exact ih (List.mem_cons_of_mem piece h)

end UnusedImports.Text
