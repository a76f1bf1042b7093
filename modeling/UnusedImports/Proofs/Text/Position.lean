import UnusedImports.Text.Position
import Mathlib.Data.List.Induction

/-!
# Lines and columns stand for offsets

A line feed ends a line, so a text is made of the pieces between its line feeds. What precedes an
offset consists of whole lines and of the beginning of the next one (`exists_rows`). So the place of
an offset is that line and the length of that beginning (`position_of_append`), and:

* the offset is where its line starts, plus its column (`offsetOf_position`);
* the column does not reach beyond its line (`column_le_length`);
* later offsets have later places (`before_position`).
-/

set_option autoImplicit false

namespace UnusedImports

/-- Places in the order of reading. -/
def Position.Before (p q : Position) : Prop :=
  p.line < q.line ∨ p.line = q.line ∧ p.column < q.column

namespace Text

/-- The lines of a text without their line feeds. -/
def rows (t : Text) : List Text :=
  t.cutAt '\n'

/-- A line with its line feed. -/
def closed (row : Text) : Text :=
  row ++ ['\n']

/-- The offset at which a line starts: behind all lines in front of it, each with its line feed. -/
def lineStart (t : Text) (line : Nat) : Nat :=
  ((t.rows.take (line - 1)).flatMap closed).length

/-- The offset that a place stands for. -/
def offsetOf (t : Text) (p : Position) : Int :=
  t.lineStart p.line + p.column

variable {t front back : Text} {offset : Int}

/-! ## The last line -/

theorem lastLine_append_of_not_mem (h : '\n' ∉ back) :
    (front ++ back).lastLine = front.lastLine ++ back := by
  have hback : ∀ c ∈ back.reverse, decide (c ≠ '\n') = true := by
    intro c hc
    rw [decide_eq_true_eq]
    rintro rfl
    exact h (List.mem_reverse.1 hc)
  rw [lastLine, List.reverse_append, List.takeWhile_append_of_pos hback, List.reverse_append,
    List.reverse_reverse, lastLine]

theorem lastLine_append_newline : (front ++ ['\n']).lastLine = [] := by
  rw [lastLine, List.reverse_append]
  rfl

theorem not_mem_lastLine : '\n' ∉ t.lastLine := by
  intro h
  have hkept := List.all_eq_true.1 (List.all_takeWhile (p := (· ≠ '\n'))) _ (List.mem_reverse.1 h)
  simp at hkept

/-- A text consists of whole lines, as many as it has line feeds, and of its last line. -/
theorem exists_rows (t : Text) :
    ∃ whole : List Text, t = whole.flatMap closed ++ t.lastLine ∧ (∀ row ∈ whole, '\n' ∉ row) ∧
      whole.length = t.count '\n' := by
  -- only the last character decides whether the last line is continued or a new one begins
  induction t using List.reverseRecOn with
  | nil => exact ⟨[], rfl, fun row h => absurd h List.not_mem_nil, rfl⟩
  | append_singleton front c ih =>
    obtain ⟨whole, hfront, hwhole, hlength⟩ := ih
    by_cases hc : c = '\n'
    · subst hc
      refine ⟨whole ++ [lastLine front], ?_, ?_, ?_⟩
      · rw [lastLine_append_newline, List.flatMap_append, List.append_nil]
        simp only [List.flatMap_cons, List.flatMap_nil, List.append_nil, closed]
        rw [← List.append_assoc, ← hfront]
      · intro row hrow
        rcases List.mem_append.1 hrow with h | h
        · exact hwhole row h
        · rw [List.mem_singleton.1 h]
          exact not_mem_lastLine
      · simp [hlength]
    · have hnew : '\n' ∉ [c] := by simpa using Ne.symm hc
      refine ⟨whole, ?_, hwhole, ?_⟩
      · rw [lastLine_append_of_not_mem hnew, ← List.append_assoc, ← hfront]
      · rw [hlength, List.count_append, List.count_eq_zero_of_not_mem hnew, Nat.add_zero]

/-! ## Cutting at line feeds -/

/-- Whole lines in front of a text are its first lines. -/
theorem rows_append {whole : List Text} (h : ∀ row ∈ whole, '\n' ∉ row) (t : Text) :
    rows (whole.flatMap closed ++ t) = whole ++ t.rows := by
  induction whole with
  | nil => rfl
  | cons row rest ih =>
    rw [List.forall_mem_cons] at h
    rw [List.flatMap_cons, closed, List.append_assoc, List.append_assoc, List.singleton_append,
      rows, cutAt_append h.1, ← rows, ih h.2, List.cons_append]

/-- The first line of a text that starts without a line feed. -/
theorem exists_rows_eq_cons (h : '\n' ∉ front) (back : Text) :
    ∃ rest others, (front ++ back).rows = (front ++ rest) :: others := by
  induction front with
  | nil =>
    cases back with
    | nil => exact ⟨[], [], rfl⟩
    | cons c back =>
      rw [List.nil_append, rows, cutAt]
      split
      · exact ⟨[], _, rfl⟩
      · split
        · exact ⟨_, _, rfl⟩
        · exact ⟨_, _, rfl⟩
  | cons c front ih =>
    rw [List.mem_cons, not_or] at h
    obtain ⟨rest, others, hrows⟩ := ih h.2
    refine ⟨rest, others, ?_⟩
    rw [rows] at hrows ⊢
    rw [List.cons_append, cutAt, if_neg (Ne.symm h.1), hrows]
    rfl

/-! ## Places -/

/-- The place of an offset is determined by what precedes it. -/
theorem position_of_append (hfront : (front.length : Int) = offset) :
    (front ++ back).position offset =
      { line := front.count '\n' + 1, column := front.lastLine.length } := by
  subst hfront
  have hmin : min (front.length : Int) ((front ++ back).length : Int) = front.length := by
    rw [List.length_append]
    omega
  have hbefore : (front ++ back).before front.length = front := by
    rw [before, reach, if_neg (by omega), Int.toNat_natCast, List.length_append,
      Nat.min_eq_left (by omega), List.take_left]
  have hle : front.lastLine.length ≤ front.length := by
    have hkept := (List.takeWhile_sublist (· ≠ '\n') (l := front.reverse)).length_le
    rw [List.length_reverse] at hkept
    rwa [lastLine, List.length_reverse]
  simp only [position, hmin, hbefore, Position.mk.injEq, true_and]
  omega

/-- Every offset inside a text cuts it. -/
theorem exists_append_of_le (hnonneg : 0 ≤ offset) (hle : offset ≤ t.length) :
    ∃ front back, t = front ++ back ∧ (front.length : Int) = offset := by
  refine ⟨t.take offset.toNat, t.drop offset.toNat, (List.take_append_drop _ _).symm, ?_⟩
  rw [List.length_take]
  omega

/-- Offsets beyond the end have the place of the end. -/
theorem position_of_length_le (h : t.length ≤ offset) :
    t.position offset = t.position t.length := by
  have hmin : min offset (t.length : Int) = t.length := by omega
  rw [position, position, hmin, Int.min_self]

/-- What an offset inside a text and its line have to do with each other. -/
theorem exists_row_of_append (front back : Text) :
    ∃ row, (front ++ back).rows[front.count '\n']? = some row ∧
      front.lastLine.length ≤ row.length ∧
      (front ++ back).lineStart (front.count '\n' + 1) + front.lastLine.length = front.length := by
  obtain ⟨whole, hfront, hwhole, hlength⟩ := exists_rows front
  obtain ⟨rest, others, hrest⟩ := exists_rows_eq_cons (not_mem_lastLine (t := front)) back
  have hrows : (front ++ back).rows = whole ++ (front.lastLine ++ rest) :: others := by
    rw [← hrest, ← rows_append hwhole, ← List.append_assoc, ← hfront]
  refine ⟨front.lastLine ++ rest, ?_, ?_, ?_⟩
  · rw [hrows, ← hlength, List.getElem?_append_right (Nat.le_refl _), Nat.sub_self,
      List.getElem?_cons_zero]
  · rw [List.length_append]
    omega
  · rw [lineStart, hrows, Nat.add_sub_cancel, ← hlength, List.take_left,
      ← List.length_append, ← hfront]

theorem line_position_le (hnonneg : 0 ≤ offset) (hle : offset ≤ t.length) :
    (t.position offset).line ≤ t.count '\n' + 1 := by
  obtain ⟨front, back, rfl, hfront⟩ := exists_append_of_le hnonneg hle
  rw [position_of_append hfront, List.count_append]
  simp only
  omega

/-- The column of an offset lies in the line of the offset. -/
theorem column_le_length (hnonneg : 0 ≤ offset) (hle : offset ≤ t.length) :
    ∃ row, t.rows[(t.position offset).line - 1]? = some row ∧
      (t.position offset).column ≤ row.length := by
  obtain ⟨front, back, rfl, hfront⟩ := exists_append_of_le hnonneg hle
  obtain ⟨row, hrow, hlength, -⟩ := exists_row_of_append front back
  rw [position_of_append hfront]
  exact ⟨row, hrow, Int.ofNat_le.2 hlength⟩

/-- A place inside a text stands for the offset whose place it is. -/
theorem offsetOf_position (hnonneg : 0 ≤ offset) (hle : offset ≤ t.length) :
    t.offsetOf (t.position offset) = offset := by
  obtain ⟨front, back, rfl, hfront⟩ := exists_append_of_le hnonneg hle
  obtain ⟨row, -, -, hstart⟩ := exists_row_of_append front back
  rw [offsetOf, position_of_append hfront, ← hfront, ← Int.natCast_add, hstart]

/-- Later offsets have later places. -/
theorem before_position {a b : Int} (hnonneg : 0 ≤ a) (hlt : a < b) (hle : b ≤ t.length) :
    (t.position a).Before (t.position b) := by
  obtain ⟨front, rest, rfl, hfront⟩ := exists_append_of_le hnonneg (by omega : a ≤ t.length)
  have hrest : b - a ≤ rest.length := by
    rw [List.length_append] at hle
    omega
  obtain ⟨middle, back, rfl, hmiddle⟩ := exists_append_of_le (by omega : 0 ≤ b - a) hrest
  have hb : ((front ++ middle).length : Int) = b := by
    rw [List.length_append]
    omega
  rw [position_of_append hfront, ← List.append_assoc, position_of_append hb, List.count_append]
  -- a line feed between the offsets moves the line on, and other characters the column
  by_cases hmem : '\n' ∈ middle
  · have hpos : 0 < middle.count '\n' := List.count_pos_iff.2 hmem
    apply Or.inl
    simp only
    omega
  · have hpos : 0 < middle.length := by omega
    rw [lastLine_append_of_not_mem hmem, List.count_eq_zero_of_not_mem hmem, List.length_append]
    refine Or.inr ⟨rfl, ?_⟩
    simp only
    omega

end Text

end UnusedImports
