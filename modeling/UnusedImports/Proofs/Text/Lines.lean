import UnusedImports.Text.Lines
import Mathlib.Data.List.Basic

/-!
# Lines one after the other

A line is a text that is cut into itself. Lines that follow each other are cut apart where they were
put together, as long as every line but the last has a line end (`lines_flatten`). Cutting a text
gives such lines (`lines_of_mem_lines`, `ended_of_mem_dropLast_lines`).
-/

set_option autoImplicit false

namespace UnusedImports.Text

/-- The line has a line end. -/
def Ended (line : Text) : Prop :=
  ∃ c ∈ line.getLast?, endsLineAlone c = true

instance (line : Text) : Decidable (Ended line) :=
  match h : line.getLast? with
  | none => isFalse fun ⟨_, hc, _⟩ => by rw [h] at hc; cases hc
  | some c => decidable_of_iff (endsLineAlone c = true)
      ⟨fun hc => ⟨c, h, hc⟩, fun ⟨d, hd, hend⟩ => by rw [h] at hd; cases hd; exact hend⟩

theorem not_ended_nil : ¬ Ended [] := by
  rintro ⟨c, hc, -⟩
  cases hc

theorem ended_cons_iff {c : Char} {line : Text} (hline : line ≠ []) :
    Ended (c :: line) ↔ Ended line := by
  rw [Ended, Ended, List.getLast?_cons, List.getLast?_eq_some_getLast hline]
  rfl

theorem ended_singleton_iff {c : Char} : Ended [c] ↔ endsLineAlone c = true := by
  simp [Ended]

/-- A character that ends no line can be put in front. -/
theorem ended_cons_iff_of_not_endsLineAlone {c : Char} {line : Text}
    (hc : endsLineAlone c = false) : Ended (c :: line) ↔ Ended line := by
  cases line with
  | nil => simp [ended_singleton_iff, hc, not_ended_nil]
  | cons d rest => exact ended_cons_iff (List.cons_ne_nil d rest)

theorem ended_append_iff {front back : Text} (hback : back ≠ []) :
    Ended (front ++ back) ↔ Ended back := by
  rw [Ended, Ended, List.getLast?_append_of_ne_nil front hback]

/-! ## Cutting -/

/-- A text that starts with a character which ends no line. -/
theorem lines_cons_of_not_endsLineAlone {c : Char} (hc : endsLineAlone c = false) (rest : Text) :
    lines (c :: rest) = extendFirst c (lines rest) := by
  rw [lines.eq_def]
  split
  · rename_i h
    cases h
  · rename_i h
    cases h
    cases hc
  · rename_i h
    cases h
    rw [if_neg (by simp [hc])]

/-- A text that starts with a line end, which the next character does not complete. -/
theorem lines_cons_of_endsLineAlone {c : Char} {rest : Text} (hc : endsLineAlone c = true)
    (hrest : rest.head? ≠ some '\n') : lines (c :: rest) = [c] :: lines rest := by
  rw [lines.eq_def]
  split
  · rename_i h
    cases h
  · rename_i h
    cases h
    exact absurd rfl hrest
  · rename_i h
    cases h
    rw [if_pos hc]

theorem lines_eq_nil_iff {t : Text} : lines t = [] ↔ t = [] := by
  constructor
  · intro h
    rw [← flatten_lines t, h]
    rfl
  · rintro rfl
    rfl

/-- The lines of a text are lines. -/
theorem lines_of_mem_lines {t l : Text} (h : l ∈ lines t) : lines l = [l] := by
  fun_induction lines t generalizing l with
  | case1 => exact absurd h List.not_mem_nil
  | case2 rest ih =>
    rcases List.mem_cons.1 h with rfl | h
    · rfl
    · exact ih h
  | case3 c rest _ hc ih =>
    rcases List.mem_cons.1 h with rfl | h
    · exact lines_cons_of_endsLineAlone hc (by simp)
    · exact ih h
  | case4 c rest _ hc ih =>
    have hc := Bool.eq_false_iff.2 hc
    cases hlines : lines rest with
    | nil =>
      rw [hlines, extendFirst, List.mem_singleton] at h
      rw [h, lines_cons_of_not_endsLineAlone hc]
      rfl
    | cons first others =>
      rw [hlines] at h ih
      rcases List.mem_cons.1 h with rfl | h
      · rw [lines_cons_of_not_endsLineAlone hc, ih List.mem_cons_self]
        rfl
      · exact ih (List.mem_cons_of_mem _ h)

/-- A line in front of the last one is the first line, or it is in front of the last one of the other
lines. -/
theorem eq_or_mem_dropLast {l first : Text} {others : List Text}
    (h : l ∈ (first :: others).dropLast) : l = first ∨ l ∈ others.dropLast := by
  cases others with
  | nil => exact absurd h List.not_mem_nil
  | cons second others =>
    rw [List.dropLast_cons_cons] at h
    exact List.mem_cons.1 h

/-- All lines of a text but the last have line ends. -/
theorem ended_of_mem_dropLast_lines {t l : Text} (h : l ∈ (lines t).dropLast) : Ended l := by
  fun_induction lines t generalizing l with
  | case1 => exact absurd h List.not_mem_nil
  | case2 rest ih =>
    rcases eq_or_mem_dropLast h with rfl | h
    · exact ⟨'\n', rfl, rfl⟩
    · exact ih h
  | case3 c rest _ hc ih =>
    rcases eq_or_mem_dropLast h with rfl | h
    · exact ended_singleton_iff.2 hc
    · exact ih h
  | case4 c rest _ hc ih =>
    -- the first line grows by a character in front, so it keeps its end
    cases hlines : lines rest with
    | nil =>
      rw [hlines] at h
      exact absurd h List.not_mem_nil
    | cons first others =>
      rw [hlines] at h ih
      cases others with
      | nil => exact absurd h List.not_mem_nil
      | cons second others =>
        rw [extendFirst, List.dropLast_cons_cons] at h
        rw [List.dropLast_cons_cons] at ih
        rcases List.mem_cons.1 h with rfl | h
        · rw [ended_cons_iff_of_not_endsLineAlone (Bool.eq_false_iff.2 hc)]
          exact ih List.mem_cons_self
        · exact ih (List.mem_cons_of_mem _ h)

/-- What follows the first character of a longer line is a line. -/
theorem lines_of_lines_cons {c : Char} {rest : Text} (hc : endsLineAlone c = false)
    (hrest : rest ≠ []) (h : lines (c :: rest) = [c :: rest]) : lines rest = [rest] := by
  rw [lines_cons_of_not_endsLineAlone hc] at h
  cases hlines : lines rest with
  | nil => exact absurd (lines_eq_nil_iff.1 hlines) hrest
  | cons first others =>
    rw [hlines] at h
    simp only [extendFirst, List.cons.injEq, true_and] at h
    rw [h.1, h.2]

/-- A line with a line end is cut off from what follows, unless this completes the line end. -/
theorem lines_append_of_ended {l t : Text} (hl : lines l = [l]) (hend : Ended l)
    (ht : t.head? ≠ some '\n') : lines (l ++ t) = l :: lines t := by
  fun_induction lines l with
  | case1 => cases hl
  | case2 rest ih =>
    have hrest : rest = [] := by
      have h := List.cons.inj hl
      simpa using h.1
    rw [hrest]
    rfl
  | case3 c rest hcr hc ih =>
    have hrest : rest = [] := by
      have h := List.cons.inj hl
      simpa using h.1
    rw [hrest, List.singleton_append, lines_cons_of_endsLineAlone hc ht]
  | case4 c rest _ hc ih =>
    have hc := Bool.eq_false_iff.2 hc
    have hne : rest ≠ [] := by
      rintro rfl
      rw [ended_singleton_iff, hc] at hend
      cases hend
    have hrest := lines_of_lines_cons hc hne ((lines_cons_of_not_endsLineAlone hc rest).trans hl)
    rw [List.cons_append, lines_cons_of_not_endsLineAlone hc,
      ih hrest ((ended_cons_iff hne).1 hend)]
    rfl

/-- Lines that follow each other are cut apart again, if all but the last have line ends and none
completes the line end before it. -/
theorem lines_flatten {ls : List Text} (hlines : ∀ l ∈ ls, lines l = [l])
    (hend : ∀ l ∈ ls.dropLast, Ended l) (hstart : ∀ l ∈ ls, l.head? ≠ some '\n') :
    lines ls.flatten = ls := by
  induction ls with
  | nil => rfl
  | cons l rest ih =>
    rw [List.forall_mem_cons] at hlines hstart
    cases rest with
    | nil => simpa using hlines.1
    | cons m rest =>
      rw [List.dropLast_cons_cons, List.forall_mem_cons] at hend
      have hm : m ≠ [] := by
        rintro rfl
        have hnil := hlines.2 _ List.mem_cons_self
        cases hnil
      have hhead : ((m :: rest).flatten).head? ≠ some '\n' := by
        rw [List.flatten_cons, List.head?_append_of_ne_nil m hm]
        exact hstart.2 m List.mem_cons_self
      rw [List.flatten_cons, lines_append_of_ended hlines.1 hend.1 hhead,
        ih hlines.2 hend.2 hstart.2]

/-- Characters that end no line, and a line feed, are a line. -/
theorem lines_append_newline {w : Text} (hw : ∀ c ∈ w, endsLineAlone c = false) :
    lines (w ++ ['\n']) = [w ++ ['\n']] := by
  induction w with
  | nil => rfl
  | cons c rest ih =>
    rw [List.forall_mem_cons] at hw
    rw [List.cons_append, lines_cons_of_not_endsLineAlone hw.1, ih hw.2]
    rfl

/-- A line without a line end goes on in the next line. -/
theorem lines_append_of_not_ended {l m : Text} (hl : lines l = [l]) (hend : ¬ Ended l)
    (hm : lines m = [m]) : lines (l ++ m) = [l ++ m] := by
  fun_induction lines l with
  | case1 => cases hl
  | case2 rest ih =>
    have hrest : rest = [] := by
      have h := List.cons.inj hl
      simpa using h.1
    exact absurd ⟨'\n', by rw [hrest]; rfl, rfl⟩ hend
  | case3 c rest _ hc ih =>
    have hrest : rest = [] := by
      have h := List.cons.inj hl
      simpa using h.1
    exact absurd (by rw [hrest]; exact ended_singleton_iff.2 hc) hend
  | case4 c rest _ hc ih =>
    have hc := Bool.eq_false_iff.2 hc
    rw [List.cons_append, lines_cons_of_not_endsLineAlone hc]
    by_cases hne : rest = []
    · rw [hne, List.nil_append, hm]
      rfl
    · have hrest := lines_of_lines_cons hc hne ((lines_cons_of_not_endsLineAlone hc rest).trans hl)
      rw [ih hrest fun h => hend ((ended_cons_iff hne).2 h)]
      rfl

end UnusedImports.Text
