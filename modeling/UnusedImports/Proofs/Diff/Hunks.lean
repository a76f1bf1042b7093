import UnusedImports.Diff.Unified
import UnusedImports.Proofs.Diff.Script

/-!
# Hunks of a script

The hunks of a script are the parts of it in which something changes, and only shared lines stand
between them. So they tell how the old lines become the new ones: outside of the hunks the two
lists agree, and each hunk says where it stands in both (`Connects`, `connects_hunks`).
-/

set_option autoImplicit false

namespace UnusedImports.Diff

open Segment

/-! ## The next segment -/

/-- Shared lines in front of other segments end a hunk if they are many. -/
theorem hunksFrom_same {h : Hunk} {ls : List Text} {rest : List Segment} (hrest : rest ≠ []) :
    hunksFrom h (.same ls :: rest) =
      if 2 * contextSize < ls.length then
        (h.extend (.same (contextAfter ls))).finished ++ hunksFrom (h.after ls) rest
      else hunksFrom (h.extend (.same ls)) rest := by
  rw [hunksFrom]
  exact hrest

/-- A change is added to the hunk. -/
theorem hunksFrom_change {h : Hunk} {old new : List Text} {rest : List Segment} :
    hunksFrom h (.change old new :: rest) = hunksFrom (h.extend (.change old new)) rest := by
  rw [hunksFrom]
  · rintro ls ⟨⟩
  · rintro ls ⟨⟩

/-! ## What hunks tell -/

/-- Behind `i` old and `j` new lines, the hunks tell how the old lines that follow become the new
ones. -/
inductive Connects : Nat → Nat → List Hunk → List Text → List Text → Prop
  | rest (i j : Nat) (ls : List Text) : Connects i j [] ls ls
  | hunk {i j : Nat} {h : Hunk} {hs : List Hunk} {gap old new : List Text}
      (hold : h.oldStart = i + gap.length) (hnew : h.newStart = j + gap.length)
      (hrest : Connects (h.oldStart + (oldLines h.segments).length)
        (h.newStart + (newLines h.segments).length) hs old new) :
      Connects i j (h :: hs) (gap ++ oldLines h.segments ++ old)
        (gap ++ newLines h.segments ++ new)

/-- Shared lines can be put in front. -/
theorem Connects.skip {i j : Nat} {hs : List Hunk} {old new : List Text} (ls : List Text)
    (h : Connects (i + ls.length) (j + ls.length) hs old new) :
    Connects i j hs (ls ++ old) (ls ++ new) := by
  cases h with
  | rest => exact .rest i j _
  | @hunk _ _ h hs gap old new hold hnew hrest =>
    have hhunk : Connects i j (h :: hs) (ls ++ gap ++ oldLines h.segments ++ old)
        (ls ++ gap ++ newLines h.segments ++ new) :=
      .hunk (by rw [List.length_append, hold, Nat.add_assoc])
        (by rw [List.length_append, hnew, Nat.add_assoc]) hrest
    simpa only [List.append_assoc] using hhunk

/-- A finished hunk is one of the hunks, or its lines are shared. -/
theorem Connects.finished {i j : Nat} {h : Hunk} {hs : List Hunk} {gap old new : List Text}
    (hold : h.oldStart = i + gap.length) (hnew : h.newStart = j + gap.length)
    (hrest : Connects (h.oldStart + (oldLines h.segments).length)
      (h.newStart + (newLines h.segments).length) hs old new) :
    Connects i j (h.finished ++ hs) (gap ++ oldLines h.segments ++ old)
      (gap ++ newLines h.segments ++ new) := by
  rw [Hunk.finished]
  split
  · exact .hunk hold hnew hrest
  · rename_i hsame
    have hlines := oldLines_eq_newLines (Bool.eq_false_iff.2 hsame)
    rw [hold, hnew, hlines] at hrest
    rw [hlines, List.nil_append]
    refine Connects.skip _ ?_
    simpa only [List.length_append, Nat.add_assoc] using hrest

@[simp] theorem oldLines_extend (h : Hunk) (s : Segment) :
    oldLines (h.extend s).segments = oldLines h.segments ++ s.old := by
  simp [Hunk.extend]

@[simp] theorem newLines_extend (h : Hunk) (s : Segment) :
    newLines (h.extend s).segments = newLines h.segments ++ s.new := by
  simp [Hunk.extend]

/-- Shared lines are lines that are not shown and the context before what follows. -/
theorem take_append_contextBefore (ls : List Text) :
    ls.take (ls.length - (contextBefore ls).length) ++ contextBefore ls = ls := by
  have hlength : ls.length - (contextBefore ls).length = ls.length - contextSize := by
    rw [contextBefore, List.length_drop]
    omega
  rw [hlength, contextBefore, List.take_append_drop]

/-- A long list of shared lines is the context after a hunk, lines that no hunk shows, and the
context before the next hunk. -/
theorem contexts_append {ls : List Text} (h : 2 * contextSize < ls.length) :
    contextAfter ls ++ ((ls.take (ls.length - contextSize)).drop contextSize ++ contextBefore ls) =
      ls := by
  have hfront : contextAfter ls = (ls.take (ls.length - contextSize)).take contextSize := by
    rw [contextAfter, List.take_take, Nat.min_eq_left (by omega)]
  rw [hfront, ← List.append_assoc, List.take_append_drop, contextBefore, List.take_append_drop]

/-- The hunks of the rest of a script, with the hunk in front of it, tell how the lines change. -/
theorem connects_hunksFrom (h : Hunk) (script : List Segment) {i j : Nat} {gap : List Text}
    (hold : h.oldStart = i + gap.length) (hnew : h.newStart = j + gap.length) :
    Connects i j (hunksFrom h script) (gap ++ oldLines h.segments ++ oldLines script)
      (gap ++ newLines h.segments ++ newLines script) := by
  fun_induction hunksFrom h script generalizing i j gap with
  | case1 h =>
    have hfinished := Connects.finished hold hnew (.rest _ _ [])
    simpa using hfinished
  | case2 h ls =>
    have hfinished := Connects.finished (h := h.extend (.same (contextAfter ls))) hold hnew
      (.rest _ _ (ls.drop contextSize))
    simpa [Segment.old, Segment.new, contextAfter] using hfinished
  | case3 h ls rest _ hlong ih =>
    have hafter : (contextAfter ls).length = contextSize := by
      rw [contextAfter, List.length_take]
      omega
    have hbefore : (contextBefore ls).length = contextSize := by
      rw [contextBefore, List.length_drop]
      omega
    have hcut := contexts_append hlong
    let middle := (ls.take (ls.length - contextSize)).drop contextSize
    have hmiddle : middle.length = ls.length - 2 * contextSize := by
      simp only [middle, List.length_drop, List.length_take]
      omega
    have hrest : Connects (h.oldStart + (oldLines h.segments).length + contextSize)
        (h.newStart + (newLines h.segments).length + contextSize) (hunksFrom (h.after ls) rest)
        (middle ++ contextBefore ls ++ oldLines rest)
        (middle ++ contextBefore ls ++ newLines rest) := by
      have hnext := @ih (h.oldStart + (oldLines h.segments).length + contextSize)
        (h.newStart + (newLines h.segments).length + contextSize) middle
        (by simp only [Hunk.after, hbefore]; omega) (by simp only [Hunk.after, hbefore]; omega)
      simpa [Hunk.after, Segment.old, Segment.new] using hnext
    have hfinished := Connects.finished (h := h.extend (.same (contextAfter ls))) hold hnew
      (by simpa [Segment.old, Segment.new, hafter, Hunk.extend, Nat.add_assoc] using hrest)
    have hlines : ∀ shown back : List Text,
        gap ++ (shown ++ contextAfter ls) ++ (middle ++ (contextBefore ls ++ back)) =
          gap ++ shown ++ (ls ++ back) := by
      intro shown back
      nth_rewrite 3 [← hcut]
      simp only [middle, List.append_assoc]
    rw [oldLines_extend, newLines_extend] at hfinished
    simp only [Segment.old, Segment.new, hlines] at hfinished
    exact hfinished
  | case4 h ls rest _ _ ih =>
    have hnext := ih hold hnew
    simpa [Segment.old, Segment.new] using hnext
  | case5 h s rest _ _ ih =>
    have hnext := ih hold hnew
    simpa using hnext

/-- The hunks of a script tell how its old lines become its new ones. -/
theorem connects_hunks (script : List Segment) :
    Connects 0 0 (hunks script) (oldLines script) (newLines script) := by
  fun_cases hunks script with
  | case1 ls rest =>
    let shown := ls.take (ls.length - (contextBefore ls).length)
    have hshown : shown.length = ls.length - (contextBefore ls).length := by
      rw [List.length_take]
      omega
    have hcut : shown ++ contextBefore ls = ls := take_append_contextBefore ls
    have hfrom := @connects_hunksFrom (Hunk.after ⟨0, 0, []⟩ ls) rest 0 0 shown
      (by simp [Hunk.after, hshown]) (by simp [Hunk.after, hshown])
    simpa [Hunk.after, Segment.old, Segment.new, hcut, ← List.append_assoc] using hfrom
  | case2 _ =>
    have hfrom := @connects_hunksFrom ⟨0, 0, []⟩ script 0 0 [] rfl rfl
    simpa using hfrom

end UnusedImports.Diff
