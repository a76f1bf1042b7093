import UnusedImports.Proofs.Diff.Endings
import UnusedImports.Proofs.Diff.Reader
import UnusedImports.Proofs.Diff.Unchanged

/-!
# Which diffs can be read back

A diff is empty exactly for equal texts (`unified_eq_nil_iff`). Any other diff is cut into the lines
that it was put together from, unless its script is clipped (`lines_unified`): then a line without
a line end runs into the next one (`exists_lines_unified_of_clipped`), and its hunk shows one new
line less than it announces. So a diff can be read back exactly if its script is not clipped.
-/

set_option autoImplicit false

namespace UnusedImports.Diff

open Segment Text

/-! ## The diff of equal texts -/

/-- Where nothing changes there is no hunk. -/
theorem hunksFrom_eq_nil {h : Hunk} {script : List Segment}
    (hhunk : h.segments.any Segment.isChange = false)
    (hscript : script.any Segment.isChange = false) : hunksFrom h script = [] := by
  have hfinished : ∀ g : Hunk, g.segments.any Segment.isChange = false → g.finished = [] := by
    intro g hg
    rw [Hunk.finished, hg]
    rfl
  fun_induction hunksFrom h script with
  | case1 h => exact hfinished h hhunk
  | case2 h ls => exact hfinished _ (by simpa [Hunk.extend, Segment.isChange] using hhunk)
  | case3 h ls rest _ _ ih =>
    rw [hfinished _ (by simpa [Hunk.extend, Segment.isChange] using hhunk), List.nil_append]
    exact ih rfl (Bool.or_eq_false_iff.1 hscript).2
  | case4 h ls rest _ _ ih =>
    refine ih ?_ (Bool.or_eq_false_iff.1 hscript).2
    simpa [Hunk.extend, Segment.isChange] using hhunk
  | case5 h s rest _ _ ih =>
    rw [List.any_cons, Bool.or_eq_false_iff] at hscript
    refine ih ?_ hscript.2
    simpa [Hunk.extend, hscript.1] using hhunk

theorem hunks_eq_nil {script : List Segment} (h : script.any Segment.isChange = false) :
    hunks script = [] := by
  fun_cases hunks script with
  | case1 ls rest => exact hunksFrom_eq_nil rfl (Bool.or_eq_false_iff.1 h).2
  | case2 _ => exact hunksFrom_eq_nil rfl h

/-- A diff without hunks has no lines, any other diff has the lines of a file header and of its
hunks. -/
theorem unifiedLines_eq (path before after : Text) :
    unifiedLines path before after =
      if hunks (script before.lines after.lines) = [] then []
      else fileHeader path ++ (hunks (script before.lines after.lines)).flatMap Hunk.lines := by
  rw [unifiedLines]
  split
  · rename_i hnone
    rw [if_pos hnone]
  · rename_i hsome
    rw [if_neg hsome]

/-- The diff is empty exactly if nothing changes. -/
theorem unified_eq_nil_iff {path before after : Text} :
    unified path before after = [] ↔ before = after := by
  constructor
  · intro h
    have hconnects := connects_hunks (script before.lines after.lines)
    rw [oldLines_script, newLines_script] at hconnects
    rw [unified, unifiedLines_eq] at h
    split at h
    · rename_i hnone
      rw [hnone] at hconnects
      generalize hold : before.lines = old at hconnects
      generalize hnew : after.lines = new at hconnects
      cases hconnects
      rw [← flatten_lines before, ← flatten_lines after, hold, hnew]
    · cases h
  · rintro rfl
    rw [unified, unifiedLines_eq, if_pos (hunks_eq_nil (script_self _))]
    rfl

/-! ## The lines of a diff are lines -/

/-- A line that does not complete the line end in front of it. -/
def Whole (l : Text) : Prop :=
  lines l = [l] ∧ l.head? ≠ some '\n'

/-- A mark in front of a line makes a line. -/
theorem whole_cons {mark : Char} {line : Text} (hmark : endsLineAlone mark = false)
    (hline : lines line = [line]) : Whole (mark :: line) := by
  constructor
  · rw [lines_cons_of_not_endsLineAlone hmark, hline]
    rfl
  · rintro ⟨⟩
    cases hmark

theorem whole_append_newline {c : Char} {w : Text} (h : ∀ d ∈ c :: w, endsLineAlone d = false) :
    Whole (c :: w ++ ['\n']) := by
  constructor
  · exact lines_append_newline h
  · rintro ⟨⟩
    cases h '\n' List.mem_cons_self

/-- Whether characters end a line can be computed for all of them at once. -/
theorem endsLineAlone_of_all {w : Text} (h : w.all (fun c => !endsLineAlone c) = true) :
    ∀ c ∈ w, endsLineAlone c = false := by
  simpa using h

theorem endsLineAlone_of_isDigit {c : Char} (hc : c.isDigit = true) : endsLineAlone c = false := by
  by_contra h
  simp only [endsLineAlone, Bool.not_eq_false, Bool.or_eq_true, decide_eq_true_eq] at h
  obtain ((((((((rfl | rfl) | rfl) | rfl) | rfl) | rfl) | rfl) | rfl) | rfl) | rfl := h <;>
    cases hc

theorem endsLineAlone_of_mem_rangeText {start length : Nat} {c : Char}
    (hc : c ∈ rangeText start length) : endsLineAlone c = false := by
  rw [rangeText] at hc
  split at hc
  · exact endsLineAlone_of_isDigit (isDigit_of_mem_ofNat hc)
  · rcases List.mem_append.1 hc with hc | hc
    · exact endsLineAlone_of_isDigit (isDigit_of_mem_ofNat hc)
    · rcases List.mem_cons.1 hc with rfl | hc
      · rfl
      · exact endsLineAlone_of_isDigit (isDigit_of_mem_ofNat hc)

theorem whole_header (h : Hunk) : Whole h.header := by
  have hheader : h.header = '@' :: ("@ -".toList ++
      rangeText h.oldStart (oldLines h.segments).length ++ " +".toList ++
        rangeText h.newStart (newLines h.segments).length ++ " @@".toList) ++ ['\n'] := by
    simp [header_eq]
  rw [hheader]
  refine whole_append_newline fun c hc => ?_
  rcases List.mem_cons.1 hc with rfl | hc
  · rfl
  simp only [List.mem_append] at hc
  obtain (((hc | hc) | hc) | hc) | hc := hc
  · exact endsLineAlone_of_all (w := "@ -".toList) rfl c hc
  · exact endsLineAlone_of_mem_rangeText hc
  · exact endsLineAlone_of_all (w := " +".toList) rfl c hc
  · exact endsLineAlone_of_mem_rangeText hc
  · exact endsLineAlone_of_all (w := " @@".toList) rfl c hc

/-- The lines that name the file are lines with line ends. -/
theorem whole_of_mem_fileHeader {path l : Text} (hpath : ∀ c ∈ path, endsLineAlone c = false)
    (hl : l ∈ fileHeader path) : Whole l ∧ Ended l := by
  have hnamed : ∀ (c : Char) (w : Text), (∀ d ∈ c :: w, endsLineAlone d = false) →
      Whole (c :: w ++ path ++ ['\n']) ∧ Ended (c :: w ++ path ++ ['\n']) := by
    intro c w hw
    refine ⟨whole_append_newline fun d hd => ?_, ?_⟩
    · rcases List.mem_append.1 (show d ∈ (c :: w) ++ path from hd) with hd | hd
      · exact hw d hd
      · exact hpath d hd
    · exact (ended_append_iff (List.cons_ne_nil _ _)).2 ⟨'\n', rfl, rfl⟩
  rw [fileHeader, List.mem_cons, List.mem_singleton] at hl
  obtain rfl | rfl := hl
  · exact hnamed '-' "-- a/".toList (endsLineAlone_of_all rfl)
  · exact hnamed '+' "++ b/".toList (endsLineAlone_of_all rfl)

/-- Hunks show lines of the two lists only. -/
theorem Connects.subset {i j : Nat} {hs : List Hunk} {old new : List Text}
    (h : Connects i j hs old new) :
    ∀ g ∈ hs, oldLines g.segments ⊆ old ∧ newLines g.segments ⊆ new := by
  induction h with
  | rest => exact fun g hg => absurd hg List.not_mem_nil
  | @hunk i j h hs gap old new _ _ _ ih =>
    refine List.forall_mem_cons.2 ⟨⟨?_, ?_⟩, fun g hg => ⟨?_, ?_⟩⟩
    · exact List.subset_append_of_subset_left _ (List.subset_append_right _ _)
    · exact List.subset_append_of_subset_left _ (List.subset_append_right _ _)
    · exact List.subset_append_of_subset_right _ (ih g hg).1
    · exact List.subset_append_of_subset_right _ (ih g hg).2

/-- The lines of a segment are lines if its old and new lines are. -/
theorem whole_of_mem_segmentLines {s : Segment} {l : Text} (hold : ∀ l ∈ s.old, lines l = [l])
    (hnew : ∀ l ∈ s.new, lines l = [l]) (hl : l ∈ segmentLines s) : Whole l := by
  have hmarked : ∀ {mark : Char} {ls : List Text}, endsLineAlone mark = false →
      (∀ l ∈ ls, lines l = [l]) → l ∈ markedLines mark ls → Whole l := by
    intro mark ls hmark hls hl
    obtain ⟨line, hline, rfl⟩ := List.mem_map.1 hl
    exact whole_cons hmark (hls line hline)
  cases s with
  | same ls => exact hmarked rfl hold hl
  | change old new =>
    rcases List.mem_append.1 hl with hl | hl
    · exact hmarked rfl hold hl
    · exact hmarked rfl hnew hl

/-- The lines of the hunks between two texts are lines. -/
theorem whole_of_mem_hunks {before after l : Text}
    (hl : l ∈ (hunks (script before.lines after.lines)).flatMap Hunk.lines) : Whole l := by
  have hconnects := connects_hunks (script before.lines after.lines)
  rw [oldLines_script, newLines_script] at hconnects
  obtain ⟨h, hh, hl⟩ := List.mem_flatMap.1 hl
  obtain ⟨hold, hnew⟩ := hconnects.subset h hh
  rcases List.mem_cons.1 hl with rfl | hl
  · exact whole_header h
  · obtain ⟨s, hs, hl⟩ := List.mem_flatMap.1 hl
    refine whole_of_mem_segmentLines (fun l hl => ?_) (fun l hl => ?_) hl
    · exact lines_of_mem_lines (hold (List.mem_flatMap.2 ⟨s, hs, hl⟩))
    · exact lines_of_mem_lines (hnew (List.mem_flatMap.2 ⟨s, hs, hl⟩))

/-- Lines that need no line end behind them are found again when they are put together. -/
theorem lines_flatten_of_whole {ls : List Text} (hwhole : ∀ l ∈ ls, Whole l)
    (hends : EndedInside ls) : lines ls.flatten = ls :=
  lines_flatten (fun l hl => (hwhole l hl).1) hends fun l hl => (hwhole l hl).2

/-! ## Cutting a diff -/

section

variable {path : Text} (hpath : ∀ c ∈ path, endsLineAlone c = false)

include hpath

/-- A diff whose script is not clipped is cut into the lines that it was put together from. -/
theorem lines_unified {before after : Text}
    (hclipped : ¬ Clipped (script before.lines after.lines)) :
    (unified path before after).lines = unifiedLines path before after := by
  rw [unified, unifiedLines_eq]
  split
  · rfl
  · refine lines_flatten_of_whole (List.forall_mem_append.2 ⟨?_, ?_⟩) (EndedInside.append ?_ ?_)
    · exact fun l hl => (whole_of_mem_fileHeader hpath hl).1
    · exact fun l hl => whole_of_mem_hunks hl
    · exact fun l hl => (whole_of_mem_fileHeader hpath hl).2
    · exact (tidy_script before after).endedInside_of_not_clipped hclipped

/-- If the script is clipped, then two lines of the diff, an old one and a new one, are found as
one. -/
theorem exists_lines_unified_of_clipped {before after : Text}
    (hclipped : Clipped (script before.lines after.lines)) :
    ∃ front last first back,
      (hunks (script before.lines after.lines)).flatMap Hunk.lines =
        front ++ ('-' :: last) :: ('+' :: first) :: back ∧
      (unified path before after).lines =
        fileHeader path ++ (front ++ ('-' :: last ++ '+' :: first) :: back) := by
  obtain ⟨front, last, first, new, hfront, hlast, hnew, hpieces⟩ :=
    (tidy_script before after).exists_lines_of_clipped hclipped
  refine ⟨front, last, first, markedLines '+' new, hpieces, ?_⟩
  have hsome : hunks (script before.lines after.lines) ≠ [] := by
    intro hnone
    rw [hnone, List.flatMap_nil] at hpieces
    simp at hpieces
  have hwhole : ∀ l ∈ front ++ ('-' :: last) :: ('+' :: first) :: markedLines '+' new, Whole l := by
    rw [← hpieces]
    exact fun l hl => whole_of_mem_hunks hl
  simp only [List.forall_mem_append, List.forall_mem_cons] at hwhole
  obtain ⟨hwholeFront, hwholeLast, hwholeFirst, hwholeBack⟩ := hwhole
  have hmerged : Whole ('-' :: last ++ '+' :: first) := by
    refine ⟨lines_append_of_not_ended hwholeLast.1 ?_ hwholeFirst.1, by simp⟩
    rwa [ended_cons_iff_of_not_endsLineAlone rfl]
  have hends : EndedInside (('-' :: last ++ '+' :: first) :: markedLines '+' new) := by
    intro l hl
    have hmarked : EndedInside (markedLines '+' (first :: new)) :=
      endedInside_markedLines rfl hnew
    cases new with
    | nil => exact absurd hl List.not_mem_nil
    | cons next new =>
      rcases List.mem_cons.1 hl with rfl | hl
      · refine (ended_append_iff (List.cons_ne_nil _ _)).2 (hmarked _ List.mem_cons_self)
      · exact hmarked l (List.mem_cons_of_mem _ hl)
  have htext : unified path before after =
      (fileHeader path ++ (front ++ ('-' :: last ++ '+' :: first) :: markedLines '+' new)).flatten
      := by
    rw [unified, unifiedLines_eq, if_neg hsome, hpieces]
    simp
  rw [htext]
  refine lines_flatten_of_whole ?_ (EndedInside.append ?_ (EndedInside.append hfront hends))
  · simp only [List.forall_mem_append, List.forall_mem_cons]
    exact ⟨fun l hl => (whole_of_mem_fileHeader hpath hl).1, hwholeFront, hmerged, hwholeBack⟩
  · exact fun l hl => (whole_of_mem_fileHeader hpath hl).2

end

/-! ## Reading back -/

/-- The lines that follow those which name the file are read as hunks. -/
theorem readBack_of_lines {path before diff : Text} {ls : List Text}
    (h : diff.lines = fileHeader path ++ ls) :
    readBack path before diff =
      (readHunks ls).bind fun es => (patch 0 0 es before.lines).map List.flatten := by
  rw [readBack, h, fileHeader]
  simp

/-- What the diff of two texts says is how the one becomes the other. -/
theorem patch_hunks (before after : Text) :
    patch 0 0 ((hunks (script before.lines after.lines)).map Hunk.excerpt) before.lines =
      some after.lines := by
  have hconnects := connects_hunks (script before.lines after.lines)
  rw [oldLines_script, newLines_script] at hconnects
  exact patch_of_connects hconnects

/-- If an old and a new line are found as one, then the new line is missed. -/
theorem readHunks_merged {hs : List Hunk} {front back : List Text} {last first : Text}
    (h : hs.flatMap Hunk.lines = front ++ ('-' :: last) :: ('+' :: first) :: back) :
    readHunks (front ++ ('-' :: last ++ '+' :: first) :: back) = none := by
  cases hread : readHunks (front ++ ('-' :: last ++ '+' :: first) :: back) with
  | none => rfl
  | some es =>
    exfalso
    have hpieces := announced_of_readHunks (readHunks_lines hs)
    have hmerged := announced_of_readHunks hread
    have holdLine : ∀ line : Text, announced ['-' :: line] = 0 ∧ shown ['-' :: line] = 0 :=
      fun _ => ⟨announced_of_showsLine rfl, rfl⟩
    have hnewLine : announced ['+' :: first] = 0 ∧ shown ['+' :: first] = 1 :=
      ⟨announced_of_showsLine rfl, rfl⟩
    have hlast := holdLine last
    have hboth := holdLine (last ++ '+' :: first)
    rw [h, announced_append, shown_append, announced_cons, announced_cons ('+' :: first),
      shown_cons, shown_cons ('+' :: first)] at hpieces
    rw [List.cons_append, announced_append, shown_append, announced_cons, shown_cons] at hmerged
    omega

/-- The diff of two texts is empty exactly if they are equal. It makes the one text into the other
if its script is not clipped, and it cannot be read at all if its script is clipped. -/
theorem readBack_unified {path : Text} (hpath : ∀ c ∈ path, endsLineAlone c = false)
    (before after : Text) :
    ((unified path before after).lines = [] ↔ before = after) ∧
      (¬ Clipped (script before.lines after.lines) →
        readBack path before (unified path before after) = some after) ∧
      (Clipped (script before.lines after.lines) →
        readBack path before (unified path before after) = none) := by
  refine ⟨lines_eq_nil_iff.trans unified_eq_nil_iff, fun hclipped => ?_, fun hclipped => ?_⟩
  · have hlines := lines_unified hpath hclipped
    rw [unifiedLines_eq] at hlines
    split at hlines
    · have heq := unified_eq_nil_iff.1 (lines_eq_nil_iff.1 hlines)
      rw [readBack, hlines, heq]
    · rw [readBack_of_lines hlines, readHunks_lines, Option.bind_some, patch_hunks, Option.map_some,
        flatten_lines]
  · obtain ⟨front, last, first, back, hpieces, hlines⟩ :=
      exists_lines_unified_of_clipped hpath hclipped
    rw [readBack_of_lines hlines, readHunks_merged hpieces]
    rfl

/-- A line is put in front of one without a line end, which is then the last line of the diff. -/
theorem prependedLine_readBack :
    (∀ c ∈ "f".toList, endsLineAlone c = false) ∧
      ¬ Clipped (script (lines "b".toList) (lines "a\nb".toList)) ∧
      readBack "f".toList "b".toList (unified "f".toList "b".toList "a\nb".toList) =
        some "a\nb".toList := by
  have hpath : ∀ c ∈ "f".toList, endsLineAlone c = false := endsLineAlone_of_all rfl
  have hscript : script (lines "b".toList) (lines "a\nb".toList) =
      [.change [] ["a\n".toList], .same ["b".toList]] := by
    decide +kernel
  have hclipped : ¬ Clipped (script (lines "b".toList) (lines "a\nb".toList)) := by
    rw [hscript]
    rintro ⟨front, old, last, first, new, heq, -⟩
    have hlast := congrArg List.getLast? heq
    rw [List.getLast?_concat] at hlast
    cases hlast
  exact ⟨hpath, hclipped, (readBack_unified hpath _ _).2.1 hclipped⟩

/-- A line without a line end is replaced: its new line is found behind it in the same line of the
diff, and so the hunk does not show the new line that it announces. -/
theorem replacedLine_not_readBack :
    unified "f".toList "a".toList "b".toList =
        "--- a/f\n+++ b/f\n@@ -1 +1 @@\n-a+b".toList ∧
      readBack "f".toList "a".toList (unified "f".toList "a".toList "b".toList) = none := by
  decide +kernel

end UnusedImports.Diff
