import UnusedImports.Proofs.Diff.Hunks
import UnusedImports.Proofs.Text.Lines

/-!
# Line ends in a diff

The lines of a diff are put together as they are, so they can be told apart only if every line but
the last has a line end. The lines of a text have this property, and the hunks keep it with one
exception: a script that ends with a change of a last line without a line end (`Clipped`) puts the
first new line directly behind that line (`exists_lines_of_clipped`). In every other case all lines
of the hunks but the last have line ends (`ended_of_not_clipped`).
-/

set_option autoImplicit false

namespace UnusedImports.Diff

open Segment Text

/-- The script ends with new lines in the place of lines the last of which lacks a line end. -/
def Clipped (script : List Segment) : Prop :=
  ∃ front old last first new,
    script = front ++ [.change (old ++ [last]) (first :: new)] ∧ ¬ Ended last

/-- All lines but the last have line ends. -/
def EndedInside (ls : List Text) : Prop :=
  ∀ l ∈ ls.dropLast, Ended l

namespace EndedInside

variable {front back : List Text}

/-- What stands in front of other lines has line ends. -/
theorem ended_of_append (h : EndedInside (front ++ back)) (hback : back ≠ []) :
    ∀ l ∈ front, Ended l := by
  intro l hl
  refine h l ?_
  rw [List.dropLast_append_of_ne_nil hback]
  exact List.mem_append_left _ hl

theorem of_append_right (h : EndedInside (front ++ back)) : EndedInside back := by
  intro l hl
  refine h l ?_
  have hback : back ≠ [] := by
    rintro rfl
    exact absurd hl List.not_mem_nil
  rw [List.dropLast_append_of_ne_nil hback]
  exact List.mem_append_right _ hl

theorem of_append_left (h : EndedInside (front ++ back)) : EndedInside front := by
  by_cases hback : back = []
  · rwa [hback, List.append_nil] at h
  · exact fun l hl => h.ended_of_append hback l (List.dropLast_subset _ hl)

theorem append (hfront : ∀ l ∈ front, Ended l) (hback : EndedInside back) :
    EndedInside (front ++ back) := by
  intro l hl
  by_cases hne : back = []
  · rw [hne, List.append_nil] at hl
    exact hfront l (List.dropLast_subset _ hl)
  · rw [List.dropLast_append_of_ne_nil hne] at hl
    exact (List.mem_append.1 hl).elim (hfront l) (hback l)

end EndedInside

/-! ## Marked lines -/

/-- The mark of a line ends no line. -/
theorem ended_of_mem_markedLines {mark : Char} (hmark : endsLineAlone mark = false)
    {ls : List Text} (h : ∀ l ∈ ls, Ended l) : ∀ l ∈ markedLines mark ls, Ended l := by
  intro l hl
  obtain ⟨line, hline, rfl⟩ := List.mem_map.1 hl
  exact (ended_cons_iff_of_not_endsLineAlone hmark).2 (h line hline)

theorem endedInside_markedLines {mark : Char} (hmark : endsLineAlone mark = false)
    {ls : List Text} (h : EndedInside ls) : EndedInside (markedLines mark ls) := by
  intro l hl
  rw [markedLines, ← List.map_dropLast] at hl
  exact ended_of_mem_markedLines hmark h l hl

/-- The lines of a segment have line ends if its old and new lines do. -/
theorem ended_of_mem_segmentLines {s : Segment} (hold : ∀ l ∈ s.old, Ended l)
    (hnew : ∀ l ∈ s.new, Ended l) : ∀ l ∈ segmentLines s, Ended l := by
  cases s with
  | same ls => exact ended_of_mem_markedLines rfl hold
  | change old new =>
    intro l hl
    rcases List.mem_append.1 hl with hl | hl
    · exact ended_of_mem_markedLines rfl hold l hl
    · exact ended_of_mem_markedLines rfl hnew l hl

/-- The old and the new lines of a script have line ends. -/
def AllEnded (script : List Segment) : Prop :=
  (∀ l ∈ oldLines script, Ended l) ∧ ∀ l ∈ newLines script, Ended l

theorem AllEnded.nil : AllEnded [] :=
  ⟨List.forall_mem_nil _, List.forall_mem_nil _⟩

theorem AllEnded.cons_iff {s : Segment} {script : List Segment} :
    AllEnded (s :: script) ↔
      ((∀ l ∈ s.old, Ended l) ∧ ∀ l ∈ s.new, Ended l) ∧ AllEnded script := by
  simp only [AllEnded, oldLines_cons, newLines_cons, List.forall_mem_append]
  tauto

theorem AllEnded.append_iff {front back : List Segment} :
    AllEnded (front ++ back) ↔ AllEnded front ∧ AllEnded back := by
  simp only [AllEnded, oldLines_append, newLines_append, List.forall_mem_append]
  tauto

theorem AllEnded.flatMap_segmentLines {script : List Segment} (h : AllEnded script) :
    ∀ l ∈ script.flatMap segmentLines, Ended l := by
  induction script with
  | nil => exact List.forall_mem_nil _
  | cons s rest ih =>
    rw [AllEnded.cons_iff] at h
    rw [List.flatMap_cons, List.forall_mem_append]
    exact ⟨ended_of_mem_segmentLines h.1.1 h.1.2, ih h.2⟩

/-- The first line of a hunk has a line end. -/
theorem ended_header (h : Hunk) : Ended h.header :=
  (ended_append_iff (List.cons_ne_nil _ _)).2 ⟨'\n', rfl, rfl⟩

/-- A hunk has line ends if its old and new lines do. -/
theorem AllEnded.finished {h : Hunk} (hh : AllEnded h.segments) :
    ∀ l ∈ h.finished.flatMap Hunk.lines, Ended l := by
  rw [Hunk.finished]
  split
  · rw [List.flatMap_singleton, Hunk.lines, List.forall_mem_cons]
    exact ⟨ended_header h, hh.flatMap_segmentLines⟩
  · exact List.forall_mem_nil _

/-- The hunk behind lines that stay starts with the last of them. -/
theorem AllEnded.after (h : Hunk) {ls : List Text} (hls : ∀ l ∈ ls, Ended l) :
    AllEnded (h.after ls).segments := by
  have hkept : ∀ l ∈ contextBefore ls, Ended l := fun l hl => hls l (List.drop_subset _ _ hl)
  exact AllEnded.cons_iff.2 ⟨⟨hkept, hkept⟩, AllEnded.nil⟩

/-! ## The end of a diff -/

/-- The lines of a diff that the last segment of the script gives, if it gives any. -/
def lastLines : Segment → List Text
  | .same ls => markedLines ' ' (contextAfter ls)
  | .change old new => markedLines '-' old ++ markedLines '+' new

theorem lines_extend (h : Hunk) (s : Segment) :
    (h.extend s).lines =
      ((h.extend s).header :: h.segments.flatMap segmentLines) ++ segmentLines s := by
  simp [Hunk.lines, Hunk.extend]

/-- If the lines in front of the last segment have line ends, then so have the lines that the hunks
give for them. A last segment that stays may give no lines. -/
theorem exists_lines_hunksFrom {h : Hunk} {front : List Segment} (s : Segment)
    (hhunk : AllEnded h.segments) (hfront : AllEnded front) :
    ∃ lines, (∀ l ∈ lines, Ended l) ∧
      ((hunksFrom h (front ++ [s])).flatMap Hunk.lines = lines ++ lastLines s ∨
        s.isChange = false ∧ (hunksFrom h (front ++ [s])).flatMap Hunk.lines = lines) := by
  induction front generalizing h with
  | nil =>
    have hlines : ∀ r : Segment, ∀ l ∈ (h.extend r).header :: h.segments.flatMap segmentLines,
        Ended l :=
      fun r => List.forall_mem_cons.2 ⟨ended_header _, hhunk.flatMap_segmentLines⟩
    cases s with
    | same ls =>
      rw [List.nil_append, hunksFrom, Hunk.finished]
      split
      · rw [List.flatMap_singleton, lines_extend]
        exact ⟨_, hlines _, Or.inl rfl⟩
      · exact ⟨[], List.forall_mem_nil _, Or.inr ⟨rfl, rfl⟩⟩
    | change old new =>
      have hchange : (h.extend (.change old new)).segments.any Segment.isChange = true := by
        simp [Hunk.extend, Segment.isChange]
      rw [List.nil_append, hunksFrom_change, hunksFrom, Hunk.finished, if_pos hchange,
        List.flatMap_singleton, lines_extend]
      exact ⟨_, hlines _, Or.inl rfl⟩
  | cons r front ih =>
    rw [AllEnded.cons_iff] at hfront
    -- what is added to the hunk in hand are lines of `r`
    have hextend : ∀ part : Segment, part.old ⊆ r.old → part.new ⊆ r.new →
        AllEnded (h.extend part).segments := by
      intro part hold hnew
      rw [Hunk.extend]
      refine AllEnded.append_iff.2 ⟨hhunk, AllEnded.cons_iff.2 ⟨⟨?_, ?_⟩, AllEnded.nil⟩⟩
      · exact fun l hl => hfront.1.1 l (hold hl)
      · exact fun l hl => hfront.1.2 l (hnew hl)
    cases r with
    | same ls =>
      rw [List.cons_append, hunksFrom_same (by simp)]
      split
      · have hafter : AllEnded (h.after ls).segments := AllEnded.after h hfront.1.1
        have hdone := (hextend (.same (contextAfter ls)) (List.take_subset _ _)
          (List.take_subset _ _)).finished
        obtain ⟨lines, hlines, hcases⟩ := ih hafter hfront.2
        refine ⟨(h.extend (.same (contextAfter ls))).finished.flatMap Hunk.lines ++ lines, ?_, ?_⟩
        · exact List.forall_mem_append.2 ⟨hdone, hlines⟩
        · rw [List.flatMap_append]
          rcases hcases with hshown | ⟨hsame, hhidden⟩
          · left
            rw [hshown, List.append_assoc]
          · right
            exact ⟨hsame, by rw [hhidden]⟩
      · exact ih (hextend (.same ls) (fun _ => id) fun _ => id) hfront.2
    | change old new =>
      rw [List.cons_append, hunksFrom_change]
      exact ih (hextend (.change old new) (fun _ => id) fun _ => id) hfront.2

/-- The same for the hunks of a whole script. -/
theorem exists_lines_hunks {front : List Segment} (s : Segment) (hfront : AllEnded front) :
    ∃ lines, (∀ l ∈ lines, Ended l) ∧
      ((hunks (front ++ [s])).flatMap Hunk.lines = lines ++ lastLines s ∨
        s.isChange = false ∧ (hunks (front ++ [s])).flatMap Hunk.lines = lines) := by
  cases front with
  | nil =>
    cases s with
    | same ls => exact ⟨[], List.forall_mem_nil _, Or.inr ⟨rfl, rfl⟩⟩
    | change old new =>
      exact @exists_lines_hunksFrom ⟨0, 0, []⟩ [] (.change old new) AllEnded.nil AllEnded.nil
  | cons r front =>
    cases r with
    | same ls =>
      rw [AllEnded.cons_iff] at hfront
      exact exists_lines_hunksFrom s (AllEnded.after _ hfront.1.1) hfront.2
    | change old new =>
      exact @exists_lines_hunksFrom ⟨0, 0, []⟩ (.change old new :: front) s AllEnded.nil hfront

/-! ## Scripts between texts -/

/-- A script all lines of which have line ends where they are needed: no segment is empty, changes
are separated, and the old and the new lines have line ends, the last ones perhaps not. -/
structure Tidy (script : List Segment) : Prop where
  proper : ∀ s ∈ script, s.Proper
  separated : script.IsChain Separated
  old : EndedInside (oldLines script)
  new : EndedInside (newLines script)

/-- The lines of the last segment but the last ones have line ends. -/
theorem Tidy.endedInside_last {front : List Segment} {s : Segment} (h : Tidy (front ++ [s])) :
    EndedInside s.old ∧ EndedInside s.new := by
  have hold := h.old
  have hnew := h.new
  rw [oldLines_append] at hold
  rw [newLines_append] at hnew
  exact ⟨by simpa using hold.of_append_right, by simpa using hnew.of_append_right⟩

/-- All lines in front of the last segment have line ends. -/
theorem Tidy.allEnded_front {front : List Segment} {s : Segment} (h : Tidy (front ++ [s])) :
    AllEnded front := by
  obtain ⟨hproper, hseparated, hold, hnew⟩ := h
  rw [oldLines_append] at hold
  rw [newLines_append] at hnew
  by_cases hboth : s.old ≠ [] ∧ s.new ≠ []
  · constructor
    · exact hold.ended_of_append (by simpa using hboth.1)
    · exact hnew.ended_of_append (by simpa using hboth.2)
  · -- one side of the last change is empty; the lines in front of it stay, so they are on both sides
    rcases List.eq_nil_or_concat front with rfl | ⟨front, r, rfl⟩
    · exact AllEnded.nil
    · rw [List.concat_eq_append] at hproper hseparated hold hnew ⊢
      have hs : s.Proper := hproper s (by simp)
      have hr : r.isChange = false := by
        have hneighbours : Separated r s := by
          refine (List.isChain_append.1 hseparated).2.2 r ?_ s rfl
          rw [List.getLast?_concat]
          rfl
        refine hneighbours.resolve_right fun hsame => hboth ?_
        cases s with
        | same ls => exact ⟨hs.elim id id, hs.elim id id⟩
        | change old new => cases hsame
      cases r with
      | change old new => cases hr
      | same ls =>
        have hls : ls ≠ [] := (hproper (.same ls) (by simp)).elim id id
        simp only [oldLines_append, newLines_append, oldLines_cons, newLines_cons, oldLines_nil,
          newLines_nil, Segment.old, Segment.new, List.append_nil, List.append_assoc] at hold hnew
        have hstay : ∀ l ∈ ls, Ended l := by
          rcases hs with hs | hs
          · exact hold.of_append_right.ended_of_append hs
          · exact hnew.of_append_right.ended_of_append hs
        refine AllEnded.append_iff.2 ⟨⟨?_, ?_⟩, AllEnded.cons_iff.2 ⟨⟨hstay, hstay⟩, AllEnded.nil⟩⟩
        · exact hold.ended_of_append (List.append_ne_nil_of_left_ne_nil hls _)
        · exact hnew.ended_of_append (List.append_ne_nil_of_left_ne_nil hls _)

/-- If the script is not clipped, all lines of its hunks but the last have line ends. -/
theorem Tidy.endedInside_of_not_clipped {script : List Segment} (h : Tidy script)
    (hclipped : ¬ Clipped script) : EndedInside ((hunks script).flatMap Hunk.lines) := by
  rcases List.eq_nil_or_concat script with rfl | ⟨front, s, rfl⟩
  · exact List.forall_mem_nil _
  rw [List.concat_eq_append] at h hclipped ⊢
  obtain ⟨lines, hlines, hcases⟩ := exists_lines_hunks s h.allEnded_front
  have hlast : EndedInside (lastLines s) := by
    obtain ⟨hold, hnew⟩ := h.endedInside_last
    cases s with
    | same ls =>
      refine endedInside_markedLines rfl ?_
      change EndedInside ls at hold
      rw [← List.take_append_drop contextSize ls] at hold
      exact hold.of_append_left
    | change old new =>
      change EndedInside old at hold
      change EndedInside new at hnew
      cases new with
      | nil =>
        rw [lastLines, markedLines, markedLines, List.map_nil, List.append_nil]
        exact endedInside_markedLines rfl hold
      | cons first new =>
        -- new lines follow, so the last old line has to have a line end as well
        refine EndedInside.append (ended_of_mem_markedLines rfl ?_) (endedInside_markedLines rfl hnew)
        rcases List.eq_nil_or_concat old with rfl | ⟨old, last, rfl⟩
        · exact List.forall_mem_nil _
        rw [List.concat_eq_append] at hclipped hold ⊢
        have hended : Ended last := by
          by_contra hlast
          exact hclipped ⟨front, old, last, first, new, rfl, hlast⟩
        refine List.forall_mem_append.2 ⟨hold.ended_of_append (List.cons_ne_nil _ _), ?_⟩
        simpa using hended
  rcases hcases with hshown | ⟨-, hhidden⟩
  · rw [hshown]
    exact EndedInside.append hlines hlast
  · rw [hhidden]
    exact fun l hl => hlines l (List.dropLast_subset _ hl)

/-- If the script is clipped, one line of the hunks lacks its line end in front of a new line; all
other lines but the last have line ends. -/
theorem Tidy.exists_lines_of_clipped {script : List Segment} (h : Tidy script)
    (hclipped : Clipped script) :
    ∃ lines last first new, (∀ l ∈ lines, Ended l) ∧ ¬ Ended last ∧ EndedInside (first :: new) ∧
      (hunks script).flatMap Hunk.lines =
        lines ++ ('-' :: last) :: ('+' :: first) :: markedLines '+' new := by
  obtain ⟨front, old, last, first, new, rfl, hlast⟩ := hclipped
  obtain ⟨hold, hnew⟩ := h.endedInside_last
  obtain ⟨lines, hlines, hshown | ⟨hchange, -⟩⟩ := exists_lines_hunks _ h.allEnded_front
  · have hmarked : ∀ l ∈ markedLines '-' old, Ended l :=
      ended_of_mem_markedLines rfl (EndedInside.ended_of_append hold (List.cons_ne_nil _ _))
    refine ⟨lines ++ markedLines '-' old, last, first, new,
      List.forall_mem_append.2 ⟨hlines, hmarked⟩, hlast, hnew, ?_⟩
    rw [hshown]
    simp [lastLines, markedLines]
  · cases hchange

/-- A script between the lines of two texts is tidy. -/
theorem tidy_script (before after : Text) : Tidy (script before.lines after.lines) where
  proper := proper_script _ _
  separated := separated_script _ _
  old := by
    rw [oldLines_script]
    exact fun l => ended_of_mem_dropLast_lines
  new := by
    rw [newLines_script]
    exact fun l => ended_of_mem_dropLast_lines

end UnusedImports.Diff
