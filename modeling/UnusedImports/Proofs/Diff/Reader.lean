import UnusedImports.Proofs.Diff.Hunks
import Mathlib.Data.Nat.Digits.Defs

/-!
# A reader of unified diffs

`readBack` reads a diff as its user does: cut it into lines, take the two lines that name the file,
read the hunks, and replace the old lines of each hunk by its new ones at the place that the hunk
announces. Nothing is repaired on the way: a line of no known kind, a hunk with more or fewer lines
than announced or old lines that do not stand where the hunk says make the reading fail.

The reader inverts the writer hunk by hunk (`readHunks_lines`), and hunks that tell how one list of
lines becomes another turn the one into the other (`patch_of_connects`).
-/

set_option autoImplicit false

namespace UnusedImports.Diff

open Segment

/-! ## The reader -/

/-- What the first line of a hunk announces: how many lines precede it in the two lists, and how
many old and new lines it shows. -/
structure Heading where
  oldStart : Nat
  oldCount : Nat
  newStart : Nat
  newCount : Nat
  deriving DecidableEq, Repr

/-- A number in decimal digits. -/
def readNumber (t : Text) : Option Nat :=
  if !t.isEmpty && t.all Char.isDigit then some (Nat.ofDigitChars 10 t 0) else none

/-- The number of lines in front of a stretch, and the number of its lines. -/
def readRange (t : Text) : Option (Nat × Nat) :=
  match t.cutAt ',' with
  | [place] => (readNumber place).map fun n => (n - 1, 1)
  | [place, count] =>
    (readNumber place).bind fun n =>
      (readNumber count).map fun k => (if k = 0 then n else n - 1, k)
  | _ => none

/-- The first line of a hunk. -/
def readHeading (line : Text) : Option Heading :=
  match line.cutAt ' ' with
  | [['@', '@'], '-' :: old, '+' :: new, ['@', '@', '\n']] =>
    (readRange old).bind fun o =>
      (readRange new).map fun n => ⟨o.1, o.2, n.1, n.2⟩
  | _ => none

/-- The old line that a line of a hunk shows. -/
def oldLine? : Text → Option Text
  | ' ' :: line => some line
  | '-' :: line => some line
  | _ => none

/-- The new line that a line of a hunk shows. -/
def newLine? : Text → Option Text
  | ' ' :: line => some line
  | '+' :: line => some line
  | _ => none

/-- A line that shows an old or a new line. -/
def showsLine (line : Text) : Bool :=
  (oldLine? line).isSome || (newLine? line).isSome

/-- What a hunk says: the places, the old and the new lines. -/
structure Excerpt where
  oldStart : Nat
  newStart : Nat
  old : List Text
  new : List Text
  deriving DecidableEq, Repr

/-- Read hunks from the last line on: the lines that wait for the first line of their hunk, and the
hunks behind them. A hunk shows as many old and new lines as it announces. -/
def readFrom : List Text → Option (List Text × List Excerpt)
  | [] => some ([], [])
  | line :: rest =>
    (readFrom rest).bind fun (body, es) =>
      if showsLine line then some (line :: body, es)
      else
        (readHeading line).bind fun h =>
          let e : Excerpt :=
            ⟨h.oldStart, h.newStart, body.filterMap oldLine?, body.filterMap newLine?⟩
          if e.old.length = h.oldCount ∧ e.new.length = h.newCount then some ([], e :: es)
          else none

/-- Read the lines of hunks. -/
def readHunks (ls : List Text) : Option (List Excerpt) :=
  (readFrom ls).bind fun (body, es) => if body.isEmpty then some es else none

/-- Replace the old lines of each hunk by its new ones, `i` old and `j` new lines being done. The
old lines have to stand where the hunk says. -/
def patch (i j : Nat) : List Excerpt → List Text → Option (List Text)
  | [], old => some old
  | e :: es, old =>
    let gap := e.oldStart - i
    if e.oldStart = i + gap ∧ e.newStart = j + gap ∧ gap ≤ old.length
        ∧ e.old.isPrefixOf (old.drop gap) then
      (patch (e.oldStart + e.old.length) (e.newStart + e.new.length) es
        ((old.drop gap).drop e.old.length)).map (old.take gap ++ e.new ++ ·)
    else none

/-- The text that a diff makes of the text `before` of a file; an empty diff leaves it as it is. -/
def readBack (path before diff : Text) : Option Text :=
  match diff.lines with
  | [] => some before
  | oldName :: newName :: rest =>
    if [oldName, newName] = fileHeader path then
      (readHunks rest).bind fun es => (patch 0 0 es before.lines).map List.flatten
    else none
  | _ => none

/-! ## Reading the first line of a hunk -/

theorem isDigit_of_mem_ofNat {n : Nat} {c : Char} (hc : c ∈ Text.ofNat n) : c.isDigit = true :=
  Nat.isDigit_of_mem_toDigits (by decide) (by decide) hc

theorem not_mem_ofNat {n : Nat} {c : Char} (hc : c.isDigit = false) : c ∉ Text.ofNat n := by
  intro hmem
  rw [isDigit_of_mem_ofNat hmem] at hc
  cases hc

/-- The reader of numbers inverts the writer. -/
theorem readNumber_ofNat (n : Nat) : readNumber (Text.ofNat n) = some n := by
  have hne : (Text.ofNat n).isEmpty = false := by
    rw [List.isEmpty_eq_false_iff]
    exact Nat.toDigits_ne_nil
  have hall : (Text.ofNat n).all Char.isDigit = true :=
    List.all_eq_true.2 fun c hc => isDigit_of_mem_ofNat hc
  rw [readNumber, if_pos (by rw [hne, hall]; rfl), Text.ofNat, Nat.ofDigitChars_ten_toDigits]

theorem readRange_rangeText (start length : Nat) :
    readRange (rangeText start length) = some (start, length) := by
  rw [rangeText]
  split
  · rename_i hone
    rw [readRange, Text.cutAt_of_not_mem (not_mem_ofNat rfl)]
    simp only [readNumber_ofNat, Option.map_some, Nat.add_sub_cancel, hone]
  · rw [readRange, Text.cutAt_append (not_mem_ofNat rfl),
      Text.cutAt_of_not_mem (not_mem_ofNat rfl)]
    simp only [readNumber_ofNat, Option.bind_some, Option.map_some]
    split <;> rfl

theorem not_mem_rangeText {start length : Nat} {c : Char} (hc : c.isDigit = false)
    (hcomma : c ≠ ',') : c ∉ rangeText start length := by
  rw [rangeText]
  split
  · exact not_mem_ofNat hc
  · rw [List.mem_append, List.mem_cons]
    rintro (hmem | rfl | hmem)
    · exact not_mem_ofNat hc hmem
    · exact hcomma rfl
    · exact not_mem_ofNat hc hmem

/-- What the first line of a hunk has to announce. -/
def Hunk.heading (h : Hunk) : Heading :=
  ⟨h.oldStart, (oldLines h.segments).length, h.newStart, (newLines h.segments).length⟩

/-- The first line of a hunk, written out. -/
theorem header_eq (h : Hunk) :
    h.header = "@@ -".toList ++ rangeText h.oldStart (oldLines h.segments).length
      ++ " +".toList ++ rangeText h.newStart (newLines h.segments).length ++ " @@\n".toList :=
  rfl

/-- The pieces of the first line of a hunk. -/
theorem cutAt_header (h : Hunk) :
    h.header.cutAt ' ' =
      [['@', '@'], '-' :: rangeText h.oldStart (oldLines h.segments).length,
        '+' :: rangeText h.newStart (newLines h.segments).length, ['@', '@', '\n']] := by
  have hrange : ∀ (mark : Char) (start length : Nat), mark ≠ ' ' →
      ' ' ∉ mark :: rangeText start length := by
    intro mark start length hmark
    rw [List.mem_cons, not_or]
    exact ⟨hmark.symm, not_mem_rangeText rfl (by decide)⟩
  have hheader : h.header =
      ['@', '@'] ++ ' ' :: ('-' :: rangeText h.oldStart (oldLines h.segments).length ++
        ' ' :: ('+' :: rangeText h.newStart (newLines h.segments).length ++
          ' ' :: ['@', '@', '\n'])) := by
    rw [header_eq]
    simp only [List.append_assoc]
    rfl
  rw [hheader, Text.cutAt_append (by decide), Text.cutAt_append (hrange _ _ _ (by decide)),
    Text.cutAt_append (hrange _ _ _ (by decide)), Text.cutAt_of_not_mem (by decide)]

/-- The first line of a hunk announces the hunk. -/
theorem readHeading_header (h : Hunk) : readHeading h.header = some h.heading := by
  rw [readHeading, cutAt_header]
  simp only [readRange_rangeText, Option.bind_some, Option.map_some]
  rfl

/-- The first line of a hunk starts with an at sign. -/
theorem head?_of_readHeading {line : Text} {h : Heading} (hread : readHeading line = some h) :
    line.head? = some '@' := by
  rw [readHeading] at hread
  split at hread
  · rename_i old new hcut
    cases line with
    | nil => cases hcut
    | cons x rest =>
      rw [Text.cutAt] at hcut
      split at hcut
      · cases hcut
      · split at hcut <;> cases hcut
        rfl
  · cases hread

/-! ## Reading hunks -/

theorem showsLine_of_head? {line : Text} (h : line.head? = some '@') : showsLine line = false := by
  cases line with
  | nil => rfl
  | cons x rest =>
    cases h
    rfl

theorem showsLine_header (h : Hunk) : showsLine h.header = false :=
  showsLine_of_head? rfl

/-- A line that shows an old or a new line is not the first one of a hunk. -/
theorem readHeading_of_showsLine {line : Text} (h : showsLine line = true) :
    readHeading line = none := by
  cases hread : readHeading line with
  | none => rfl
  | some heading =>
    rw [showsLine_of_head? (head?_of_readHeading hread)] at h
    cases h

theorem filterMap_markedLines {f : Text → Option Text} {mark : Char} {ls : List Text}
    (hf : ∀ l, f (mark :: l) = some l) : (markedLines mark ls).filterMap f = ls := by
  rw [markedLines, List.filterMap_map]
  simp [hf]

theorem filterMap_markedLines_of_none {f : Text → Option Text} {mark : Char} {ls : List Text}
    (hf : ∀ l, f (mark :: l) = none) : (markedLines mark ls).filterMap f = [] := by
  rw [markedLines, List.filterMap_map]
  simp [hf]

/-- The lines of a segment show its old lines. -/
theorem filterMap_oldLine_segmentLines (s : Segment) :
    (segmentLines s).filterMap oldLine? = s.old := by
  cases s with
  | same ls => exact filterMap_markedLines fun _ => rfl
  | change old new =>
    rw [segmentLines, List.filterMap_append, filterMap_markedLines fun _ => rfl,
      filterMap_markedLines_of_none fun _ => rfl, List.append_nil]
    rfl

/-- The lines of a segment show its new lines. -/
theorem filterMap_newLine_segmentLines (s : Segment) :
    (segmentLines s).filterMap newLine? = s.new := by
  cases s with
  | same ls => exact filterMap_markedLines fun _ => rfl
  | change old new =>
    rw [segmentLines, List.filterMap_append, filterMap_markedLines_of_none fun _ => rfl,
      filterMap_markedLines fun _ => rfl, List.nil_append]
    rfl

/-- The lines of segments show their old lines. -/
theorem filterMap_oldLine_flatMap (segments : List Segment) :
    (segments.flatMap segmentLines).filterMap oldLine? = oldLines segments := by
  simp only [List.filterMap_flatMap, filterMap_oldLine_segmentLines, oldLines]

/-- The lines of segments show their new lines. -/
theorem filterMap_newLine_flatMap (segments : List Segment) :
    (segments.flatMap segmentLines).filterMap newLine? = newLines segments := by
  simp only [List.filterMap_flatMap, filterMap_newLine_segmentLines, newLines]

/-- The lines of segments show an old or a new line each. -/
theorem showsLine_of_mem_segmentLines {s : Segment} {l : Text} (hl : l ∈ segmentLines s) :
    showsLine l = true := by
  have hmarked : ∀ mark ∈ [' ', '-', '+'], ∀ ls : List Text, l ∈ markedLines mark ls →
      showsLine l = true := by
    intro mark hmark ls hl
    obtain ⟨line, -, rfl⟩ := List.mem_map.1 hl
    simp only [List.mem_cons, List.not_mem_nil, or_false] at hmark
    obtain rfl | rfl | rfl := hmark <;> rfl
  cases s with
  | same ls => exact hmarked ' ' (by decide) ls hl
  | change old new =>
    rcases List.mem_append.1 hl with hl | hl
    · exact hmarked '-' (by decide) old hl
    · exact hmarked '+' (by decide) new hl

/-- Lines that show old and new lines wait for the first line of their hunk. -/
theorem readFrom_append {shown ls body : List Text} {es : List Excerpt}
    (hshown : ∀ l ∈ shown, showsLine l = true) (hread : readFrom ls = some (body, es)) :
    readFrom (shown ++ ls) = some (shown ++ body, es) := by
  induction shown with
  | nil => exact hread
  | cons l shown ih =>
    rw [List.forall_mem_cons] at hshown
    rw [List.cons_append, readFrom, ih hshown.2, Option.bind_some]
    simp only [hshown.1, if_true]
    rfl

/-- What a reader learns from a hunk. -/
def Hunk.excerpt (h : Hunk) : Excerpt :=
  ⟨h.oldStart, h.newStart, oldLines h.segments, newLines h.segments⟩

theorem readFrom_lines (hs : List Hunk) :
    readFrom (hs.flatMap Hunk.lines) = some ([], hs.map Hunk.excerpt) := by
  induction hs with
  | nil => rfl
  | cons h hs ih =>
    have hbody : ∀ l ∈ h.segments.flatMap segmentLines, showsLine l = true := by
      intro l hl
      obtain ⟨s, -, hs⟩ := List.mem_flatMap.1 hl
      exact showsLine_of_mem_segmentLines hs
    rw [List.flatMap_cons, Hunk.lines, List.cons_append, readFrom, readFrom_append hbody ih,
      Option.bind_some]
    simp only [showsLine_header, readHeading_header, Option.bind_some, List.append_nil,
      filterMap_oldLine_flatMap, filterMap_newLine_flatMap, Bool.false_eq_true, if_false]
    rw [if_pos ⟨rfl, rfl⟩]
    rfl

/-- The lines of hunks are read as what the hunks say. -/
theorem readHunks_lines (hs : List Hunk) :
    readHunks (hs.flatMap Hunk.lines) = some (hs.map Hunk.excerpt) := by
  rw [readHunks, readFrom_lines]
  rfl

/-! ## Counting new lines -/

/-- The number of new lines that the hunks announce. -/
def announced (ls : List Text) : Nat :=
  (ls.map fun l => (readHeading l).elim 0 Heading.newCount).sum

/-- The number of new lines that are shown. -/
def shown (ls : List Text) : Nat :=
  (ls.filterMap newLine?).length

@[simp] theorem announced_append (front back : List Text) :
    announced (front ++ back) = announced front + announced back := by
  simp [announced]

@[simp] theorem shown_append (front back : List Text) :
    shown (front ++ back) = shown front + shown back := by
  simp [shown]

@[simp] theorem announced_cons (l : Text) (ls : List Text) :
    announced (l :: ls) = announced [l] + announced ls :=
  announced_append [l] ls

@[simp] theorem shown_cons (l : Text) (ls : List Text) : shown (l :: ls) = shown [l] + shown ls :=
  shown_append [l] ls

theorem announced_of_showsLine {l : Text} (h : showsLine l = true) : announced [l] = 0 := by
  simp [announced, readHeading_of_showsLine h]

/-- Of what is read, as many new lines are shown as announced, but for those that wait for the
first line of their hunk. -/
theorem announced_of_readFrom {ls body : List Text} {es : List Excerpt}
    (h : readFrom ls = some (body, es)) : announced ls + shown body = shown ls := by
  induction ls generalizing body es with
  | nil =>
    cases h
    rfl
  | cons line rest ih =>
    rw [readFrom, Option.bind_eq_some_iff] at h
    obtain ⟨⟨waiting, behind⟩, hrest, h⟩ := h
    have hbalance := ih hrest
    rw [announced_cons, shown_cons line rest]
    dsimp only at h
    split at h
    · rename_i hshows
      cases h
      rw [announced_of_showsLine hshows, shown_cons line waiting]
      omega
    · rename_i hshows
      rw [Option.bind_eq_some_iff] at h
      obtain ⟨heading, hheading, h⟩ := h
      split at h
      · rename_i hcounts
        cases h
        have hnone : newLine? line = none := by
          rw [showsLine, Bool.or_eq_true, not_or] at hshows
          simpa using hshows.2
        have hline : shown [line] = 0 := by simp [shown, hnone]
        have hannounced : announced [line] = shown waiting := by
          simp only [announced, List.map_singleton, hheading, Option.elim_some,
            List.sum_singleton]
          exact hcounts.2.symm
        have hnil : shown [] = 0 := rfl
        omega
      · cases h

/-- Hunks can be read only if they show as many new lines as they announce. -/
theorem announced_of_readHunks {ls : List Text} {es : List Excerpt} (h : readHunks ls = some es) :
    announced ls = shown ls := by
  rw [readHunks, Option.bind_eq_some_iff] at h
  obtain ⟨⟨body, behind⟩, hread, h⟩ := h
  have hbalance := announced_of_readFrom hread
  dsimp only at h
  split at h
  · rename_i hbody
    rw [List.isEmpty_iff.1 hbody] at hbalance
    exact hbalance
  · cases h

/-! ## Patching -/

/-- Hunks that tell how the old lines become the new ones turn the one into the other. -/
theorem patch_of_connects {i j : Nat} {hs : List Hunk} {old new : List Text}
    (h : Connects i j hs old new) : patch i j (hs.map Hunk.excerpt) old = some new := by
  induction h with
  | rest i j ls => rfl
  | @hunk i j h hs gap old new hold hnew _ ih =>
    have hgap : h.excerpt.oldStart - i = gap.length := by
      change h.oldStart - i = gap.length
      omega
    rw [List.map_cons, patch]
    simp only [hgap, List.append_assoc, List.drop_left, List.take_left]
    rw [if_pos]
    · rw [show h.excerpt.old = oldLines h.segments from rfl, List.drop_left]
      exact congrArg (Option.map _) ih
    · refine ⟨hold, hnew, by simp, ?_⟩
      rw [List.isPrefixOf_iff_prefix]
      exact List.prefix_append _ _

end UnusedImports.Diff
