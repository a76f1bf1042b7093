import UnusedImports.Diff
import UnusedImports.Text.Lines

/-!
# Unified diffs

A hunk is a run of changes that lie close together, with up to three shared lines around each.
`Diff.hunks` cuts a script into hunks, and `Diff.unified` writes the hunks of two texts under a
header. The diff of equal texts is empty.
-/

set_option autoImplicit false

namespace UnusedImports.Diff

/-- A part of a script; `oldStart` and `newStart` lines precede it in the two lists. -/
structure Hunk where
  oldStart : Nat
  newStart : Nat
  segments : List Segment
  deriving DecidableEq, Repr

/-! ## Hunks -/

/-- The number of shared lines shown on either side of a change. -/
def contextSize : Nat := 3

/-- The last lines of a list that belong to the context of what follows. -/
def contextBefore (ls : List Text) : List Text :=
  ls.drop (ls.length - contextSize)

/-- The first lines of a list that belong to the context of what precedes. -/
def contextAfter (ls : List Text) : List Text :=
  ls.take contextSize

/-- The hunk with a segment added at its end. -/
def Hunk.extend (h : Hunk) (s : Segment) : Hunk :=
  { h with segments := h.segments ++ [s] }

/-- The hunk that begins with the context before what follows the lines `ls`, when `h` is the
part of the script in front of them. -/
def Hunk.after (h : Hunk) (ls : List Text) : Hunk :=
  { oldStart := h.oldStart + (Segment.oldLines h.segments).length
      + (ls.length - (contextBefore ls).length)
    newStart := h.newStart + (Segment.newLines h.segments).length
      + (ls.length - (contextBefore ls).length)
    segments := [.same (contextBefore ls)] }

/-- The hunk, unless nothing changes in it. -/
def Hunk.finished (h : Hunk) : List Hunk :=
  if h.segments.any Segment.isChange then [h] else []

/-- The hunks of a script whose part in front is the hunk `h`. A long shared segment ends a hunk
and begins the next one. -/
def hunksFrom (h : Hunk) : List Segment → List Hunk
  | [] => h.finished
  | [.same ls] => (h.extend (.same (contextAfter ls))).finished
  | .same ls :: rest =>
    if 2 * contextSize < ls.length then
      (h.extend (.same (contextAfter ls))).finished ++ hunksFrom (h.after ls) rest
    else hunksFrom (h.extend (.same ls)) rest
  | s :: rest => hunksFrom (h.extend s) rest

/-- The hunks of a script. -/
def hunks : List Segment → List Hunk
  | .same ls :: rest => hunksFrom (Hunk.after ⟨0, 0, []⟩ ls) rest
  | script => hunksFrom ⟨0, 0, []⟩ script

/-! ## Rendering -/

/-- Where the lines of a hunk stand: the number of the first one, and how many there are unless
there is exactly one. An empty stretch stands at the line in front of it. -/
def rangeText (start length : Nat) : Text :=
  if length = 1 then Text.ofNat (start + 1)
  else Text.ofNat (if length = 0 then start else start + 1) ++ ',' :: Text.ofNat length

/-- The first line of a hunk. -/
def Hunk.header (h : Hunk) : Text :=
  "@@ -".toList ++ rangeText h.oldStart (Segment.oldLines h.segments).length
    ++ " +".toList ++ rangeText h.newStart (Segment.newLines h.segments).length
    ++ " @@\n".toList

/-- Each line with a mark in front of it. -/
def markedLines (mark : Char) (ls : List Text) : List Text :=
  ls.map (mark :: ·)

/-- The lines of a segment: shared ones after a space, old ones after a minus sign, new ones
after a plus sign. -/
def segmentLines : Segment → List Text
  | .same ls => markedLines ' ' ls
  | .change old new => markedLines '-' old ++ markedLines '+' new

/-- The lines of a hunk. -/
def Hunk.lines (h : Hunk) : List Text :=
  h.header :: h.segments.flatMap segmentLines

/-- The two lines that name the old and the new file. -/
def fileHeader (path : Text) : List Text :=
  ["--- a/".toList ++ path ++ ['\n'], "+++ b/".toList ++ path ++ ['\n']]

/-- The lines of the diff between two texts. -/
def unifiedLines (path before after : Text) : List Text :=
  match hunks (script before.lines after.lines) with
  | [] => []
  | hs => fileHeader path ++ hs.flatMap Hunk.lines

/-- The unified diff between two versions of a file. -/
def unified (path before after : Text) : Text :=
  (unifiedLines path before after).flatten

end UnusedImports.Diff
