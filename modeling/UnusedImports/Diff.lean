import UnusedImports.Text

/-!
# Differences between two lists of lines

A script tells how one list of lines becomes another: segments that both share alternate with
segments that differ. `Segment.oldLines` and `Segment.newLines` read the two lists back from a
script.

`Diff.script` finds the longest stretch of lines that the two lists share, puts it into the
script, and goes on in the same way before and behind it. The search for the stretch need not be
trusted: a stretch is used only if it is shared.

In long lists the lines that occur often in the new list say little about where the lists
correspond, so no stretch is sought from them; they only extend a stretch found from others.
-/

set_option autoImplicit false

namespace UnusedImports

/-- A part of a script: lines that stay, or lines that others take the place of. -/
inductive Segment where
  | same (lines : List Text)
  | change (old new : List Text)
  deriving DecidableEq, Repr

namespace Segment

/-- The lines of the segment in the old list. -/
def old : Segment → List Text
  | .same ls => ls
  | .change old _ => old

/-- The lines of the segment in the new list. -/
def new : Segment → List Text
  | .same ls => ls
  | .change _ new => new

/-- The segment changes something. -/
def isChange : Segment → Bool
  | .same _ => false
  | .change _ _ => true

/-- The old list of a script. -/
def oldLines (script : List Segment) : List Text :=
  script.flatMap Segment.old

/-- The new list of a script. -/
def newLines (script : List Segment) : List Text :=
  script.flatMap Segment.new

end Segment

namespace Diff

/-! ## Lines that say where lists correspond -/

/-- From this many lines on, lines that occur often are not telling. -/
def longList : Nat := 200

/-- The places at which a line stands in a list whose first line has the place `start`. -/
def placesFrom (line : Text) (start : Nat) : List Text → List Nat
  | [] => []
  | l :: ls =>
    if l = line then start :: placesFrom line (start + 1) ls else placesFrom line (start + 1) ls

/-- A line that occurs `count` times in a list of `length` lines is not among those that occur too
often in a long list. -/
def isTelling (length count : Nat) : Bool :=
  length < longList || count ≤ length / 100 + 1

/-- A line of the old list, with its places in the new list if it is telling. -/
structure OldLine where
  line : Text
  places : List Nat
  deriving DecidableEq, Repr

/-- A line of the old list, looked up in the new one. -/
def located (new : List Text) (line : Text) : OldLine :=
  let places := placesFrom line 0 new
  ⟨line, if isTelling new.length places.length then places else []⟩

/-- The lines without their places. -/
def plain (ls : List OldLine) : List Text :=
  ls.map OldLine.line

/-! ## The longest shared stretch -/

/-- A stretch of `size` lines that starts at these places. -/
structure Stretch where
  inOld : Nat
  inNew : Nat
  size : Nat
  deriving DecidableEq, Repr

/-- The stretches that end at one line of the old list: the places in the new list where they end,
in order, each with the size of the stretch. `previous` are those that end at the line before. -/
def nextRow : List Nat → List (Nat × Nat) → List (Nat × Nat)
  | [], _ => []
  | j :: places, previous =>
    match previous.dropWhile fun e => e.1 + 1 < j with
    | [] => (j, 1) :: nextRow places []
    | (k, size) :: rest =>
      if k + 1 = j then (j, size + 1) :: nextRow places rest
      else (j, 1) :: nextRow places ((k, size) :: rest)

/-- The best of a stretch and those that end in the row of the old place `place`. -/
def bestOfRow (place : Nat) (row : List (Nat × Nat)) (best : Stretch) : Stretch :=
  row.foldl
    (fun best (j, size) =>
      if best.size < size then ⟨place + 1 - size, j + 1 - size, size⟩ else best)
    best

/-- The best of a stretch and those that end in the lines `old`, the first of which stands at
`place`. Only stretches in the part of the new list from `start` to `stop` count, and their places
are counted from `start`. -/
def bestFrom (start stop : Nat) : List OldLine → Nat → List (Nat × Nat) → Stretch → Stretch
  | [], _, _, best => best
  | line :: old, place, previous, best =>
    let places := line.places.filter fun j => start ≤ j && j < stop
    let row := nextRow (places.map (· - start)) previous
    bestFrom start stop old (place + 1) row (bestOfRow place row best)

/-- The number of places, from the first on, at which two lists agree. -/
def agreement : List OldLine → List Text → Nat
  | a :: as, b :: bs => if a.line = b then agreement as bs + 1 else 0
  | _, _ => 0

/-- Extend a stretch as far as the lists agree on both sides of it. -/
def extend (old : List OldLine) (new : List Text) (s : Stretch) : Stretch :=
  let back := agreement (old.take s.inOld).reverse (new.take s.inNew).reverse
  let ahead := agreement (old.drop (s.inOld + s.size)) (new.drop (s.inNew + s.size))
  ⟨s.inOld - back, s.inNew - back, back + s.size + ahead⟩

/-- The longest stretch of telling lines, the first one in the old list and then in the new, with
the lines around it that agree. The list `new` is the part of the whole new list from `start`
on. -/
def longest (start : Nat) (old : List OldLine) (new : List Text) : Stretch :=
  extend old new (bestFrom start (start + new.length) old 0 [] ⟨0, 0, 0⟩)

/-! ## Scripts -/

/-- The lists share the stretch, and it is not empty. -/
def Shared (old : List OldLine) (new : List Text) (s : Stretch) : Prop :=
  0 < s.size ∧ s.inOld + s.size ≤ old.length
    ∧ plain ((old.drop s.inOld).take s.size) = (new.drop s.inNew).take s.size

instance (old : List OldLine) (new : List Text) (s : Stretch) : Decidable (Shared old new s) :=
  inferInstanceAs (Decidable (_ ∧ _))

/-- A change, unless there is nothing to change. -/
def changeOf (old new : List Text) : List Segment :=
  if old.isEmpty && new.isEmpty then [] else [.change old new]

/-- A script in which shared segments may stand side by side. The list `new` is the part of the
whole new list from `start` on. -/
def align (start : Nat) (old : List OldLine) (new : List Text) : List Segment :=
  let s := longest start old new
  if _h : Shared old new s then
    align start (old.take s.inOld) (new.take s.inNew)
      ++ .same (plain ((old.drop s.inOld).take s.size))
      :: align (start + s.inNew + s.size) (old.drop (s.inOld + s.size))
        (new.drop (s.inNew + s.size))
  else changeOf (plain old) new
  termination_by old.length
  decreasing_by
    · have hs : longest start old new = s := rfl
      obtain ⟨hp, hl, -⟩ := _h
      simp only [hs, List.length_take]
      omega
    · have hs : longest start old new = s := rfl
      obtain ⟨hp, hl, -⟩ := _h
      simp only [hs, List.length_drop]
      omega

/-- Join shared segments that stand side by side. -/
def joined : List Segment → List Segment
  | [] => []
  | .same ls :: rest =>
    match joined rest with
    | .same ms :: rest => .same (ls ++ ms) :: rest
    | rest => .same ls :: rest
  | .change old new :: rest => .change old new :: joined rest

/-- A script from the old list to the new one. -/
def script (old new : List Text) : List Segment :=
  joined (align 0 (old.map (located new)) new)

end Diff

end UnusedImports
