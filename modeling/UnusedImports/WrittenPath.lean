import UnusedImports.FileTree

/-!
# Paths in writing

A path in writing leads from the root if a slash stands in front. Its plain form starts with the
root, and single slashes separate its names, none of which is a dot or two dots
(`WrittenPath.plain`). The root is written as one slash, or as two if exactly two stand in front.

`WrittenPath.parent` writes the directory around a place. It only cuts the text, and around the root
it writes the root again. Going up shortens the text unless it leaves it as it is
(`WrittenPath.length_parent_lt`).
-/

set_option autoImplicit false

namespace UnusedImports.WrittenPath

/-- What is written in a directory, read from where the directory is read. A piece that leads from
the root does so in every directory. -/
def within (directory piece : Text) : Text :=
  if piece.head? = some '/' then piece
  else if directory = [] ∨ directory.getLast? = some '/' then directory ++ piece
  else directory ++ '/' :: piece

/-- How the root is written: exactly two slashes in front are kept, and more count as one. -/
def root (t : Text) : Text :=
  if (t.takeWhile (· = '/')).length = 2 then ['/', '/'] else ['/']

/-- The names of a path behind a root. -/
def spell (root : Text) (p : Path) : Text :=
  root ++ Text.join ['/'] p.reverse

/-- The plain form of a path in writing that leads from the root. -/
def plain (t : Text) : Text :=
  spell (root t) (Path.resolve [] t)

/-- The plain form of what is written in a directory. -/
def absolute (directory : Path) (t : Text) : Text :=
  plain (within (spell ['/'] directory) t)

/-- Everything up to the last slash, and with it. -/
def front (t : Text) : Text :=
  (t.reverse.dropWhile (· ≠ '/')).reverse

/-- The directory around a place: what stands in front of the last slash, without slashes at its
end, unless there is nothing but slashes. -/
def parent (t : Text) : Text :=
  if (front t).all (· = '/') then front t
  else ((front t).reverse.dropWhile (· = '/')).reverse

/-- The directory around a place is written in front of it. -/
theorem parent_sublist (t : Text) : (parent t).Sublist t := by
  have hfront : (front t).Sublist t := by
    have hdrop := (List.dropWhile_sublist (fun c => decide (c ≠ '/')) (l := t.reverse)).reverse
    rwa [List.reverse_reverse] at hdrop
  rw [parent]
  split
  · exact hfront
  · have hdrop := (List.dropWhile_sublist (fun c => decide (c = '/')) (l := (front t).reverse)).reverse
    rw [List.reverse_reverse] at hdrop
    exact hdrop.trans hfront

/-- Going up shortens the text unless it leaves it as it is. -/
theorem length_parent_lt {t : Text} (h : parent t ≠ t) : (parent t).length < t.length := by
  have hle := (parent_sublist t).length_le
  have hne : (parent t).length ≠ t.length := fun heq => h ((parent_sublist t).eq_of_length heq)
  omega

end UnusedImports.WrittenPath
