import UnusedImports.Text

/-!
# Paths and trees of files

A `Path` lists the names from a place up to the root, so the directory around a place is the tail
of its path. `Path.resolve` reads a written path from a directory and simplifies it without
looking at any file. `FileTree.locate?` follows a written path through a tree, in which every
step has to start from a directory.
-/

set_option autoImplicit false

namespace UnusedImports

/-- The names from a place up to the root, the innermost first. -/
abbrev Path := List Text

namespace Path

/-- A written path starts at the root if it begins with a slash, and at `directory` otherwise. -/
def origin (directory : Path) (written : Text) : Path :=
  match written with
  | '/' :: _ => []
  | _ => directory

/-- One step: nothing and a dot stay, two dots go up, and a name goes down. -/
def step (p : Path) (piece : Text) : Path :=
  if piece = [] || piece = ['.'] then p
  else if piece = ['.', '.'] then p.tail
  else piece :: p

/-- The path that a text describes in a directory. -/
def resolve (directory : Path) (written : Text) : Path :=
  (written.cutAt '/').foldl step (origin directory written)

/-- The length of the longest list in which both lists begin. -/
def sharedLength : List Text → List Text → Nat
  | a :: as, b :: bs => if a = b then sharedLength as bs + 1 else 0
  | _, _ => 0

/-- The path as it is written in a directory. -/
def relativeTo (p directory : Path) : Text :=
  let shared := sharedLength p.reverse directory.reverse
  let up := List.replicate (directory.length - shared) ['.', '.']
  match up ++ p.reverse.drop shared with
  | [] => ['.']
  | names => Text.join ['/'] names

end Path

/-- A tree of files below the root. -/
structure FileTree where
  files : List Path
  directories : List Path
  deriving Repr

namespace FileTree

/-- The place is a file. -/
def isFile (tree : FileTree) (p : Path) : Bool :=
  tree.files.contains p

/-- The place is a directory: one of those listed, or one around them or around a file. -/
def isDirectory (tree : FileTree) (p : Path) : Bool :=
  p.isEmpty || tree.directories.any (fun d => p.isSuffixOf d)
    || tree.files.any (fun f => p ≠ f && p.isSuffixOf f)

/-- There is a file or a directory at the place. -/
def contains (tree : FileTree) (p : Path) : Bool :=
  tree.isFile p || tree.isDirectory p

/-- Take one step from a directory to something that exists. -/
def follow? (tree : FileTree) (p : Path) (piece : Text) : Option Path :=
  if tree.isDirectory p && tree.contains (p.step piece) then some (p.step piece) else none

/-- The place to which a written path leads from a directory. -/
def locate? (tree : FileTree) (directory : Path) (written : Text) : Option Path :=
  if written.isEmpty then none
  else (written.cutAt '/').foldlM tree.follow? (Path.origin directory written)

/-- A path that is written from the root leads to a file or a directory. -/
def reaches (tree : FileTree) (written : Text) : Bool :=
  (tree.locate? [] written).isSome

end FileTree

end UnusedImports
