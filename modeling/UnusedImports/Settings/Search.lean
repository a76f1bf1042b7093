import UnusedImports.WrittenPath

/-!
# Where settings files are found

A settings file has one of four names. `Settings.search?` looks for it in a directory and goes on
with the directory around it, until the directory around it is no other one. The nearest directory
wins, and inside a directory the order of the names.
-/

set_option autoImplicit false

namespace UnusedImports.Settings

/-- The names of settings files, the preferred one first. -/
def fileNames : List Text :=
  [".importtrack.yml".toList, ".importtrack.yaml".toList, "importtrack.yml".toList,
    "importtrack.yaml".toList]

/-- The settings file of a directory. -/
def fileIn? (tree : FileTree) (directory : Text) : Option Text :=
  (fileNames.map (WrittenPath.within directory)).find? tree.reaches

/-- The settings file of the nearest directory that has one, going up from `directory`. -/
def search? (tree : FileTree) (directory : Text) : Option Text :=
  match fileIn? tree directory with
  | some file => some file
  | none =>
    if WrittenPath.parent directory = directory then none
    else search? tree (WrittenPath.parent directory)
termination_by directory.length
decreasing_by exact WrittenPath.length_parent_lt ‹_›

/-- The settings file that holds for a written path, read from the directory `current`. -/
def find? (tree : FileTree) (current : Path) (start : Text) : Option Path :=
  (search? tree (WrittenPath.absolute current start)).map (Path.resolve [])

end UnusedImports.Settings
