import UnusedImports.Proofs.Path.Writing
import UnusedImports.Settings.Search
import Mathlib.Data.List.Find
import Mathlib.Data.List.Infix

/-!
# The nearest settings file

The search for a settings file goes up from directory to directory and has no bound of its own.
`Settings.Walk` describes it round by round. It ends because the directory around a place has a name
less, and the root is the directory around itself: a walk from a path of `n` names takes `n + 1`
rounds at most (`Walk.bounded`), and every search is such a walk (`exists_walk`).

`Settings.find?_nearest` says what the search finds: nothing, if no directory from the start up to
the root has a settings file, and otherwise the file of the nearest directory that has one, the
first one in the order of the names (`Settings.Nearest`).
-/

set_option autoImplicit false

namespace UnusedImports.Settings

open UnusedImports.Path WrittenPath

/-- A walk up from a directory, with the number of its rounds and its answer. In every round one
directory is looked at. -/
inductive Walk (tree : FileTree) : Text → Nat → Option Text → Prop where
  | found {directory file : Text} (hfile : fileIn? tree directory = some file) :
      Walk tree directory 1 (some file)
  | top {directory : Text} (hnone : fileIn? tree directory = none)
      (hroot : parent directory = directory) : Walk tree directory 1 none
  | up {directory : Text} {rounds : Nat} {answer : Option Text}
      (hnone : fileIn? tree directory = none) (hroot : parent directory ≠ directory)
      (hrest : Walk tree (parent directory) rounds answer) :
      Walk tree directory (rounds + 1) answer

/-- No settings file stands in the directory. -/
def Vacant (tree : FileTree) (d : Path) : Prop :=
  ∀ name ∈ fileNames, tree.contains (name :: d) = false

instance (tree : FileTree) (d : Path) : Decidable (Vacant tree d) :=
  inferInstanceAs (Decidable (∀ name ∈ fileNames, tree.contains (name :: d) = false))

/-- Of the directories from `p` up to the root, `d` is the nearest one with a settings file, and
`name` is the preferred name of such a file in it. -/
structure Nearest (tree : FileTree) (p d : Path) (name : Text) : Prop where
  around : d <:+ p
  entry : tree.contains (name :: d) = true
  preferred : ∃ before after, fileNames = before ++ name :: after ∧
    ∀ other ∈ before, tree.contains (other :: d) = false
  closest : ∀ e, e <:+ p → d.length < e.length → Vacant tree e

/-- What a walk from `p` has to answer, where paths are spelled behind the root `r`. -/
def Answers (tree : FileTree) (r : Text) (p : Path) : Option Text → Prop
  | none => ∀ d, d <:+ p → Vacant tree d
  | some file => ∃ d name, Nearest tree p d name ∧ file = spell r (name :: d)

variable {tree : FileTree} {r : Text} {p d : Path} {name : Text}

/-! ## Walks -/

/-- Every search is a walk. -/
theorem exists_walk (tree : FileTree) (directory : Text) :
    ∃ rounds, Walk tree directory rounds (search? tree directory) := by
  fun_induction search? tree directory with
  | case1 directory file hfile => exact ⟨1, .found hfile⟩
  | case2 directory hnone hroot => exact ⟨1, .top hnone hroot⟩
  | case3 directory hnone hroot ih =>
    obtain ⟨rounds, hwalk⟩ := ih
    exact ⟨rounds + 1, .up hnone hroot hwalk⟩

/-- There is one walk from every directory. -/
theorem Walk.unique {directory : Text} {m n : Nat} {a b : Option Text}
    (h : Walk tree directory m a) (h' : Walk tree directory n b) : m = n ∧ a = b := by
  -- what stands in the directory and around it tells which rule applies
  induction h generalizing n b with
  | found hfile =>
    cases h' with
    | found hfile' => exact ⟨rfl, hfile.symm.trans hfile'⟩
    | top hnone => exact absurd (hfile.symm.trans hnone) (by simp)
    | up hnone => exact absurd (hfile.symm.trans hnone) (by simp)
  | top hnone hroot =>
    cases h' with
    | found hfile => exact absurd (hfile.symm.trans hnone) (by simp)
    | top => exact ⟨rfl, rfl⟩
    | up _ hroot' => exact absurd hroot hroot'
  | up hnone hroot _ ih =>
    cases h' with
    | found hfile => exact absurd (hfile.symm.trans hnone) (by simp)
    | top _ hroot' => exact absurd hroot' hroot
    | up _ _ hrest =>
      obtain ⟨rfl, rfl⟩ := ih hrest
      exact ⟨rfl, rfl⟩

/-! ## One directory -/

theorem isName_of_mem_fileNames (h : name ∈ fileNames) : IsName name := by
  have hall : ∀ n ∈ fileNames, IsName n := by decide
  exact hall name h

/-- In a directory the first name is taken under which something stands. -/
theorem fileIn?_spell (hr : IsRoot r) (hp : HasNames p) :
    fileIn? tree (spell r p) =
      (fileNames.find? fun n => tree.contains (n :: p)).map fun n => spell r (n :: p) := by
  have hfiles : fileNames.map (within (spell r p)) = fileNames.map fun n => spell r (n :: p) :=
    List.map_congr_left fun n hn => within_spell hr hp (isName_of_mem_fileNames hn)
  rw [fileIn?, hfiles, List.find?_map]
  congr 1
  refine List.find?_congr fun n hn => ?_
  exact FileTree.reaches_spell hr (List.forall_mem_cons.2 ⟨isName_of_mem_fileNames hn, hp⟩)

theorem fileIn?_eq_none_iff (hr : IsRoot r) (hp : HasNames p) :
    fileIn? tree (spell r p) = none ↔ Vacant tree p := by
  rw [fileIn?_spell hr hp, Option.map_eq_none_iff, List.find?_eq_none]
  exact forall₂_congr fun n _ => Iff.of_eq (Bool.not_eq_true _)

/-- The file of a directory is the answer from there. -/
theorem answers_of_fileIn? (hr : IsRoot r) (hp : HasNames p) {file : Text}
    (h : fileIn? tree (spell r p) = some file) : Answers tree r p (some file) := by
  rw [fileIn?_spell hr hp, Option.map_eq_some_iff] at h
  obtain ⟨name, hfind, rfl⟩ := h
  obtain ⟨hentry, before, after, hnames, hbefore⟩ := List.find?_eq_some_iff_append.1 hfind
  refine ⟨p, name, ⟨List.suffix_refl p, hentry, ⟨before, after, hnames, ?_⟩, ?_⟩, rfl⟩
  · exact fun other hother => by simpa using hbefore other hother
  · exact fun e he hlonger => absurd he.length_le (Nat.not_le.2 hlonger)

/-! ## One step up -/

/-- What is nearest from around a vacant directory is nearest from the directory. -/
theorem Nearest.up {n : Text} (h : Nearest tree p d name) (hvacant : Vacant tree (n :: p)) :
    Nearest tree (n :: p) d name := by
  refine ⟨h.around.trans (List.suffix_cons n p), h.entry, h.preferred, ?_⟩
  intro e he hlonger
  rcases List.suffix_cons_iff.1 he with rfl | he
  · exact hvacant
  · exact h.closest e he hlonger

/-- The answer from around a vacant directory is the answer from the directory. -/
theorem Answers.up {n : Text} {answer : Option Text} (h : Answers tree r p answer)
    (hvacant : Vacant tree (n :: p)) : Answers tree r (n :: p) answer := by
  cases answer with
  | none =>
    intro d hd
    rcases List.suffix_cons_iff.1 hd with rfl | hd
    · exact hvacant
    · exact h d hd
  | some file =>
    obtain ⟨d, name, hnearest, hfile⟩ := h
    exact ⟨d, name, hnearest.up hvacant, hfile⟩

/-! ## Whole walks -/

/-- A walk takes one round more than there are names, at most, and finds what is nearest. -/
theorem Walk.bounded (hr : IsRoot r) (hp : HasNames p) {rounds : Nat} {answer : Option Text}
    (h : Walk tree (spell r p) rounds answer) :
    rounds ≤ p.length + 1 ∧ Answers tree r p answer := by
  -- along the names: every round but the last one drops a name
  induction p generalizing rounds with
  | nil =>
    cases h with
    | found hfile => exact ⟨Nat.le_refl _, answers_of_fileIn? hr hp hfile⟩
    | top hnone =>
      refine ⟨Nat.le_refl _, fun d hd => ?_⟩
      rw [List.suffix_nil.1 hd]
      exact (fileIn?_eq_none_iff hr hp).1 hnone
    | up _ hroot => exact absurd (parent_root hr) hroot
  | cons n p ih =>
    have hparent : parent (spell r (n :: p)) = spell r p := parent_spell_cons hr hp
    cases h with
    | found hfile => exact ⟨Nat.le_add_left _ _, answers_of_fileIn? hr hp hfile⟩
    | top hnone hroot =>
      -- a path and the path with one more name are not spelled in one way
      have hread := congrArg (Path.resolve []) (hparent.symm.trans hroot)
      rw [resolve_spell hr hp.tail, resolve_spell hr hp] at hread
      exact absurd hread.symm (List.cons_ne_self n p)
    | up hnone _ hrest =>
      -- the walk goes on around the directory, with one round and one name less
      rw [hparent] at hrest
      obtain ⟨hrounds, hanswers⟩ := ih hp.tail hrest
      refine ⟨Nat.succ_le_succ hrounds, hanswers.up ?_⟩
      exact (fileIn?_eq_none_iff hr hp).1 hnone

/-! ## The file that is found -/

/-- The name of a nearest file is the first one that its directory has. -/
theorem Nearest.find?_eq (h : Nearest tree p d name) :
    (fileNames.find? fun n => tree.contains (n :: d)) = some name := by
  obtain ⟨before, after, hnames, hbefore⟩ := h.preferred
  refine List.find?_eq_some_iff_append.2 ⟨h.entry, before, after, hnames, ?_⟩
  exact fun other hother => by simp [hbefore other hother]

/-- The directory of a nearest file is not vacant. -/
theorem Nearest.not_vacant (h : Nearest tree p d name) : ¬ Vacant tree d := by
  intro hvacant
  have hentry := h.entry
  rw [hvacant name (List.mem_of_find?_eq_some h.find?_eq)] at hentry
  exact Bool.false_ne_true hentry

/-- There is one nearest file at most. -/
theorem Nearest.unique {e : Path} {other : Text} (h : Nearest tree p d name)
    (h' : Nearest tree p e other) : d = e ∧ name = other := by
  -- both directories are around `p`, and neither is nearer than the other
  have hle : e.length ≤ d.length :=
    Nat.not_lt.1 fun hlt => h'.not_vacant (h.closest e h'.around hlt)
  have hge : d.length ≤ e.length :=
    Nat.not_lt.1 fun hlt => h.not_vacant (h'.closest d h.around hlt)
  have hsuffix := List.suffix_of_suffix_length_le h.around h'.around hge
  obtain rfl := hsuffix.eq_of_length (Nat.le_antisymm hge hle)
  exact ⟨rfl, Option.some.inj (h.find?_eq.symm.trans h'.find?_eq)⟩

/-- Nothing is an answer if all directories up to the root are vacant. -/
theorem Answers.eq_none_iff {answer : Option Text} (h : Answers tree r p answer) :
    answer = none ↔ ∀ d, d <:+ p → Vacant tree d := by
  constructor
  · rintro rfl
    exact h
  · intro hvacant
    cases answer with
    | none => rfl
    | some file =>
      obtain ⟨d, name, hnearest, -⟩ := h
      exact absurd (hvacant d hnearest.around) hnearest.not_vacant

/-- A file is an answer if it is the nearest one. -/
theorem Answers.eq_some_iff {answer : Option Text} (h : Answers tree r p answer) (file : Text) :
    answer = some file ↔ ∃ d name, Nearest tree p d name ∧ file = spell r (name :: d) := by
  constructor
  · rintro rfl
    exact h
  · rintro ⟨d, name, hnearest, rfl⟩
    cases answer with
    | none => exact absurd (h d hnearest.around) hnearest.not_vacant
    | some file =>
      obtain ⟨e, other, hother, rfl⟩ := h
      obtain ⟨rfl, rfl⟩ := hnearest.unique hother
      rfl

/-- A nearest file has a path of names. -/
theorem Nearest.hasNames (h : Nearest tree p d name) (hp : HasNames p) :
    HasNames (name :: d) :=
  List.forall_mem_cons.2 ⟨isName_of_mem_fileNames (List.mem_of_find?_eq_some h.find?_eq),
    fun n hn => hp n (h.around.subset hn)⟩

/-- What is found as a text is found as a path. -/
theorem Answers.map_eq_some_iff (hr : IsRoot r) (hp : HasNames p) {answer : Option Text}
    (h : Answers tree r p answer) (file : Path) :
    answer.map (Path.resolve []) = some file ↔
      ∃ d name, Nearest tree p d name ∧ file = name :: d := by
  rw [Option.map_eq_some_iff]
  constructor
  · rintro ⟨written, hwritten, rfl⟩
    obtain ⟨d, name, hnearest, rfl⟩ := (h.eq_some_iff written).1 hwritten
    exact ⟨d, name, hnearest, resolve_spell hr (hnearest.hasNames hp)⟩
  · rintro ⟨d, name, hnearest, rfl⟩
    refine ⟨spell r (name :: d), ?_, resolve_spell hr (hnearest.hasNames hp)⟩
    exact (h.eq_some_iff _).2 ⟨d, name, hnearest, rfl⟩

/-- The directory from which a search goes up. -/
def startOf (current : Path) (start : Text) : Path :=
  Path.resolve [] (absolute current start)

/-- A search from a written path goes up from its absolute form. It ends after one round more than
the absolute path has names, at most, and there is no other walk. It finds nothing exactly if no
directory from there up to the root has a settings file, and a file exactly if it is the nearest
one, under the name that is preferred among those of its directory. -/
theorem find?_nearest (tree : FileTree) (current : Path) (start : Text) :
    (HasNames current → startOf current start = Path.resolve current start) ∧
    (∃ rounds, Walk tree (absolute current start) rounds (search? tree (absolute current start))) ∧
    (∀ rounds answer, Walk tree (absolute current start) rounds answer →
      rounds ≤ (startOf current start).length + 1 ∧
        answer = search? tree (absolute current start)) ∧
    (find? tree current start = none ↔
      ∀ d, d <:+ startOf current start → ∀ name ∈ fileNames, tree.contains (name :: d) = false) ∧
    (∀ file, find? tree current start = some file ↔
      ∃ d name, Nearest tree (startOf current start) d name ∧ file = name :: d) ∧
    (∀ written, search? tree (absolute current start) = some written ↔
      ∃ d name, Nearest tree (startOf current start) d name ∧
        written = spell (root (absolute current start)) (name :: d)) := by
  have hr : IsRoot (root (absolute current start)) := isRoot_root _
  have hp : HasNames (startOf current start) := isName_resolve _
  have hspell : absolute current start =
      spell (root (absolute current start)) (startOf current start) :=
    absolute_eq_spell current start
  obtain ⟨rounds, hwalk⟩ := exists_walk tree (absolute current start)
  have hbounded : ∀ {rounds : Nat} {answer : Option Text},
      Walk tree (absolute current start) rounds answer →
        rounds ≤ (startOf current start).length + 1 ∧
          Answers tree (root (absolute current start)) (startOf current start) answer := by
    intro rounds answer h
    rw [hspell] at h
    exact h.bounded hr hp
  have hanswers := (hbounded hwalk).2
  refine ⟨fun h => resolve_absolute h start, ⟨rounds, hwalk⟩, ?_, ?_, ?_, hanswers.eq_some_iff⟩
  · exact fun n answer h => ⟨(hbounded h).1, (h.unique hwalk).2⟩
  · rw [find?, Option.map_eq_none_iff]
    exact hanswers.eq_none_iff
  · exact hanswers.map_eq_some_iff hr hp

/-- A project with a settings file of the least preferred name in its sources, and one of the most
preferred name around them. -/
def projectTree : FileTree :=
  { files := [["importtrack.yaml".toList, "src".toList, "project".toList],
      [".importtrack.yml".toList, "project".toList]]
    directories := [["main".toList, "src".toList, "project".toList]] }

/-- The settings file in the sources holds, for it is nearer. -/
theorem projectTree_nearest :
    (HasNames ["project".toList] ∧
      startOf ["project".toList] "src/../src/./main".toList =
        ["main".toList, "src".toList, "project".toList]) ∧
    find? projectTree ["project".toList] "src/../src/./main".toList =
      some ["importtrack.yaml".toList, "src".toList, "project".toList] ∧
    search? projectTree "/project/src/main".toList = some "/project/src/importtrack.yaml".toList := by
  have hnames : HasNames ["project".toList] := by decide
  have habsolute : absolute ["project".toList] "src/../src/./main".toList =
      "/project/src/main".toList := by decide
  obtain ⟨hstart, -, -, -, hfound, hwritten⟩ :=
    find?_nearest projectTree ["project".toList] "src/../src/./main".toList
  have hplace : startOf ["project".toList] "src/../src/./main".toList =
      ["main".toList, "src".toList, "project".toList] := (hstart hnames).trans (by decide)
  have hnearest : Nearest projectTree ["main".toList, "src".toList, "project".toList]
      ["src".toList, "project".toList] "importtrack.yaml".toList := by
    refine ⟨List.suffix_cons _ _, by decide, ⟨fileNames.dropLast, [], by decide, by decide⟩, ?_⟩
    intro e he hlonger
    rcases List.suffix_cons_iff.1 he with rfl | he
    · decide
    · exact absurd he.length_le (Nat.not_le.2 hlonger)
  rw [hplace] at hfound hwritten
  rw [habsolute] at hwritten
  refine ⟨⟨hnames, hplace⟩, (hfound _).2 ⟨_, _, hnearest, rfl⟩, ?_⟩
  exact (hwritten _).2 ⟨_, _, hnearest, by decide⟩

end UnusedImports.Settings
