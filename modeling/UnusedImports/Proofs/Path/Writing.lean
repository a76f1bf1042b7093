import UnusedImports.Proofs.Text.Cutting
import UnusedImports.WrittenPath
import Mathlib.Data.List.Infix

/-!
# The plain form of a path

Between the slashes of a path stand names, and dots that are resolved at once, so a resolved path
has names only (`Path.isName_resolve`). Spelled behind a root, such a path is read back as it is
(`WrittenPath.resolve_spell`). On its plain form the parts of the text follow the list of names: the
directory around a place drops the innermost name (`WrittenPath.parent_spell_cons`), a file of a
directory adds one (`WrittenPath.within_spell`), and the place is reached if the tree has it
(`WrittenPath.reaches_spell`).
-/

set_option autoImplicit false

namespace UnusedImports

namespace Path

/-- A name of a file or directory: it has no slash, and it is neither empty nor made of one or two
dots. -/
structure IsName (name : Text) : Prop where
  ne_nil : name ≠ []
  slash_not_mem : '/' ∉ name
  ne_dot : name ≠ ['.']
  ne_dots : name ≠ ['.', '.']

/-- All parts of the path are names. -/
def HasNames (p : Path) : Prop :=
  ∀ name ∈ p, IsName name

instance (name : Text) : Decidable (IsName name) :=
  decidable_of_iff (name ≠ [] ∧ '/' ∉ name ∧ name ≠ ['.'] ∧ name ≠ ['.', '.'])
    ⟨fun ⟨h₁, h₂, h₃, h₄⟩ => ⟨h₁, h₂, h₃, h₄⟩, fun ⟨h₁, h₂, h₃, h₄⟩ => ⟨h₁, h₂, h₃, h₄⟩⟩

instance (p : Path) : Decidable (HasNames p) :=
  inferInstanceAs (Decidable (∀ name ∈ p, IsName name))

variable {p : Path} {name : Text}

theorem HasNames.tail (h : HasNames (name :: p)) : HasNames p :=
  fun n hn => h n (List.mem_cons_of_mem name hn)

theorem HasNames.reverse (h : HasNames p) : ∀ n ∈ p.reverse, IsName n :=
  fun n hn => h n (List.mem_reverse.1 hn)

/-! ## Steps -/

theorem step_nil (p : Path) : p.step [] = p := rfl

/-- A name is a step down. -/
theorem step_of_isName (h : IsName name) (p : Path) : p.step name = name :: p := by
  rw [step, if_neg (by simp [h.ne_nil, h.ne_dot]), if_neg h.ne_dots]

/-- Every step leads to names again. -/
theorem HasNames.step (h : HasNames p) {piece : Text} (hpiece : '/' ∉ piece) :
    HasNames (p.step piece) := by
  rw [Path.step]
  split
  · exact h
  · rename_i hstay
    rw [Bool.or_eq_true, not_or, decide_eq_true_eq, decide_eq_true_eq] at hstay
    split
    · exact fun n hn => h n (List.mem_of_mem_tail hn)
    · rename_i hup
      exact List.forall_mem_cons.2 ⟨⟨hstay.1, hpiece, hstay.2, hup⟩, h⟩

/-- Any number of steps leads to names again. -/
theorem HasNames.foldl_step (h : HasNames p) {pieces : List Text}
    (hpieces : ∀ piece ∈ pieces, '/' ∉ piece) : HasNames (pieces.foldl Path.step p) := by
  induction pieces generalizing p with
  | nil => exact h
  | cons piece rest ih =>
    rw [List.forall_mem_cons] at hpieces
    exact ih (h.step hpieces.1) hpieces.2

/-- Names are steps down one after the other. -/
theorem foldl_step_of_isName {names : List Text} (h : ∀ n ∈ names, IsName n) (p : Path) :
    names.foldl step p = names.reverse ++ p := by
  induction names generalizing p with
  | nil => rfl
  | cons n rest ih =>
    rw [List.forall_mem_cons] at h
    rw [List.foldl_cons, step_of_isName h.1, ih h.2, List.reverse_cons, List.append_assoc,
      List.singleton_append]

/-- Empty pieces are no steps. -/
theorem foldl_step_of_nil {pieces : List Text} (h : ∀ piece ∈ pieces, piece = []) (p : Path) :
    pieces.foldl step p = p := by
  induction pieces with
  | nil => rfl
  | cons piece rest ih =>
    rw [List.forall_mem_cons] at h
    rw [List.foldl_cons, h.1, step_nil, ih h.2]

theorem origin_nil (t : Text) : origin [] t = [] := by
  unfold origin
  split <;> rfl

/-- A resolved path has names only. -/
theorem isName_resolve (t : Text) : HasNames (resolve [] t) := by
  rw [resolve, origin_nil]
  refine HasNames.foldl_step ?_ fun piece hpiece => Text.not_mem_of_mem_cutAt hpiece
  exact fun n hn => absurd hn List.not_mem_nil

end Path

namespace WrittenPath

open UnusedImports.Path

/-- The texts that stand for the root. -/
def IsRoot (r : Text) : Prop :=
  r = ['/'] ∨ r = ['/', '/']

theorem isRoot_root (t : Text) : IsRoot (root t) := by
  rw [root]
  split
  · exact Or.inr rfl
  · exact Or.inl rfl

variable {r : Text} {p : Path} {name : Text}

/-! ## Reading a plain form -/

/-- What stands behind a root is cut for itself, and the root adds empty pieces. -/
theorem exists_cutAt_root (hr : IsRoot r) (t : Text) :
    ∃ empties : List Text, (∀ piece ∈ empties, piece = []) ∧
      (r ++ t).cutAt '/' = empties ++ t.cutAt '/' := by
  have hslash : ∀ u : Text, Text.cutAt ('/' :: u) '/' = [] :: u.cutAt '/' :=
    fun u => Text.cutAt_append_cons [] u
  rcases hr with rfl | rfl
  · exact ⟨[[]], by simp, hslash t⟩
  · refine ⟨[[], []], by simp, ?_⟩
    exact (hslash ('/' :: t)).trans (congrArg (List.cons []) (hslash t))

/-- Cut at its slashes, a plain form has its names behind some empty pieces. -/
theorem exists_cutAt_spell (hr : IsRoot r) (hp : HasNames p) :
    ∃ empties : List Text, (∀ piece ∈ empties, piece = []) ∧
      (spell r p).cutAt '/' = empties ++ p.reverse := by
  obtain ⟨empties, hempties, hcut⟩ := exists_cutAt_root hr (Text.join ['/'] p.reverse)
  by_cases hnil : p.reverse = []
  · -- no names are joined to the empty text, which is one more empty piece
    refine ⟨empties ++ [[]], ?_, ?_⟩
    · exact List.forall_mem_append.2 ⟨hempties, List.forall_mem_singleton.2 rfl⟩
    · rw [spell, hcut, hnil, List.append_nil]
      rfl
  · rw [Text.cutAt_join hnil fun u hu => (hp.reverse u hu).slash_not_mem] at hcut
    exact ⟨empties, hempties, hcut⟩

/-- A plain form is read as the path that it spells. -/
theorem resolve_spell (hr : IsRoot r) (hp : HasNames p) : resolve [] (spell r p) = p := by
  obtain ⟨empties, hempties, hcut⟩ := exists_cutAt_spell hr hp
  rw [resolve, origin_nil, hcut, List.foldl_append, foldl_step_of_nil hempties,
    foldl_step_of_isName hp.reverse, List.reverse_reverse, List.append_nil]

/-- In front of the names of a plain form stands no slash. -/
theorem head?_join_ne (hp : HasNames p) : (Text.join ['/'] p.reverse).head? ≠ some '/' := by
  have hnames := hp.reverse
  cases hnil : p.reverse with
  | nil => simp [Text.join]
  | cons n rest =>
    have hn := hnames n (by rw [hnil]; exact List.mem_cons_self)
    obtain ⟨c, n, rfl⟩ := List.exists_cons_of_ne_nil hn.ne_nil
    rw [Text.join_cons, List.cons_append, List.head?_cons]
    rintro ⟨⟩
    exact hn.slash_not_mem List.mem_cons_self

/-- A plain form starts with its root. -/
theorem root_spell (hr : IsRoot r) (hp : HasNames p) : root (spell r p) = r := by
  have hnone : (Text.join ['/'] p.reverse).takeWhile (fun c => decide (c = '/')) = [] := by
    have hhead := head?_join_ne hp
    cases hjoin : Text.join ['/'] p.reverse with
    | nil => rfl
    | cons c rest =>
      rw [hjoin, List.head?_cons] at hhead
      exact List.takeWhile_cons_of_neg (by simpa using hhead)
  rcases hr with rfl | rfl <;> simp [root, spell, hnone]

/-! ## Files of a directory -/

/-- Behind names a new name stands after a slash, and behind the root it stands at once. -/
theorem spell_cons (r : Text) (p : Path) (name : Text) :
    spell r (name :: p) = if p = [] then r ++ name else spell r p ++ '/' :: name := by
  rw [spell, List.reverse_cons]
  split
  · rename_i hnil
    rw [hnil]
    rfl
  · rename_i hne
    rw [Text.join_concat _ (by simpa using hne), ← List.append_assoc]
    rfl

/-- A plain form with names ends with the end of its last name. -/
theorem getLast?_spell (hp : HasNames p) (hne : p ≠ []) :
    ∃ c, (spell r p).getLast? = some c ∧ c ≠ '/' := by
  obtain ⟨n, rest, rfl⟩ := List.exists_cons_of_ne_nil hne
  have hn := hp n List.mem_cons_self
  refine ⟨n.getLast hn.ne_nil, ?_, fun heq => hn.slash_not_mem (heq ▸ List.getLast_mem hn.ne_nil)⟩
  rw [spell_cons]
  split <;> simp [List.getLast?_append, List.getLast?_cons,
    List.getLast?_eq_some_getLast hn.ne_nil]

/-- A file of a directory is spelled behind the directory. -/
theorem within_spell (hr : IsRoot r) (hp : HasNames p) (hname : IsName name) :
    within (spell r p) name = spell r (name :: p) := by
  have hhead : name.head? ≠ some '/' := fun heq =>
    hname.slash_not_mem (List.mem_of_head? heq)
  rw [within, if_neg hhead, spell_cons]
  by_cases hnil : p = []
  · subst hnil
    rcases hr with rfl | rfl <;> simp [spell, Text.join]
  · obtain ⟨c, hlast, hc⟩ := getLast?_spell (r := r) hp hnil
    rw [if_neg hnil, if_neg]
    rintro (hempty | hslash)
    · simp [hempty] at hlast
    · rw [hlast] at hslash
      exact hc (Option.some.inj hslash)

/-! ## The directory around a place -/

/-- Up to the last slash there is all but the last name. -/
theorem front_append_cons (t : Text) (h : '/' ∉ name) : front (t ++ '/' :: name) = t ++ ['/'] := by
  have hdrop : ∀ c ∈ name.reverse, decide (c ≠ '/') = true := by
    intro c hc
    exact decide_eq_true fun heq => h (heq ▸ List.mem_reverse.1 hc)
  rw [front, List.reverse_append, List.reverse_cons, List.append_assoc,
    List.dropWhile_append_of_pos hdrop]
  simp

/-- The root is the directory around itself. -/
theorem parent_root (hr : IsRoot r) : parent (spell r []) = spell r [] := by
  rcases hr with rfl | rfl <;> rfl

/-- The directory around a place that has a name drops the name. -/
theorem parent_spell_cons (hr : IsRoot r) (hp : HasNames (name :: p)) :
    parent (spell r (name :: p)) = spell r p := by
  have hslash := (hp name List.mem_cons_self).slash_not_mem
  rw [spell_cons]
  split
  · rename_i hnil
    subst hnil
    -- in front of the last slash there are only slashes, so all of them stay
    have hfront : front (r ++ name) = r := by
      rcases hr with rfl | rfl
      · exact front_append_cons [] hslash
      · exact front_append_cons ['/'] hslash
    rw [parent, hfront, if_pos (by rcases hr with rfl | rfl <;> rfl)]
    exact (List.append_nil r).symm
  · rename_i hne
    -- the text in front of the last slash ends with a name, so no other slash is dropped
    obtain ⟨c, hlast, hc⟩ := getLast?_spell (r := r) hp.tail hne
    obtain ⟨t, ht⟩ := List.getLast?_eq_some_iff.1 hlast
    rw [parent, front_append_cons _ hslash, if_neg, ht]
    · simp [hc]
    · rw [ht]
      simp [hc]

/-! ## Absolute paths -/

theorem origin_of_head? {t : Text} (h : t.head? = some '/') (q : Path) : origin q t = [] := by
  obtain ⟨rest, rfl⟩ := List.head?_eq_some_iff.1 h
  rfl

theorem origin_of_not_head? {t : Text} (h : t.head? ≠ some '/') (q : Path) : origin q t = q := by
  unfold origin
  split
  · exact absurd rfl h
  · rfl

/-- What is written in a directory is resolved there. -/
theorem resolve_within {current : Path} (h : HasNames current) (t : Text) :
    resolve [] (within (spell ['/'] current) t) = resolve current t := by
  have hroot : IsRoot ['/'] := Or.inl rfl
  rw [within]
  split
  · rename_i hhead
    rw [resolve, resolve, origin_nil, origin_of_head? hhead]
  · rename_i hhead
    rw [resolve, resolve, origin_nil, origin_of_not_head? hhead]
    by_cases hnil : current = []
    · subst hnil
      rfl
    · obtain ⟨c, hlast, hc⟩ := getLast?_spell (r := ['/']) h hnil
      have hread := resolve_spell hroot h
      rw [resolve, origin_nil] at hread
      -- the slash between them cuts the text in two, and the steps of the first part lead to the
      -- directory
      rw [if_neg, Text.cutAt_append_cons, List.foldl_append, hread]
      rintro (hempty | hslash)
      · simp [hempty] at hlast
      · rw [hlast] at hslash
        exact hc (Option.some.inj hslash)

/-- An absolute path is read as what was written in the directory. -/
theorem resolve_absolute {current : Path} (h : HasNames current) (t : Text) :
    resolve [] (absolute current t) = resolve current t := by
  rw [absolute, plain, resolve_spell (isRoot_root _) (isName_resolve _), resolve_within h]

/-- An absolute path is the plain form of what it is read as. -/
theorem absolute_eq_spell (current : Path) (t : Text) :
    absolute current t = spell (root (absolute current t)) (resolve [] (absolute current t)) := by
  rw [absolute, plain, resolve_spell (isRoot_root _) (isName_resolve _),
    root_spell (isRoot_root _) (isName_resolve _)]

end WrittenPath

namespace FileTree

open UnusedImports.Path

variable {tree : FileTree} {p d : Path}

/-- What stands around something in a tree is a directory. -/
theorem isDirectory_of_contains (h : tree.contains p = true) (hd : d <:+ p) (hne : d ≠ p) :
    tree.isDirectory d = true := by
  have hdirectory : tree.isDirectory p = true → tree.isDirectory d = true := by
    rw [isDirectory, isDirectory]
    simp only [Bool.or_eq_true, List.any_eq_true, List.isEmpty_iff, Bool.and_eq_true,
      List.isSuffixOf_iff_suffix, decide_eq_true_eq]
    rintro ((hempty | ⟨q, hq, hsuffix⟩) | ⟨f, hf, -, hsuffix⟩)
    · subst hempty
      exact absurd (List.suffix_nil.1 hd) hne
    · exact Or.inl (Or.inr ⟨q, hq, hd.trans hsuffix⟩)
    · refine Or.inr ⟨f, hf, ?_, hd.trans hsuffix⟩
      rintro rfl
      exact hne (hd.eq_of_length_le hsuffix.length_le)
  rw [contains, Bool.or_eq_true] at h
  rcases h with hfile | hother
  · rw [isFile, List.contains_iff_mem] at hfile
    rw [isDirectory, Bool.or_eq_true, List.any_eq_true]
    refine Or.inr ⟨p, hfile, ?_⟩
    rw [Bool.and_eq_true, List.isSuffixOf_iff_suffix]
    exact ⟨by simpa using hne, hd⟩
  · exact hdirectory hother

theorem contains_of_suffix (h : tree.contains p = true) (hd : d <:+ p) :
    tree.contains d = true := by
  by_cases heq : d = p
  · rwa [heq]
  · rw [contains, isDirectory_of_contains h hd heq, Bool.or_true]

/-- Names are followed one after the other to what they lead to, if the tree has it. -/
theorem foldlM_follow? {names : List Text} (hnames : ∀ n ∈ names, IsName n)
    (hp : tree.contains p = true) :
    names.foldlM tree.follow? p =
      if tree.contains (names.reverse ++ p) then some (names.reverse ++ p) else none := by
  induction names generalizing p with
  | nil => simp [hp]
  | cons n rest ih =>
    rw [List.forall_mem_cons] at hnames
    have happend : (n :: rest).reverse ++ p = rest.reverse ++ (n :: p) := by simp
    rw [List.foldlM_cons, follow?, step_of_isName hnames.1, happend]
    by_cases hn : tree.contains (n :: p) = true
    · have hdirectory := isDirectory_of_contains hn (List.suffix_cons n p)
        fun heq => List.cons_ne_self n p heq.symm
      rw [hdirectory, hn]
      exact ih hnames.2 hn
    · -- a tree with the last place has all the places on the way
      have hnot : ¬ tree.contains (rest.reverse ++ (n :: p)) = true := fun h =>
        hn (contains_of_suffix h (List.suffix_append _ _))
      simp [hn, hnot]

/-- The root is in every tree. -/
theorem contains_nil (tree : FileTree) : tree.contains [] = true := by
  simp [contains, isDirectory]

/-- Empty pieces do not lead away from the root. -/
theorem foldlM_follow?_of_nil {pieces : List Text} (h : ∀ piece ∈ pieces, piece = []) :
    pieces.foldlM tree.follow? [] = some [] := by
  have hstay : tree.follow? [] [] = some [] := by
    rw [follow?, step_nil, contains_nil]
    rfl
  induction pieces with
  | nil => rfl
  | cons piece rest ih =>
    rw [List.forall_mem_cons] at h
    rw [List.foldlM_cons, h.1, hstay]
    exact ih h.2

/-- A plain form reaches something if the tree has it. -/
theorem reaches_spell {r : Text} (hr : WrittenPath.IsRoot r) (hp : HasNames p) :
    tree.reaches (WrittenPath.spell r p) = tree.contains p := by
  obtain ⟨empties, hempties, hcut⟩ := WrittenPath.exists_cutAt_spell hr hp
  have hne : (WrittenPath.spell r p).isEmpty = false := by
    rcases hr with rfl | rfl <;> rfl
  rw [reaches, locate?, hne, if_neg Bool.false_ne_true, origin_nil, hcut, List.foldlM_append,
    foldlM_follow?_of_nil hempties, Option.bind_eq_bind, Option.bind_some,
    foldlM_follow? hp.reverse (contains_nil tree), List.reverse_reverse, List.append_nil]
  split
  · rename_i hcontains
    rw [hcontains]
    rfl
  · rename_i hnot
    rw [Bool.not_eq_true] at hnot
    rw [hnot]
    rfl

end FileTree

end UnusedImports
