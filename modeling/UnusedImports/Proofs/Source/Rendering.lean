import UnusedImports.Proofs.Source.Grammar
import UnusedImports.Proofs.Text.Cutting

/-!
# Reading rendered clauses

A clause with some of its selectors is rendered as the target of an import: a dotted path and a
name, or names between braces. `Grammar.readTarget` reads such a text. It cuts the text at the full
stops, what stands between braces at the commas, and an item at its arrow. It reads every target of
the grammar, whatever white space stands between the names (`Grammar.readTarget_text`), and every
rendered clause, whatever the names are made of (`Grammar.readTarget_render`). So a text stands for
one clause only (`Clause.render_identifies`).
-/

set_option autoImplicit false

namespace UnusedImports

namespace Grammar

/-! ## Reading -/

/-- The text is not empty, and nothing in it stands between names. -/
def IsIdentifier (t : Text) : Prop :=
  t ≠ [] ∧ ∀ c ∈ t, isPunctuation c = false ∧ isWhite c = false

instance (t : Text) : Decidable (IsIdentifier t) :=
  decidable_of_iff (t ≠ [] ∧ t.all (fun c => !isPunctuation c && !isWhite c) = true)
    (by simp [IsIdentifier])

/-- The text without the white space around it. -/
def trim (t : Text) : Text :=
  ((t.dropWhile isWhite).reverse.dropWhile isWhite).reverse

/-- The identifier in a text of nothing else but white space. -/
def readName (t : Text) : Option Text :=
  if IsIdentifier (trim t) then some (trim t) else none

/-- What an item imports: a name, and the name it gets, if that is another one. -/
def readItem (t : Text) : Option (Text × Option Text) :=
  match t.cutAt '=' with
  | [name] => (readName name).map fun name => (name, none)
  | [name, '>' :: rename] => do
    let name ← readName name
    let rename ← readName rename
    return (name, if name = ['_'] then none else (some rename).filter fun r => r ≠ name)
  | _ => none

/-- What is imported from a path: the items between braces, or one name. -/
def readImports (t : Text) : Option (List (Text × Option Text)) :=
  match t with
  | '\x7b' :: rest =>
    if rest.getLast? = some '\x7d' then (Text.cutAt rest.dropLast ',').mapM readItem else none
  | name => if IsIdentifier name then some [(name, none)] else none

/-- The path of a target, and what is imported from it. -/
def readTarget (t : Text) : Option (Text × List (Text × Option Text)) :=
  let path := (t.cutAt '.').dropLast
  if path ≠ [] ∧ ∀ name ∈ path, IsIdentifier name then
    (readImports ((t.cutAt '.').getLastD [])).map fun items => (Text.join ['.'] path, items)
  else none

/-! ## Names -/

variable {w : WordClass} {name rename : Text}

theorem IsIdentifier.not_mem (h : IsIdentifier name) {c : Char} (hc : isPunctuation c = true) :
    c ∉ name := by
  intro hmem
  rw [(h.2 c hmem).1] at hc
  cases hc

theorem IsIdentifier.reverse (h : IsIdentifier name) : IsIdentifier name.reverse :=
  ⟨fun hnil => h.1 (List.reverse_eq_nil_iff.1 hnil), fun c hc => h.2 c (List.mem_reverse.1 hc)⟩

/-- Names of the grammar are identifiers. -/
theorem Name.isIdentifier (name : Name w) : IsIdentifier name.val := by
  refine ⟨name.startsSolid.ne_nil, fun c hc => ?_⟩
  have hpunctuation : isPunctuation c = false := by
    obtain ⟨a, rest, heq, ha, hrest⟩ := name.property
    rw [heq] at hc
    rcases List.mem_cons.1 hc with rfl | hc
    · rw [Bool.eq_false_iff]
      intro h
      simp only [isPunctuation, Bool.or_eq_true, decide_eq_true_eq] at h
      rcases h with (((rfl | rfl) | rfl) | rfl) | rfl <;> exact absurd ha (by decide)
    · exact (w.separate c (hrest c hc)).2
  refine ⟨hpunctuation, ?_⟩
  rw [Bool.eq_false_iff]
  intro h
  simp only [isWhite, Bool.or_eq_true, decide_eq_true_eq] at h
  have hsolid := (name.solid hc).1
  rcases h with ((rfl | rfl) | rfl) | rfl <;> exact absurd hsolid (by decide)

theorem dropWhile_white {white back : Text} (hwhite : ∀ c ∈ white, isWhite c = true)
    (h : IsIdentifier name) : (white ++ (name ++ back)).dropWhile isWhite = name ++ back := by
  rw [List.dropWhile_append_of_pos hwhite]
  cases name with
  | nil => exact absurd rfl h.1
  | cons c rest =>
    have hc := (h.2 c List.mem_cons_self).2
    rw [List.cons_append, List.dropWhile_cons_of_neg (by rw [hc]; exact Bool.false_ne_true)]

theorem readName_white {front back : Text} (hfront : ∀ c ∈ front, isWhite c = true)
    (hback : ∀ c ∈ back, isWhite c = true) (h : IsIdentifier name) :
    readName (front ++ (name ++ back)) = some name := by
  have htrim : trim (front ++ (name ++ back)) = name := by
    have hreverse : ∀ c ∈ back.reverse, isWhite c = true :=
      fun c hc => hback c (List.mem_reverse.1 hc)
    have hdrop : (back.reverse ++ name.reverse).dropWhile isWhite = name.reverse := by
      have hname := List.append_nil name.reverse
      rw [← hname]
      exact dropWhile_white hreverse h.reverse
    rw [trim, dropWhile_white hfront h, List.reverse_append, hdrop, List.reverse_reverse]
  rw [readName, htrim, if_pos h]

/-! ## Items -/

variable {front back before after : Text}

theorem White.punctuation_not_mem {white : Text} (h : ∀ c ∈ white, isWhite c = true) {c : Char}
    (hc : isPunctuation c = true) : c ∉ white := by
  intro hmem
  have hwhite := h c hmem
  simp only [isWhite, Bool.or_eq_true, decide_eq_true_eq] at hwhite
  rcases hwhite with ((rfl | rfl) | rfl) | rfl <;> exact absurd hc (by decide)

/-- An item that is a name. -/
theorem readItem_name (hfront : ∀ c ∈ front, isWhite c = true)
    (hback : ∀ c ∈ back, isWhite c = true) (h : IsIdentifier name) :
    readItem (front ++ (name ++ back)) = some (name, none) := by
  have harrow : '=' ∉ front ++ (name ++ back) := by
    simp only [List.mem_append, not_or]
    exact ⟨White.punctuation_not_mem hfront rfl, h.not_mem rfl,
      White.punctuation_not_mem hback rfl⟩
  rw [readItem, Text.cutAt_of_not_mem harrow]
  simp only [readName_white hfront hback h, Option.map_some]

/-- An item that is a name and a new name. -/
theorem readItem_rename (hfront : ∀ c ∈ front, isWhite c = true)
    (hbefore : ∀ c ∈ before, isWhite c = true) (hafter : ∀ c ∈ after, isWhite c = true)
    (hback : ∀ c ∈ back, isWhite c = true) (hname : IsIdentifier name)
    (hrename : IsIdentifier rename) :
    readItem (front ++ (name ++ before) ++ '=' :: '>' :: (after ++ (rename ++ back))) =
      some (name, if name = ['_'] then none else (some rename).filter fun r => r ≠ name) := by
  have hleft : '=' ∉ front ++ (name ++ before) := by
    simp only [List.mem_append, not_or]
    exact ⟨White.punctuation_not_mem hfront rfl, hname.not_mem rfl,
      White.punctuation_not_mem hbefore rfl⟩
  have hright : '=' ∉ '>' :: (after ++ (rename ++ back)) := by
    simp only [List.mem_cons, List.mem_append, not_or]
    exact ⟨by decide, White.punctuation_not_mem hafter rfl, hrename.not_mem rfl,
      White.punctuation_not_mem hback rfl⟩
  rw [readItem, Text.cutAt_append hleft, Text.cutAt_of_not_mem hright]
  simp only [readName_white hfront hbefore hname, readName_white hafter hback hrename]
  rfl

/-! ## What is imported -/

theorem mapM_readItem {pieces : List Text} {items : List (Text × Option Text)}
    (h : List.Forall₂ (fun piece item => readItem piece = some item) pieces items) :
    pieces.mapM readItem = some items := by
  induction h with
  | nil => rfl
  | cons hitem _ ih => simp [hitem, ih]

/-- Pieces with commas between them that are items, between braces. -/
theorem readImports_braces {piece : Text} {pieces : List Text} {items : List (Text × Option Text)}
    (hcomma : ∀ p ∈ piece :: pieces, ',' ∉ p)
    (h : List.Forall₂ (fun piece item => readItem piece = some item) (piece :: pieces) items) :
    readImports ('\x7b' :: (piece ++ pieces.flatMap fun p => ',' :: p) ++ ['\x7d']) =
      some items := by
  rw [List.forall_mem_cons] at hcomma
  rw [List.cons_append, readImports, if_pos List.getLast?_concat, List.dropLast_concat,
    Text.cutAt_pieces hcomma.1 hcomma.2, mapM_readItem h]

theorem readImports_name (h : IsIdentifier name) : readImports name = some [(name, none)] := by
  rw [readImports, if_pos h]
  rintro rest rfl
  exact h.not_mem rfl List.mem_cons_self

/-- A path, a full stop, and what is imported. -/
theorem readTarget_path {path : List Text} {imports : Text} (hne : path ≠ [])
    (hpath : ∀ name ∈ path, IsIdentifier name) (himports : '.' ∉ imports) :
    readTarget (Text.join ['.'] path ++ '.' :: imports) =
      (readImports imports).map fun items => (Text.join ['.'] path, items) := by
  obtain ⟨root, rest, rfl⟩ := List.exists_cons_of_ne_nil hne
  have hcut : (Text.join ['.'] (root :: rest) ++ '.' :: imports).cutAt '.' =
      root :: rest ++ [imports] := by
    have hpieces : ∀ p ∈ rest ++ [imports], '.' ∉ p := by
      intro p hp
      rcases List.mem_append.1 hp with hp | hp
      · exact (hpath p (List.mem_cons_of_mem root hp)).not_mem rfl
      · rwa [List.mem_singleton.1 hp]
    have hcut := Text.cutAt_pieces ((hpath root List.mem_cons_self).not_mem rfl) hpieces
    rw [List.flatMap_append, List.flatMap_singleton, ← List.append_assoc] at hcut
    rw [Text.join_cons]
    exact hcut
  rw [readTarget, hcut, List.dropLast_concat, if_pos ⟨hne, hpath⟩, List.getLastD_concat]

/-! ## Targets of the grammar -/

theorem Item.punctuation_not_mem {c : Char} (i : Item w) (hc : isPunctuation c = true)
    (harrow : c ≠ '=') : c ∉ i.text := by
  have hgreater : c ≠ '>' := by
    rintro rfl
    exact absurd hc (by decide)
  have hname := i.name.isIdentifier.not_mem hc
  have htrail := White.punctuation_not_mem i.trail.property hc
  rw [Item.text]
  cases i.rename with
  | none => simp [hname, htrail]
  | some r =>
    have hbefore := White.punctuation_not_mem r.before.property hc
    have hafter := White.punctuation_not_mem r.after.property hc
    have hrename := r.name.isIdentifier.not_mem hc
    simp [Rename.text, hname, htrail, hbefore, hafter, hrename, harrow, hgreater]

/-- An item is read behind white space. -/
theorem readItem_text (lead : White) (i : Item w) :
    readItem (lead.val ++ i.text) = some i.content := by
  have hname := i.name.isIdentifier
  rw [Item.text, Item.content]
  cases i.rename with
  | none =>
    have hread := readItem_name lead.property i.trail.property hname
    simpa using hread
  | some r =>
    have hread := readItem_rename lead.property r.before.property r.after.property
      i.trail.property hname r.name.isIdentifier
    simpa [Rename.text, Name.isWildcard] using hread

theorem readImports_text (is : Imports w) : readImports is.text = some is.contents := by
  cases is with
  | single name => exact readImports_name name.isIdentifier
  | braces lead items =>
    have htext : (Imports.braces lead items).text =
        '\x7b' :: (lead.val ++ items.first.text ++
          (items.rest.map fun q => q.1.val ++ q.2.text).flatMap fun p => ',' :: p) ++ ['\x7d'] := by
      simp [Imports.text, Row.text, itemGap, List.flatMap_map]
    rw [htext, Imports.contents, Row.members]
    have hcomma : ∀ (white : White) (item : Item w), ',' ∉ white.val ++ item.text := by
      intro white item
      rw [List.mem_append, not_or]
      exact ⟨White.comma_not_mem white, item.comma_not_mem⟩
    refine readImports_braces ?_ (.cons (readItem_text lead items.first) ?_)
    · rw [List.forall_mem_cons, List.forall_mem_map]
      exact ⟨hcomma lead items.first, fun q _ => hcomma q.1 q.2⟩
    · rw [List.map_map, List.forall₂_map_left_iff, List.forall₂_map_right_iff, List.forall₂_same]
      exact fun q _ => readItem_text q.1 q.2

theorem Imports.dot_not_mem (is : Imports w) : '.' ∉ is.text := by
  cases is with
  | single name => exact name.isIdentifier.not_mem rfl
  | braces lead items =>
    have hwhite : ∀ white : White, '.' ∉ white.val :=
      fun white => White.punctuation_not_mem white.property rfl
    have hitem : ∀ i : Item w, '.' ∉ i.text := fun i => i.punctuation_not_mem rfl (by decide)
    have hrest : '.' ∉ items.rest.flatMap fun q => itemGap q.1 ++ q.2.text := by
      rw [List.mem_flatMap]
      rintro ⟨q, -, hq⟩
      simp [itemGap, hwhite, hitem] at hq
    simp [Imports.text, Row.text, hwhite, hitem, hrest]

/-- Every target of the grammar is read. -/
theorem readTarget_text (e : Target w) : readTarget e.text = some e.content := by
  have hpath : e.pathText = Text.join ['.'] (e.root.val :: e.path.map Subtype.val) := by
    rw [Text.join_cons, List.flatMap_map]
    rfl
  have hnames : ∀ name ∈ e.root.val :: e.path.map Subtype.val, IsIdentifier name := by
    rw [List.forall_mem_cons, List.forall_mem_map]
    exact ⟨e.root.isIdentifier, fun name _ => Name.isIdentifier name⟩
  have hdot := e.imports.dot_not_mem
  rw [Target.text, Target.content, hpath, readTarget_path (List.cons_ne_nil _ _) hnames hdot,
    readImports_text, Option.map_some]

end Grammar

/-! ## Rendered clauses -/

open Grammar (IsIdentifier readItem readImports readTarget)

namespace Selector

/-- The selector is a wildcard, or it has an identifier other than `_` for a name and identifiers
for a new name. -/
def WellNamed (s : Selector) : Prop :=
  s.isWildcard = false →
    IsIdentifier s.name ∧ s.name ≠ ['_'] ∧ ∀ r ∈ s.rename, IsIdentifier r

instance (s : Selector) : Decidable s.WellNamed :=
  inferInstanceAs (Decidable (_ → _))

/-- The name that the selector gives to what it imports, if that is another one. -/
def newName? (s : Selector) : Option Text :=
  s.rename.filter fun r => r ≠ s.name

/-- What a selector imports, as it is written: a wildcard under its sign, anything else under its
name. -/
def written (s : Selector) : Text × Option Text :=
  if s.isWildcard then (['_'], none) else (s.name, s.newName?)

/-- Two selectors are both wildcards, or import the same name under the same new name. -/
structure Same (s r : Selector) : Prop where
  wildcard : s.isWildcard = r.isWildcard
  name : s.isWildcard = false → s.name = r.name
  newName : s.isWildcard = false → s.newName? = r.newName?

variable {s r : Selector}

/-- What is written tells the selector. -/
theorem same_of_written (hs : s.WellNamed) (hr : r.WellNamed) (h : s.written = r.written) :
    s.Same r := by
  rw [written, written] at h
  cases hswild : s.isWildcard with
  | true =>
    cases hrwild : r.isWildcard with
    | true => exact ⟨hswild.trans hrwild.symm, by simp [hswild], by simp [hswild]⟩
    | false =>
      rw [hswild, hrwild, if_pos rfl, if_neg Bool.false_ne_true, Prod.mk.injEq] at h
      exact absurd h.1.symm (hr hrwild).2.1
  | false =>
    cases hrwild : r.isWildcard with
    | true =>
      rw [hswild, hrwild, if_pos rfl, if_neg Bool.false_ne_true, Prod.mk.injEq] at h
      exact absurd h.1 (hs hswild).2.1
    | false =>
      rw [hswild, hrwild, if_neg Bool.false_ne_true, if_neg Bool.false_ne_true,
        Prod.mk.injEq] at h
      exact ⟨hswild.trans hrwild.symm, fun _ => h.1, fun _ => h.2⟩

/-- The text of a selector is that of a wildcard, of a name, or of a name and a new name. -/
theorem render_cases (s : Selector) :
    (s.isWildcard = true ∧ s.render = ['_'] ∧ s.written = (['_'], none)) ∨
    (s.isWildcard = false ∧ s.isRename = false ∧ s.render = s.name ∧ s.written = (s.name, none)) ∨
    ∃ r, s.isWildcard = false ∧ s.isRename = true ∧ s.rename = some r ∧ r ≠ s.name ∧
      s.render = s.name ++ " => ".toList ++ r ∧ s.written = (s.name, some r) := by
  rw [render, written, newName?, isRename]
  cases hwildcard : s.isWildcard with
  | true => simp
  | false =>
    cases hrename : s.rename with
    | none => simp
    | some r => by_cases heq : r = s.name <;> simp [heq]

theorem isIdentifier_wildcard : IsIdentifier ['_'] := by
  decide

theorem punctuation_not_mem_render {c : Char} (h : s.WellNamed)
    (hc : Grammar.isPunctuation c = true) (harrow : c ≠ '=') : c ∉ s.render := by
  have hgap : c ∉ " => ".toList := by
    intro hmem
    have hcases : c = ' ' ∨ c = '=' ∨ c = '>' ∨ c = ' ' := by simpa using hmem
    rcases hcases with rfl | rfl | rfl | rfl
    · exact absurd hc (by decide)
    · exact harrow rfl
    · exact absurd hc (by decide)
    · exact absurd hc (by decide)
  rcases s.render_cases with ⟨-, hrender, -⟩ | ⟨hwild, -, hrender, -⟩ |
    ⟨r, hwild, -, hrename, -, hrender, -⟩
  · rw [hrender]
    exact isIdentifier_wildcard.not_mem hc
  · rw [hrender]
    exact (h hwild).1.not_mem hc
  · have hname := (h hwild).1.not_mem hc
    have hnew := ((h hwild).2.2 r hrename).not_mem hc
    rw [hrender, List.mem_append, List.mem_append, not_or, not_or]
    exact ⟨⟨hname, hgap⟩, hnew⟩

/-- A rendered selector is read as an item behind white space. -/
theorem readItem_render {white : Text} (hwhite : ∀ c ∈ white, Grammar.isWhite c = true)
    (h : s.WellNamed) : readItem (white ++ s.render) = some s.written := by
  have hnone : ∀ c ∈ ([] : Text), Grammar.isWhite c = true := by simp
  have hspace : ∀ c ∈ [' '], Grammar.isWhite c = true := by simp [Grammar.isWhite]
  rcases s.render_cases with ⟨-, hrender, hwritten⟩ | ⟨hwild, -, hrender, hwritten⟩ |
    ⟨r, hwild, -, hrename, hne, hrender, hwritten⟩
  · have hread := Grammar.readItem_name hwhite hnone isIdentifier_wildcard
    rw [hrender, hwritten]
    rwa [List.append_nil] at hread
  · have hread := Grammar.readItem_name hwhite hnone (h hwild).1
    rw [hrender, hwritten]
    rwa [List.append_nil] at hread
  · have hread := Grammar.readItem_rename hwhite hspace hspace hnone (h hwild).1
      ((h hwild).2.2 r hrename)
    rw [if_neg (h hwild).2.1, Option.filter_some, if_pos (decide_eq_true hne)] at hread
    rw [hrender, hwritten, ← hread]
    simp

/-- A rendered selector without another name is read without braces. -/
theorem readImports_render (h : s.WellNamed) (hrename : s.isRename = false) :
    readImports s.render = some [s.written] := by
  rcases s.render_cases with ⟨-, hrender, hwritten⟩ | ⟨hwild, -, hrender, hwritten⟩ |
    ⟨r, -, hother, -⟩
  · rw [hrender, hwritten]
    exact Grammar.readImports_name isIdentifier_wildcard
  · rw [hrender, hwritten]
    exact Grammar.readImports_name (h hwild).1
  · rw [hrename] at hother
    cases hother

end Selector

namespace Clause

/-- The qualifier is a dotted sequence of identifiers, and there are selectors, with identifiers
for names. -/
structure WellNamed (c : Clause) (kept : List Selector) : Prop where
  qualifier : ∃ names, names ≠ [] ∧ (∀ name ∈ names, IsIdentifier name) ∧
    c.qualifier = Text.join ['.'] names
  ne_nil : kept ≠ []
  selectors : ∀ s ∈ kept, s.WellNamed

variable {c d : Clause} {kept others : List Selector}

/-- Behind the path of a rendered clause stands what its selectors import. -/
theorem exists_render (h : c.WellNamed kept) :
    ∃ imports, c.render kept = c.qualifier ++ '.' :: imports ∧ '.' ∉ imports ∧
      readImports imports = some (kept.map Selector.written) := by
  obtain ⟨-, hne, hselectors⟩ := h
  obtain ⟨s, rest, rfl⟩ := List.exists_cons_of_ne_nil hne
  cases hbraces : needsBraces (s :: rest) with
  | false =>
    have hone : rest = [] ∧ s.isRename = false := by
      cases rest with
      | nil => exact ⟨rfl, hbraces⟩
      | cons r rest => cases hbraces
    obtain ⟨rfl, hrename⟩ := hone
    have hs := hselectors s List.mem_cons_self
    refine ⟨s.render, ?_, Selector.punctuation_not_mem_render hs rfl (by decide),
      Selector.readImports_render hs hrename⟩
    simp [render, hbraces, Text.join]
  | true =>
    -- the space behind a comma belongs to the next item
    have hspace : ∀ c ∈ [' '], Grammar.isWhite c = true := by simp [Grammar.isWhite]
    have hmem : ∀ {c : Char}, Grammar.isPunctuation c = true → c ≠ '=' → c ≠ ' ' →
        ∀ p ∈ s.render :: rest.map fun r => ' ' :: r.render, c ∉ p := by
      intro c hc harrow hblank
      rw [List.forall_mem_cons, List.forall_mem_map]
      refine ⟨?_, fun r hr => ?_⟩
      · exact Selector.punctuation_not_mem_render (hselectors s List.mem_cons_self) hc harrow
      · rw [List.mem_cons, not_or]
        exact ⟨hblank, Selector.punctuation_not_mem_render
          (hselectors r (List.mem_cons_of_mem s hr)) hc harrow⟩
    refine ⟨'\x7b' :: (s.render ++ (rest.map fun r => ' ' :: r.render).flatMap fun p => ',' :: p) ++
      ['\x7d'], ?_, ?_, ?_⟩
    · simp [render, hbraces, Text.join_cons, List.flatMap_map]
    · have hdot := hmem (c := '.') rfl (by decide) (by decide)
      rw [List.forall_mem_cons] at hdot
      have hrest : '.' ∉ (rest.map fun r => ' ' :: r.render).flatMap fun p => ',' :: p := by
        rw [List.mem_flatMap]
        rintro ⟨p, hp, hcomma⟩
        rcases List.mem_cons.1 hcomma with hcomma | hcomma
        · exact absurd hcomma (by decide)
        · exact hdot.2 p hp hcomma
      simp [hdot.1, hrest]
    · refine Grammar.readImports_braces (hmem rfl (by decide) (by decide)) ?_
      have hfirst : readItem s.render = some s.written :=
        Selector.readItem_render (List.forall_mem_nil _) (hselectors s List.mem_cons_self)
      refine .cons hfirst ?_
      rw [List.forall₂_map_left_iff, List.forall₂_map_right_iff, List.forall₂_same]
      exact fun r hr => Selector.readItem_render hspace (hselectors r (List.mem_cons_of_mem s hr))

/-- A rendered clause is read as a target. -/
theorem readTarget_render (h : c.WellNamed kept) :
    readTarget (c.render kept) = some (c.qualifier, kept.map Selector.written) := by
  obtain ⟨imports, hrender, hdot, hread⟩ := exists_render h
  obtain ⟨names, hne, hnames, hqualifier⟩ := h.qualifier
  rw [hrender, hqualifier, Grammar.readTarget_path hne hnames hdot, hread, Option.map_some]

/-- What is written for selectors tells the selectors. -/
theorem forall₂_same_of_written (hkept : ∀ s ∈ kept, s.WellNamed)
    (hothers : ∀ s ∈ others, s.WellNamed)
    (h : kept.map Selector.written = others.map Selector.written) :
    List.Forall₂ Selector.Same kept others := by
  induction kept generalizing others with
  | nil =>
    rw [List.map_nil, eq_comm, List.map_eq_nil_iff] at h
    rw [h]
    exact .nil
  | cons s rest ih =>
    cases others with
    | nil => cases h
    | cons r others =>
      rw [List.forall_mem_cons] at hkept hothers
      rw [List.map_cons, List.map_cons, List.cons.injEq] at h
      exact .cons (Selector.same_of_written hkept.1 hothers.1 h.1) (ih hkept.2 hothers.2 h.2)

/-- A text is rendered for one qualifier only and for selectors that import the same, place by
place. Reading it as a target gives them back, and every target of the grammar with this text
imports what they import. -/
theorem render_identifies (hc : c.WellNamed kept) (hd : d.WellNamed others) :
    (c.render kept = d.render others →
      c.qualifier = d.qualifier ∧ List.Forall₂ Selector.Same kept others) ∧
    readTarget (c.render kept) = some (c.qualifier, kept.map Selector.written) ∧
    ∀ {w : Grammar.WordClass} (e : Grammar.Target w), e.text = c.render kept →
      e.content = (c.qualifier, kept.map Selector.written) := by
  have hread := readTarget_render hc
  refine ⟨fun h => ?_, hread, fun e he => ?_⟩
  · rw [h, readTarget_render hd, Option.some.injEq, Prod.mk.injEq] at hread
    exact ⟨hread.1.symm, forall₂_same_of_written hc.selectors hd.selectors hread.2.symm⟩
  · rw [← he, Grammar.readTarget_text, Option.some.injEq] at hread
    exact hread

/-- A name under a new name, a name, and a wildcard. -/
def mixedSelectors (rename : Option Text) : List Selector :=
  [⟨"x".toList, 5, some "y".toList, false⟩, ⟨"z".toList, 13, rename, false⟩,
    ⟨"_".toList, 16, none, true⟩]

/-- A name that is renamed to itself is not told from one that is not renamed. -/
theorem mixedSelectors_identified :
    ∃ c : Clause, c.WellNamed (mixedSelectors none) ∧
      c.WellNamed (mixedSelectors (some "z".toList)) ∧
      c.render (mixedSelectors none) = "a.b.\x7bx => y, z, _\x7d".toList ∧
      c.render (mixedSelectors none) = c.render (mixedSelectors (some "z".toList)) ∧
      List.Forall₂ Selector.Same (mixedSelectors none) (mixedSelectors (some "z".toList)) ∧
      readTarget (c.render (mixedSelectors none)) =
        some ("a.b".toList, [(['x'], some ['y']), (['z'], none), (['_'], none)]) := by
  have hpath : ∃ names, names ≠ [] ∧ (∀ name ∈ names, IsIdentifier name) ∧
      "a.b".toList = Text.join ['.'] names := ⟨[['a'], ['b']], by decide, by decide, rfl⟩
  have hplain : WellNamed ⟨0, "a.b".toList, [], none⟩ (mixedSelectors none) :=
    ⟨hpath, by decide, by decide⟩
  have hself : WellNamed ⟨0, "a.b".toList, [], none⟩ (mixedSelectors (some "z".toList)) :=
    ⟨hpath, by decide, by decide⟩
  obtain ⟨hsame, hread, -⟩ := render_identifies hplain hself
  exact ⟨_, hplain, hself, by decide, by decide, (hsame (by decide)).2, hread⟩

end Clause

end UnusedImports
