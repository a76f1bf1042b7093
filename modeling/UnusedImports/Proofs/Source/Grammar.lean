import UnusedImports.Proofs.Fix.Usage
import UnusedImports.Proofs.Source.Row
import UnusedImports.Proofs.Text.Standing

/-!
# Sources with import statements

A source is a text in which import statements stand. A statement is the keyword and a row of
targets, a target is a path and a name or a row of items between braces, and an item is a name that
may be renamed. All blanks that the grammar allows are part of the data, so `Source.text` gives
every text that the grammar allows, and `Source.clauses` gives the clauses that a scanner of this
grammar finds, with the offsets at which they stand. `Source.RecordedIn` says of a log that it has
exactly these clauses, each with the first clause of its statement.
-/

set_option autoImplicit false

namespace UnusedImports

namespace Grammar

/-! ## Characters and names -/

/-- Spaces and tabs. -/
def isSpace (c : Char) : Bool :=
  c = ' ' || c = '\t'

/-- The white space between braces. -/
def isWhite (c : Char) : Bool :=
  c = ' ' || c = '\t' || c = '\r' || c = '\n'

/-- The first character of a name. -/
def isLetter (c : Char) : Bool :=
  c.isAlpha || c = '_'

/-- The characters that stand between names. -/
def isPunctuation (c : Char) : Bool :=
  c = '.' || c = ',' || c = '\x7b' || c = '\x7d' || c = '='

/-- The characters behind the first one of a name. They do not separate names. -/
structure WordClass where
  contains : Char → Bool
  separate : ∀ c, contains c = true → Text.isSolid c = true ∧ isPunctuation c = false

/-- A text of spaces and tabs. -/
abbrev Spaces := { t : Text // ∀ c ∈ t, isSpace c = true }

/-- A text of white space. -/
abbrev White := { t : Text // ∀ c ∈ t, isWhite c = true }

/-- The text is a letter and word characters. -/
def IsName (w : WordClass) (t : Text) : Prop :=
  ∃ c rest, t = c :: rest ∧ isLetter c = true ∧ ∀ d ∈ rest, w.contains d = true

/-- A name with a given class of word characters. -/
abbrev Name (w : WordClass) := { t : Text // IsName w t }

/-! ## Items, targets and statements -/

variable {w : WordClass}

/-- The wildcard is a name of its own. -/
def Name.isWildcard (name : Name w) : Bool :=
  name.val = ['_']

/-- The part of an item behind its name: an arrow between white space, and the new name. -/
structure Rename (w : WordClass) where
  before : White
  after : White
  name : Name w

/-- An item between braces, with the white space behind it. -/
structure Item (w : WordClass) where
  name : Name w
  rename : Option (Rename w)
  trail : White

/-- What a target imports from its path: one name, or the items between braces. -/
inductive Imports (w : WordClass) where
  | single (name : Name w)
  | braces (lead : White) (items : Row White (Item w))

/-- A dotted path, and what is imported from it. -/
structure Target (w : WordClass) where
  root : Name w
  path : List (Name w)
  imports : Imports w

/-- The keyword, spaces, and targets between commas. -/
structure Statement (w : WordClass) where
  lead : Spaces
  lead_ne_nil : lead.val ≠ []
  targets : Row (Spaces × White) (Target w)

/-- A text, and statements with the texts behind them. -/
structure Source (w : WordClass) where
  lead : Text
  parts : List (Statement w × Text)

/-! ## Texts -/

def Rename.text (r : Rename w) : Text :=
  r.before.val ++ "=>".toList ++ r.after.val ++ r.name.val

def Item.text (i : Item w) : Text :=
  i.name.val ++ (match i.rename with | some r => r.text | none => []) ++ i.trail.val

/-- A comma between items, and the white space behind it. -/
def itemGap (lead : White) : Text :=
  ',' :: lead.val

def Imports.text : Imports w → Text
  | .single name => name.val
  | .braces lead items => '\x7b' :: lead.val ++ items.text itemGap Item.text ++ ['\x7d']

def Target.pathText (e : Target w) : Text :=
  e.root.val ++ e.path.flatMap fun name => '.' :: name.val

def Target.text (e : Target w) : Text :=
  e.pathText ++ '.' :: e.imports.text

/-- A comma between targets, with the blanks around it. -/
def targetGap (g : Spaces × White) : Text :=
  g.1.val ++ ',' :: g.2.val

/-- The keyword of a statement. -/
def keyword : Text := "import".toList

def Statement.text (s : Statement w) : Text :=
  keyword ++ s.lead.val ++ s.targets.text targetGap Target.text

def partsText (parts : List (Statement w × Text)) : Text :=
  parts.flatMap fun q => q.1.text ++ q.2

def Source.text (src : Source w) : Text :=
  src.lead ++ partsText src.parts

/-! ## How texts start and end -/

theorem isLetter_solid {c : Char} (h : isLetter c = true) :
    Text.isSolid c = true ∧ c ≠ ',' := by
  constructor
  · by_contra hsolid
    rcases Text.cases_of_not_solid hsolid with rfl | rfl | rfl | rfl | rfl | rfl <;>
      exact absurd h (by decide)
  · rintro rfl
    exact absurd h (by decide)

theorem Name.solid (name : Name w) {c : Char} (hc : c ∈ name.val) :
    Text.isSolid c = true ∧ c ≠ ',' := by
  obtain ⟨a, rest, heq, ha, hrest⟩ := name.property
  rw [heq] at hc
  rcases List.mem_cons.1 hc with rfl | hc
  · exact isLetter_solid ha
  · obtain ⟨hsolid, hpunctuation⟩ := w.separate c (hrest c hc)
    refine ⟨hsolid, ?_⟩
    rintro rfl
    exact absurd hpunctuation (by decide)

theorem Name.startsSolid (name : Name w) : Text.StartsSolid name.val := by
  obtain ⟨a, rest, heq, ha, -⟩ := name.property
  exact ⟨a, rest, heq, (isLetter_solid ha).1⟩

theorem Name.endsSolid (name : Name w) : Text.EndsSolid name.val :=
  Text.EndsSolid.of_forall name.startsSolid.ne_nil fun _ hc => (name.solid hc).1

theorem White.comma_not_mem (white : White) : ',' ∉ white.val :=
  fun hc => absurd (white.property ',' hc) (by decide)

theorem Spaces.isBlank (spaces : Spaces) {c : Char} (hc : c ∈ spaces.val) :
    Text.isBlank c = true := by
  have hspace := spaces.property c hc
  simp only [isSpace, Bool.or_eq_true, decide_eq_true_eq] at hspace
  rcases hspace with rfl | rfl <;> decide

theorem Item.startsSolid (i : Item w) : Text.StartsSolid i.text := by
  rw [Item.text, List.append_assoc]
  exact i.name.startsSolid.append _

/-- No comma stands in an item. -/
theorem Item.comma_not_mem (i : Item w) : ',' ∉ i.text := by
  have hname : ∀ name : Name w, ',' ∉ name.val := fun name hc => (name.solid hc).2 rfl
  have htrail := White.comma_not_mem i.trail
  rw [Item.text, List.mem_append, List.mem_append]
  rintro ((hc | hc) | hc)
  · exact hname i.name hc
  · cases hrename : i.rename with
    | none => simp [hrename] at hc
    | some r =>
      have hbefore := White.comma_not_mem r.before
      have hafter := White.comma_not_mem r.after
      simp [hrename, Rename.text, hbefore, hafter, hname r.name] at hc
  · exact htrail hc

theorem Imports.endsSolid (is : Imports w) : Text.EndsSolid is.text := by
  cases is with
  | single name => exact name.endsSolid
  | braces lead items => exact ⟨_, _, rfl, by decide⟩

theorem Target.startsSolid (e : Target w) : Text.StartsSolid e.text := by
  rw [Target.text, Target.pathText, List.append_assoc]
  exact e.root.startsSolid.append _

theorem Target.endsSolid (e : Target w) : Text.EndsSolid e.text := by
  rw [Target.text, ← List.singleton_append, ← List.append_assoc]
  exact e.imports.endsSolid.append _

theorem Statement.startsSolid (s : Statement w) : Text.StartsSolid s.text :=
  ⟨'i', _, rfl, by decide⟩

theorem Statement.endsSolid (s : Statement w) : Text.EndsSolid s.text := by
  rw [Statement.text, Row.text]
  refine Text.EndsSolid.append ?_ _
  rcases List.eq_nil_or_concat s.targets.rest with hrest | ⟨front, q, hrest⟩
  · rw [hrest, List.flatMap_nil, List.append_nil]
    exact s.targets.first.endsSolid
  · rw [hrest, List.concat_eq_append, List.flatMap_append, List.flatMap_singleton,
      ← List.append_assoc, ← List.append_assoc]
    exact q.2.endsSolid.append _

/-! ## Records -/

/-- The selector for an item whose name stands at `n`. -/
def Item.selector (n : Nat) (i : Item w) : Selector :=
  { name := i.name.val
    namePos := n
    rename := i.rename.map fun r => r.name.val
    isWildcard := i.name.isWildcard }

/-- The selectors of what is imported, if it stands at `n`. -/
def Imports.selectors (n : Nat) : Imports w → List Selector
  | .single name => [⟨name.val, n, none, name.isWildcard⟩]
  | .braces lead items => items.placed itemGap Item.text Item.selector (n + 1 + lead.val.length)

/-- The clause for a target that stands at `n`; its span starts at `start`. -/
def Target.clause (id : Int) (start n : Nat) (e : Target w) : Clause :=
  { id
    qualifier := e.pathText
    selectors := e.imports.selectors (n + e.pathText.length + 1)
    span := some ⟨start, n, (n + e.text.length : Nat)⟩ }

/-- Where the first target of a statement at `n` stands. -/
def Statement.point (s : Statement w) (n : Nat) : Nat :=
  n + keyword.length + s.lead.val.length

/-- The first clause of a statement at `n`; its span starts at the keyword. The id of a clause may
depend on where its target stands. -/
def Statement.first (id : Nat → Int) (n : Nat) (s : Statement w) : Clause :=
  s.targets.first.clause (id (s.point n)) n (s.point n)

/-- The clauses of a statement at `n`. -/
def Statement.clauses (id : Nat → Int) (n : Nat) (s : Statement w) : List Clause :=
  s.first id n :: Row.behind targetGap Target.text (fun m e => e.clause (id m) m m) (s.point n)
    s.targets.first s.targets.rest

/-- The clauses of statements, the first of which stands at `n`, statement by statement. -/
def partsClauses (id : Nat → Int) : Nat → List (Statement w × Text) → List (List Clause)
  | _, [] => []
  | n, (s, gap) :: rest =>
    s.clauses id n :: partsClauses id (n + s.text.length + gap.length) rest

/-- The clauses of a source, statement by statement. -/
def Source.clauses (id : Nat → Int) (src : Source w) : List (List Clause) :=
  partsClauses id src.lead.length src.parts

/-- The entries of a log are those for the clauses of a source: each clause has some, with the
first clause of its statement, and nothing else has any. Different clauses have different ids. -/
structure Source.RecordedIn (src : Source w) (id : Nat → Int) (log : List Entry) : Prop where
  nodup_ids : ((src.clauses id).flatten.map Clause.id).Nodup
  mem_iff : ∀ c k, (∃ e ∈ log, e.clause = c ∧ e.keywordClause = k) ↔
    ∃ cs ∈ src.clauses id, c ∈ cs ∧ cs.head? = some k

/-! ## Contents -/

/-- What an item imports: a name, and the name it gets, if that is another one. -/
def Item.content (i : Item w) : Text × Option Text :=
  (i.name.val,
    if i.name.isWildcard then none
    else (i.rename.map fun r => r.name.val).filter fun r => r ≠ i.name.val)

def Imports.contents : Imports w → List (Text × Option Text)
  | .single name => [(name.val, none)]
  | .braces _ items => items.members.map Item.content

/-- What a target imports: items from a path. -/
def Target.content (e : Target w) : Text × List (Text × Option Text) :=
  (e.pathText, e.imports.contents)

/-- What a statement imports, target by target. -/
def Statement.contents (s : Statement w) : List (Text × List (Text × Option Text)) :=
  s.targets.members.map Target.content

end Grammar

/-- What a selector imports: a name, and the name it gets, if that is another one. -/
def Selector.content (s : Selector) : Text × Option Text :=
  (s.name, if s.isWildcard then none else s.rename.filter fun r => r ≠ s.name)

/-- What a clause imports: items from its qualifier. -/
def Clause.content (c : Clause) : Text × List (Text × Option Text) :=
  (c.qualifier, c.selectors.map Selector.content)

/-- The clause with the selectors that stay. -/
def Usage.reduce (used : Usage) (c : Clause) : Clause :=
  { c with selectors := used.kept c }

namespace Grammar

variable {w : WordClass}

/-- The selectors of what is imported have its contents. -/
theorem Imports.map_content_selectors (n : Nat) (is : Imports w) :
    (is.selectors n).map Selector.content = is.contents := by
  cases is with
  | single name =>
    simp [Imports.selectors, Imports.contents, Selector.content]
  | braces lead items =>
    rw [Imports.selectors, Row.map_placed, Imports.contents]
    exact Row.placed_const Item.content _ items

/-- The clause for a target has its content. -/
theorem Target.content_clause (id : Int) (start n : Nat) (e : Target w) :
    (e.clause id start n).content = e.content := by
  rw [Clause.content, Target.content, Target.clause, Imports.map_content_selectors]

end Grammar

end UnusedImports
