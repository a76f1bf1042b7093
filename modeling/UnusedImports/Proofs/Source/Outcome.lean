import UnusedImports.Proofs.Source.Grammar

/-!
# What fixes make of a source

The clauses of a statement and the used selectors decide what becomes of the statement
(`Usage.fate`): it is kept as it is, it is removed, or it is mended, which leaves a statement with
exactly the imports that stay (`Statement.Becomes`). The texts between the statements stay, up to
blanks and one line break next to a statement that changes (`Trimmed`). `Source.Becomes` joins both
to what fixes make of a whole source.
-/

set_option autoImplicit false

namespace UnusedImports

/-- What becomes of a statement. -/
inductive Fate where
  /-- Nothing goes. -/
  | kept
  /-- Something goes and something stays. -/
  | mended
  /-- Nothing stays. -/
  | removed
  deriving DecidableEq

/-- What becomes of a statement with the given clauses. -/
def Usage.fate (used : Usage) (cs : List Clause) : Fate :=
  if cs.all fun c => (used.unused c).isEmpty then .kept
  else if cs.all fun c => (used.kept c).isEmpty then .removed
  else .mended

section

variable {used : Usage} {cs : List Clause}

theorem Usage.unused_of_kept (h : used.fate cs = .kept) : ∀ c ∈ cs, used.unused c = [] := by
  rw [Usage.fate] at h
  split at h
  · rename_i hall
    simpa using hall
  · split at h <;> cases h

theorem Usage.kept_of_removed (h : used.fate cs = .removed) : ∀ c ∈ cs, used.kept c = [] := by
  rw [Usage.fate] at h
  split at h
  · cases h
  · split at h
    · rename_i hall
      simpa using hall
    · cases h

theorem Usage.exists_kept_of_mended (h : used.fate cs = .mended) : ∃ c ∈ cs, used.kept c ≠ [] := by
  rw [Usage.fate] at h
  split at h
  · cases h
  · split at h
    · cases h
    · rename_i hall
      simpa using hall

end

/-- What the clauses of a statement import from which something stays, selector by selector that
stays. -/
def Usage.imports (used : Usage) (cs : List Clause) : List (Text × List (Text × Option Text)) :=
  (cs.filter fun c => !(used.kept c).isEmpty).map fun c => (used.reduce c).content

namespace Fate

/-- What can go at the start of the text behind a statement: blanks in front of a line break, and
the line break with a statement that is removed. -/
def fronts (gap : Text) : Fate → List Text
  | kept => [[]]
  | mended => [[], Text.absorbed false gap]
  | removed => [Text.absorbed false gap, Text.absorbed true gap]

/-- What can go at the end of the text in front of a statement: the blanks in front of a statement
that is removed. -/
def backs (gap : Text) : Fate → List Text
  | removed => [[], gap.rtakeWhile Text.isBlank]
  | _ => [[]]

end Fate

namespace Grammar

variable {w : WordClass}

/-- What becomes of the text between two statements. -/
def Trimmed (left right : Fate) (gap gap' : Text) : Prop :=
  ∃ front ∈ left.fronts gap, ∃ back ∈ right.backs gap, gap = front ++ gap' ++ back

/-- What becomes of a statement with the clauses `cs`. -/
def Statement.Becomes (used : Usage) (cs : List Clause) (s : Statement w) (text : Text) : Prop :=
  match used.fate cs with
  | .kept => text = s.text
  | .removed => text = []
  | .mended => ∃ d : Statement w, text = d.text ∧ d.contents = used.imports cs

/-- What becomes of the text `gap` at `n`, and of statements with the texts behind them. The fate of
the statement in front of `gap` is `left`. -/
inductive PartsBecome (used : Usage) (id : Nat → Int) :
    Fate → Nat → Text → List (Statement w × Text) → Text → Prop where
  | last {left : Fate} {n : Nat} {gap gap' : Text} (hgap : Trimmed left .kept gap gap') :
    PartsBecome used id left n gap [] gap'
  | part {left : Fate} {n : Nat} {gap gap' next text others : Text} {s : Statement w}
    {rest : List (Statement w × Text)}
    (hgap : Trimmed left (used.fate (s.clauses id (n + gap.length))) gap gap')
    (hstatement : s.Becomes used (s.clauses id (n + gap.length)) text)
    (hrest : PartsBecome used id (used.fate (s.clauses id (n + gap.length)))
      (n + gap.length + s.text.length) next rest others) :
    PartsBecome used id left n gap ((s, next) :: rest) (gap' ++ text ++ others)

/-- What becomes of a source whose clauses have the given ids. -/
def Source.Becomes (used : Usage) (id : Nat → Int) (src : Source w) (text : Text) : Prop :=
  PartsBecome used id .kept 0 src.lead src.parts text

end Grammar

end UnusedImports
