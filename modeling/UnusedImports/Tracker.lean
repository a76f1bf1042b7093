import UnusedImports.Clause
import UnusedImports.Keyed
import UnusedImports.Value

/-!
# What happens while a unit is traversed

While a host traverses a compilation unit it tells the tracker which clauses come into scope and
which selectors are used. The tracker keeps a log of entries for each unit, the latest entry
first, and a set of used selectors for each clause. Reading a log or a set removes it, so
nothing stays behind once a unit is finished.

`Arena` hands out clauses with consecutive ids.
-/

set_option autoImplicit false

namespace UnusedImports

/-! ## Clauses with ids -/

/-- All clauses created so far; the id of a clause is its place. -/
structure Arena where
  clauses : List Clause
  deriving Repr

namespace Arena

/-- The arena without clauses. -/
def empty : Arena := ⟨[]⟩

/-- Create a clause under the next id. -/
def create (a : Arena) (qualifier : Text) (selectors : List Selector) (span : Option Span) :
    Clause × Arena :=
  let c : Clause := { id := a.clauses.length, qualifier, selectors, span }
  (c, ⟨a.clauses ++ [c]⟩)

/-- The clause with an id; a negative id counts from the latest clause backwards. -/
def get? (a : Arena) (id : Int) : Option Clause :=
  let place := if id < 0 then id + a.clauses.length else id
  if place < 0 then none else a.clauses[place.toNat]?

end Arena

/-! ## Units and entries -/

/-- The identity of a compilation unit. -/
inductive UnitId where
  | name (t : Text)
  | number (n : Int)
  deriving DecidableEq, Repr

/-- A compilation unit with its source; a foreign unit is not analysed. -/
structure CompilationUnit where
  id : UnitId
  path : Text
  content : Text
  isForeign : Bool
  deriving DecidableEq, Repr

/-- A clause that came into scope, the clause that carries its keyword, and its lexical owner. -/
structure Entry where
  clause : Clause
  keywordClause : Clause
  owner : Value
  deriving Repr

/-! ## The tracker -/

/-- The used selectors of every clause and the log of every unit. -/
structure Tracker where
  used : Keyed Int (List Selector)
  logs : Keyed UnitId (List Entry)
  deriving Repr

namespace Tracker

/-- The tracker of a run that has not begun. -/
def empty : Tracker := ⟨.empty, .empty⟩

/-- The selectors of the clause `id` that have been used. -/
def usedOf (t : Tracker) (id : Int) : List Selector :=
  (t.used.get? id).getD []

/-- The entries of a unit, the latest first. -/
def logOf (t : Tracker) (u : UnitId) : List Entry :=
  (t.logs.get? u).getD []

/-- A name was resolved through the selector `s` of the clause `c`. -/
def markUsed (t : Tracker) (c : Clause) (s : Selector) : Tracker :=
  { t with used := t.used.put c.id ((t.usedOf c.id).insert s) }

/-- Forget which selectors of a clause were used. -/
def dropUsed (t : Tracker) (c : Clause) : Tracker :=
  { t with used := t.used.erase c.id }

/-- Add an entry to the log of a unit. -/
def record (t : Tracker) (u : UnitId) (e : Entry) : Tracker :=
  { t with logs := t.logs.put u (e :: t.logOf u) }

/-- The entry for a clause that comes into scope while `visible` is in scope, latest first. -/
def entryFor (c : Clause) (visible : List Clause) (owner : Value) : Entry :=
  { clause := c, keywordClause := c.keywordClause visible, owner }

/-- Forget the log of a unit. -/
def dropLog (t : Tracker) (u : UnitId) : Tracker :=
  { t with logs := t.logs.erase u }

/-- Take the used selectors of a clause out of the tracker. -/
def drainUsed (t : Tracker) (c : Clause) : List Selector × Tracker :=
  (t.usedOf c.id, t.dropUsed c)

/-- Take the log of a unit out of the tracker. -/
def drainUnit (t : Tracker) (u : UnitId) : List Entry × Tracker :=
  (t.logOf u, t.dropLog u)

/-- Forget a unit: its log, and the used selectors of all clauses in the log. -/
def discardUnit (t : Tracker) (u : UnitId) : Tracker :=
  (t.logOf u).foldl (fun s e => s.dropUsed e.clause) (t.dropLog u)

/-- The units that have a log. -/
def pendingUnits (t : Tracker) : List UnitId :=
  t.logs.keys

/-- The number of used selectors of all clauses. -/
def usedCount (t : Tracker) : Nat :=
  (t.used.entries.map fun e => e.2.length).foldl (· + ·) 0

end Tracker

end UnusedImports
