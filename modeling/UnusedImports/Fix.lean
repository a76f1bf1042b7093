import UnusedImports.Diagnostic
import UnusedImports.Text.Repair
import UnusedImports.Tracker

/-!
# Fixes for the unused selectors of a statement

Given the clauses of one import statement and the selectors of it that nobody used,
`Fix.statement` proposes deletions and replacements that leave a statement with exactly the
other selectors, in the layout it had.

* A statement of which nothing remains is deleted as a whole.
* A clause of which nothing remains is deleted up to the next clause. The last clause takes the
  comma after the nearest clause that remains instead.
* A clause of which one selector remains is written anew.
* From any other clause a selector is deleted up to the next one. The last selector takes the
  comma after the nearest selector that remains instead.

Every unused selector gets one proposal. Selectors that share a fix leave it to the last of
them, by the place of its name, and the others carry no action.

Proposals are listed as attempts: a malformed statement can make one of them fail, and the
proposals in front of the first failure still count.
-/

set_option autoImplicit false

namespace UnusedImports

/-- A selector that nobody used, with the entry of its clause. -/
structure Finding where
  selector : Selector
  entry : Entry
  deriving Repr

namespace Finding

/-- Findings in the order of their names in the source. -/
def inOrder (fs : List Finding) : List Finding :=
  fs.mergeSort fun a b => a.selector.namePos ≤ b.selector.namePos

/-- The findings in the clause `id`. -/
def ofClause (fs : List Finding) (id : Int) : List Finding :=
  fs.filter fun f => f.entry.clause.id = id

/-- The selectors found, each once. -/
def selectors (fs : List Finding) : List Selector :=
  (fs.map Finding.selector).eraseDups

end Finding

/-- A finding with the actions that mend it. -/
structure Proposal where
  finding : Finding
  actions : List CodeAction
  deriving Repr

namespace Fix

/-- Why no fix can be proposed. A clause without a span apart, each case needs a statement in which
a clause lists a selector twice or two clauses share an id. -/
inductive Failure where
  /-- A clause stands nowhere in the source. -/
  | noSpan
  /-- Nothing remains that could give up its comma. -/
  | nothingRemains
  /-- The selector is not one of its clause. -/
  | unknownSelector
  /-- The clause has no selectors. -/
  | noSelectors
  /-- The statement has no clauses. -/
  | noClauses
  deriving DecidableEq, Repr

/-- A proposal or the reason for which it failed. -/
abbrev Attempt := Except Failure Proposal

/-- The proposals in front of the first failure. -/
def proposals : List Attempt → List Proposal
  | .ok p :: rest => p :: proposals rest
  | _ => []

/-- The first failure. -/
def failure? : List Attempt → Option Failure
  | [] => none
  | .ok _ :: rest => failure? rest
  | .error e :: _ => some e

/-! ## Actions -/

/-- The action for one edit. -/
def action (start stop : Int) (replacement : Text) : CodeAction :=
  { title := "unused import".toList
    description := "remove import".toList
    edit := { start, stop, replacement } }

/-- Replace a stretch after white space repair. -/
def replace (t : Text) (start stop : Int) (replacement : Text) : CodeAction :=
  action (t.repairStart start stop replacement) (t.repairStop start stop replacement) replacement

/-- Delete a stretch after white space repair. -/
def delete (t : Text) (start stop : Int) : CodeAction :=
  replace t start stop []

/-- One proposal for each finding, the last of which carries the actions. -/
def carriedByLast (actions : Except Failure (List CodeAction)) : List Finding → List Attempt
  | [] => []
  | [f] => [actions.map (Proposal.mk f)]
  | f :: g :: rest => .ok ⟨f, []⟩ :: carriedByLast actions (g :: rest)

/-! ## Statements -/

/-- The clauses in the order of the source. -/
def inOrder (clauses : List Clause) : List Clause :=
  clauses.mergeSort fun a b => a.place.start ≤ b.place.start

/-- All selectors of the clause are unused. -/
def isDead (fs : List Finding) (c : Clause) : Bool :=
  !(Finding.ofClause fs c.id).isEmpty
    && c.selectors.length = (Finding.selectors (Finding.ofClause fs c.id)).length

/-- The ids of the clauses of which nothing remains. -/
def deadIds (fs : List Finding) (clauses : List Clause) : List Int :=
  ((clauses.filter (isDead fs)).map Clause.id).eraseDups

/-- Delete the whole statement. -/
def removeStatement (t : Text) (clauses : List Clause) (fs : List Finding) : List Attempt :=
  let actions :=
    match Span.extent (clauses.map Clause.place) with
    | some (start, stop) => .ok [delete t start stop]
    | none => .error .noClauses
  carriedByLast actions (Finding.inOrder fs)

/-- Where the part of a clause that can be cut starts: the keyword stays with its statement. -/
def cutStart (place : Nat) (c : Clause) : Int :=
  if place = 0 then c.place.point else c.place.start

/-- The last place of a list at which `p` holds. -/
def lastPlace? {α : Type} (p : α → Bool) (l : List α) : Option Nat :=
  (l.reverse.findIdx? p).map (l.length - 1 - ·)

/-- The actions that delete the last clause `c`, which takes the comma after the nearest clause
that remains. The cut of the clause is repaired over the whole tail, so that it cannot reach back
over the cut of the comma. -/
def tailActions (t : Text) (clauses : List Clause) (dead : List Int) (c : Clause) (start : Int) :
    Except Failure (List CodeAction) :=
  match lastPlace? (fun d : Clause => !dead.contains d.id) clauses with
  | none => .error .nothingRemains
  | some last =>
    match clauses.drop last with
    | kept :: next :: _ =>
      .ok [delete t kept.place.stop next.place.start,
        action start (t.repairStop kept.place.stop c.place.stop []) []]
    | _ => .error .nothingRemains

/-- Delete the clause at `place`. -/
def removeClause (t : Text) (clauses : List Clause) (dead : List Int) (place : Nat) (c : Clause)
    (fs : List Finding) : List Attempt :=
  let start := cutStart place c
  let actions :=
    match clauses[place + 1]? with
    | some next => .ok [delete t start next.place.start]
    | none => tailActions t clauses dead c start
  carriedByLast actions (Finding.inOrder fs)

/-- The actions that delete the last selector `s` of a clause, which takes the comma after the
nearest selector that remains. The closing brace stays. -/
def lastSelectorActions (t : Text) (c : Clause) (unused : List Selector) (s : Selector) :
    Except Failure (List CodeAction) :=
  match lastPlace? (fun r => !unused.contains r) c.selectors with
  | none => .error .nothingRemains
  | some last =>
    match c.selectors.drop last with
    | kept :: next :: _ =>
      let comma : Int := match t.find? ',' kept.namePos with
        | some place => place
        | none => -1
      .ok [delete t comma next.namePos, delete t s.namePos (c.place.stop - 1)]
    | _ => .error .nothingRemains

/-- The actions that delete one selector from between braces. -/
def selectorActions (t : Text) (c : Clause) (unused : List Selector) (final s : Selector) :
    Except Failure (List CodeAction) :=
  if s = final then lastSelectorActions t c unused s
  else
    match c.selectors.dropWhile (· ≠ s) with
    | _ :: next :: _ => .ok [delete t s.namePos next.namePos]
    | _ => .error .unknownSelector

/-- Delete some selectors of the clause at `place`, which keeps the others. -/
def updateClause (t : Text) (place : Nat) (c : Clause) (fs : List Finding) : List Attempt :=
  let unused := Finding.selectors fs
  let kept := c.selectors.filter fun s => !unused.contains s
  if kept.length = 1 then
    carriedByLast (.ok [replace t (cutStart place c) c.place.stop (c.render kept)])
      (Finding.inOrder fs)
  else
    match c.selectors.getLast? with
    | none => [.error .noSelectors]
    | some final =>
      (Finding.inOrder fs).map fun f =>
        (selectorActions t c unused final f.selector).map (Proposal.mk f)

/-- Mend the clause at `place` of the statement. -/
def mendClause (t : Text) (clauses : List Clause) (dead : List Int) (fs : List Finding)
    (c : Clause) (place : Nat) : List Attempt :=
  if dead.contains c.id then
    removeClause t clauses dead place c (Finding.ofClause fs c.id)
  else if (Finding.ofClause fs c.id).isEmpty then []
  else updateClause t place c (Finding.ofClause fs c.id)

/-- Mend the clauses of a statement, given in the order of the source. -/
def mendClauses (t : Text) (clauses : List Clause) (fs : List Finding) : List Attempt :=
  let dead := deadIds fs clauses
  if dead.length = clauses.length then removeStatement t clauses fs
  else clauses.zipIdx.flatMap fun (c, place) => mendClause t clauses dead fs c place

/-- One attempt for each unused selector of a statement; the clauses need no order. -/
def statement (t : Text) (clauses : List Clause) (fs : List Finding) : List Attempt :=
  if fs.isEmpty then []
  else if clauses.any fun c => c.span.isNone then [.error .noSpan]
  else mendClauses t (inOrder clauses) fs

end Fix

end UnusedImports
