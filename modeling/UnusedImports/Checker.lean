import UnusedImports.Deprecation
import UnusedImports.Fix
import UnusedImports.Sink

/-!
# Reporting the unused selectors of a unit

When the traversal of a unit is finished, `Checker.resolve` takes its log out of the tracker,
keeps the latest entry of every clause that has a span, and lists the selectors that were never
used, in the order of the source. Each of them becomes one warning. If fixes are wanted, the
findings are grouped by statement and `Fix.statement` proposes the actions.
-/

set_option autoImplicit false

namespace UnusedImports

/-! ## Findings -/

/-- The first entry of every clause. -/
def latestEntries : List Entry → List Entry
  | [] => []
  | e :: rest => e :: (latestEntries rest).filter fun f => f.clause.id ≠ e.clause.id

/-- The entries whose clauses have a span. -/
def placedEntries (es : List Entry) : List Entry :=
  es.filter fun e => e.clause.span.isSome

/-- Forget the used selectors of the clauses of the entries. -/
def Tracker.dropUsedOf (t : Tracker) (es : List Entry) : Tracker :=
  es.foldl (fun s e => s.dropUsed e.clause) t

/-- The selectors of an entry that import something and are not in `used`. -/
def unusedOf (used : List Selector) (e : Entry) : List Finding :=
  (e.clause.selectors.filter fun s => !s.isExclusion && !used.contains s).map (Finding.mk · e)

/-- The findings of all entries. The used selectors of a clause are taken out of the tracker by
its first entry. -/
def collectFindings (t : Tracker) : List Entry → List Finding
  | [] => []
  | e :: rest =>
    unusedOf (t.usedOf e.clause.id) e ++ collectFindings (t.dropUsed e.clause) rest

/-- Findings by the start of their clauses. -/
def byClauseStart (fs : List Finding) : List Finding :=
  fs.mergeSort fun a b => a.entry.clause.place.start ≤ b.entry.clause.place.start

/-- A finding whose clause has no span, and thus no place in the order of the source. -/
structure Unplaced where
  finding : Finding
  deriving Repr

/-- Findings in the order of the source. -/
def inSourceOrder (fs : List Finding) : Except Unplaced (List Finding) :=
  match fs.find? fun f => f.entry.clause.span.isNone with
  | some f => .error ⟨f⟩
  | none => .ok (byClauseStart fs)

/-- The unused selectors of the entries in the order of the source, and the tracker without their
used selectors. -/
def collectUnused (t : Tracker) (es : List Entry) : Except Unplaced (List Finding) × Tracker :=
  (inSourceOrder (collectFindings t es), t.dropUsedOf es)

/-! ## Statements -/

/-- The ids of the keyword clauses of the findings, in the order in which they first occur. -/
def statementIds (fs : List Finding) : List Int :=
  (fs.map fun f => f.entry.keywordClause.id).eraseDups

/-- The clauses of the statement whose keyword clause has the given id. -/
def statementClauses (es : List Entry) (id : Int) : List Clause :=
  (es.filter fun e => e.keywordClause.id = id).map Entry.clause

/-- The findings in the statement whose keyword clause has the given id. -/
def statementFindings (fs : List Finding) (id : Int) : List Finding :=
  fs.filter fun f => f.entry.keywordClause.id = id

/-- One attempt for each finding, with fixes, statement by statement. -/
def fixAttempts (content : Text) (es : List Entry) (fs : List Finding) : List Fix.Attempt :=
  (statementIds fs).flatMap fun id =>
    Fix.statement content (statementClauses es id) (statementFindings fs id)

/-- One attempt for each finding, without fixes. -/
def plainAttempts (fs : List Finding) : List Fix.Attempt :=
  fs.map fun f => .ok ⟨f, []⟩

/-! ## The checker -/

/-- The settings and the deprecations that the report depends on. -/
structure Checker where
  settings : Settings
  deprecations : DeprecationTable
  deriving Repr

/-- What is left after a unit is resolved: the tracker, the proposals made, and the failure that
ended them, if there was one. -/
structure Resolution where
  tracker : Tracker
  proposals : List Proposal
  failure : Option Fix.Failure
  deriving Repr

namespace Checker

/-- A checker with the given deprecations, or else with those of the settings. -/
def create (s : Settings) (table : Option DeprecationTable) : Except NotMapping Checker := do
  match table with
  | some table => return ⟨s, table⟩
  | none => return ⟨s, ← DeprecationTable.ofSettings s.deprecations⟩

/-- The attempts to report the findings of the entries. -/
def attempts (c : Checker) (content : Text) (es : List Entry) (fs : List Finding) :
    List Fix.Attempt :=
  if c.settings.emitFixes.truthy then fixAttempts content es fs else plainAttempts fs

/-- Take everything about a unit out of the tracker and report its unused selectors. Of a foreign
unit nothing is reported. -/
def resolve (c : Checker) (t : Tracker) (u : CompilationUnit) : Resolution :=
  if u.isForeign then ⟨t.discardUnit u.id, [], none⟩
  else
    let (log, drained) := t.drainUnit u.id
    let latest := latestEntries log
    let entries := placedEntries latest
    let drained := drained.dropUsedOf (latest.filter fun e => e.clause.span.isNone)
    let findings := byClauseStart (collectFindings drained entries)
    let attempts := c.attempts u.content entries findings
    ⟨drained.dropUsedOf entries, Fix.proposals attempts, Fix.failure? attempts⟩

/-- The warning for a proposal. -/
def warning (c : Checker) (p : Proposal) : Warning :=
  let s := p.finding.selector
  let clause := p.finding.entry.clause
  { position := s.namePos
    message := .text ("Unused import".toList ++ c.deprecations.addendum clause s)
    category := c.settings.category
    owner := p.finding.entry.owner
    origin := .text (clause.renderOne s)
    actions := p.actions }

/-- The warnings of a resolution. -/
def warnings (c : Checker) (r : Resolution) : List Warning :=
  r.proposals.map c.warning

end Checker

end UnusedImports
