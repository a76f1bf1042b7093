import UnusedImports.Proofs.Fix.Units
import UnusedImports.Proofs.Tracker.History

/-!
# What a resolution without fixes emits

After any run of calls a resolution without fixes emits one warning for each finding that
`History.report` reads off the calls, in its order, and moving or repeating marks changes nothing
(`resolve_emits_report`).
-/

set_option autoImplicit false

namespace UnusedImports.History

/-- After any run a resolution without fixes succeeds, and its warnings are those of the report of
the history. They stay the same if marks are moved over marks and entries, or repeated. -/
theorem resolve_emits_report (c : Checker) (calls : List Call) (u : CompilationUnit)
    (hforeign : u.isForeign = false) (hplain : c.settings.emitFixes.truthy = false) :
    (c.resolve (Tracker.run calls) u).failure = none ∧
      c.warnings (c.resolve (Tracker.run calls) u) =
        (report u.id calls.reverse).map (fun f => c.warning ⟨f, []⟩) ∧
      ∀ calls', Relation.EqvGen MarksMoved calls calls' →
        c.warnings (c.resolve (Tracker.run calls') u) =
          c.warnings (c.resolve (Tracker.run calls) u) := by
  obtain ⟨hfailure, hproposals⟩ := Checker.resolve_without_fixes (t := Tracker.run calls) hforeign
    hplain
  refine ⟨hfailure, ?_, ?_⟩
  · rw [Checker.warnings, hproposals, run_eq_tracker, byClauseStart_findings, List.map_map]
    rfl
  · intro calls' hmoved
    rw [Checker.warnings, Checker.warnings, (alike_of_eqvGen hmoved).proposals_eq c hforeign]

/-- The standard settings: no fixes. -/
def plainChecker : Checker := ⟨Settings.standard, .empty⟩

/-- The unit of the sample run, for `import a.{x, y}` and `import b.z`. -/
def sampleUnit : CompilationUnit :=
  { id := .number 0
    path := "Sample".toList
    content := "import a.{x, y}\nimport b.z".toList
    isForeign := false }

def sampleX : Selector := ⟨['x'], 10, none, false⟩

def sampleY : Selector := ⟨['y'], 13, none, false⟩

def sampleZ : Selector := ⟨['z'], 25, none, false⟩

def sampleA : Clause := ⟨0, ['a'], [sampleX, sampleY], some ⟨0, 7, 15⟩⟩

def sampleB : Clause := ⟨1, ['b'], [sampleZ], some ⟨16, 23, 26⟩⟩

/-- A run in which the second clause comes first, the first clause comes twice, one mark is removed
again and another comes before its clause. -/
def sampleRun : List Call :=
  [.recordEntry sampleUnit sampleB [sampleB] .null, .markUsed sampleB sampleZ,
    .recordEntry sampleUnit sampleA [sampleA] .null, .drainUsed sampleB,
    .markUsed sampleA sampleY, .recordEntry sampleUnit sampleA [sampleA] (.int 1)]

theorem report_sampleRun :
    report sampleUnit.id sampleRun.reverse =
      [⟨sampleX, ⟨sampleA, sampleA, .int 1⟩⟩, ⟨sampleZ, ⟨sampleB, sampleB, .null⟩⟩] := by
  have hentries : ((latestRecorded sampleUnit.id sampleRun.reverse).filter fun e =>
      e.clause.span.isSome) = [⟨sampleA, sampleA, .int 1⟩, ⟨sampleB, sampleB, .null⟩] := by
    rfl
  rw [report, hentries, List.mergeSort_of_pairwise (by decide)]
  rfl

/-- The sample run leaves `x` and `z` unused; `x` belongs to the second entry of its clause. -/
theorem sampleRun_emits_x_and_z :
    (plainChecker.warnings (plainChecker.resolve (Tracker.run sampleRun) sampleUnit)).map
        (fun w => (w.position, w.owner)) = [(10, .int 1), (25, .null)] := by
  have h := (resolve_emits_report plainChecker sampleRun sampleUnit rfl rfl).2.1
  rw [h, report_sampleRun]
  rfl

end UnusedImports.History
