import UnusedImports.Proofs.Fix.Order

/-!
# Units of one tracker do not interfere

A call belongs to a unit if it names the unit or one of its clauses (`Call.concerns`). What the
host learns about a unit in the course of a run is what the resolutions of the unit emit and answer
(`Tracker.reports`). If two units have different ids and no clause in common, all calls of the one
can be deleted from a run, and the reports of the other stay the same
(`reports_without_other_unit`).

The two runs are compared through `Isolation.Match`: the trackers hold the same log of the unit and
the same used selectors of its clauses. A call of the unit on both sides keeps them matched
(`Match.call`), and so does a call of the other unit on one side (`Match.skip`).
-/

set_option autoImplicit false

namespace UnusedImports

/-! ## Reports about a unit -/

/-- What a resolution answers: the number of its warnings, or the failure that ended it. -/
def Resolution.answer (r : Resolution) : Except Fix.Failure Nat :=
  match r.failure with
  | some e => .error e
  | none => .ok r.proposals.length

/-- The call is one of the unit `u`, whose clauses have the ids `ids`. -/
def Call.concerns (u : UnitId) (ids : Int → Bool) : Call → Bool
  | .markUsed c _ => ids c.id
  | .recordEntry v c _ _ => v.id = u && ids c.id
  | .drainUsed c => ids c.id
  | .drainUnit v => v.id = u
  | .discardUnit v => v.id = u
  | .resolve _ v => v.id = u

namespace Tracker

/-- What the host learns about the unit `u` from a call: if the call resolves the unit, the warnings
and the answer. -/
def reportOf (t : Tracker) (u : UnitId) : Call → List (List Warning × Except Fix.Failure Nat)
  | .resolve c v =>
    if v.id = u then [(c.warnings (c.resolve t v), (c.resolve t v).answer)] else []
  | _ => []

/-- What the host learns about the unit `u` from calls, one after the other. -/
def reports (u : UnitId) : Tracker → List Call → List (List Warning × Except Fix.Failure Nat)
  | _, [] => []
  | t, k :: rest => t.reportOf u k ++ reports u (t.call k) rest

/-- All clauses in the log of the unit `u` have ids in `ids`. -/
def LogWithin (t : Tracker) (u : UnitId) (ids : Int → Bool) : Prop :=
  ∀ e ∈ t.logOf u, ids e.clause.id = true

end Tracker

namespace Isolation

variable {u v : UnitId} {ids others : Int → Bool} {t t' : Tracker} {k : Call}

/-! ## Logs -/

/-- A call of the unit records clauses of the unit only. -/
theorem logWithin_call (h : t.LogWithin u ids) (hk : k.concerns u ids = true) :
    (t.call k).LogWithin u ids := by
  intro e he
  by_cases hfinish : k.finishes u = true
  · rw [Tracker.logOf_call_of_finishes hfinish, if_pos rfl] at he
    exact absurd he List.not_mem_nil
  cases k with
  | markUsed c s => exact h e he
  | recordEntry w c visible owner =>
    rw [Call.concerns, Bool.and_eq_true, decide_eq_true_eq] at hk
    rw [Tracker.call, Tracker.logOf_record, if_pos hk.1, List.mem_cons] at he
    rcases he with rfl | he
    · exact hk.2
    · exact h e he
  | drainUsed c => exact h e he
  | drainUnit w =>
    simp only [Tracker.call, Tracker.drainUnit, Tracker.logOf_dropLog] at he
    split at he
    · exact absurd he List.not_mem_nil
    · exact h e he
  | discardUnit w => exact absurd hk hfinish
  | resolve c w => exact absurd hk hfinish

/-- A call of another unit leaves the log of the unit alone. -/
theorem logOf_call_of_other (hunits : u ≠ v) (hk : k.concerns v others = true) :
    (t.call k).logOf u = t.logOf u := by
  by_cases hfinish : k.finishes v = true
  · rw [Tracker.logOf_call_of_finishes hfinish, if_neg hunits.symm]
  cases k with
  | markUsed c s => rfl
  | recordEntry w c visible owner =>
    rw [Call.concerns, Bool.and_eq_true, decide_eq_true_eq] at hk
    rw [Tracker.call, Tracker.logOf_record, hk.1, if_neg hunits.symm]
  | drainUsed c => rfl
  | drainUnit w =>
    have hw : w.id = v := of_decide_eq_true hk
    simp only [Tracker.call, Tracker.drainUnit, Tracker.logOf_dropLog, hw, if_neg hunits.symm]
  | discardUnit w => exact absurd hk hfinish
  | resolve c w => exact absurd hk hfinish

/-- A call of another unit leaves the used selectors of the clauses of the unit alone. -/
theorem usedOf_call_of_other (hids : ∀ id, ids id = true → others id = false)
    (hv : t.LogWithin v others) (hk : k.concerns v others = true) {id : Int}
    (hid : ids id = true) : (t.call k).usedOf id = t.usedOf id := by
  have hother : others id = false := hids id hid
  have hclause : ∀ c : Clause, others c.id = true → c.id ≠ id := by
    rintro c hc rfl
    rw [hc] at hother
    cases hother
  by_cases hfinish : k.finishes v = true
  · -- the clauses that a finished unit takes with it are in its log, so they are its own
    have hlog : id ∉ clauseIds (t.logOf v) := by
      intro hmem
      obtain ⟨e, he, heq⟩ := mem_clauseIds.1 hmem
      exact hclause e.clause (hv e he) heq
    rw [Tracker.usedOf_call_of_finishes hfinish, if_neg hlog]
  cases k with
  | markUsed c s => rw [Tracker.call, Tracker.usedOf_markUsed, if_neg (hclause c hk)]
  | recordEntry w c visible owner => rfl
  | drainUsed c =>
    rw [Tracker.call, Tracker.drainUsed, Tracker.usedOf_dropUsed, if_neg (hclause c hk)]
  | drainUnit w => rfl
  | discardUnit w => exact absurd hk hfinish
  | resolve c w => exact absurd hk hfinish

/-! ## Matched trackers -/

/-- Two trackers hold the same log of the unit `u` and the same used selectors of the clauses with
ids in `ids`. -/
structure Match (u : UnitId) (ids : Int → Bool) (t t' : Tracker) : Prop where
  logOf_eq : t.logOf u = t'.logOf u
  usedOf_eq : ∀ id, ids id = true → t.usedOf id = t'.usedOf id

/-- Matched trackers stay matched if both execute a call of the unit. -/
theorem Match.call (h : Match u ids t t') (hk : k.concerns u ids = true) :
    Match u ids (t.call k) (t'.call k) := by
  by_cases hfinish : k.finishes u = true
  · refine ⟨?_, fun id hid => ?_⟩
    · rw [Tracker.logOf_call_of_finishes hfinish, Tracker.logOf_call_of_finishes hfinish,
        h.logOf_eq]
    · rw [Tracker.usedOf_call_of_finishes hfinish, Tracker.usedOf_call_of_finishes hfinish,
        h.logOf_eq, h.usedOf_eq id hid]
  cases k with
  | markUsed c s =>
    refine ⟨h.logOf_eq, fun id hid => ?_⟩
    simp only [Tracker.call, Tracker.usedOf_markUsed, h.usedOf_eq id hid]
  | recordEntry w c visible owner =>
    refine ⟨?_, h.usedOf_eq⟩
    simp only [Tracker.call, Tracker.logOf_record, h.logOf_eq]
  | drainUsed c =>
    refine ⟨h.logOf_eq, fun id hid => ?_⟩
    simp only [Tracker.call, Tracker.drainUsed, Tracker.usedOf_dropUsed, h.usedOf_eq id hid]
  | drainUnit w =>
    refine ⟨?_, h.usedOf_eq⟩
    simp only [Tracker.call, Tracker.drainUnit, Tracker.logOf_dropLog, h.logOf_eq]
  | discardUnit w => exact absurd hk hfinish
  | resolve c w => exact absurd hk hfinish

/-- Matched trackers stay matched if one of them executes a call of another unit. -/
theorem Match.skip (h : Match u ids t t') (hunits : u ≠ v)
    (hids : ∀ id, ids id = true → others id = false) (hv : t.LogWithin v others)
    (hk : k.concerns v others = true) : Match u ids (t.call k) t' := by
  refine ⟨?_, fun id hid => ?_⟩
  · rw [logOf_call_of_other hunits hk, h.logOf_eq]
  · rw [usedOf_call_of_other hids hv hk hid, h.usedOf_eq id hid]

/-- A call of the unit reports the same on matched trackers. -/
theorem Match.reportOf_eq (h : Match u ids t t') (hu : t.LogWithin u ids) :
    t.reportOf u k = t'.reportOf u k := by
  cases k with
  | resolve c w =>
    simp only [Tracker.reportOf]
    split
    · rename_i hw
      subst hw
      obtain ⟨hproposals, hfailure⟩ := c.resolve_congr h.logOf_eq fun e he s => by
        rw [h.usedOf_eq e.clause.id (hu e he)]
      simp only [Checker.warnings, Resolution.answer, hproposals, hfailure]
    · rfl
  | _ => rfl

/-- A call of another unit reports nothing about the unit. -/
theorem reportOf_of_other (hunits : u ≠ v) (hk : k.concerns v others = true) :
    t.reportOf u k = [] := by
  cases k with
  | resolve c w =>
    have hw : w.id = v := of_decide_eq_true hk
    rw [Tracker.reportOf, hw, if_neg hunits.symm]
  | _ => rfl

/-- No call belongs to both units. -/
theorem not_concerns_of_concerns (hunits : u ≠ v) (hids : ∀ id, ids id = true → others id = false)
    (hk : k.concerns u ids = true) : k.concerns v others = false := by
  cases k with
  | markUsed c s => exact hids c.id hk
  | recordEntry w c visible owner =>
    rw [Call.concerns, Bool.and_eq_true, decide_eq_true_eq] at hk
    simp [Call.concerns, hk.1, hunits]
  | drainUsed c => exact hids c.id hk
  | drainUnit w =>
    have hw : w.id = u := of_decide_eq_true hk
    simp [Call.concerns, hw, hunits]
  | discardUnit w =>
    have hw : w.id = u := of_decide_eq_true hk
    simp [Call.concerns, hw, hunits]
  | resolve c w =>
    have hw : w.id = u := of_decide_eq_true hk
    simp [Call.concerns, hw, hunits]

/-! ## Runs -/

/-- From matched trackers on, the calls of another unit can be deleted from one of two runs. -/
theorem Match.reports_eq (h : Match u ids t t') (hunits : u ≠ v)
    (hids : ∀ id, ids id = true → others id = false) (hu : t.LogWithin u ids)
    (hv : t.LogWithin v others) {calls : List Call}
    (hcalls : ∀ k ∈ calls, k.concerns u ids = true ∨ k.concerns v others = true) :
    t.reports u calls = t'.reports u (calls.filter fun k => !k.concerns v others) := by
  induction calls generalizing t t' with
  | nil => rfl
  | cons k rest ih =>
    have hrest := fun j hj => hcalls j (List.mem_cons_of_mem k hj)
    rcases hcalls k List.mem_cons_self with hk | hk
    · -- a call of the unit happens in both runs
      have hother := not_concerns_of_concerns hunits hids hk
      have hlog : (t.call k).LogWithin v others := by
        intro e he
        rw [logOf_call_of_other hunits.symm hk] at he
        exact hv e he
      rw [List.filter_cons_of_pos (by simp [hother]), Tracker.reports, Tracker.reports,
        h.reportOf_eq hu, ih (h.call hk) (logWithin_call hu hk) hlog hrest]
    · -- a call of the other unit happens in the first run only
      have hlog : (t.call k).LogWithin u ids := by
        intro e he
        rw [logOf_call_of_other hunits hk] at he
        exact hu e he
      rw [List.filter_cons_of_neg (by simp [hk]), Tracker.reports, reportOf_of_other hunits hk,
        List.nil_append,
        ih (h.skip hunits hids hv hk) hlog (logWithin_call hv hk) hrest]

/-- If two units have different ids and no clause in common, what the resolutions of the one report,
actions and answers included, stays the same when all calls of the other one are deleted from the
run. -/
theorem reports_without_other_unit (hunits : u ≠ v)
    (hids : ∀ id, ids id = true → others id = false) {calls : List Call}
    (hcalls : ∀ k ∈ calls, k.concerns u ids = true ∨ k.concerns v others = true) :
    Tracker.empty.reports u calls =
      Tracker.empty.reports u (calls.filter fun k => !k.concerns v others) := by
  have hmatch : Match u ids Tracker.empty Tracker.empty := ⟨rfl, fun _ _ => rfl⟩
  have hempty : ∀ w own, Tracker.empty.LogWithin w own := fun _ _ _ he => absurd he List.not_mem_nil
  exact hmatch.reports_eq hunits hids (hempty u ids) (hempty v others) hcalls

/-- A foreign unit beside the sample unit. -/
def foreignUnit : CompilationUnit :=
  { id := .name "Foreign".toList
    path := "Foreign".toList
    content := "import c.w".toList
    isForeign := true }

def foreignW : Selector := ⟨['w'], 9, none, false⟩

def foreignC : Clause := ⟨2, ['c'], [foreignW], some ⟨0, 7, 10⟩⟩

/-- A run in which the foreign unit is recorded, marked, discarded, recorded again and resolved
between the calls of the sample unit. -/
def interleavedRun : List Call :=
  [.recordEntry History.sampleUnit History.sampleA [History.sampleA] .null,
    .recordEntry foreignUnit foreignC [foreignC, History.sampleA] .null,
    .markUsed foreignC foreignW, .discardUnit foreignUnit,
    .markUsed History.sampleA History.sampleY,
    .recordEntry foreignUnit foreignC [foreignC] .null,
    .resolve fixingChecker foreignUnit, .resolve fixingChecker History.sampleUnit,
    .markUsed foreignC foreignW]

/-- The sample unit is reported as if only its own three calls had happened. -/
theorem interleavedRun_reports :
    Tracker.empty.reports History.sampleUnit.id interleavedRun =
      Tracker.empty.reports History.sampleUnit.id
        [.recordEntry History.sampleUnit History.sampleA [History.sampleA] .null,
          .markUsed History.sampleA History.sampleY,
          .resolve fixingChecker History.sampleUnit] := by
  have hids : ∀ id : Int, decide (id = 0) = true → decide (id = 2) = false := by
    intro id hid
    rw [of_decide_eq_true hid]
    decide
  have hcalls : ∀ k ∈ interleavedRun, k.concerns History.sampleUnit.id (· = 0) = true ∨
      k.concerns foreignUnit.id (· = 2) = true := by
    simp [interleavedRun, Call.concerns, History.sampleUnit, History.sampleA, foreignUnit, foreignC]
  have hunits : History.sampleUnit.id ≠ foreignUnit.id := by decide
  have hfilter : (interleavedRun.filter fun k => !k.concerns foreignUnit.id (· = 2)) =
      [.recordEntry History.sampleUnit History.sampleA [History.sampleA] .null,
        .markUsed History.sampleA History.sampleY,
        .resolve fixingChecker History.sampleUnit] := by
    rfl
  have hsame := reports_without_other_unit hunits hids hcalls
  rwa [hfilter] at hsame

end Isolation

end UnusedImports
