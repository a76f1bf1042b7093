import UnusedImports.Proofs.Fix.Order

/-!
# The order in which clauses come into scope

Two trackers hold the same entries of a unit if their logs have the same members, in any order and
each any number of times, and the clauses in them the same used selectors (`SameEntries`). If
every clause with a span has one entry and the spans start at different places
(`Entry.Distinguished`), the entries that stand are the same ones in another order
(`SameEntries.standing_perm`), and sorting them by the starts of their clauses undoes the
difference: both for the report (`SameEntries.byClauseStart_findings_eq`) and for the clauses of a
statement (`Fix.statement_perm`). So the warnings, their actions included, are the same
(`Checker.warnings_of_same_entries`).
-/

set_option autoImplicit false

namespace UnusedImports

/-! ## Entries without their order -/

/-- Every clause with a span has one entry, and no two spans start at one place. -/
structure Entry.Distinguished (es : List Entry) : Prop where
  one : ∀ e ∈ es, e.clause.span.isSome = true → ∀ f ∈ es, f.clause.id = e.clause.id → f = e
  starts : ∀ e ∈ es, ∀ f ∈ es, e.clause.span.isSome = true → f.clause.span.isSome = true →
    e.clause.place.start = f.clause.place.start → e.clause.id = f.clause.id

/-- Two trackers hold the same entries of the unit, and the same used selectors of the clauses in
them. -/
structure SameEntries (t t' : Tracker) (u : UnitId) : Prop where
  mem_logOf_iff : ∀ e, e ∈ t.logOf u ↔ e ∈ t'.logOf u
  mem_usedOf_iff : ∀ e ∈ t.logOf u, ∀ s, s ∈ t.usedOf e.clause.id ↔ s ∈ t'.usedOf e.clause.id

theorem Entry.Distinguished.of_mem_iff {es es' : List Entry} (h : Entry.Distinguished es)
    (hmem : ∀ e, e ∈ es ↔ e ∈ es') : Entry.Distinguished es' where
  one e he hspan f hf := h.one e ((hmem e).2 he) hspan f ((hmem f).2 hf)
  starts e he f hf := h.starts e ((hmem e).2 he) f ((hmem f).2 hf)

namespace Tracker

variable {t : Tracker} {u : UnitId}

/-- If every clause with a span has one entry, this entry stands. -/
theorem mem_standing_iff (h : Entry.Distinguished (t.logOf u)) {e : Entry} :
    e ∈ t.standing u ↔ e ∈ t.logOf u ∧ e.clause.span.isSome = true := by
  constructor
  · intro he
    exact ⟨mem_logOf_of_mem_standing he, span_of_mem_standing he⟩
  · rintro ⟨he, hspan⟩
    have hid : e.clause.id ∈ clauseIds (latestEntries (t.logOf u)) := by
      rw [mem_clauseIds_latestEntries]
      exact mem_clauseIds.2 ⟨e, he, rfl⟩
    -- the latest entry of the clause can only be `e`
    obtain ⟨f, hf, hfe⟩ := mem_clauseIds.1 hid
    obtain rfl : f = e := h.one e he hspan f (mem_of_mem_latestEntries hf) hfe
    exact List.mem_filter.2 ⟨hf, hspan⟩

/-- No two standing clauses start at one place. -/
theorem nodup_starts_standing (h : Entry.Distinguished (t.logOf u)) :
    ((t.standing u).map fun e => e.clause.place.start).Nodup := by
  have hids := t.nodup_clauseIds_standing u
  refine List.Nodup.map_on (fun e he f hf hstart => ?_) hids.of_map
  have hid := h.starts e (mem_logOf_of_mem_standing he) f (mem_logOf_of_mem_standing hf)
    (span_of_mem_standing he) (span_of_mem_standing hf) hstart
  exact List.inj_on_of_nodup_map hids he hf hid

end Tracker

/-! ## What is reported -/

/-- Entries whose clauses start at different places are sorted alike, whatever their order. -/
theorem Entry.inOrder_congr {es es' : List Entry} (hperm : es.Perm es')
    (hstarts : (es.map fun e => e.clause.place.start).Nodup) :
    Entry.inOrder es = Entry.inOrder es' :=
  Sorting.mergeSort_eq_of_perm hperm hstarts

namespace SameEntries

variable {t t' : Tracker} {u : UnitId}

/-- The standing entries differ in their order only. -/
theorem standing_perm (h : SameEntries t t' u) (hdist : Entry.Distinguished (t.logOf u)) :
    (t.standing u).Perm (t'.standing u) := by
  have hdist' := hdist.of_mem_iff h.mem_logOf_iff
  refine (List.perm_ext_iff_of_nodup (t.nodup_clauseIds_standing u).of_map
    (t'.nodup_clauseIds_standing u).of_map).2 fun e => ?_
  rw [Tracker.mem_standing_iff hdist, Tracker.mem_standing_iff hdist', h.mem_logOf_iff]

/-- The sorted findings are the same. -/
theorem byClauseStart_findings_eq (h : SameEntries t t' u)
    (hdist : Entry.Distinguished (t.logOf u)) :
    byClauseStart (t.findings u) = byClauseStart (t'.findings u) := by
  have hsorted : Entry.inOrder (t.standing u) = Entry.inOrder (t'.standing u) :=
    Entry.inOrder_congr (h.standing_perm hdist) (Tracker.nodup_starts_standing hdist)
  -- sorting the findings is sorting the entries, and that undoes the difference in their order
  rw [Tracker.findings_eq_flatMap, Tracker.findings_eq_flatMap, byClauseStart_eq_flatMap,
    byClauseStart_eq_flatMap, ← hsorted]
  refine List.flatMap_congr fun e he => unusedOf_congr (h.mem_usedOf_iff e ?_) e
  exact Tracker.mem_logOf_of_mem_standing (Entry.mem_inOrder.1 he)

end SameEntries

/-! ## What is proposed -/

namespace Fix

/-- The fixes of a statement do not depend on the order in which its clauses are given, if they
start at different places. -/
theorem statement_perm {clauses clauses' : List Clause} (hperm : clauses.Perm clauses')
    (hstarts : (clauses.map fun c => c.place.start).Nodup) (t : Text) (fs : List Finding) :
    statement t clauses fs = statement t clauses' fs := by
  have hsorted : inOrder clauses = inOrder clauses' := Sorting.mergeSort_eq_of_perm hperm hstarts
  have hany : (clauses.any fun c => c.span.isNone) = clauses'.any fun c => c.span.isNone :=
    hperm.any_eq
  rw [statement, statement, hsorted, hany]

end Fix

/-- The fixes of a unit do not depend on the order of its entries. -/
theorem fixAttempts_perm {es es' : List Entry} (hperm : es.Perm es')
    (hstarts : (es.map fun e => e.clause.place.start).Nodup) (content : Text)
    (fs : List Finding) : fixAttempts content es fs = fixAttempts content es' fs := by
  -- the statements come in the order of the findings, so only their clauses can differ in order
  refine List.flatMap_congr fun id _ => ?_
  refine Fix.statement_perm ((hperm.filter _).map _) ?_ content _
  rw [List.map_map]
  exact hstarts.sublist (List.filter_sublist.map _)

namespace Checker

/-- Trackers that hold the same entries of a unit get the same warnings with the same actions, with
and without fixes, and fail alike. -/
theorem warnings_of_same_entries (c : Checker) {t t' : Tracker} {u : CompilationUnit}
    (hsame : SameEntries t t' u.id) (hdist : Entry.Distinguished (t.logOf u.id)) :
    c.warnings (c.resolve t u) = c.warnings (c.resolve t' u) ∧
      (c.resolve t u).failure = (c.resolve t' u).failure := by
  cases hforeign : u.isForeign with
  | true =>
    rw [resolve_of_foreign c t hforeign, resolve_of_foreign c t' hforeign]
    exact ⟨rfl, rfl⟩
  | false =>
    have hattempts : c.attempts u.content (t.standing u.id) (byClauseStart (t.findings u.id)) =
        c.attempts u.content (t'.standing u.id) (byClauseStart (t'.findings u.id)) := by
      rw [attempts, attempts, hsame.byClauseStart_findings_eq hdist,
        fixAttempts_perm (hsame.standing_perm hdist) (Tracker.nodup_starts_standing hdist)]
    obtain ⟨hproposals, hfailure⟩ := c.resolve_eq t hforeign
    obtain ⟨hproposals', hfailure'⟩ := c.resolve_eq t' hforeign
    rw [warnings, warnings, hproposals, hproposals', hfailure, hfailure', hattempts]
    exact ⟨rfl, rfl⟩

end Checker

/-- The clauses of the sample unit in the order of the source. -/
def enteredRun : List Call :=
  [.recordEntry History.sampleUnit History.sampleA [History.sampleA] .null,
    .recordEntry History.sampleUnit History.sampleB [History.sampleB] .null,
    .markUsed History.sampleA History.sampleY]

/-- The clauses of the sample unit backwards, the second one again at the end. -/
def reenteredRun : List Call :=
  [.markUsed History.sampleA History.sampleY,
    .recordEntry History.sampleUnit History.sampleB [History.sampleB] .null,
    .recordEntry History.sampleUnit History.sampleA [History.sampleA] .null,
    .recordEntry History.sampleUnit History.sampleB [History.sampleB] .null]

/-- Both runs get the same warnings and fixes. -/
theorem reenteredRun_warnings :
    fixingChecker.warnings (fixingChecker.resolve (Tracker.run enteredRun) History.sampleUnit) =
      fixingChecker.warnings
        (fixingChecker.resolve (Tracker.run reenteredRun) History.sampleUnit) := by
  have hlog : (Tracker.run enteredRun).logOf History.sampleUnit.id =
      [⟨History.sampleB, History.sampleB, .null⟩, ⟨History.sampleA, History.sampleA, .null⟩] := by
    rfl
  have hlog' : (Tracker.run reenteredRun).logOf History.sampleUnit.id =
      [⟨History.sampleB, History.sampleB, .null⟩, ⟨History.sampleA, History.sampleA, .null⟩,
        ⟨History.sampleB, History.sampleB, .null⟩] := by
    rfl
  have hused : (Tracker.run enteredRun).used = (Tracker.run reenteredRun).used := by
    rfl
  have hsame : SameEntries (Tracker.run enteredRun) (Tracker.run reenteredRun)
      History.sampleUnit.id := by
    constructor
    · intro e
      rw [hlog, hlog']
      simp only [List.mem_cons, List.not_mem_nil, or_false]
      tauto
    · intro e _ s
      rw [Tracker.usedOf, Tracker.usedOf, hused]
  have hdist : Entry.Distinguished ((Tracker.run enteredRun).logOf History.sampleUnit.id) := by
    rw [hlog]
    constructor <;> simp [History.sampleA, History.sampleB, Clause.place]
  exact (fixingChecker.warnings_of_same_entries hsame hdist).1

end UnusedImports
