import UnusedImports.Proofs.Fix.Layout
import UnusedImports.Proofs.Tracker.Report

/-!
# Reports with and without fixes

Whether fixes are wanted or not, a unit gets the same warnings up to their actions. With fixes they
come statement by statement, which may change their order. It does not if the names of a clause
stand in its span in order, the spans are apart and statements do not interleave (`Entry.LaidOut`):
then both modes emit the same sequence (`warnings_with_fixes`).
-/

set_option autoImplicit false

namespace UnusedImports

/-- The names of the selectors stand in the span of their clause, in order. -/
structure Clause.NamesInOrder (c : Clause) : Prop where
  inside : ∀ s ∈ c.selectors, c.place.start ≤ s.namePos ∧ s.namePos < c.place.stop
  increase : c.selectors.Pairwise fun r s => r.namePos ≤ s.namePos

/-- The clauses stand apart, statement by statement, each with its names in order. -/
structure Entry.LaidOut (es : List Entry) : Prop extends Entry.Separate es where
  names : ∀ e ∈ es, e.clause.NamesInOrder

variable {used : Usage} {es : List Entry}

/-! ## Findings of clauses that are laid out -/

/-- The findings of a clause come in the order of their names. -/
theorem Clause.NamesInOrder.pairwise_findings {e : Entry} (h : e.clause.NamesInOrder) :
    (used.findings e).Pairwise fun f g => f.selector.namePos ≤ g.selector.namePos := by
  rw [Usage.findings_eq_map, List.pairwise_map]
  exact h.increase.sublist List.filter_sublist

/-- Findings that come in the order of their names are not rearranged. -/
theorem Finding.inOrder_eq_self {fs : List Finding}
    (h : fs.Pairwise fun f g => f.selector.namePos ≤ g.selector.namePos) :
    Finding.inOrder fs = fs :=
  List.mergeSort_of_pairwise (h.imp fun hfg => by simpa using hfg)

namespace Entry.LaidOut

/-- The findings of clauses in order come in the order of their names. -/
theorem pairwise_flatMap_findings (h : LaidOut es) {l : List Entry} (hsub : ∀ e ∈ l, e ∈ es)
    (hids : (clauseIds l).Nodup)
    (hl : l.Pairwise fun e f => e.clause.place.start ≤ f.clause.place.start) :
    (l.flatMap used.findings).Pairwise fun f g => f.selector.namePos ≤ g.selector.namePos := by
  rw [List.pairwise_flatMap]
  refine ⟨fun e he => (h.names e (hsub e he)).pairwise_findings, ?_⟩
  have hdiff : l.Pairwise fun e f => e.clause.id ≠ f.clause.id := List.pairwise_map.1 hids
  refine (hl.and hdiff).imp_of_mem ?_
  rintro e f he hf ⟨hstart, hid⟩ a ha b hb
  obtain ⟨hamem, rfl⟩ := Usage.mem_findings.1 ha
  obtain ⟨hbmem, rfl⟩ := Usage.mem_findings.1 hb
  -- the first name stands in its span, which stops before the span of the second name starts
  have hstop := h.stop_le_start (hsub _ he) (hsub _ hf) hid hstart
  have hainside := (h.names _ (hsub _ he)).inside a.selector (List.mem_filter.1 hamem).1
  have hbinside := (h.names _ (hsub _ hf)).inside b.selector (List.mem_filter.1 hbmem).1
  omega

/-- The findings of every statement stand together. -/
theorem together (h : LaidOut es) (hids : (clauseIds es).Nodup) :
    Grouping.Together (fun f : Finding => f.entry.keywordClause.id)
      ((Entry.inOrder es).flatMap used.findings) := by
  intro a b c hsub hkey
  change a.entry.keywordClause.id = c.entry.keywordClause.id at hkey
  change b.entry.keywordClause.id = a.entry.keywordClause.id
  have hmem : ∀ f ∈ [a, b, c], f.entry ∈ es := by
    intro f hf
    obtain ⟨e, he, hfe⟩ := List.mem_flatMap.1 (hsub.subset hf)
    rw [(Usage.mem_findings.1 hfe).2]
    exact Entry.mem_inOrder.1 he
  have hsorted : ((Entry.inOrder es).flatMap used.findings).Pairwise fun f g =>
      f.entry.clause.place.start ≤ g.entry.clause.place.start := by
    rw [List.pairwise_flatMap]
    constructor
    · intro e _
      rw [List.pairwise_iff_forall_sublist]
      intro f g hfg
      rw [(Usage.mem_findings.1 (hfg.subset (by simp) : f ∈ _)).2,
        (Usage.mem_findings.1 (hfg.subset (by simp) : g ∈ _)).2]
    · refine (Entry.pairwise_inOrder es).imp ?_
      intro e f hstart g hg k hk
      rw [(Usage.mem_findings.1 hg).2, (Usage.mem_findings.1 hk).2]
      exact hstart
  have hthree := hsorted.sublist hsub
  simp only [List.pairwise_cons, List.mem_cons, List.not_mem_nil, or_false, forall_eq_or_imp,
    forall_eq] at hthree
  obtain ⟨⟨hab, -⟩, hbc, -⟩ := hthree
  have ha := hmem a (by simp)
  have hb := hmem b (by simp)
  have hc := hmem c (by simp)
  -- clauses that start at one place are one clause, so the starts differ or nothing is to be shown
  by_cases hstart : a.entry.clause.place.start = b.entry.clause.place.start
  · rw [h.eq_of_start_eq hids ha hb hstart]
  · by_cases hstop : b.entry.clause.place.start = c.entry.clause.place.start
    · rw [hkey, h.eq_of_start_eq hids hb hc hstop]
    · exact h.statements _ ha _ hb _ hc hkey (lt_of_le_of_ne hab hstart)
        (lt_of_le_of_ne hbc hstop)

end Entry.LaidOut

/-! ## The order with fixes -/

/-- The findings of a unit in the order in which their clauses start, entry by entry. -/
theorem byClauseStart_eq_flatMap (es : List Entry) :
    byClauseStart (es.flatMap used.findings) = (Entry.inOrder es).flatMap used.findings := by
  refine Sorting.mergeSort_flatMap (fun e => e.clause.place.start)
    (fun f => f.entry.clause.place.start) used.findings es fun e _ f hf => ?_
  rw [(Usage.mem_findings.1 hf).2]

/-- The findings of a statement in the order in which their clauses start, entry by entry. -/
theorem statementFindings_eq_flatMap (es : List Entry) (id : Int) :
    statementFindings ((Entry.inOrder es).flatMap used.findings) id =
      (statementEntries es id).flatMap used.findings := by
  have hkey : ∀ e ∈ Entry.inOrder es, ∀ f ∈ used.findings e,
      decide (f.entry.keywordClause.id = id) = decide (e.keywordClause.id = id) := by
    intro e _ f hf
    rw [(Usage.mem_findings.1 hf).2]
  rw [statementFindings, Sorting.filter_flatMap hkey, Entry.inOrder,
    Sorting.filter_mergeSort (fun e : Entry => e.clause.place.start), statementEntries,
    Entry.inOrder]

namespace Fix

/-- The findings of a statement that is laid out are not rearranged. -/
theorem statementOrder_eq_self (h : Entry.LaidOut es) (hids : (clauseIds es).Nodup) (id : Int) :
    statementOrder used (statementEntries es id) ((statementEntries es id).flatMap used.findings) =
      (statementEntries es id).flatMap used.findings := by
  have hmem : ∀ e ∈ statementEntries es id, e ∈ es := fun e he => (mem_statementEntries.1 he).1
  have hstatement := nodup_clauseIds_statementEntries hids id
  rw [statementOrder]
  split
  · -- a statement that goes as a whole: its findings are sorted across its clauses
    exact Finding.inOrder_eq_self
      (h.pairwise_flatMap_findings hmem hstatement (Entry.pairwise_inOrder _))
  · refine List.flatMap_congr fun e he => ?_
    exact Finding.inOrder_eq_self (h.names e (hmem e he)).pairwise_findings

/-- The findings of a unit that is laid out are reported in the order of the source. -/
theorem unitOrder_eq_self (h : Entry.LaidOut es) (hids : (clauseIds es).Nodup) :
    unitOrder used es ((Entry.inOrder es).flatMap used.findings) =
      (Entry.inOrder es).flatMap used.findings := by
  have htogether : Grouping.Together (fun f : Finding => f.entry.keywordClause.id)
      ((Entry.inOrder es).flatMap used.findings) := h.together hids
  have hgrouped := Grouping.grouped_eq_self htogether
  rw [Grouping.grouped] at hgrouped
  rw [unitOrder]
  -- each statement keeps its findings, and grouping by statements rearranges nothing
  refine Eq.trans (List.flatMap_congr fun id _ => ?_) hgrouped
  rw [statementFindings_eq_flatMap, statementOrder_eq_self h hids, ← statementFindings_eq_flatMap,
    statementFindings]

end Fix

/-! ## The warnings of both modes -/

/-- A warning without its actions. -/
def Warning.bare (w : Warning) : Warning :=
  { w with actions := [] }

namespace Checker

variable {fixing plain : Checker} {t : Tracker} {u : CompilationUnit}

/-- The bare warnings of a resolution depend on its findings only. -/
theorem map_bare_warnings (hcategory : fixing.settings.category = plain.settings.category)
    (hdeprecations : fixing.deprecations = plain.deprecations) (r : Resolution) :
    (fixing.warnings r).map Warning.bare =
      (r.proposals.map Proposal.finding).map fun f => plain.warning ⟨f, []⟩ := by
  rw [warnings, List.map_map, List.map_map]
  refine List.map_congr_left fun p _ => ?_
  simp only [Function.comp_apply, warning, Warning.bare, hcategory, hdeprecations]

/-- With fixes a resolution succeeds and emits, up to the actions, the warnings that it emits
without fixes: one for each unused selector, in the same order if the clauses are laid out. -/
theorem warnings_with_fixes (hcategory : fixing.settings.category = plain.settings.category)
    (hdeprecations : fixing.deprecations = plain.deprecations)
    (hfix : fixing.settings.emitFixes.truthy = true)
    (hplain : plain.settings.emitFixes.truthy = false) (hforeign : u.isForeign = false)
    (hsel : ∀ e ∈ t.logOf u.id, e.clause.selectors.Nodup) :
    (fixing.resolve t u).failure = none ∧ (plain.resolve t u).failure = none ∧
      (∀ w ∈ plain.warnings (plain.resolve t u), w.actions = []) ∧
      ((fixing.resolve t u).proposals.map Proposal.finding).Perm (t.findings u.id) ∧
      ((fixing.warnings (fixing.resolve t u)).map Warning.bare).Perm
        (plain.warnings (plain.resolve t u)) ∧
      (fixing.warnings (fixing.resolve t u)).length = (t.findings u.id).length ∧
      (plain.warnings (plain.resolve t u)).length = (t.findings u.id).length ∧
      (Entry.LaidOut (t.standing u.id) →
        (fixing.warnings (fixing.resolve t u)).map Warning.bare =
          plain.warnings (plain.resolve t u)) := by
  obtain ⟨hfixed, hfindings, -⟩ := resolve_with_fixes hforeign hfix fun e he =>
    hsel e (Tracker.mem_logOf_of_mem_standing he)
  obtain ⟨hplained, hproposals⟩ := resolve_without_fixes (t := t) hforeign hplain
  have hwarnings : plain.warnings (plain.resolve t u) =
      (byClauseStart (t.findings u.id)).map fun f => plain.warning ⟨f, []⟩ := by
    rw [warnings, hproposals, List.map_map]
    rfl
  have hsorted : (byClauseStart (t.findings u.id)).Perm (t.findings u.id) :=
    List.mergeSort_perm _ _
  have hunit := Fix.unitOrder_perm (covers_standing t u.id)
  have hbare := map_bare_warnings hcategory hdeprecations (fixing.resolve t u)
  refine ⟨hfixed, hplained, ?_, ?_, ?_, ?_, ?_, ?_⟩
  · intro w hw
    rw [hwarnings] at hw
    obtain ⟨f, -, rfl⟩ := List.mem_map.1 hw
    rfl
  · rw [hfindings]
    exact hunit.trans hsorted
  · rw [hbare, hfindings, hwarnings]
    exact hunit.map _
  · rw [warnings, List.length_map, ← List.length_map (f := Proposal.finding), hfindings]
    exact (hunit.trans hsorted).length_eq
  · rw [hwarnings, List.length_map]
    exact hsorted.length_eq
  · intro hlaid
    rw [hbare, hfindings, hwarnings, Tracker.findings_eq_flatMap, byClauseStart_eq_flatMap,
      Fix.unitOrder_eq_self hlaid (t.nodup_clauseIds_standing u.id)]

end Checker

/-- The standard settings with fixes. -/
def fixingChecker : Checker :=
  ⟨{ Settings.standard with quickfix := .bool true }, .empty⟩

/-- After the sample run both modes warn of `x`, then of `z`. -/
theorem sampleRun_warnings_with_fixes :
    ((fixingChecker.warnings (fixingChecker.resolve (Tracker.run History.sampleRun)
        History.sampleUnit)).map Warning.bare).map (fun w => (w.position, w.owner)) =
      [(10, .int 1), (25, .null)] := by
  have hstanding : (Tracker.run History.sampleRun).standing History.sampleUnit.id =
      [⟨History.sampleA, History.sampleA, .int 1⟩, ⟨History.sampleB, History.sampleB, .null⟩] := by
    rfl
  have hsel : ∀ e ∈ (Tracker.run History.sampleRun).logOf History.sampleUnit.id,
      e.clause.selectors.Nodup := by
    have hlog : (Tracker.run History.sampleRun).logOf History.sampleUnit.id =
        [⟨History.sampleA, History.sampleA, .int 1⟩, ⟨History.sampleA, History.sampleA, .null⟩,
          ⟨History.sampleB, History.sampleB, .null⟩] := by
      rfl
    rw [hlog]
    simp [History.sampleA, History.sampleB, History.sampleX, History.sampleY]
  have hlaid : Entry.LaidOut ((Tracker.run History.sampleRun).standing History.sampleUnit.id) := by
    rw [hstanding]
    refine ⟨⟨?_, ?_, ?_⟩, ?_⟩
    · simp [History.sampleA, History.sampleB, Clause.place]
    · simp [History.sampleA, History.sampleB, Clause.place]
    · simp [History.sampleA, History.sampleB, Clause.place]
    · intro e he
      simp only [List.mem_cons, List.not_mem_nil, or_false] at he
      rcases he with rfl | rfl
      · exact ⟨by decide, by decide⟩
      · exact ⟨by decide, by decide⟩
  have h := (@Checker.warnings_with_fixes fixingChecker History.plainChecker
    (Tracker.run History.sampleRun) History.sampleUnit rfl rfl rfl rfl rfl hsel).2.2.2.2.2.2.2 hlaid
  obtain ⟨-, hproposals⟩ := Checker.resolve_without_fixes (c := History.plainChecker)
    (t := Tracker.run History.sampleRun) (u := History.sampleUnit) rfl rfl
  rw [h, Checker.warnings, hproposals, History.run_eq_tracker, History.byClauseStart_findings,
    History.report_sampleRun]
  rfl

end UnusedImports
