import UnusedImports.Proofs.Fix.Statements
import UnusedImports.Proofs.Grouping

/-!
# What a unit yields

The findings of a unit are grouped by the clause that carries the keyword of their statement. Each
group covers the entries of its statement (`covers_statement`), so a resolution with fixes reports
the findings statement by statement and makes the edits of every statement that loses something
(`resolve_with_fixes`).
-/

set_option autoImplicit false

namespace UnusedImports

/-! ## The entries of a statement -/

/-- Entries in the order in which their clauses start. -/
def Entry.inOrder (es : List Entry) : List Entry :=
  es.mergeSort fun a b => a.clause.place.start ≤ b.clause.place.start

theorem Entry.inOrder_perm (es : List Entry) : (Entry.inOrder es).Perm es :=
  List.mergeSort_perm es _

theorem Entry.mem_inOrder {es : List Entry} {e : Entry} : e ∈ Entry.inOrder es ↔ e ∈ es :=
  List.mem_mergeSort

/-- The entries of the statement whose keyword clause has the given id, in the order of the
source. -/
def statementEntries (es : List Entry) (id : Int) : List Entry :=
  Entry.inOrder (es.filter fun e => e.keywordClause.id = id)

theorem mem_statementEntries {es : List Entry} {id : Int} {e : Entry} :
    e ∈ statementEntries es id ↔ e ∈ es ∧ e.keywordClause.id = id := by
  rw [statementEntries, Entry.mem_inOrder, List.mem_filter, decide_eq_true_eq]

/-- The clauses of a statement have different ids if all clauses of the unit do. -/
theorem nodup_clauseIds_statementEntries {es : List Entry} (hids : (clauseIds es).Nodup)
    (id : Int) : (clauseIds (statementEntries es id)).Nodup :=
  ((Entry.inOrder_perm _).map _).nodup_iff.2 (hids.sublist (List.filter_sublist.map _))

/-- Clauses are sorted as their entries are. -/
theorem inOrder_map_clause (es : List Entry) :
    Fix.inOrder (es.map Entry.clause) = (Entry.inOrder es).map Entry.clause := by
  rw [Fix.inOrder, Entry.inOrder]
  symm
  exact List.map_mergeSort fun a _ b _ => rfl

/-- The clauses of a statement in the order of the source. -/
theorem inOrder_statementClauses (es : List Entry) (id : Int) :
    Fix.inOrder (statementClauses es id) = (statementEntries es id).map Entry.clause :=
  inOrder_map_clause _

/-- The clauses of the statement whose keyword clause has the given id, in the order of the
source. -/
def clausesOf (es : List Entry) (id : Int) : List Clause :=
  (statementEntries es id).map Entry.clause

/-! ## The findings of a statement -/

theorem Usage.Covers.of_perm {used : Usage} {es es' : List Entry} {fs : List Finding}
    (h : used.Covers es fs) (hperm : es.Perm es') : used.Covers es' fs :=
  ⟨fun e he => h.ofClause_eq e (hperm.mem_iff.2 he), h.perm.trans (hperm.flatMap_right _)⟩

/-- The sorted findings of a unit cover its standing entries. -/
theorem covers_standing (t : Tracker) (u : UnitId) :
    t.usage.Covers (t.standing u) (byClauseStart (t.findings u)) := by
  constructor
  · intro e he
    rw [Finding.ofClause, byClauseStart, Sorting.filter_mergeSort fun f : Finding =>
      f.entry.clause.place.start]
    have hfilter := Tracker.ofClause_findings he
    rw [Finding.ofClause] at hfilter
    rw [hfilter]
    -- the findings of one clause have one key, so sorting leaves them alone
    refine List.mergeSort_of_pairwise ?_
    rw [List.pairwise_iff_forall_sublist]
    intro f g hfg
    rw [(Usage.mem_findings.1 (hfg.subset (by simp) : f ∈ _)).2,
      (Usage.mem_findings.1 (hfg.subset (by simp) : g ∈ _)).2]
    simp
  · rw [byClauseStart, Tracker.findings_eq_flatMap]
    exact List.mergeSort_perm _ _

/-- The findings of a statement cover its entries. -/
theorem covers_statement {used : Usage} {es : List Entry} {fs : List Finding}
    (h : used.Covers es fs) (id : Int) :
    used.Covers (statementEntries es id) (statementFindings fs id) := by
  refine Usage.Covers.of_perm ?_ (Entry.inOrder_perm _).symm
  constructor
  · intro e he
    rw [List.mem_filter, decide_eq_true_eq] at he
    have hclause := h.ofClause_eq e he.1
    rw [Finding.ofClause] at hclause
    rw [Finding.ofClause, statementFindings, List.filter_comm, hclause, List.filter_eq_self]
    intro f hf
    rw [(Usage.mem_findings.1 hf).2]
    simpa using he.2
  · refine (h.perm.filter _).trans ?_
    rw [Sorting.filter_flatMap (q := fun e => e.keywordClause.id = id)]
    intro e _ f hf
    rw [(Usage.mem_findings.1 hf).2]

/-! ## Resolution with and without fixes -/

namespace Fix

/-- The order in which the findings of a unit are reported with fixes. -/
def unitOrder (used : Usage) (es : List Entry) (fs : List Finding) : List Finding :=
  (statementIds fs).flatMap fun id =>
    statementOrder used (statementEntries es id) (statementFindings fs id)

/-- The edits of all statements of a unit. -/
def unitEdits (t : Text) (used : Usage) (es : List Entry) (fs : List Finding) : List Edit :=
  (statementIds fs).flatMap fun id => statementEdits t used (clausesOf es id)

/-- The findings of a statement are reported in some order. -/
theorem statementOrder_perm {used : Usage} {es : List Entry} {fs : List Finding}
    (h : used.Covers es fs) : (statementOrder used es fs).Perm fs := by
  rw [statementOrder]
  split
  · exact Finding.inOrder_perm fs
  · refine List.Perm.trans ?_ h.perm.symm
    exact List.Perm.flatMap_left es fun e _ => Finding.inOrder_perm _

/-- Nothing goes from a statement without findings. -/
theorem unused_eq_nil_of_not_mem {used : Usage} {es : List Entry} {fs : List Finding}
    (h : used.Covers es fs) {id : Int} (hid : id ∉ statementIds fs) :
    ∀ c ∈ clausesOf es id, used.unused c = [] := by
  intro c hc
  obtain ⟨e, he, rfl⟩ := List.mem_map.1 hc
  obtain ⟨he, hkey⟩ := mem_statementEntries.1 he
  by_contra hunused
  obtain ⟨s, hs⟩ := List.exists_mem_of_ne_nil _ hunused
  refine hid (List.mem_eraseDups.2 (List.mem_map.2 ⟨⟨s, e⟩, ?_, hkey⟩))
  exact h.perm.mem_iff.2 (List.mem_flatMap.2 ⟨e, he, Usage.mem_findings.2 ⟨hs, rfl⟩⟩)

/-- With fixes every finding of the unit is reported once. -/
theorem unitOrder_perm {used : Usage} {es : List Entry} {fs : List Finding}
    (h : used.Covers es fs) : (unitOrder used es fs).Perm fs := by
  have hgrouped := Grouping.grouped_perm (fun f : Finding => f.entry.keywordClause.id) fs
  refine List.Perm.trans ?_ hgrouped
  exact List.Perm.flatMap_left _ fun id _ => statementOrder_perm (covers_statement h id)

/-- The clauses of a statement with findings are mended in the order of the source. -/
theorem statement_map_clause {t : Text} {es : List Entry} {fs : List Finding} (hfs : fs ≠ [])
    (hspan : ∀ e ∈ es, e.clause.span.isSome = true) :
    statement t (es.map Entry.clause) fs =
      mendClauses t ((Entry.inOrder es).map Entry.clause) fs := by
  have hplaced : ((es.map Entry.clause).any fun c => c.span.isNone) = false := by
    rw [List.any_eq_false]
    intro c hc
    obtain ⟨e, he, rfl⟩ := List.mem_map.1 hc
    simp [Option.isSome_iff_ne_none.1 (hspan e he)]
  rw [statement, List.isEmpty_eq_false_iff.2 hfs, hplaced, inOrder_map_clause]
  simp only [Bool.false_eq_true, if_false]

/-- A statement with findings has clauses, and these are mended in the order of the source. -/
theorem statement_eq_mendClauses {t : Text} {used : Usage} {es : List Entry} {fs : List Finding}
    (hcovers : used.Covers es fs) (hspan : ∀ e ∈ es, e.clause.span.isSome = true) {id : Int}
    (hid : id ∈ statementIds fs) :
    statementFindings fs id ≠ [] ∧ statementEntries es id ≠ [] ∧
      statement t (statementClauses es id) (statementFindings fs id) =
        mendClauses t (clausesOf es id) (statementFindings fs id) := by
  have hfs : statementFindings fs id ≠ [] := by
    obtain ⟨f, hf, hkey⟩ := List.mem_map.1 (List.mem_eraseDups.1 hid)
    exact List.ne_nil_of_mem (List.mem_filter.2 ⟨hf, by simpa using hkey⟩)
  have hes : statementEntries es id ≠ [] := by
    intro hnil
    have hperm := (covers_statement hcovers id).perm
    rw [hnil] at hperm
    exact hfs hperm.eq_nil
  refine ⟨hfs, hes, ?_⟩
  exact statement_map_clause hfs fun e he => hspan e (List.mem_filter.1 he).1

/-- The attempts of a unit report its findings and make the edits of its statements. -/
theorem yields_fixAttempts {t : Text} {used : Usage} {es : List Entry} {fs : List Finding}
    (hcovers : used.Covers es fs) (hids : (clauseIds es).Nodup)
    (hsel : ∀ e ∈ es, e.clause.selectors.Nodup) (hspan : ∀ e ∈ es, e.clause.span.isSome = true) :
    Yields (fixAttempts t es fs) (unitOrder used es fs) (unitEdits t used es fs) := by
  refine Yields.flatMap _ fun id hid => ?_
  obtain ⟨hfs, hes, hstatement⟩ := statement_eq_mendClauses (t := t) hcovers hspan hid
  rw [hstatement]
  exact yields_mendClauses (covers_statement hcovers id) (nodup_clauseIds_statementEntries hids id)
    (fun e he => hsel e (mem_statementEntries.1 he).1) hes hfs

end Fix

namespace Checker

variable {c : Checker} {t : Tracker} {u : CompilationUnit}

/-- Without fixes the findings are reported in the order in which their clauses start. -/
theorem resolve_without_fixes (hforeign : u.isForeign = false)
    (hplain : c.settings.emitFixes.truthy = false) :
    (c.resolve t u).failure = none ∧
      (c.resolve t u).proposals = (byClauseStart (t.findings u.id)).map fun f => ⟨f, []⟩ := by
  obtain ⟨hproposals, hfailure⟩ := c.resolve_eq t hforeign
  have hattempts : plainAttempts (byClauseStart (t.findings u.id)) =
      ((byClauseStart (t.findings u.id)).map fun f => (⟨f, []⟩ : Proposal)).map Except.ok := by
    rw [plainAttempts, List.map_map]
    rfl
  rw [hproposals, hfailure, attempts, hplain, if_neg Bool.false_ne_true, hattempts]
  exact ⟨Fix.failure?_map_ok _, Fix.proposals_map_ok _⟩

/-- With fixes no attempt fails if no clause lists a selector twice. The findings are reported
statement by statement, and the edits are those of the statements. -/
theorem resolve_with_fixes (hforeign : u.isForeign = false)
    (hfix : c.settings.emitFixes.truthy = true)
    (hsel : ∀ e ∈ t.standing u.id, e.clause.selectors.Nodup) :
    (c.resolve t u).failure = none ∧
      (c.resolve t u).proposals.map Proposal.finding =
        Fix.unitOrder t.usage (t.standing u.id) (byClauseStart (t.findings u.id)) ∧
      (Proposal.edits (c.resolve t u).proposals).Perm
        (Fix.unitEdits u.content t.usage (t.standing u.id) (byClauseStart (t.findings u.id))) := by
  obtain ⟨hproposals, hfailure⟩ := c.resolve_eq t hforeign
  obtain ⟨ps, hps, hfindings, hedits⟩ := Fix.yields_fixAttempts (t := u.content)
    (covers_standing t u.id) (t.nodup_clauseIds_standing u.id) hsel
    fun e he => Tracker.span_of_mem_standing he
  rw [hproposals, hfailure, attempts, hfix, if_pos rfl, hps, Fix.failure?_map_ok,
    Fix.proposals_map_ok]
  exact ⟨rfl, hfindings, hedits⟩

end Checker

end UnusedImports
