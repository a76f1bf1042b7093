import UnusedImports.Proofs.Sorting
import UnusedImports.Proofs.Tracker.Views

/-!
# What a resolution finds

Of the entries of a unit those stand that are the latest of a clause with a span
(`Tracker.standing`). Their selectors that import something and were not used are the findings of
the unit (`Tracker.findings`); they are listed from the views of the tracker alone, with no
draining on the way. Resolving a unit that is not foreign reports exactly these findings, sorted
by the start of their clauses (`Checker.resolve_eq`).
-/

set_option autoImplicit false

namespace UnusedImports

namespace Tracker

/-- The entries of a unit that a report is made from. -/
def standing (t : Tracker) (u : UnitId) : List Entry :=
  placedEntries (latestEntries (t.logOf u))

/-- The unused selectors of a unit, entry by entry. -/
def findings (t : Tracker) (u : UnitId) : List Finding :=
  (t.standing u).flatMap fun e => unusedOf (t.usedOf e.clause.id) e

theorem mem_logOf_of_mem_standing {t : Tracker} {u : UnitId} {e : Entry} (h : e ∈ t.standing u) :
    e ∈ t.logOf u :=
  mem_of_mem_latestEntries (List.mem_filter.1 h).1

/-- Every standing entry has a span. -/
theorem span_of_mem_standing {t : Tracker} {u : UnitId} {e : Entry} (h : e ∈ t.standing u) :
    e.clause.span.isSome = true := by
  have hspan := (List.mem_filter.1 h).2
  exact hspan

/-- Every clause stands once. -/
theorem nodup_clauseIds_standing (t : Tracker) (u : UnitId) :
    (clauseIds (t.standing u)).Nodup :=
  (nodup_clauseIds_latestEntries _).sublist (List.filter_sublist.map _)

end Tracker

/-- What is unused in an entry depends on the members of the used set only. -/
theorem unusedOf_congr {used used' : List Selector} (h : ∀ s, s ∈ used ↔ s ∈ used') (e : Entry) :
    unusedOf used e = unusedOf used' e := by
  have hcontains : ∀ s, used.contains s = used'.contains s := by
    intro s
    rw [Bool.eq_iff_iff, List.contains_iff_mem, List.contains_iff_mem, h]
  simp only [unusedOf, hcontains]

/-- If all clauses differ, no entry is affected by the used sets that are drained before it. -/
theorem collectFindings_eq {es : List Entry} (h : (clauseIds es).Nodup) (t : Tracker) :
    collectFindings t es = es.flatMap fun e => unusedOf (t.usedOf e.clause.id) e := by
  induction es generalizing t with
  | nil => rfl
  | cons e rest ih =>
    rw [clauseIds_cons, List.nodup_cons] at h
    rw [collectFindings, List.flatMap_cons, ih h.2]
    congr 1
    refine List.flatMap_congr fun f hf => ?_
    have hne : e.clause.id ≠ f.clause.id := fun heq => h.1 (mem_clauseIds.2 ⟨f, hf, heq.symm⟩)
    rw [Tracker.usedOf_dropUsed, if_neg hne]

namespace Checker

/-- Resolving a unit reports its findings in the order in which their clauses start. -/
theorem resolve_eq (c : Checker) (t : Tracker) {u : CompilationUnit} (h : u.isForeign = false) :
    (c.resolve t u).proposals =
        Fix.proposals (c.attempts u.content (t.standing u.id) (byClauseStart (t.findings u.id))) ∧
      (c.resolve t u).failure =
        Fix.failure? (c.attempts u.content (t.standing u.id)
          (byClauseStart (t.findings u.id))) := by
  have hfindings : ∀ spanless : List Entry,
      spanless = ((latestEntries (t.logOf u.id)).filter fun e => e.clause.span.isNone) →
      collectFindings ((t.dropLog u.id).dropUsedOf spanless) (t.standing u.id) =
        t.findings u.id := by
    rintro _ rfl
    rw [collectFindings_eq (t.nodup_clauseIds_standing u.id)]
    refine List.flatMap_congr fun e he => ?_
    -- a standing clause has a span, so its used set is not among those dropped before
    have hspanless : e.clause.id ∉ clauseIds
        ((latestEntries (t.logOf u.id)).filter fun e => e.clause.span.isNone) := by
      intro hmem
      obtain ⟨f, hf, hid⟩ := mem_clauseIds.1 hmem
      rw [List.mem_filter] at hf
      have hfe : f = e := List.inj_on_of_nodup_map
        (nodup_clauseIds_latestEntries (t.logOf u.id)) hf.1 (List.mem_filter.1 he).1 hid
      have hspan := Tracker.span_of_mem_standing he
      rw [hfe] at hf
      simp_all
    rw [Tracker.usedOf_dropUsedOf, if_neg hspanless, Tracker.usedOf_dropLog]
  unfold resolve
  simp only [h, Bool.false_eq_true, if_false, Tracker.drainUnit]
  rw [← hfindings _ rfl]
  exact ⟨rfl, rfl⟩

/-- Of a foreign unit nothing is reported. -/
theorem resolve_of_foreign (c : Checker) (t : Tracker) {u : CompilationUnit}
    (h : u.isForeign = true) : c.resolve t u = ⟨t.discardUnit u.id, [], none⟩ := by
  rw [resolve, if_pos h]

/-- What a resolution reports depends on the log of the unit and on the used selectors of the
clauses in it. -/
theorem resolve_congr (c : Checker) {t t' : Tracker} {u : CompilationUnit}
    (hlog : t.logOf u.id = t'.logOf u.id)
    (hused : ∀ e ∈ t.logOf u.id, ∀ s, s ∈ t.usedOf e.clause.id ↔ s ∈ t'.usedOf e.clause.id) :
    (c.resolve t u).proposals = (c.resolve t' u).proposals ∧
      (c.resolve t u).failure = (c.resolve t' u).failure := by
  cases hforeign : u.isForeign with
  | true =>
    rw [resolve_of_foreign c t hforeign, resolve_of_foreign c t' hforeign]
    exact ⟨rfl, rfl⟩
  | false =>
    have hstanding : t.standing u.id = t'.standing u.id := by
      rw [Tracker.standing, Tracker.standing, hlog]
    have hfindings : t.findings u.id = t'.findings u.id := by
      rw [Tracker.findings, Tracker.findings, ← hstanding]
      exact List.flatMap_congr fun e he =>
        unusedOf_congr (hused e (Tracker.mem_logOf_of_mem_standing he)) e
    rw [(c.resolve_eq t hforeign).1, (c.resolve_eq t' hforeign).1, (c.resolve_eq t hforeign).2,
      (c.resolve_eq t' hforeign).2, hstanding, hfindings]
    exact ⟨rfl, rfl⟩

end Checker

end UnusedImports
