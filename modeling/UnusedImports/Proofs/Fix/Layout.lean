import UnusedImports.Proofs.Fix.Units

/-!
# Where the clauses of a unit stand

`Entry.Separate` says of the entries of a unit that their clauses do not overlap and that no clause
of one statement stands between two clauses of another one. Then the clauses of a statement follow
one another in the order of their starts, and of two statements one stands in front of the other
(`Entry.Separate.statements_apart`).
-/

set_option autoImplicit false

namespace UnusedImports

/-- The clauses of the entries stand apart from each other, and no clause of one statement stands
between two clauses of another one. -/
structure Entry.Separate (es : List Entry) : Prop where
  nonempty : ∀ e ∈ es, e.clause.place.start < e.clause.place.stop
  apart : ∀ e ∈ es, ∀ f ∈ es, e.clause.id ≠ f.clause.id →
    e.clause.place.stop ≤ f.clause.place.start ∨ f.clause.place.stop ≤ e.clause.place.start
  statements : ∀ e ∈ es, ∀ f ∈ es, ∀ g ∈ es, e.keywordClause.id = g.keywordClause.id →
    e.clause.place.start < f.clause.place.start → f.clause.place.start < g.clause.place.start →
    f.keywordClause.id = e.keywordClause.id

theorem Entry.pairwise_inOrder (es : List Entry) :
    (Entry.inOrder es).Pairwise fun e f => e.clause.place.start ≤ f.clause.place.start :=
  Sorting.pairwise_key_mergeSort (fun e : Entry => e.clause.place.start) es

namespace Entry.Separate

variable {es : List Entry}

/-- Of two different clauses the one that starts first stops before the other starts. -/
theorem stop_le_start (h : Separate es) {e f : Entry} (he : e ∈ es) (hf : f ∈ es)
    (hid : e.clause.id ≠ f.clause.id) (hstart : e.clause.place.start ≤ f.clause.place.start) :
    e.clause.place.stop ≤ f.clause.place.start := by
  have hnonempty := h.nonempty f hf
  rcases h.apart e he f hf hid with hapart | hapart
  · exact hapart
  · omega

/-- Clauses that start at one place are one clause. -/
theorem eq_of_start_eq (h : Separate es) (hids : (clauseIds es).Nodup) {e f : Entry} (he : e ∈ es)
    (hf : f ∈ es) (hstart : e.clause.place.start = f.clause.place.start) : e = f := by
  by_contra hne
  have hid : e.clause.id ≠ f.clause.id := fun hid => hne (List.inj_on_of_nodup_map hids he hf hid)
  have hstop := h.stop_le_start he hf hid (Int.le_of_eq hstart)
  have hnonempty := h.nonempty e he
  omega

/-- The clauses of a statement follow one another. -/
theorem pairwise_statementEntries (h : Separate es) (hids : (clauseIds es).Nodup) (id : Int) :
    (statementEntries es id).Pairwise fun e f => e.clause.place.stop ≤ f.clause.place.start := by
  have hdiff : (statementEntries es id).Pairwise fun e f => e.clause.id ≠ f.clause.id :=
    List.pairwise_map.1 (nodup_clauseIds_statementEntries hids id)
  refine ((Entry.pairwise_inOrder _).and hdiff).imp_of_mem ?_
  rintro e f he hf ⟨hstart, hid⟩
  exact h.stop_le_start (mem_statementEntries.1 he).1 (mem_statementEntries.1 hf).1 hid hstart

/-- Clauses of different statements stand apart. -/
theorem apart_of_ne (h : Separate es) (hids : (clauseIds es).Nodup) {e f : Entry} (he : e ∈ es)
    (hf : f ∈ es) (hne : e.keywordClause.id ≠ f.keywordClause.id) :
    e.clause.place.stop ≤ f.clause.place.start ∨ f.clause.place.stop ≤ e.clause.place.start := by
  refine h.apart e he f hf fun hid => hne ?_
  rw [List.inj_on_of_nodup_map hids he hf hid]

/-- Of two statements one stands in front of the other. -/
theorem statements_apart (h : Separate es) (hids : (clauseIds es).Nodup) {i j : Int}
    (hij : i ≠ j) :
    (∀ e ∈ statementEntries es i, ∀ f ∈ statementEntries es j,
      e.clause.place.stop ≤ f.clause.place.start) ∨
    (∀ e ∈ statementEntries es i, ∀ f ∈ statementEntries es j,
      f.clause.place.stop ≤ e.clause.place.start) := by
  by_contra hmixed
  push Not at hmixed
  simp only [mem_statementEntries] at hmixed
  obtain ⟨⟨e, ⟨he, rfl⟩, f, ⟨hf, rfl⟩, hfe⟩, e', ⟨he', hkey⟩, f', ⟨hf', hkey'⟩, hef⟩ := hmixed
  have hnonempty := h.nonempty
  have hbehind := (h.apart_of_ne hids he hf hij).resolve_left (by omega)
  have hfront := (h.apart_of_ne hids he' hf' (by rw [hkey, hkey']; exact hij)).resolve_right
    (by omega)
  have hef₀ := hnonempty f hf
  have hef₁ := hnonempty e' he'
  -- `f` stands in front of `e`, and `e'` in front of `f'`
  rcases h.apart_of_ne hids he' hf (by rw [hkey]; exact hij) with hcase | hcase
  · have hmid := h.statements e' he' f hf e he hkey (by omega) (by omega)
    exact hij (by rw [hmid, hkey])
  · have hmid := h.statements f hf e' he' f' hf' hkey'.symm (by omega) (by omega)
    exact hij (by rw [← hmid, hkey])

end Entry.Separate

end UnusedImports
