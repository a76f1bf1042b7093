import UnusedImports.Proofs.Fix.Collision

/-!
# Entries that record statements

If the entries of a unit record the clauses of statements, each with the first clause of its
statement, then grouping the entries by the first clauses gives the statements back
(`clausesOf_eq`), and the edits of the unit are those of the statements (`unitEdits_perm`), in
whichever order the clauses were recorded.
-/

set_option autoImplicit false

namespace UnusedImports

/-- The entries record the clauses of statements, each with the first clause of its statement. The
clauses of a statement start one behind the other, and different clauses have different ids. -/
structure Entry.Record (statements : List (List Clause)) (es : List Entry) : Prop where
  ne_nil : ∀ cs ∈ statements, cs ≠ []
  sorted : ∀ cs ∈ statements, cs.Pairwise fun c d => c.place.start < d.place.start
  nodup_ids : (statements.flatten.map Clause.id).Nodup
  mem_iff : ∀ c k, (∃ e ∈ es, e.clause = c ∧ e.keywordClause = k) ↔
    ∃ cs ∈ statements, c ∈ cs ∧ cs.head? = some k

/-- Statements that share the id of a clause are the same. -/
theorem eq_of_clauseId_eq {statements : List (List Clause)}
    (hids : (statements.flatten.map Clause.id).Nodup) {cs ds : List Clause} {c d : Clause}
    (hcs : cs ∈ statements) (hds : ds ∈ statements) (hc : c ∈ cs) (hd : d ∈ ds)
    (hid : c.id = d.id) : cs = ds := by
  rw [List.map_flatten, List.nodup_flatten, List.pairwise_map] at hids
  by_contra hne
  have hsymm : Std.Symm fun as bs : List Clause =>
      (as.map Clause.id).Disjoint (bs.map Clause.id) := ⟨fun _ _ hab _ hb ha => hab ha hb⟩
  have hapart := hids.2.forall hcs hds hne
  exact hapart (List.mem_map_of_mem hc) (hid ▸ List.mem_map_of_mem hd)

namespace Entry.Record

variable {statements : List (List Clause)} {es : List Entry}

/-- Grouping the entries by their first clauses gives the statements back. -/
theorem clausesOf_eq (h : Record statements es) (hids : (clauseIds es).Nodup) {cs : List Clause}
    (hcs : cs ∈ statements) {k : Clause} (hk : cs.head? = some k) : clausesOf es k.id = cs := by
  have hsorted := h.sorted cs hcs
  have hmem : ∀ c, c ∈ statementClauses es k.id ↔ c ∈ cs := by
    intro c
    rw [statementClauses, List.mem_map]
    constructor
    · -- an entry of the group belongs to a statement with this first clause, which is `cs`
      rintro ⟨e, he, rfl⟩
      obtain ⟨he, hkey⟩ := List.mem_filter.1 he
      obtain ⟨ds, hds, hc, hhead⟩ := (h.mem_iff e.clause e.keywordClause).1 ⟨e, he, rfl, rfl⟩
      have heq : ds = cs := eq_of_clauseId_eq h.nodup_ids hds hcs (List.mem_of_head? hhead)
        (List.mem_of_head? hk) (of_decide_eq_true hkey)
      rwa [← heq]
    · intro hc
      obtain ⟨e, he, hclause, hkey⟩ := (h.mem_iff c k).2 ⟨cs, hcs, hc, hk⟩
      exact ⟨e, List.mem_filter.2 ⟨he, by simp [hkey]⟩, hclause⟩
  have hnodup : (statementClauses es k.id).Nodup := by
    refine List.Nodup.of_map Clause.id ?_
    rw [statementClauses, List.map_map]
    exact hids.sublist (List.filter_sublist.map _)
  -- the clauses come in the order of the log, and sorting them restores the order of the source
  have hperm : (statementClauses es k.id).Perm cs := by
    refine (List.perm_ext_iff_of_nodup hnodup ?_).2 hmem
    exact hsorted.imp fun hlt heq => absurd (heq ▸ hlt) (Int.lt_irrefl _)
  have hstarts : ((statementClauses es k.id).map fun c => c.place.start).Nodup := by
    rw [(hperm.map _).nodup_iff]
    exact List.pairwise_map.2 (hsorted.imp Int.ne_of_lt)
  rw [clausesOf, ← inOrder_statementClauses, Fix.inOrder,
    Sorting.mergeSort_eq_of_perm hperm hstarts]
  exact List.mergeSort_of_pairwise (hsorted.imp fun hlt => by simpa using Int.le_of_lt hlt)

/-- The id of the first clause of a statement. -/
def firstId (cs : List Clause) : Int :=
  (cs.head?.map Clause.id).getD 0

theorem nodup_firstIds (h : Record statements es) : (statements.map firstId).Nodup := by
  refine h.nodup_ids.sublist ?_
  have hne := h.ne_nil
  clear h
  induction statements with
  | nil => exact List.Sublist.refl _
  | cons cs rest ih =>
    obtain ⟨c, others, rfl⟩ := List.exists_cons_of_ne_nil (hne cs List.mem_cons_self)
    have hrest := ih fun ds hds => hne ds (List.mem_cons_of_mem _ hds)
    rw [List.map_cons, List.flatten_cons, List.map_append, List.map_cons, List.cons_append]
    exact (hrest.trans (List.sublist_append_right _ _)).cons_cons _

/-- A statement with findings is one of those that the entries record. -/
theorem exists_statement (h : Record statements es) (hids : (clauseIds es).Nodup) {used : Usage}
    {fs : List Finding} (hcovers : used.Covers es fs) {i : Int} (hi : i ∈ statementIds fs) :
    ∃ cs ∈ statements, firstId cs = i ∧ clausesOf es i = cs := by
  obtain ⟨f, hf, rfl⟩ := List.mem_map.1 (List.mem_eraseDups.1 hi)
  obtain ⟨e, he, hfe⟩ := List.mem_flatMap.1 (hcovers.perm.mem_iff.1 hf)
  rw [(Usage.mem_findings.1 hfe).2]
  obtain ⟨cs, hcs, -, hhead⟩ := (h.mem_iff e.clause e.keywordClause).1 ⟨e, he, rfl, rfl⟩
  exact ⟨cs, hcs, by rw [firstId, hhead]; rfl, h.clausesOf_eq hids hcs hhead⟩

/-- The edits of the statements with findings are those of the statements that the entries record,
if the other statements have none. -/
theorem flatMap_clausesOf_perm (h : Record statements es) (hids : (clauseIds es).Nodup)
    {used : Usage} {fs : List Finding} (hcovers : used.Covers es fs)
    {edits : List Clause → List Edit}
    (hedits : ∀ i, i ∉ statementIds fs → edits (clausesOf es i) = []) :
    ((statementIds fs).flatMap fun i => edits (clausesOf es i)).Perm
      (statements.flatMap edits) := by
  have hgroups : statements.flatMap edits =
      (statements.map firstId).flatMap fun i => edits (clausesOf es i) := by
    rw [List.flatMap_map]
    refine List.flatMap_congr fun cs hcs => ?_
    obtain ⟨c, others, rfl⟩ := List.exists_cons_of_ne_nil (h.ne_nil cs hcs)
    exact congrArg _ (h.clausesOf_eq hids hcs rfl).symm
  have hfilter := Grouping.flatMap_filter (l := statements.map firstId)
    (f := fun i => edits (clausesOf es i)) (p := fun i => i ∈ statementIds fs)
    fun i _ hi => hedits i (of_decide_eq_false hi)
  rw [hgroups, ← hfilter]
  have hnodup : (statementIds fs).Nodup := Grouping.nodup_eraseDups _
  refine List.Perm.flatMap_right _ ?_
  refine (List.perm_ext_iff_of_nodup hnodup (h.nodup_firstIds.filter _)).2 fun i => ?_
  rw [List.mem_filter, decide_eq_true_eq, iff_and_self]
  intro hi
  obtain ⟨cs, hcs, hfirst, -⟩ := h.exists_statement hids hcovers hi
  exact List.mem_map.2 ⟨cs, hcs, hfirst⟩

/-- The edits of a unit are those of the statements that its entries record. -/
theorem unitEdits_perm (h : Record statements es) (hids : (clauseIds es).Nodup) {t : Text}
    {used : Usage} {fs : List Finding} (hcovers : used.Covers es fs) :
    (Fix.unitEdits t used es fs).Perm (statements.flatMap (Fix.statementEdits t used)) :=
  h.flatMap_clausesOf_perm hids hcovers fun _ hi =>
    Fix.statementEdits_eq_nil (Fix.unused_eq_nil_of_not_mem hcovers hi)

end Entry.Record

end UnusedImports
