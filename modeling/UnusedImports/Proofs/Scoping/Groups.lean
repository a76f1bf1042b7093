import UnusedImports.Proofs.Fix.Usage
import UnusedImports.Proofs.Grouping
import UnusedImports.Proofs.Scoping.Traversal

/-!
# Statements are found again

A resolution hands the clauses of a unit over in groups, each with its findings (`Tracker.groups`).
Clauses are grouped by the keyword clauses that the tracker found among the clauses in scope. After
the traversal of any scope these groups are the statements of the scope from which something goes,
and no statement is torn apart or joined with another (`groups_are_statements`).
-/

set_option autoImplicit false

namespace UnusedImports

/-- The groups that a resolution of the unit hands over: the clauses with one keyword clause, and
the findings in them. -/
def Tracker.groups (t : Tracker) (u : UnitId) : List (List Clause × List Finding) :=
  (statementIds (byClauseStart (t.findings u))).map fun id =>
    (statementClauses (t.standing u) id, statementFindings (byClauseStart (t.findings u)) id)

/-- With fixes a resolution makes the attempts of its groups. -/
theorem Checker.resolve_groups {c : Checker} {t : Tracker} {u : CompilationUnit}
    (hfix : c.settings.emitFixes.truthy = true) (hforeign : u.isForeign = false) :
    (c.resolve t u).proposals =
        Fix.proposals ((t.groups u.id).flatMap fun g => Fix.statement u.content g.1 g.2) ∧
      (c.resolve t u).failure =
        Fix.failure? ((t.groups u.id).flatMap fun g => Fix.statement u.content g.1 g.2) := by
  obtain ⟨hproposals, hfailure⟩ := c.resolve_eq t hforeign
  rw [hproposals, hfailure, attempts, hfix, if_pos rfl, Tracker.groups, List.flatMap_map]
  exact ⟨rfl, rfl⟩

/-- Entries of different clauses are all the latest of their clauses. -/
theorem latestEntries_eq_self {es : List Entry} (h : (clauseIds es).Nodup) :
    latestEntries es = es := by
  induction es with
  | nil => rfl
  | cons e rest ih =>
    rw [clauseIds_cons, List.nodup_cons] at h
    rw [latestEntries, ih h.2, List.filter_eq_self.2]
    intro f hf
    have hne : f.clause.id ≠ e.clause.id := fun heq => h.1 (mem_clauseIds.2 ⟨f, hf, heq⟩)
    simpa using hne

/-- The findings of a group are those in its clauses. -/
theorem statementFindings_eq_filter {es : List Entry} (hids : (clauseIds es).Nodup)
    {fs : List Finding} (hfs : ∀ f ∈ fs, f.entry ∈ es) (id : Int) :
    statementFindings fs id = fs.filter fun f => f.entry.clause ∈ statementClauses es id := by
  refine List.filter_congr fun f hf => ?_
  rw [decide_eq_decide]
  constructor
  · intro hkey
    exact List.mem_map.2 ⟨f.entry, List.mem_filter.2 ⟨hfs f hf, by simpa using hkey⟩, rfl⟩
  · intro hmem
    obtain ⟨e, he, hclause⟩ := List.mem_map.1 hmem
    obtain ⟨he, hkey⟩ := List.mem_filter.1 he
    have heq : e = f.entry := List.inj_on_of_nodup_map hids he (hfs f hf) (congrArg Clause.id hclause)
    rw [← heq]
    exact of_decide_eq_true hkey

/-- The keyword clauses of the groups are those of the clauses from which something goes. -/
theorem mem_statementIds {t : Tracker} {u : UnitId} {id : Int} :
    id ∈ statementIds (byClauseStart (t.findings u)) ↔
      ∃ e ∈ t.standing u, t.usage.unused e.clause ≠ [] ∧ e.keywordClause.id = id := by
  rw [statementIds, List.mem_eraseDups, List.mem_map]
  simp only [byClauseStart, List.mem_mergeSort, Tracker.findings_eq_flatMap, List.mem_flatMap]
  constructor
  · rintro ⟨f, ⟨e, he, hf⟩, hkey⟩
    obtain ⟨hs, rfl⟩ := Usage.mem_findings.1 hf
    exact ⟨f.entry, he, List.ne_nil_of_mem hs, hkey⟩
  · rintro ⟨e, he, hunused, hkey⟩
    obtain ⟨s, hs⟩ := List.exists_mem_of_ne_nil _ hunused
    exact ⟨⟨s, e⟩, ⟨e, he, Usage.mem_findings.2 ⟨hs, rfl⟩⟩, hkey⟩

namespace Scoping

/-- Something goes from the statement. -/
def Statement.loses (used : Usage) (s : Statement) : Bool :=
  s.members.any fun c => !(used.unused c).isEmpty

/-! ## Statements of a scope -/

theorem Statement.first_mem_members (s : Statement) : s.first ∈ s.members := by
  refine List.mem_filter.2 ⟨List.mem_cons_self, ?_⟩
  have hcarries := s.first_carries
  rw [Clause.carriesKeyword] at hcarries
  split at hcarries
  · rename_i hspan
    rw [hspan]
    rfl
  · cases hcarries

/-- The clauses of a scope that have a span are those of its statements. -/
theorem Scope.flatMap_members (scope : Scope) :
    scope.statements.flatMap Statement.members = scope.clauses.filter fun c => c.span.isSome := by
  induction scope with
  | done => rfl
  | statement s rest ih =>
    rw [statements, clauses, List.flatMap_cons, ih, List.filter_append]
    rfl
  | spanless c h rest ih =>
    rw [statements, clauses, ih, List.filter_cons_of_neg (by simp [h])]
  | nested inner rest ihInner ihRest =>
    rw [statements, clauses, List.flatMap_append, ihInner, ihRest, List.filter_append]

variable {owner : Clause → Value} {ss : List Statement}

theorem clauseIds_entries (ss : List Statement) :
    clauseIds (ss.flatMap (Statement.entries owner)) =
      (ss.flatMap Statement.members).map Clause.id := by
  rw [clauseIds, List.map_flatMap, List.map_flatMap]
  refine List.flatMap_congr fun s _ => ?_
  rw [Statement.entries, List.map_map]
  rfl

theorem mem_entries {e : Entry} :
    e ∈ ss.flatMap (Statement.entries owner) ↔
      ∃ s ∈ ss, ∃ c ∈ s.members, e = ⟨c, s.first, owner c⟩ := by
  simp only [List.mem_flatMap, Statement.entries, List.mem_map, eq_comm]

section

variable (hids : (clauseIds (ss.flatMap (Statement.entries owner))).Nodup)

include hids

/-- Different statements have different first clauses. -/
theorem nodup_firstIds : (ss.map fun s => s.first.id).Nodup := by
  rw [clauseIds_entries] at hids
  refine hids.sublist ?_
  clear hids
  induction ss with
  | nil => exact List.Sublist.refl _
  | cons s rest ih =>
    rw [List.map_cons, List.flatMap_cons, List.map_append]
    have hfirst : [s.first.id].Sublist (s.members.map Clause.id) :=
      List.singleton_sublist.2 (List.mem_map_of_mem s.first_mem_members)
    exact hfirst.append ih

/-- A clause of a statement is recorded with the first clause of this statement. -/
theorem keywordClause_eq_first {e : Entry} (he : e ∈ ss.flatMap (Statement.entries owner))
    {s : Statement} (hs : s ∈ ss) (hclause : e.clause ∈ s.members) :
    e.keywordClause = s.first := by
  have hmem : (⟨e.clause, s.first, owner e.clause⟩ : Entry) ∈
      ss.flatMap (Statement.entries owner) :=
    mem_entries.2 ⟨s, hs, e.clause, hclause, rfl⟩
  have heq := List.inj_on_of_nodup_map hids he hmem rfl
  exact congrArg Entry.keywordClause heq

/-- Entries have the same keyword clause exactly if their clauses belong to one statement. -/
theorem keywordClause_id_eq_iff {e f : Entry} (he : e ∈ ss.flatMap (Statement.entries owner))
    (hf : f ∈ ss.flatMap (Statement.entries owner)) :
    e.keywordClause.id = f.keywordClause.id ↔
      ∃ s ∈ ss, e.clause ∈ s.members ∧ f.clause ∈ s.members := by
  constructor
  · intro hid
    obtain ⟨s, hs, c, hc, rfl⟩ := mem_entries.1 he
    obtain ⟨r, hr, d, hd, rfl⟩ := mem_entries.1 hf
    obtain rfl : s = r := List.inj_on_of_nodup_map (nodup_firstIds hids) hs hr hid
    exact ⟨s, hs, hc, hd⟩
  · rintro ⟨s, hs, hc, hd⟩
    rw [keywordClause_eq_first hids he hs hc, keywordClause_eq_first hids hf hs hd]

/-- Grouping the entries, the latest first, by a keyword clause gives the statement back. -/
theorem statementClauses_first {s : Statement} (hs : s ∈ ss) :
    statementClauses (ss.flatMap (Statement.entries owner)).reverse s.first.id =
      s.members.reverse := by
  have hkey : ∀ r ∈ ss, ∀ e ∈ r.entries owner,
      decide (e.keywordClause.id = s.first.id) = decide (r.first.id = s.first.id) := by
    intro r _ e he
    obtain ⟨c, -, rfl⟩ := List.mem_map.1 he
    rfl
  have hone := Grouping.filter_key_eq_singleton (nodup_firstIds hids) hs
  rw [statementClauses, List.filter_reverse, List.map_reverse, Sorting.filter_flatMap hkey, hone,
    List.flatMap_singleton, Statement.entries, List.map_map]
  congr 1
  exact List.map_id _

end

/-! ## Units that record a scope -/

/-- The log of the unit holds the clauses of a scope, the latest first, and those with a span stand
in it with the first clauses of their statements. -/
structure Recorded (t : Tracker) (u : UnitId) (owner : Clause → Value) (scope : Scope) : Prop where
  clauses_eq : (t.logOf u).map Entry.clause = scope.clauses.reverse
  placed_eq : placedEntries (t.logOf u) =
    (scope.statements.flatMap (Statement.entries owner)).reverse

/-- A traversal records its scope, whatever is called in between. -/
theorem recorded_of_traversal {scope : Scope} {withSelf : Clause → Bool} {outer : List Clause}
    {u : CompilationUnit} {start : Tracker} {calls : List Call}
    (hstart : start.logOf u.id = [])
    (hcalls : calls.filter (Call.touchesLog u.id) = scope.calls withSelf u owner outer) :
    Recorded (calls.foldl Tracker.call start) u.id owner scope := by
  have hlog : (calls.foldl Tracker.call start).logOf u.id =
      ((scope.sightings withSelf outer).map (entryOf owner)).reverse := by
    rw [logOf_traversal hcalls, hstart, List.append_nil]
  constructor
  · rw [hlog, List.map_reverse, List.map_map, ← @map_fst_sightings withSelf outer scope]
    rfl
  · rw [hlog, placedEntries, List.filter_reverse]
    exact congrArg List.reverse (placedEntries_sightings outer scope)

namespace Recorded

variable {t : Tracker} {u : UnitId} {scope : Scope} (h : Recorded t u owner scope)

include h

/-- The entries with a span are those of the statements. -/
theorem mem_entries_of_mem_logOf {e : Entry} (he : e ∈ t.logOf u)
    (hspan : e.clause.span.isSome = true) :
    e ∈ scope.statements.flatMap (Statement.entries owner) := by
  rw [← List.mem_reverse, ← h.placed_eq]
  exact List.mem_filter.2 ⟨he, hspan⟩

variable (hids : (scope.clauses.map Clause.id).Nodup)

include hids

/-- No clause is recorded twice, so all entries with a span stand. -/
theorem standing_eq :
    t.standing u = (scope.statements.flatMap (Statement.entries owner)).reverse := by
  have hreverse : clauseIds (t.logOf u) = (scope.clauses.map Clause.id).reverse := by
    rw [← List.map_reverse, ← h.clauses_eq, List.map_map]
    rfl
  have hnodup : (clauseIds (t.logOf u)).Nodup := by
    rw [hreverse, List.nodup_reverse]
    exact hids
  rw [Tracker.standing, latestEntries_eq_self hnodup, h.placed_eq]

omit h in
theorem nodup_entries : (clauseIds (scope.statements.flatMap (Statement.entries owner))).Nodup := by
  rw [clauseIds_entries, Scope.flatMap_members]
  exact hids.sublist (List.filter_sublist.map _)

/-- The keyword clauses of the groups are the first clauses of the statements that lose
something. -/
theorem statementIds_perm :
    (statementIds (byClauseStart (t.findings u))).Perm
      ((scope.statements.filter (Statement.loses t.usage)).map fun s => s.first.id) := by
  have hnodup : ((scope.statements.filter (Statement.loses t.usage)).map
      fun s => s.first.id).Nodup :=
    (nodup_firstIds (@nodup_entries owner scope hids)).sublist (List.filter_sublist.map _)
  have hgroups : (statementIds (byClauseStart (t.findings u))).Nodup :=
    Grouping.nodup_eraseDups _
  refine (List.perm_ext_iff_of_nodup hgroups hnodup).2 fun id => ?_
  rw [mem_statementIds, h.standing_eq hids]
  simp only [List.mem_reverse, mem_entries, List.mem_map, List.mem_filter, Statement.loses,
    List.any_eq_true, Bool.not_eq_true', List.isEmpty_eq_false_iff]
  constructor
  · rintro ⟨e, ⟨s, hs, c, hc, rfl⟩, hunused, rfl⟩
    exact ⟨s, ⟨hs, c, hc, hunused⟩, rfl⟩
  · rintro ⟨s, ⟨hs, c, hc, hunused⟩, rfl⟩
    exact ⟨_, ⟨s, hs, c, hc, rfl⟩, hunused, rfl⟩

/-- The groups are the statements that lose something, each complete. -/
theorem groups_perm :
    ((t.groups u).map Prod.fst).Perm
      ((scope.statements.filter (Statement.loses t.usage)).map fun s => s.members.reverse) := by
  have hgroups := (h.statementIds_perm hids).map (statementClauses (t.standing u))
  rw [List.map_map] at hgroups
  rw [Tracker.groups, List.map_map]
  refine hgroups.trans (List.Perm.of_eq (List.map_congr_left fun s hs => ?_))
  rw [Function.comp_apply, h.standing_eq hids]
  exact statementClauses_first (nodup_entries hids) (List.mem_filter.1 hs).1

end Recorded

/-- The findings handed over with a group are those in its clauses. -/
theorem findings_of_mem_groups {t : Tracker} {u : UnitId} {g : List Clause × List Finding}
    (hg : g ∈ t.groups u) :
    g.2 = (byClauseStart (t.findings u)).filter fun f => f.entry.clause ∈ g.1 := by
  obtain ⟨id, -, rfl⟩ := List.mem_map.1 hg
  refine statementFindings_eq_filter (t.nodup_clauseIds_standing u) (fun f hf => ?_) id
  rw [byClauseStart, List.mem_mergeSort, Tracker.findings_eq_flatMap] at hf
  obtain ⟨e, he, hf⟩ := List.mem_flatMap.1 hf
  rwa [(Usage.mem_findings.1 hf).2]

/-- After the traversal of a scope, with any other calls in between, all its clauses are recorded.
Those with a span have the first clause of their statement as their keyword clause, so two of them
have the same one exactly if they belong to one statement. A resolution with fixes hands over the
statements from which something goes, each with all its clauses, the latest first, and with the
findings in them. -/
theorem groups_are_statements {scope : Scope} {withSelf : Clause → Bool} {outer : List Clause}
    {u : CompilationUnit} {start t : Tracker} {calls : List Call}
    (hids : (scope.clauses.map Clause.id).Nodup) (hstart : start.logOf u.id = [])
    (hcalls : calls.filter (Call.touchesLog u.id) = scope.calls withSelf u owner outer)
    (ht : t = calls.foldl Tracker.call start) :
    (t.logOf u.id).map Entry.clause = scope.clauses.reverse ∧
      (∀ e ∈ t.logOf u.id, e.clause.span.isSome = true →
        ∃ s ∈ scope.statements, e.clause ∈ s.members ∧ e.keywordClause = s.first) ∧
      (∀ e ∈ t.logOf u.id, ∀ f ∈ t.logOf u.id,
        e.clause.span.isSome = true → f.clause.span.isSome = true →
          (e.keywordClause.id = f.keywordClause.id ↔
            ∃ s ∈ scope.statements, e.clause ∈ s.members ∧ f.clause ∈ s.members)) ∧
      ((t.groups u.id).map Prod.fst).Perm
        ((scope.statements.filter (Statement.loses t.usage)).map fun s => s.members.reverse) ∧
      (∀ g ∈ t.groups u.id,
        g.2 = (byClauseStart (t.findings u.id)).filter fun f => f.entry.clause ∈ g.1) ∧
      ∀ c : Checker, c.settings.emitFixes.truthy = true → u.isForeign = false →
        (c.resolve t u).proposals =
            Fix.proposals ((t.groups u.id).flatMap fun g => Fix.statement u.content g.1 g.2) ∧
          (c.resolve t u).failure =
            Fix.failure? ((t.groups u.id).flatMap fun g => Fix.statement u.content g.1 g.2) := by
  have hrecorded : Recorded t u.id owner scope := by
    rw [ht]
    exact recorded_of_traversal hstart hcalls
  refine ⟨hrecorded.clauses_eq, ?_, ?_, hrecorded.groups_perm hids,
    fun g hg => findings_of_mem_groups hg, fun c hfix hforeign => Checker.resolve_groups hfix hforeign⟩
  · intro e he hspan
    obtain ⟨s, hs, c, hc, rfl⟩ := mem_entries.1 (hrecorded.mem_entries_of_mem_logOf he hspan)
    exact ⟨s, hs, hc, rfl⟩
  · intro e he f hf hspan hspan'
    exact keywordClause_id_eq_iff (Recorded.nodup_entries hids)
      (hrecorded.mem_entries_of_mem_logOf he hspan) (hrecorded.mem_entries_of_mem_logOf hf hspan')

/-- A clause with one selector whose target starts at `point`. -/
def clauseAt (id start point : Int) : Clause :=
  ⟨id, ['p'], [⟨['x'], point + 2, none, false⟩], some ⟨start, point, point + 3⟩⟩

/-- A clause that stands nowhere in the source. -/
def clauseNowhere (id : Int) : Clause :=
  ⟨id, ['p'], [⟨['_'], 0, none, true⟩], none⟩

/-- A statement, an inner scope with another one, and behind it a statement with a clause that
stands nowhere among its own. -/
def nestedScope : Scope :=
  .spanless (clauseNowhere 0) rfl <|
    .statement ⟨clauseAt 1 0 7, [clauseAt 2 12 12], rfl, by decide⟩ <|
      .nested (.statement ⟨clauseAt 3 18 25, [clauseAt 4 30 30], rfl, by decide⟩ .done) <|
        .statement ⟨clauseAt 5 36 43, [clauseNowhere 6, clauseAt 7 48 48], rfl, by decide⟩ .done

/-- The unit of the nested scope. -/
def nestedUnit : CompilationUnit :=
  ⟨.name ['u'], ['f'], [], false⟩

/-- The clauses of the nested scope, of which every second one sees itself, and marks. -/
def nestedCalls : List Call :=
  nestedScope.calls (fun c => c.id % 2 = 0) nestedUnit (fun _ => .null) [] ++
    ([clauseAt 1 0 7, clauseAt 3 18 25, clauseAt 4 30 30, clauseAt 7 48 48].flatMap fun c =>
      c.selectors.map fun s => .markUsed c s)

/-- Nothing goes from the inner statement, so it is not handed over. -/
theorem nestedCalls_groups :
    ((((Tracker.run nestedCalls).groups nestedUnit.id).map Prod.fst).map fun cs =>
        cs.map Clause.id).Perm [[2, 1], [7, 5]] := by
  have hids : (nestedScope.clauses.map Clause.id).Nodup := by decide
  have hcalls : nestedCalls.filter (Call.touchesLog nestedUnit.id) =
      nestedScope.calls (fun c => c.id % 2 = 0) nestedUnit (fun _ => .null) [] := by
    rfl
  have hstart : Tracker.empty.logOf nestedUnit.id = [] := Tracker.logOf_empty _
  have hrun : Tracker.run nestedCalls = nestedCalls.foldl Tracker.call .empty := rfl
  obtain ⟨-, -, -, hgroups, -⟩ := groups_are_statements hids hstart hcalls hrun
  have hlosing : (nestedScope.statements.filter
      (Statement.loses (Tracker.run nestedCalls).usage)).map (fun s => s.members.reverse) =
        [[clauseAt 2 12 12, clauseAt 1 0 7], [clauseAt 7 48 48, clauseAt 5 36 43]] := by
    rfl
  rw [hlosing] at hgroups
  exact hgroups.map _

end Scoping

end UnusedImports
