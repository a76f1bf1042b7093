import UnusedImports.Proofs.Tracker.History

/-!
# Traversals of nested scopes

A scope holds import statements, clauses without a span and further scopes. Its traversal records
every clause against the clauses that are in scope then; what comes into scope in an inner scope
leaves it with that scope.

Whatever is in scope around a statement, its first clause is the nearest one with a keyword for all
of its clauses. So the entries with a span are those of the statements, one statement after the
other, each clause with the first clause of its statement (`placedEntries_sightings`). Other calls
may come between those of the traversal (`logOf_traversal`).
-/

set_option autoImplicit false

namespace UnusedImports

/-- The call changes the log of the unit `u`. -/
def Call.touchesLog (u : UnitId) : Call → Bool
  | .recordEntry v _ _ _ => v.id = u
  | .drainUnit v => v.id = u
  | .discardUnit v => v.id = u
  | .resolve _ v => v.id = u
  | .markUsed _ _ => false
  | .drainUsed _ => false

theorem Tracker.logOf_call_of_untouched {t : Tracker} {u : UnitId} {k : Call}
    (h : k.touchesLog u = false) : (t.call k).logOf u = t.logOf u := by
  cases k with
  | markUsed c s => rfl
  | drainUsed c => rfl
  | recordEntry v c visible owner =>
    rw [call, logOf_record, if_neg (of_decide_eq_false h)]
  | drainUnit v =>
    rw [call, drainUnit, logOf_dropLog, if_neg (of_decide_eq_false h)]
  | discardUnit v =>
    rw [call, discardUnit_eq, logOf_dropUsedOf, logOf_dropLog, if_neg (of_decide_eq_false h)]
  | resolve checker v =>
    rw [call, Checker.logOf_resolve, if_neg (of_decide_eq_false h)]

namespace Scoping

/-! ## Scopes -/

/-- The clauses of an import statement in the order of the source. The first one carries the
keyword and no other does; the others may lack a span. -/
structure Statement where
  first : Clause
  others : List Clause
  first_carries : first.carriesKeyword = true
  others_carry : ∀ c ∈ others, c.carriesKeyword = false

/-- All clauses of a statement. -/
def Statement.clauses (s : Statement) : List Clause :=
  s.first :: s.others

/-- The clauses of a statement that have a span. -/
def Statement.members (s : Statement) : List Clause :=
  s.clauses.filter fun c => c.span.isSome

/-- What a scope holds, in the order of the source. -/
inductive Scope where
  | done
  | statement (s : Statement) (rest : Scope)
  | spanless (c : Clause) (h : c.span = none) (rest : Scope)
  | nested (inner rest : Scope)

namespace Scope

/-- The statements of a scope and of all scopes in it. -/
def statements : Scope → List Statement
  | done => []
  | statement s rest => s :: rest.statements
  | spanless _ _ rest => rest.statements
  | nested inner rest => inner.statements ++ rest.statements

/-- The clauses of a scope and of all scopes in it. -/
def clauses : Scope → List Clause
  | done => []
  | statement s rest => s.clauses ++ rest.clauses
  | spanless c _ rest => c :: rest.clauses
  | nested inner rest => inner.clauses ++ rest.clauses

end Scope

/-! ## Traversals -/

section

variable (withSelf : Clause → Bool)

/-- Clauses come into scope one after the other while `visible` is in scope, latest first: each with
the list that it is recorded against. A clause may be in its own list. -/
def enter : List Clause → List Clause → List (Clause × List Clause)
  | _, [] => []
  | visible, c :: rest =>
    (c, if withSelf c then c :: visible else visible) :: enter (c :: visible) rest

/-- The clauses of a scope as they come into scope while `visible` is in scope. -/
def Scope.sightings : List Clause → Scope → List (Clause × List Clause)
  | _, done => []
  | visible, statement s rest =>
    enter withSelf visible s.clauses ++ sightings (s.clauses.reverse ++ visible) rest
  | visible, spanless c _ rest => enter withSelf visible [c] ++ sightings (c :: visible) rest
  | visible, nested inner rest => sightings visible inner ++ sightings visible rest

/-- The calls that record the clauses of a scope in the unit `u`, when `outer` is in scope around
it. -/
def Scope.calls (u : CompilationUnit) (owner : Clause → Value) (outer : List Clause)
    (scope : Scope) : List Call :=
  (scope.sightings withSelf outer).map fun p => .recordEntry u p.1 p.2 (owner p.1)

variable {withSelf}

theorem map_fst_enter (visible cs : List Clause) :
    (enter withSelf visible cs).map Prod.fst = cs := by
  induction cs generalizing visible with
  | nil => rfl
  | cons c rest ih => rw [enter, List.map_cons, ih]

/-- Every clause of a scope comes into scope once, in the order of the source. -/
theorem map_fst_sightings (visible : List Clause) (scope : Scope) :
    (scope.sightings withSelf visible).map Prod.fst = scope.clauses := by
  induction scope generalizing visible with
  | done => rfl
  | statement s rest ih =>
    rw [Scope.sightings, List.map_append, map_fst_enter, ih, Scope.clauses]
  | spanless c h rest ih =>
    rw [Scope.sightings, List.map_append, map_fst_enter, ih, Scope.clauses, List.singleton_append]
  | nested inner rest ihInner ihRest =>
    rw [Scope.sightings, List.map_append, ihInner, ihRest, Scope.clauses]

/-! ## Keyword clauses -/

/-- Clauses without a keyword see the nearest clause with one, as long as no other comes into
scope. -/
theorem keywordClause_of_mem_enter {first : Clause} {visible cs : List Clause}
    (hvisible : visible.find? Clause.carriesKeyword = some first)
    (hcs : ∀ c ∈ cs, c.carriesKeyword = false) :
    ∀ p ∈ enter withSelf visible cs, p.1.keywordClause p.2 = first := by
  induction cs generalizing visible with
  | nil => exact fun p hp => absurd hp List.not_mem_nil
  | cons c rest ih =>
    rw [List.forall_mem_cons] at hcs
    have hself : (c :: visible).find? Clause.carriesKeyword = some first := by
      rw [List.find?_cons_of_neg (by simp [hcs.1]), hvisible]
    rw [enter, List.forall_mem_cons]
    refine ⟨?_, ih hself hcs.2⟩
    rw [Clause.keywordClause, if_neg (by simp [hcs.1])]
    split
    · rw [hself, Option.getD_some]
    · rw [hvisible, Option.getD_some]

/-- The clauses of a statement see its first clause, whatever else is in scope. -/
theorem Statement.keywordClause_eq (s : Statement) (visible : List Clause) :
    ∀ p ∈ enter withSelf visible s.clauses, p.1.keywordClause p.2 = s.first := by
  rw [Statement.clauses, enter, List.forall_mem_cons]
  constructor
  · rw [Clause.keywordClause, if_pos s.first_carries]
  · refine keywordClause_of_mem_enter ?_ s.others_carry
    rw [List.find?_cons_of_pos s.first_carries]

/-! ## Entries -/

variable (owner : Clause → Value)

/-- The entry for a clause that comes into scope. -/
def entryOf (p : Clause × List Clause) : Entry :=
  Tracker.entryFor p.1 p.2 (owner p.1)

/-- The entries of the clauses of a statement that have a span. -/
def Statement.entries (s : Statement) : List Entry :=
  s.members.map fun c => ⟨c, s.first, owner c⟩

variable {owner}

theorem placedEntries_append (front back : List Entry) :
    placedEntries (front ++ back) = placedEntries front ++ placedEntries back :=
  List.filter_append front back

/-- The entries of a statement with a span. -/
theorem placedEntries_enter (s : Statement) (visible : List Clause) :
    placedEntries ((enter withSelf visible s.clauses).map (entryOf owner)) = s.entries owner := by
  have hentries : (enter withSelf visible s.clauses).map (entryOf owner) =
      s.clauses.map fun c => ⟨c, s.first, owner c⟩ := by
    conv_rhs => rw [← @map_fst_enter withSelf visible s.clauses, List.map_map]
    refine List.map_congr_left fun p hp => ?_
    rw [entryOf, Tracker.entryFor, s.keywordClause_eq visible p hp]
    rfl
  rw [hentries, placedEntries, List.filter_map]
  rfl

/-- The entries of a scope with a span are those of its statements. -/
theorem placedEntries_sightings (visible : List Clause) (scope : Scope) :
    placedEntries ((scope.sightings withSelf visible).map (entryOf owner)) =
      scope.statements.flatMap (Statement.entries owner) := by
  induction scope generalizing visible with
  | done => rfl
  | statement s rest ih =>
    rw [Scope.sightings, List.map_append, placedEntries_append, placedEntries_enter, ih,
      Scope.statements, List.flatMap_cons]
  | spanless c h rest ih =>
    have hnone : placedEntries ((enter withSelf visible [c]).map (entryOf owner)) = [] := by
      simp [enter, placedEntries, entryOf, Tracker.entryFor, h]
    rw [Scope.sightings, List.map_append, placedEntries_append, hnone, ih, Scope.statements,
      List.nil_append]
  | nested inner rest ihInner ihRest =>
    rw [Scope.sightings, List.map_append, placedEntries_append, ihInner, ihRest, Scope.statements,
      List.flatMap_append]

/-! ## The log of a traversal -/

/-- If the calls that change the log of a unit record clauses, then their entries are added to the
log, the latest first. -/
theorem logOf_traversal {t : Tracker} {u : CompilationUnit} {calls : List Call}
    {ps : List (Clause × List Clause)}
    (hcalls : calls.filter (Call.touchesLog u.id) =
      ps.map fun p => .recordEntry u p.1 p.2 (owner p.1)) :
    (calls.foldl Tracker.call t).logOf u.id =
      (ps.map (entryOf owner)).reverse ++ t.logOf u.id := by
  induction calls generalizing t ps with
  | nil =>
    rw [List.filter_nil, eq_comm, List.map_eq_nil_iff] at hcalls
    rw [hcalls]
    rfl
  | cons k rest ih =>
    rw [List.foldl_cons]
    cases hk : k.touchesLog u.id with
    | false =>
      rw [List.filter_cons_of_neg (by simp [hk])] at hcalls
      rw [ih hcalls, Tracker.logOf_call_of_untouched hk]
    | true =>
      rw [List.filter_cons_of_pos hk] at hcalls
      cases ps with
      | nil => cases hcalls
      | cons p ps =>
        rw [List.map_cons, List.cons.injEq] at hcalls
        obtain ⟨rfl, hrest⟩ := hcalls
        rw [ih hrest, Tracker.call, Tracker.logOf_record, if_pos rfl, List.map_cons,
          List.reverse_cons, List.append_assoc]
        rfl

end

end Scoping

end UnusedImports
