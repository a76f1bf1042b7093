import UnusedImports.Proofs.Fix.Clauses

/-!
# What a statement yields

`Fix.statementEdits` lists the edits of a statement, given its clauses in the order of the source:
one deletion if nothing stays, and the pruned list of clauses otherwise. `yields_mendClauses` says
that mending the clauses proposes exactly these edits and reports every finding of the statement,
so that no attempt fails: a clause that lists no selector twice always finds its actions.
-/

set_option autoImplicit false

namespace UnusedImports

/-- Spans extend from where the first of them starts to where the last of them stops. -/
theorem Span.extent_eq_some {ss : List Span} {lo hi : Int} (hlo : ∃ s ∈ ss, s.start = lo)
    (hhi : ∃ s ∈ ss, s.stop = hi) (hbounds : ∀ s ∈ ss, lo ≤ s.start ∧ s.stop ≤ hi) :
    Span.extent ss = some (lo, hi) := by
  cases ss with
  | nil =>
    obtain ⟨s, hs, -⟩ := hlo
    exact absurd hs List.not_mem_nil
  | cons s rest =>
    have hmin : ((s :: rest).map Span.start).min? = some lo := by
      rw [List.min?_eq_some_iff]
      constructor
      · exact List.mem_map.2 hlo
      · intro a ha
        obtain ⟨r, hr, rfl⟩ := List.mem_map.1 ha
        exact (hbounds r hr).1
    have hmax : ((s :: rest).map Span.stop).max? = some hi := by
      rw [List.max?_eq_some_iff]
      constructor
      · exact List.mem_map.2 hhi
      · intro a ha
        obtain ⟨r, hr, rfl⟩ := List.mem_map.1 ha
        exact (hbounds r hr).2
    rw [List.map_cons, List.min?_cons', Option.some.injEq, List.foldl_map] at hmin
    rw [List.map_cons, List.max?_cons', Option.some.injEq, List.foldl_map] at hmax
    rw [extent, hmin, hmax]

namespace Fix

/-- How the clauses of a statement, each with its place, are edited. -/
def clausePruning (t : Text) (used : Usage) : Pruning (Clause × Nat) where
  alive p := !used.isDead p.1
  own p := clauseEdits t used p.2 p.1
  cut p next := (delete t (cutStart p.2 p.1) next.1.place.start).edit
  bridge kept next := (delete t kept.1.place.stop next.1.place.start).edit
  close kept p :=
    (action (cutStart p.2 p.1) (t.repairStop kept.1.place.stop p.1.place.stop []) []).edit

/-- The edits of a statement, given its clauses in the order of the source. -/
def statementEdits (t : Text) (used : Usage) (clauses : List Clause) : List Edit :=
  if clauses.all used.isDead then
    match Span.extent (clauses.map Clause.place) with
    | some (start, stop) => [(delete t start stop).edit]
    | none => []
  else (clausePruning t used).edits clauses.zipIdx

/-- The order in which the findings of a statement are reported. -/
def statementOrder (used : Usage) (es : List Entry) (fs : List Finding) : List Finding :=
  if (es.map Entry.clause).all used.isDead then Finding.inOrder fs
  else es.flatMap fun e => Finding.inOrder (used.findings e)

variable {t : Text} {used : Usage} {es : List Entry} {fs : List Finding}

/-! ## Dead clauses -/

/-- The clauses of which all selectors are found are the dead ones. -/
theorem isDead_eq (hcovers : used.Covers es fs) {e : Entry} (he : e ∈ es)
    (hnodup : e.clause.selectors.Nodup) : isDead fs e.clause = used.isDead e.clause := by
  have hlength : (used.unused e.clause).length + (used.kept e.clause).length =
      e.clause.selectors.length := Usage.length_kept_add_length_unused e.clause
  rw [Bool.eq_iff_iff, Usage.isDead_iff, isDead, hcovers.ofClause_eq e he,
    Usage.selectors_findings hnodup, Bool.and_eq_true, decide_eq_true_eq, Bool.not_eq_true',
    List.isEmpty_eq_false_iff, ne_eq, Usage.findings_eq_nil_iff]
  constructor
  · rintro ⟨hunused, hall⟩
    exact ⟨hunused, List.length_eq_zero_iff.1 (by omega)⟩
  · rintro ⟨hunused, hkept⟩
    rw [hkept, List.length_nil] at hlength
    exact ⟨hunused, by omega⟩

/-- The ids of the dead clauses. -/
def deadOf (used : Usage) (cs : List Clause) : List Int :=
  (cs.filter used.isDead).map Clause.id

theorem contains_deadOf {cs : List Clause} (hids : (cs.map Clause.id).Nodup) {c : Clause}
    (hc : c ∈ cs) : (deadOf used cs).contains c.id = used.isDead c := by
  rw [Bool.eq_iff_iff, List.contains_iff_mem, deadOf, List.mem_map]
  constructor
  · -- a dead clause with this id is the clause itself, since ids differ
    rintro ⟨d, hd, hid⟩
    obtain ⟨hd, hdead⟩ := List.mem_filter.1 hd
    obtain rfl : d = c := List.inj_on_of_nodup_map hids hd hc hid
    exact hdead
  · intro hdead
    exact ⟨c, List.mem_filter.2 ⟨hc, hdead⟩, rfl⟩

theorem nodup_ids_map_clause (hids : (clauseIds es).Nodup) :
    ((es.map Entry.clause).map Clause.id).Nodup := by
  rw [List.map_map]
  exact hids

theorem deadIds_eq (hcovers : used.Covers es fs) (hids : (clauseIds es).Nodup)
    (hsel : ∀ e ∈ es, e.clause.selectors.Nodup) :
    deadIds fs (es.map Entry.clause) = deadOf used (es.map Entry.clause) := by
  have hfilter : (es.map Entry.clause).filter (isDead fs) =
      (es.map Entry.clause).filter used.isDead := by
    refine List.filter_congr fun c hc => ?_
    obtain ⟨e, he, rfl⟩ := List.mem_map.1 hc
    exact isDead_eq hcovers he (hsel e he)
  have hnodup : (deadOf used (es.map Entry.clause)).Nodup :=
    (nodup_ids_map_clause hids).sublist (List.filter_sublist.map _)
  rw [deadIds, hfilter, ← deadOf, eraseDups_of_nodup hnodup]

/-- A statement is deleted as a whole exactly if all its clauses are dead. -/
theorem length_deadOf_eq_iff {cs : List Clause} :
    (deadOf used cs).length = cs.length ↔ cs.all used.isDead = true := by
  rw [deadOf, List.length_map, List.length_filter_eq_length_iff, List.all_eq_true]

/-! ## Clause by clause -/

/-- The last clause takes the comma behind the last clause that stays. -/
theorem tailActions_eq {dead : List Int} {clauses front tail : List Clause} {kept next c : Clause}
    {start : Int} (hclauses : clauses = front ++ kept :: next :: tail)
    (hkept : dead.contains kept.id = false)
    (htail : ∀ d ∈ next :: tail, dead.contains d.id = true) :
    tailActions t clauses dead c start =
      .ok [delete t kept.place.stop next.place.start,
        action start (t.repairStop kept.place.stop c.place.stop []) []] := by
  have hplace : lastPlace? (fun d : Clause => !dead.contains d.id) clauses = some front.length := by
    rw [hclauses]
    apply lastPlace?_append_cons
    · rw [hkept]
      rfl
    · intro d hd
      rw [htail d hd]
      rfl
  rw [tailActions, hplace]
  simp only [hclauses, List.drop_left]

/-- The clause behind a given place. -/
theorem getElem?_length_succ (front rest : List Clause) (c : Clause) :
    (front ++ c :: rest)[front.length + 1]? = rest.head? := by
  rw [List.getElem?_append_right (Nat.le_add_right _ 1), Nat.add_sub_cancel_left,
    List.getElem?_cons_succ, List.head?_eq_getElem?]

/-- If something of the statement stays and its last clause goes, that clause finds its actions. -/
theorem tailActions_ok {cs : List Clause} (hids : (cs.map Clause.id).Nodup)
    (hlive : cs.all used.isDead = false) {c : Clause} (hlast : cs.getLast? = some c)
    (hdead : used.isDead c = true) (start : Int) :
    ∃ actions, tailActions t cs (deadOf used cs) c start = .ok actions := by
  have hany : (cs.any fun d => !used.isDead d) = true := by
    rw [← List.not_all_eq_any_not, hlive]
    rfl
  obtain ⟨front, kept, tail, hclauses, hkept, htail⟩ := exists_last_alive hany
  have hcontains : ∀ d ∈ cs, _ = used.isDead d := fun d hd => contains_deadOf hids hd
  cases tail with
  | nil =>
    -- the last clause would both go and stay
    rw [hclauses, List.getLast?_append, List.getLast?_singleton, Option.some_or] at hlast
    cases hlast
    rw [hdead] at hkept
    exact absurd hkept Bool.false_ne_true
  | cons next tail =>
    refine ⟨_, tailActions_eq hclauses ?_ fun d hd => ?_⟩
    · rw [hcontains kept (by simp [hclauses])]
      simpa using hkept
    · rw [hcontains d (by rw [hclauses]; simp_all)]
      simpa using htail d hd

/-- Mending a clause of which something stays. -/
theorem yields_mendClause_of_alive (hcovers : used.Covers es fs) (hids : (clauseIds es).Nodup)
    (hsel : ∀ e ∈ es, e.clause.selectors.Nodup) {e : Entry} (he : e ∈ es)
    (halive : used.isDead e.clause = false) (place : Nat) :
    Yields
      (mendClause t (es.map Entry.clause) (deadOf used (es.map Entry.clause)) fs e.clause place)
      (Finding.inOrder (used.findings e)) (clauseEdits t used place e.clause) := by
  rw [mendClause, contains_deadOf (nodup_ids_map_clause hids) (List.mem_map_of_mem he), halive,
    hcovers.ofClause_eq e he]
  simp only [Bool.false_eq_true, if_false]
  by_cases hunused : used.unused e.clause = []
  · -- nothing of the clause goes
    rw [Usage.findings_eq_nil_iff.2 hunused, clauseEdits, if_pos hunused]
    simpa [Finding.inOrder] using Yields.nil
  · have hfindings : (used.findings e).isEmpty = false :=
      List.isEmpty_eq_false_iff.2 fun h => hunused (Usage.findings_eq_nil_iff.1 h)
    rw [hfindings]
    exact yields_updateClause place (hsel e he) hunused (Usage.kept_ne_nil halive hunused)

/-- A dead clause in front of another one is deleted up to it. -/
theorem yields_mendClause_of_next (hcovers : used.Covers es fs) (hids : (clauseIds es).Nodup)
    {e : Entry} (he : e ∈ es) (hdead : used.isDead e.clause = true) {place : Nat} {next : Clause}
    (hnext : (es.map Entry.clause)[place + 1]? = some next) :
    Yields
      (mendClause t (es.map Entry.clause) (deadOf used (es.map Entry.clause)) fs e.clause place)
      (Finding.inOrder (used.findings e))
      [(delete t (cutStart place e.clause) next.place.start).edit] := by
  rw [mendClause, contains_deadOf (nodup_ids_map_clause hids) (List.mem_map_of_mem he), hdead,
    hcovers.ofClause_eq e he, if_pos rfl, removeClause, hnext]
  exact yields_carriedByLast [_] (Finding.inOrder_ne_nil (Usage.findings_ne_nil_of_isDead hdead))

/-- A dead clause at the end of its statement is deleted by the actions for the tail. -/
theorem yields_mendClause_of_last (hcovers : used.Covers es fs) (hids : (clauseIds es).Nodup)
    {e : Entry} (he : e ∈ es) (hdead : used.isDead e.clause = true) {place : Nat}
    {actions : List CodeAction} (hnext : (es.map Entry.clause)[place + 1]? = none)
    (hactions : tailActions t (es.map Entry.clause) (deadOf used (es.map Entry.clause)) e.clause
      (cutStart place e.clause) = .ok actions) :
    Yields
      (mendClause t (es.map Entry.clause) (deadOf used (es.map Entry.clause)) fs e.clause place)
      (Finding.inOrder (used.findings e)) (actions.map CodeAction.edit) := by
  rw [mendClause, contains_deadOf (nodup_ids_map_clause hids) (List.mem_map_of_mem he), hdead,
    hcovers.ofClause_eq e he, if_pos rfl, removeClause, hnext]
  simp only [hactions]
  exact yields_carriedByLast actions
    (Finding.inOrder_ne_nil (Usage.findings_ne_nil_of_isDead hdead))

/-- If something of a statement stays, one of its clauses does. -/
theorem any_alive_zipIdx {cs : List Clause} (hlive : cs.all used.isDead = false) :
    cs.zipIdx.any (clausePruning t used).alive = true := by
  have hany : (cs.any fun c => !used.isDead c) = true := by
    rw [← List.not_all_eq_any_not, hlive]
    rfl
  rwa [← List.zipIdx_map_fst 0 cs, List.any_map] at hany

/-- The edits for the last clause of a statement, if it goes and something else stays. -/
def finalEdits (t : Text) (used : Usage) (cs : List Clause) (p : Clause × Nat) : List Edit :=
  actionEdits (tailActions t cs (deadOf used cs) p.1 (cutStart p.2 p.1))

/-- Mending one clause, when something of the statement stays. -/
theorem yields_mendClause (hcovers : used.Covers es fs) (hids : (clauseIds es).Nodup)
    (hsel : ∀ e ∈ es, e.clause.selectors.Nodup)
    (hlive : (es.map Entry.clause).all used.isDead = false) {front rest : List Entry} {e : Entry}
    (hes : es = front ++ e :: rest) :
    Yields
      (mendClause t (es.map Entry.clause) (deadOf used (es.map Entry.clause)) fs e.clause
        front.length)
      (Finding.inOrder (used.findings e))
      ((clausePruning t used).turn (finalEdits t used (es.map Entry.clause))
        (e.clause, front.length) ((rest.map Entry.clause).zipIdx (front.length + 1))) := by
  have he : e ∈ es := by
    rw [hes]
    simp
  cases hd : used.isDead e.clause with
  | false =>
    have halive : (clausePruning t used).alive (e.clause, front.length) = true := by
      simp [clausePruning, hd]
    rw [Pruning.turn_of_alive halive]
    exact yields_mendClause_of_alive hcovers hids hsel he hd front.length
  | true =>
    have hgone : (clausePruning t used).alive (e.clause, front.length) = false := by
      simp [clausePruning, hd]
    have hnext : (es.map Entry.clause)[front.length + 1]? = (rest.map Entry.clause).head? := by
      have h := getElem?_length_succ (front.map Entry.clause) (rest.map Entry.clause) e.clause
      rw [List.length_map] at h
      rw [hes, List.map_append, List.map_cons, h]
    rw [Pruning.turn_of_dead hgone]
    cases rest with
    | nil =>
      -- the last clause takes the comma behind the last one that stays
      have hlast : (es.map Entry.clause).getLast? = some e.clause := by
        rw [hes, List.map_append, List.getLast?_append]
        rfl
      obtain ⟨actions, hactions⟩ := tailActions_ok (t := t) (nodup_ids_map_clause hids) hlive hlast
        hd (cutStart front.length e.clause)
      rw [List.map_nil, List.zipIdx_nil, finalEdits, hactions]
      exact yields_mendClause_of_last hcovers hids he hd hnext hactions
    | cons next rest =>
      -- any other clause is deleted up to the next one
      exact yields_mendClause_of_next hcovers hids he hd hnext

/-- Mending the clauses from a place on, when something of the statement stays. -/
theorem yields_flatMap_mendClause (hcovers : used.Covers es fs)
    (hids : (clauseIds es).Nodup) (hsel : ∀ e ∈ es, e.clause.selectors.Nodup)
    (hlive : (es.map Entry.clause).all used.isDead = false) (front rest : List Entry)
    (hes : es = front ++ rest) :
    Yields
      (((rest.map Entry.clause).zipIdx front.length).flatMap fun (c, place) =>
        mendClause t (es.map Entry.clause) (deadOf used (es.map Entry.clause)) fs c place)
      (rest.flatMap fun e => Finding.inOrder (used.findings e))
      ((clausePruning t used).inTurn (finalEdits t used (es.map Entry.clause))
        ((rest.map Entry.clause).zipIdx front.length)) := by
  -- the front grows, because a clause is mended at its place in the whole statement
  induction rest generalizing front with
  | nil => exact Yields.nil
  | cons e rest ih =>
    have hrest := ih (front ++ [e]) (by rw [hes, List.append_assoc, List.singleton_append])
    rw [List.length_append, List.length_singleton] at hrest
    rw [List.map_cons, List.zipIdx_cons, List.flatMap_cons, List.flatMap_cons, Pruning.inTurn_cons]
    exact (yields_mendClause hcovers hids hsel hlive hes).append hrest

/-- The edits for a last clause that goes, read off the statement. -/
theorem finalEdits_eq {cs : List Clause} (hids : (cs.map Clause.id).Nodup)
    {front tail : List (Clause × Nat)} {kept next : Clause × Nat}
    (hzip : cs.zipIdx = front ++ kept :: next :: tail) (hkept : used.isDead kept.1 = false)
    (htail : ∀ q ∈ next :: tail, used.isDead q.1 = true) (p : Clause × Nat) :
    finalEdits t used cs p =
      [(clausePruning t used).bridge kept next, (clausePruning t used).close kept p] := by
  have hclauses : cs = front.map Prod.fst ++ kept.1 :: next.1 :: tail.map Prod.fst := by
    rw [← List.zipIdx_map_fst 0 cs, hzip, List.map_append, List.map_cons, List.map_cons]
  have hcontains : ∀ c ∈ cs, _ = used.isDead c := fun c hc => contains_deadOf hids hc
  rw [finalEdits, tailActions_eq hclauses]
  · rfl
  · rw [hcontains kept.1 (by simp [hclauses]), hkept]
  · intro c hc
    rw [hcontains c (by rw [hclauses]; simp_all)]
    rw [← List.map_cons] at hc
    obtain ⟨q, hq, rfl⟩ := List.mem_map.1 hc
    exact htail q hq

/-- Mending the clauses of a statement reports all its findings and makes its edits. -/
theorem yields_mendClauses (hcovers : used.Covers es fs) (hids : (clauseIds es).Nodup)
    (hsel : ∀ e ∈ es, e.clause.selectors.Nodup) (hes : es ≠ []) (hfs : fs ≠ []) :
    Yields (mendClauses t (es.map Entry.clause) fs) (statementOrder used es fs)
      (statementEdits t used (es.map Entry.clause)) := by
  rw [mendClauses, statementOrder, statementEdits, deadIds_eq hcovers hids hsel]
  by_cases hall : (es.map Entry.clause).all used.isDead = true
  · -- nothing stays, and the statement is deleted as a whole
    simp only [length_deadOf_eq_iff.2 hall, if_true, hall]
    obtain ⟨e, rest, rfl⟩ := List.exists_cons_of_ne_nil hes
    rw [removeStatement]
    simp only [List.map_cons, Span.extent]
    exact yields_carriedByLast _ (Finding.inOrder_ne_nil hfs)
  · have hlive : (es.map Entry.clause).all used.isDead = false := by simpa using hall
    simp only [mt length_deadOf_eq_iff.1 hall, if_false, hall, Bool.false_eq_true]
    have hyields := yields_flatMap_mendClause (t := t) hcovers hids hsel hlive [] es rfl
    rw [List.length_nil] at hyields
    -- the edits come clause by clause, which is the order of the source but for the last comma
    refine hyields.perm ?_
    refine Pruning.inTurn_perm_edits (any_alive_zipIdx hlive)
      fun front kept next tail p hzip hkept htail _ => ?_
    refine finalEdits_eq (nodup_ids_map_clause hids) hzip ?_ (fun q hq => ?_) p
    · simpa [clausePruning] using hkept
    · simpa [clausePruning] using htail q hq

end Fix

end UnusedImports
