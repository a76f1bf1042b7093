import UnusedImports.Proofs.Tracker.Report
import Mathlib.Data.List.Induction

/-!
# Nothing leaks and nothing is lost

The stores of a tracker never hold an empty list (`Tracker.Tight`), so what is stored can be read
off the two views. A call that finishes a unit (`Call.finishes`) takes the log of the unit and the
used sets of the clauses in it, and leaves everything else as it is stored (`Tracker.Without`).

The entries that a run has recorded in a unit (`History.recordedIn`) are accounted for: they are the
ones that a drain would now return, and behind them those that the earlier calls removed, each of
them the whole log of its time (`History.removals`).

If every mark falls between a recording of its clause and the end of the unit, every used set
belongs to a clause of a pending unit (`History.UsedArePending`). Once all recorded units are
finished, nothing is left.
-/

set_option autoImplicit false

namespace UnusedImports

/-! ## Stores without empty lists -/

namespace Keyed

variable {κ β : Type} {m m' : Keyed κ (List β)}

/-- No key is used twice and no stored list is empty. -/
structure Tight (m : Keyed κ (List β)) : Prop where
  nodup_keys : m.keys.Nodup
  ne_nil : ∀ e ∈ m.entries, e.2 ≠ []

theorem Tight.empty : (empty : Keyed κ (List β)).Tight :=
  ⟨List.nodup_nil, fun _ he => absurd he List.not_mem_nil⟩

variable [DecidableEq κ]

theorem Tight.put (h : m.Tight) (k : κ) {l : List β} (hl : l ≠ []) : (m.put k l).Tight := by
  constructor
  · rw [keys_put]
    split
    · exact h.nodup_keys
    · rename_i hk
      exact List.nodup_append.2 ⟨h.nodup_keys, List.nodup_singleton k, by
        rintro j hj _ hjk rfl
        rw [List.mem_singleton] at hjk
        exact hk (hjk ▸ hj)⟩
  · intro e he
    rcases mem_entries_put he with rfl | he
    · exact hl
    · exact h.ne_nil e he

theorem Tight.erase (h : m.Tight) (k : κ) : (m.erase k).Tight := by
  constructor
  · rw [keys_erase]
    exact h.nodup_keys.filter _
  · intro e he
    exact h.ne_nil e (List.mem_filter.1 he).1

/-- A list that looks empty is not stored. -/
theorem Tight.get?_eq_none (h : m.Tight) {k : κ} (hk : (m.get? k).getD [] = []) :
    m.get? k = none := by
  cases hget : m.get? k with
  | none => rfl
  | some l =>
    rw [hget, Option.getD_some] at hk
    exact absurd hk (h.ne_nil _ (mem_entries_of_get? hget))

/-- Lists that look the same are stored alike. -/
theorem Tight.get?_congr (h : m.Tight) (h' : m'.Tight) {k : κ}
    (hk : (m'.get? k).getD [] = (m.get? k).getD []) : m'.get? k = m.get? k := by
  cases hget : m.get? k with
  | none =>
    rw [hget, Option.getD_none] at hk
    exact h'.get?_eq_none hk
  | some l =>
    have hl : l ≠ [] := h.ne_nil _ (mem_entries_of_get? hget)
    rw [hget, Option.getD_some] at hk
    cases hget' : m'.get? k with
    | none =>
      rw [hget', Option.getD_none] at hk
      exact absurd hk.symm hl
    | some l' =>
      rw [hget', Option.getD_some] at hk
      rw [hk]

theorem Tight.mem_keys_iff (h : m.Tight) {k : κ} : k ∈ m.keys ↔ (m.get? k).getD [] ≠ [] := by
  rw [mem_keys, not_iff_not]
  constructor
  · intro hk
    rw [hk, Option.getD_none]
  · exact h.get?_eq_none

end Keyed

/-! ## Calls that record and remove -/

/-- The call removes the log of the unit `u`. -/
def Call.empties (u : UnitId) : Call → Bool
  | .drainUnit v => v.id = u
  | k => k.finishes u

/-- The call records the clause `id` in the unit `u`. -/
def Call.records (u : UnitId) (id : Int) : Call → Bool
  | .recordEntry v c _ _ => v.id = u && c.id = id
  | _ => false

namespace Tracker

variable {t t' : Tracker} {u : UnitId} {k : Call}

/-- The stores of a tracker hold no empty list. -/
structure Tight (t : Tracker) : Prop where
  used : t.used.Tight
  logs : t.logs.Tight

theorem Tight.empty : empty.Tight :=
  ⟨Keyed.Tight.empty, Keyed.Tight.empty⟩

theorem Tight.markUsed (h : t.Tight) (c : Clause) (s : Selector) : (t.markUsed c s).Tight :=
  ⟨h.used.put c.id (List.ne_nil_of_mem List.mem_insert_self), h.logs⟩

theorem Tight.record (h : t.Tight) (u : UnitId) (e : Entry) : (t.record u e).Tight :=
  ⟨h.used, h.logs.put u (List.cons_ne_nil e _)⟩

theorem Tight.dropUsed (h : t.Tight) (c : Clause) : (t.dropUsed c).Tight :=
  ⟨h.used.erase c.id, h.logs⟩

theorem Tight.dropLog (h : t.Tight) (u : UnitId) : (t.dropLog u).Tight :=
  ⟨h.used, h.logs.erase u⟩

theorem Tight.dropUsedOf (h : t.Tight) (es : List Entry) : (t.dropUsedOf es).Tight := by
  induction es generalizing t with
  | nil => exact h
  | cons e rest ih => exact ih (h.dropUsed e.clause)

theorem Tight.discardUnit (h : t.Tight) (u : UnitId) : (t.discardUnit u).Tight := by
  rw [discardUnit_eq]
  exact (h.dropLog u).dropUsedOf _

theorem Tight.resolve (h : t.Tight) (c : Checker) (u : CompilationUnit) :
    (c.resolve t u).tracker.Tight := by
  unfold Checker.resolve
  split
  · exact h.discardUnit u.id
  · exact ((h.dropLog u.id).dropUsedOf _).dropUsedOf _

/-- Every call keeps the stores without empty lists. -/
theorem Tight.call (h : t.Tight) (k : Call) : (t.call k).Tight := by
  cases k with
  | markUsed c s => exact h.markUsed c s
  | recordEntry u c visible owner => exact h.record u.id _
  | drainUsed c => exact h.dropUsed c
  | drainUnit u => exact h.dropLog u.id
  | discardUnit u => exact h.discardUnit u.id
  | resolve checker u => exact h.resolve checker u

theorem tight_run (calls : List Call) : (run calls).Tight := by
  unfold run
  induction calls using List.reverseRecOn with
  | nil => exact Tight.empty
  | append_singleton calls k ih =>
    rw [List.foldl_append, List.foldl_cons, List.foldl_nil]
    exact ih.call k

/-- `t'` is `t` without the unit `u`: the log of the unit and the used sets of the clauses in it are
gone, all others are stored as before. -/
structure Without (t t' : Tracker) (u : UnitId) : Prop where
  log_gone : t'.logs.get? u = none
  used_gone : ∀ id ∈ clauseIds (t.logOf u), t'.used.get? id = none
  logs_kept : ∀ v, v ≠ u → t'.logs.get? v = t.logs.get? v
  used_kept : ∀ id, id ∉ clauseIds (t.logOf u) → t'.used.get? id = t.used.get? id

/-- A call that finishes a unit leaves the tracker without the unit. -/
theorem Tight.without_call (h : t.Tight) (hk : k.finishes u = true) : t.Without (t.call k) u where
  log_gone := by
    refine (h.call k).logs.get?_eq_none ?_
    have hlog := logOf_call_of_finishes (t := t) hk u
    rwa [if_pos rfl] at hlog
  used_gone id hid := by
    refine (h.call k).used.get?_eq_none ?_
    have hused := usedOf_call_of_finishes (t := t) hk id
    rwa [if_pos hid] at hused
  logs_kept v hv := by
    refine h.logs.get?_congr (h.call k).logs ?_
    have hlog := logOf_call_of_finishes (t := t) hk v
    rwa [if_neg hv.symm] at hlog
  used_kept id hid := by
    refine h.used.get?_congr (h.call k).used ?_
    have hused := usedOf_call_of_finishes (t := t) hk id
    rwa [if_neg hid] at hused

end Tracker

/-! ## Accounts -/

namespace History

/-- All entries that were recorded in a unit, the latest first. -/
def recordedIn (u : UnitId) : List Call → List Entry
  | [] => []
  | .recordEntry v c visible owner :: past =>
    if v.id = u then Tracker.entryFor c visible owner :: recordedIn u past else recordedIn u past
  | _ :: past => recordedIn u past

/-- What the calls that remove the log of a unit found in it, the latest call first. -/
def removals (u : UnitId) : List Call → List (List Entry)
  | [] => []
  | k :: past =>
    if k.empties u then ((tracker past).drainUnit u).1 :: removals u past else removals u past

/-- The recorded entries of a unit are those that a drain would return now and those that were
removed before. -/
theorem recordedIn_eq (u : UnitId) (past : List Call) :
    recordedIn u past = ((tracker past).drainUnit u).1 ++ (removals u past).flatten := by
  have hdrain : ∀ past, ((tracker past).drainUnit u).1 = recordedSince u past := fun past =>
    logOf_tracker past u
  induction past with
  | nil => rfl
  | cons k past ih =>
    rw [hdrain] at ih ⊢
    rw [removals, hdrain]
    -- a recorded entry comes to the front of the log; a call that removes the log leaves it empty
    -- and puts its entries in front of those removed before
    cases k with
    | markUsed c s => exact ih
    | drainUsed c => exact ih
    | recordEntry v c visible owner =>
      rw [recordedIn, recordedSince]
      split
      · rw [ih]
        rfl
      · exact ih
    | drainUnit v =>
      simp only [recordedIn, recordedSince, ih, Call.empties, decide_eq_true_eq]
      split <;> simp
    | discardUnit v =>
      simp only [recordedIn, recordedSince, ih, Call.empties, Call.finishes, decide_eq_true_eq]
      split <;> simp
    | resolve c v =>
      simp only [recordedIn, recordedSince, ih, Call.empties, Call.finishes, decide_eq_true_eq]
      split <;> simp

/-- A unit is pending if entries were recorded in it since its log was last removed. -/
theorem mem_pendingUnits_run (u : UnitId) (calls : List Call) :
    u ∈ (Tracker.run calls).pendingUnits ↔ recordedSince u calls.reverse ≠ [] := by
  rw [Tracker.pendingUnits, (Tracker.tight_run calls).logs.mem_keys_iff, ← logOf_tracker,
    ← run_eq_tracker]
  rfl

/-! ## Marks while the unit is pending -/

variable {t : Tracker} {u : UnitId} {k : Call} {id : Int}

/-- Every mark of a clause falls between a recording of the clause in a unit and the next call that
finishes the unit. -/
def MarksWhilePending (calls : List Call) : Prop :=
  ∀ before c s after, calls = before ++ .markUsed c s :: after →
    ∃ u early k late, before = early ++ k :: late ∧ k.records u c.id = true ∧
      ∀ j ∈ late, j.finishes u = false

/-- Every unit with a recorded entry is finished later. -/
def RecordedAreFinished (calls : List Call) : Prop :=
  ∀ before k after u id, calls = before ++ k :: after → k.records u id = true →
    ∃ j ∈ after, j.finishes u = true

/-- Every used set belongs to a clause in the log of a unit. -/
def UsedArePending (t : Tracker) : Prop :=
  ∀ id, t.usedOf id ≠ [] → ∃ u, id ∈ clauseIds (t.logOf u)

/-- A clause is in the log of a unit after a call if the call recorded it, or if it was there before
and the call did not remove the log. -/
theorem mem_log_call_iff :
    id ∈ clauseIds ((t.call k).logOf u) ↔
      k.records u id = true ∨ (k.empties u = false ∧ id ∈ clauseIds (t.logOf u)) := by
  cases k with
  | markUsed c s => simp [Tracker.call, Call.records, Call.empties, Call.finishes]
  | recordEntry v c visible owner =>
    by_cases hv : v.id = u <;>
      simp [Tracker.call, Tracker.entryFor, Call.records, Call.empties, Call.finishes, hv,
        @eq_comm _ id c.id]
  | drainUsed c => simp [Tracker.call, Tracker.drainUsed, Call.records, Call.empties, Call.finishes]
  | drainUnit v =>
    by_cases hv : v.id = u <;>
      simp [Tracker.call, Tracker.drainUnit, Call.records, Call.empties, hv]
  | discardUnit v =>
    by_cases hv : v.id = u <;>
      simp [Tracker.call, Tracker.discardUnit_eq, Call.records, Call.empties, Call.finishes, hv]
  | resolve c v =>
    by_cases hv : v.id = u <;>
      simp [Tracker.call, Checker.logOf_resolve, Call.records, Call.empties, Call.finishes, hv]

theorem mem_log_foldl_call (h : id ∈ clauseIds (t.logOf u)) {calls : List Call}
    (hcalls : ∀ k ∈ calls, k.empties u = false) :
    id ∈ clauseIds ((calls.foldl Tracker.call t).logOf u) := by
  induction calls generalizing t with
  | nil => exact h
  | cons k rest ih =>
    have hk : k.empties u = false := hcalls k List.mem_cons_self
    exact ih (mem_log_call_iff.2 (.inr ⟨hk, h⟩)) fun j hj => hcalls j (List.mem_cons_of_mem k hj)

/-- Without drains only the calls that finish a unit remove its log. -/
theorem empties_eq_finishes (hdrain : ∀ v, k ≠ .drainUnit v) : k.empties u = k.finishes u := by
  cases k with
  | drainUnit v => exact absurd rfl (hdrain v)
  | _ => rfl

theorem finishes_of_not_empties (h : k.empties u = false) : k.finishes u = false := by
  cases k with
  | drainUnit v => rfl
  | _ => exact h

/-- A call keeps every used set at a pending clause, if the clause that it marks is pending. -/
theorem UsedArePending.call (h : UsedArePending t) (hdrain : ∀ v, k ≠ .drainUnit v)
    (hmark : ∀ c s, k = .markUsed c s → ∃ u, c.id ∈ clauseIds (t.logOf u)) :
    UsedArePending (t.call k) := by
  intro id hid
  -- a call that finishes a unit drops the used sets of its log, so the clause is in another one
  have hfinished : ∀ w, k.finishes w = true → (∀ v, v ≠ w → k.empties v = false) →
      ∃ u, id ∈ clauseIds ((t.call k).logOf u) := by
    intro w hk hothers
    rw [Tracker.usedOf_call_of_finishes hk] at hid
    split at hid
    · exact absurd rfl hid
    · rename_i hlog
      obtain ⟨u, hu⟩ := h id hid
      have hne : u ≠ w := by
        rintro rfl
        exact hlog hu
      exact ⟨u, mem_log_call_iff.2 (.inr ⟨hothers u hne, hu⟩)⟩
  cases k with
  | markUsed c s =>
    rw [Tracker.call, Tracker.usedOf_markUsed] at hid
    by_cases hc : c.id = id
    · rw [← hc]
      exact hmark c s rfl
    · rw [if_neg hc] at hid
      exact h id hid
  | recordEntry v c visible owner =>
    obtain ⟨u, hu⟩ := h id hid
    exact ⟨u, mem_log_call_iff.2 (.inr ⟨rfl, hu⟩)⟩
  | drainUsed c =>
    rw [Tracker.call, Tracker.drainUsed, Tracker.usedOf_dropUsed] at hid
    split at hid
    · exact absurd rfl hid
    · exact h id hid
  | drainUnit v => exact absurd rfl (hdrain v)
  | discardUnit w =>
    exact hfinished w.id (decide_eq_true rfl) fun v hv => decide_eq_false hv.symm
  | resolve c w =>
    exact hfinished w.id (decide_eq_true rfl) fun v hv => decide_eq_false hv.symm

/-- Without drains, and with marks of pending clauses only, every used set belongs to a clause in
the log of a unit. -/
theorem usedArePending_run {calls : List Call} (hdrain : ∀ v, .drainUnit v ∉ calls)
    (hmarks : MarksWhilePending calls) : UsedArePending (Tracker.run calls) := by
  induction calls using List.reverseRecOn with
  | nil => exact fun id hid => absurd rfl hid
  | append_singleton calls k ih =>
    have hdrain' : ∀ v, .drainUnit v ∉ calls := fun v hv =>
      hdrain v (List.mem_append_left [k] hv)
    have hmarks' : MarksWhilePending calls := by
      intro before c s after heq
      exact hmarks before c s (after ++ [k]) (by rw [heq, List.append_assoc, List.cons_append])
    rw [Tracker.run_snoc]
    refine (ih hdrain' hmarks').call ?_ ?_
    · rintro v rfl
      exact hdrain v (List.mem_append_right calls List.mem_cons_self)
    · -- no call since the recording of the marked clause has removed the log it is in
      rintro c s rfl
      obtain ⟨u, early, j, late, rfl, hj, hlate⟩ := hmarks calls c s [] rfl
      refine ⟨u, ?_⟩
      rw [Tracker.run, List.foldl_append, List.foldl_cons]
      refine mem_log_foldl_call (mem_log_call_iff.2 (.inl hj)) fun i hi => ?_
      rw [empties_eq_finishes, hlate i hi]
      rintro v rfl
      exact hdrain' v (List.mem_append_right early (List.mem_cons_of_mem j hi))

/-- An entry in the log of a unit was recorded by a call after which the unit was not finished. -/
theorem exists_record_of_mem_log {calls : List Call}
    (h : id ∈ clauseIds ((Tracker.run calls).logOf u)) :
    ∃ before k after, calls = before ++ k :: after ∧ k.records u id = true ∧
      ∀ j ∈ after, j.finishes u = false := by
  induction calls using List.reverseRecOn with
  | nil => exact absurd h List.not_mem_nil
  | append_singleton calls k ih =>
    rw [Tracker.run_snoc] at h
    -- the last call has recorded the entry, or the entry was in the log before and was not removed
    rcases mem_log_call_iff.1 h with hk | ⟨hk, hlog⟩
    · exact ⟨calls, k, [], rfl, hk, fun j hj => absurd hj List.not_mem_nil⟩
    · obtain ⟨before, j, after, rfl, hj, hafter⟩ := ih hlog
      refine ⟨before, j, after ++ [k], by rw [List.append_assoc, List.cons_append], hj, ?_⟩
      intro i hi
      rcases List.mem_append.1 hi with hi | hi
      · exact hafter i hi
      · rw [List.mem_singleton.1 hi]
        exact finishes_of_not_empties hk

/-- If all units with recorded entries are finished, no unit is pending. -/
theorem pendingUnits_eq_nil {calls : List Call} (h : RecordedAreFinished calls) :
    (Tracker.run calls).pendingUnits = [] := by
  rw [List.eq_nil_iff_forall_not_mem]
  intro u hu
  rw [Tracker.pendingUnits, (Tracker.tight_run calls).logs.mem_keys_iff] at hu
  obtain ⟨e, he⟩ := List.exists_mem_of_ne_nil _ hu
  obtain ⟨before, k, after, heq, hk, hafter⟩ :=
    exists_record_of_mem_log (mem_clauseIds.2 ⟨e, he, rfl⟩)
  obtain ⟨j, hj, hfinish⟩ := h before k after u _ heq hk
  rw [hafter j hj] at hfinish
  cases hfinish

/-- If every used set belongs to a pending unit and no unit is pending, nothing is used. -/
theorem usedCount_eq_zero (h : UsedArePending t) (ht : t.Tight) (hpending : t.pendingUnits = []) :
    t.usedCount = 0 := by
  have hlogs : t.logs.entries = [] := List.map_eq_nil_iff.1 hpending
  have hused : t.used.keys = [] := by
    rw [List.eq_nil_iff_forall_not_mem]
    intro id hid
    obtain ⟨u, hu⟩ := h id (ht.used.mem_keys_iff.1 hid)
    rw [Tracker.logOf, Keyed.get?, hlogs] at hu
    exact absurd hu List.not_mem_nil
  rw [Tracker.usedCount, List.map_eq_nil_iff.1 hused, List.map_nil, List.foldl_nil]

/-- After any run:

* no stored used set and no stored log is empty, and a unit is pending if it has entries that were
  recorded since its log was last removed;
* the entries recorded in a unit, the latest first, are those that a drain returns, followed by
  those that the calls before removed from its log, each call all that were there;
* a call that finishes a unit removes its log and the used sets of the clauses in the log, and
  changes nothing else that is stored;
* if there was no drain of a unit, every mark fell between a recording of its clause and the end of
  the unit, and all units with recorded entries are finished, then nothing is left. -/
theorem run_leaks_nothing (calls : List Call) :
    (Tracker.run calls).Tight ∧
      (∀ u, u ∈ (Tracker.run calls).pendingUnits ↔ recordedSince u calls.reverse ≠ []) ∧
      (∀ u, recordedIn u calls.reverse =
        ((Tracker.run calls).drainUnit u).1 ++ (removals u calls.reverse).flatten) ∧
      (∀ k u, k.finishes u = true →
        (Tracker.run calls).Without ((Tracker.run calls).call k) u) ∧
      ((∀ u, .drainUnit u ∉ calls) → MarksWhilePending calls → RecordedAreFinished calls →
        (Tracker.run calls).usedCount = 0 ∧ (Tracker.run calls).pendingUnits = []) := by
  have htight := Tracker.tight_run calls
  refine ⟨htight, fun u => mem_pendingUnits_run u calls, fun u => ?_,
    fun k u hk => htight.without_call hk, ?_⟩
  · rw [run_eq_tracker]
    exact recordedIn_eq u calls.reverse
  · intro hdrain hmarks hfinished
    have hpending := pendingUnits_eq_nil hfinished
    exact ⟨usedCount_eq_zero (usedArePending_run hdrain hmarks) htight hpending, hpending⟩

/-- A run that resolves the sample unit, records it again and discards it. -/
def finishedRun : List Call :=
  [.recordEntry sampleUnit sampleA [sampleA] .null, .markUsed sampleA sampleY,
    .resolve plainChecker sampleUnit, .recordEntry sampleUnit sampleB [sampleB] .null,
    .discardUnit sampleUnit]

/-- Nothing is left after the run, and discarding a unit takes nothing but the unit. -/
theorem finishedRun_leaks_nothing :
    (Tracker.run finishedRun).usedCount = 0 ∧ (Tracker.run finishedRun).pendingUnits = [] ∧
      (Tracker.run sampleRun).Without ((Tracker.run sampleRun).discardUnit sampleUnit.id)
        sampleUnit.id := by
  have hdrain : ∀ u, .drainUnit u ∉ finishedRun := by simp [finishedRun]
  have hmarks : MarksWhilePending finishedRun := by
    intro before c s after heq
    simp [finishedRun, List.cons_eq_append_iff] at heq
    obtain ⟨rfl, ⟨rfl, rfl⟩, -⟩ := heq
    exact ⟨sampleUnit.id, [], _, [], rfl, by decide, fun j hj => absurd hj List.not_mem_nil⟩
  have hfinished : RecordedAreFinished finishedRun := by
    intro before k after u id heq hk
    simp [finishedRun, List.cons_eq_append_iff] at heq
    rcases heq with ⟨-, rfl, rfl⟩ | ⟨_, -, ⟨-, rfl, -⟩ | ⟨_, -, ⟨-, rfl, -⟩ | ⟨_, -, ⟨-, rfl, rfl⟩ |
      ⟨-, rfl, -⟩⟩⟩⟩
    all_goals simp_all [Call.records, Call.finishes]
  obtain ⟨-, -, -, hwithout, -⟩ := run_leaks_nothing sampleRun
  obtain ⟨-, -, -, -, hnothing⟩ := run_leaks_nothing finishedRun
  have hdone := hnothing hdrain hmarks hfinished
  exact ⟨hdone.1, hdone.2, hwithout (.discardUnit sampleUnit) sampleUnit.id (by decide)⟩

end History

end UnusedImports
