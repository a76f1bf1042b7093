import UnusedImports.Proofs.Tracker.Findings
import Mathlib.Logic.Relation

/-!
# Reports as a function of the history

A run is a sequence of calls on one tracker (`Call`, `Tracker.run`). Its history is the same
sequence with the latest call first, and everything that a later report depends on can be read off
the history, with no tracker:

* `recordedSince`: the entries of a unit that were recorded since its log was last emptied;
* `markedSince`: whether a selector was marked since the used set of its clause was last removed;
* `report`: the unused selectors of a unit that follow from these two.

After any run the views of the tracker are `recordedSince` and `markedSince` of its history
(`logOf_tracker`, `mem_usedOf_tracker`), so the findings of a resolution are those of `report`
(`byClauseStart_findings`). Marks may be moved over other marks and over recorded entries, and
repeated, without an effect on any later report (`MarksMoved`, `alike_of_eqvGen`).
-/

set_option autoImplicit false

namespace UnusedImports

/-- A call on a tracker. Several checkers may resolve units of the same tracker. -/
inductive Call where
  | markUsed (c : Clause) (s : Selector)
  | recordEntry (u : CompilationUnit) (c : Clause) (visible : List Clause) (owner : Value)
  | drainUsed (c : Clause)
  | drainUnit (u : CompilationUnit)
  | discardUnit (u : CompilationUnit)
  | resolve (checker : Checker) (u : CompilationUnit)

/-- The call finishes the unit `u`: it resolves or discards it. -/
def Call.finishes (u : UnitId) : Call → Bool
  | .discardUnit v => v.id = u
  | .resolve _ v => v.id = u
  | _ => false

namespace Tracker

/-- The tracker after one more call. -/
def call (t : Tracker) : Call → Tracker
  | .markUsed c s => t.markUsed c s
  | .recordEntry u c visible owner => t.record u.id (entryFor c visible owner)
  | .drainUsed c => (t.drainUsed c).2
  | .drainUnit u => (t.drainUnit u.id).2
  | .discardUnit u => t.discardUnit u.id
  | .resolve checker u => (checker.resolve t u).tracker

/-- The tracker after a run. -/
def run (calls : List Call) : Tracker :=
  calls.foldl call empty

theorem run_snoc (calls : List Call) (k : Call) : run (calls ++ [k]) = (run calls).call k := by
  rw [run, List.foldl_append, List.foldl_cons, List.foldl_nil, run]

variable {t : Tracker} {u : UnitId} {k : Call}

/-- A call that finishes a unit drops its log and no other. -/
theorem logOf_call_of_finishes (hk : k.finishes u = true) (v : UnitId) :
    (t.call k).logOf v = if u = v then [] else t.logOf v := by
  cases k with
  | discardUnit w =>
    obtain rfl : w.id = u := of_decide_eq_true hk
    rw [call, discardUnit_eq, logOf_dropUsedOf, logOf_dropLog]
  | resolve c w =>
    obtain rfl : w.id = u := of_decide_eq_true hk
    rw [call, Checker.logOf_resolve]
  | _ => cases hk

/-- A call that finishes a unit drops the used sets of the clauses in its log and no others. -/
theorem usedOf_call_of_finishes (hk : k.finishes u = true) (id : Int) :
    (t.call k).usedOf id = if id ∈ clauseIds (t.logOf u) then [] else t.usedOf id := by
  cases k with
  | discardUnit w =>
    obtain rfl : w.id = u := of_decide_eq_true hk
    rw [call, discardUnit_eq, usedOf_dropUsedOf, usedOf_dropLog]
  | resolve c w =>
    obtain rfl : w.id = u := of_decide_eq_true hk
    rw [call, Checker.usedOf_resolve]
  | _ => cases hk

end Tracker

namespace History

/-! ## What a history says

All lists of calls in this section have the latest call first. -/

/-- The entries of a unit recorded since its log was last emptied, the latest first. -/
def recordedSince (u : UnitId) : List Call → List Entry
  | [] => []
  | .recordEntry v c visible owner :: past =>
    if v.id = u then Tracker.entryFor c visible owner :: recordedSince u past
    else recordedSince u past
  | .drainUnit v :: past => if v.id = u then [] else recordedSince u past
  | .discardUnit v :: past => if v.id = u then [] else recordedSince u past
  | .resolve _ v :: past => if v.id = u then [] else recordedSince u past
  | .markUsed _ _ :: past => recordedSince u past
  | .drainUsed _ :: past => recordedSince u past

/-- The call removes the used set of the clause `id`. A call that finishes a unit removes the used
sets of all clauses that were in the log of the unit. -/
def removesUsed (id : Int) (past : List Call) : Call → Bool
  | .drainUsed c => c.id = id
  | .discardUnit u => (recordedSince u.id past).any fun e => e.clause.id = id
  | .resolve _ u => (recordedSince u.id past).any fun e => e.clause.id = id
  | _ => false

/-- The call marks the selector `s` of the clause `id`. -/
def marks (id : Int) (s : Selector) : Call → Bool
  | .markUsed c r => c.id = id && r = s
  | _ => false

/-- The selector `s` of the clause `id` was marked since the used set of the clause was last
removed. -/
def markedSince (id : Int) (s : Selector) : List Call → Bool
  | [] => false
  | k :: past => marks id s k || (!removesUsed id past k && markedSince id s past)

/-- The latest entry of every clause recorded in a unit, the latest first. -/
def latestRecorded (u : UnitId) (past : List Call) : List Entry :=
  (recordedSince u past).eraseDupsBy fun e f => e.clause.id = f.clause.id

/-- The selectors of an entry that import something and are not marked. -/
def unmarked (past : List Call) (e : Entry) : List Finding :=
  (e.clause.selectors.filter fun s => !s.isExclusion && !markedSince e.clause.id s past).map
    (Finding.mk · e)

/-- The unused selectors of a unit: the latest entries of the clauses with a span, in the order in
which their spans start, each with its selectors that are not marked. -/
def report (u : UnitId) (past : List Call) : List Finding :=
  (((latestRecorded u past).filter fun e => e.clause.span.isSome).mergeSort
    fun e f => e.clause.place.start ≤ f.clause.place.start).flatMap (unmarked past)

/-! ## The tracker of a history -/

/-- The tracker after the calls of a history. -/
def tracker : List Call → Tracker
  | [] => .empty
  | k :: past => (tracker past).call k

theorem run_eq_tracker (calls : List Call) : Tracker.run calls = tracker calls.reverse := by
  have hfold : ∀ past : List Call,
      tracker past = past.foldr (fun k t => t.call k) Tracker.empty := by
    intro past
    induction past with
    | nil => rfl
    | cons k past ih => rw [tracker, ih, List.foldr_cons]
  rw [hfold, List.foldr_reverse, Tracker.run]

/-- The log of a unit holds what was recorded since it was last emptied. -/
theorem logOf_tracker (past : List Call) (u : UnitId) :
    (tracker past).logOf u = recordedSince u past := by
  induction past with
  | nil => rfl
  | cons k past ih =>
    cases k with
    | markUsed c s => exact ih
    | recordEntry v c visible owner =>
      simp only [tracker, Tracker.call, Tracker.logOf_record, recordedSince, ih]
    | drainUsed c => exact ih
    | drainUnit v =>
      simp only [tracker, Tracker.call, Tracker.drainUnit, Tracker.logOf_dropLog, recordedSince, ih]
    | discardUnit v =>
      simp only [tracker, Tracker.call, Tracker.discardUnit_eq, Tracker.logOf_dropUsedOf,
        Tracker.logOf_dropLog, recordedSince, ih]
    | resolve checker v =>
      simp only [tracker, Tracker.call, Checker.logOf_resolve, recordedSince, ih]

/-- The used set of a clause holds what was marked since it was last removed. -/
theorem mem_usedOf_tracker (past : List Call) (id : Int) (s : Selector) :
    s ∈ (tracker past).usedOf id ↔ markedSince id s past = true := by
  induction past with
  | nil => simp [tracker, markedSince]
  | cons k past ih =>
    have hids : ∀ v, id ∈ clauseIds ((tracker past).logOf v) ↔
        ((recordedSince v past).any fun e => e.clause.id = id) = true := by
      intro v
      rw [logOf_tracker, mem_clauseIds]
      simp
    -- a mark of the clause adds to its set, the calls that finish a unit drop the sets of its log
    cases k with
    | markUsed c r =>
      by_cases hid : c.id = id
      · simp [tracker, Tracker.call, markedSince, marks, removesUsed, hid, ih, @eq_comm _ s r]
      · simp [tracker, Tracker.call, markedSince, marks, removesUsed, hid, ih]
    | recordEntry v c visible owner =>
      simp [tracker, Tracker.call, markedSince, marks, removesUsed, ih]
    | drainUsed c =>
      by_cases hid : c.id = id <;>
        simp [tracker, Tracker.call, Tracker.drainUsed, markedSince, marks, removesUsed, hid, ih]
    | drainUnit v =>
      simp [tracker, Tracker.call, Tracker.drainUnit, markedSince, marks, removesUsed, ih]
    | discardUnit v =>
      simp only [tracker, Tracker.call, Tracker.discardUnit_eq, Tracker.usedOf_dropUsedOf,
        Tracker.usedOf_dropLog, markedSince, marks, removesUsed, hids]
      split <;> simp_all
    | resolve checker v =>
      simp only [tracker, Tracker.call, Checker.usedOf_resolve, markedSince, marks, removesUsed,
        hids]
      split <;> simp_all

/-! ## Reports after a run -/

/-- Whether an entry is among the latest depends on its clause only. -/
theorem latestEntries_filter (es : List Entry) (id : Int) :
    latestEntries (es.filter fun e => e.clause.id ≠ id) =
      (latestEntries es).filter fun e => e.clause.id ≠ id := by
  induction es with
  | nil => rfl
  | cons e rest ih =>
    by_cases h : e.clause.id = id
    · -- the entry goes, and so do all entries that it would have replaced
      subst h
      rw [List.filter_cons_of_neg (by simp), ih, latestEntries, List.filter_cons_of_neg (by simp),
        List.filter_filter]
      simp
    · rw [List.filter_cons_of_pos (by simpa using h), latestEntries, latestEntries, ih,
        List.filter_cons_of_pos (by simpa using h), List.filter_comm]

/-- Taking the latest entries is erasing those whose clause occurs before. -/
theorem latestEntries_eq_eraseDupsBy (es : List Entry) :
    latestEntries es = es.eraseDupsBy fun e f => e.clause.id = f.clause.id := by
  induction hn : es.length using Nat.strongRecOn generalizing es with
  | ind n ih =>
    cases es with
    | nil => rfl
    | cons e rest =>
      have hrest := ih _ (by
        rw [← hn, List.length_cons]
        exact Nat.lt_succ_of_le (List.length_filter_le (fun f => f.clause.id ≠ e.clause.id) rest))
        (rest.filter fun f => f.clause.id ≠ e.clause.id) rfl
      rw [List.eraseDupsBy_cons, latestEntries, ← latestEntries_filter, hrest]
      simp

/-- The entries that stand after a run are the latest recorded ones that have a span. -/
theorem standing_tracker (past : List Call) (u : UnitId) :
    (tracker past).standing u =
      (latestRecorded u past).filter fun e => e.clause.span.isSome := by
  rw [Tracker.standing, logOf_tracker, latestEntries_eq_eraseDupsBy, placedEntries, latestRecorded]

/-- The findings after a run, sorted, are the report of its history. -/
theorem byClauseStart_findings (past : List Call) (u : UnitId) :
    byClauseStart ((tracker past).findings u) = report u past := by
  have hunused : ∀ e, unusedOf ((tracker past).usedOf e.clause.id) e = unmarked past e := by
    intro e
    have hcontains : ∀ s, ((tracker past).usedOf e.clause.id).contains s =
        markedSince e.clause.id s past := by
      intro s
      rw [Bool.eq_iff_iff, List.contains_iff_mem, mem_usedOf_tracker]
    simp only [unusedOf, unmarked, hcontains]
  rw [byClauseStart, Tracker.findings, report, standing_tracker]
  simp only [hunused]
  -- the findings of an entry all have the key of the entry, so the entries can be sorted instead
  refine Sorting.mergeSort_flatMap (fun e => e.clause.place.start)
    (fun f => f.entry.clause.place.start) (unmarked past) _ ?_
  intro e _ f hf
  obtain ⟨s, -, rfl⟩ := List.mem_map.1 hf
  rfl

/-! ## The order of marks -/

/-- One run becomes another by moving a mark over a mark or an entry, or by repeating a mark. -/
inductive MarksMoved : List Call → List Call → Prop
  | overMark (before after : List Call) (c d : Clause) (s r : Selector) :
      MarksMoved (before ++ .markUsed c s :: .markUsed d r :: after)
        (before ++ .markUsed d r :: .markUsed c s :: after)
  | overEntry (before after : List Call) (c d : Clause) (s : Selector) (u : CompilationUnit)
      (visible : List Clause) (owner : Value) :
      MarksMoved (before ++ .markUsed c s :: .recordEntry u d visible owner :: after)
        (before ++ .recordEntry u d visible owner :: .markUsed c s :: after)
  | repeated (before after : List Call) (c : Clause) (s : Selector) :
      MarksMoved (before ++ .markUsed c s :: after)
        (before ++ .markUsed c s :: .markUsed c s :: after)

/-- Two trackers look the same: their logs agree and their used sets have the same members. -/
structure Alike (t t' : Tracker) : Prop where
  logOf_eq : ∀ u, t.logOf u = t'.logOf u
  mem_usedOf_iff : ∀ id s, s ∈ t.usedOf id ↔ s ∈ t'.usedOf id

theorem Alike.refl (t : Tracker) : Alike t t :=
  ⟨fun _ => rfl, fun _ _ => Iff.rfl⟩

/-- Trackers that look the same look the same after one more call. -/
theorem Alike.call {t t' : Tracker} (h : Alike t t') (k : Call) : Alike (t.call k) (t'.call k) := by
  constructor
  · intro u
    cases k <;>
      simp [Tracker.call, Tracker.drainUsed, Tracker.drainUnit, Tracker.discardUnit_eq,
        Checker.logOf_resolve, h.logOf_eq]
  · intro id s
    cases k with
    | markUsed c r =>
      simp only [Tracker.call, Tracker.usedOf_markUsed]
      split <;> simp [h.mem_usedOf_iff]
    | recordEntry u c visible owner => simpa [Tracker.call] using h.mem_usedOf_iff id s
    | drainUsed c =>
      simp only [Tracker.call, Tracker.drainUsed, Tracker.usedOf_dropUsed]
      split <;> simp [h.mem_usedOf_iff]
    | drainUnit u => simpa [Tracker.call, Tracker.drainUnit] using h.mem_usedOf_iff id s
    | discardUnit u =>
      simp only [Tracker.call, Tracker.discardUnit_eq, Tracker.usedOf_dropUsedOf,
        Tracker.usedOf_dropLog, h.logOf_eq]
      split <;> simp [h.mem_usedOf_iff]
    | resolve checker u =>
      simp only [Tracker.call, Checker.usedOf_resolve, h.logOf_eq]
      split <;> simp [h.mem_usedOf_iff]

theorem Alike.foldl_call {t t' : Tracker} (h : Alike t t') (calls : List Call) :
    Alike (calls.foldl Tracker.call t) (calls.foldl Tracker.call t') := by
  induction calls generalizing t t' with
  | nil => exact h
  | cons k rest ih => exact ih (h.call k)

/-- Trackers that look the same have the same findings. -/
theorem Alike.findings_eq {t t' : Tracker} (h : Alike t t') (u : UnitId) :
    t.findings u = t'.findings u := by
  simp only [Tracker.findings, Tracker.standing, h.logOf_eq]
  exact List.flatMap_congr fun e _ => unusedOf_congr (h.mem_usedOf_iff e.clause.id) e

/-- Trackers that look the same give the same report, with or without fixes. -/
theorem Alike.proposals_eq {t t' : Tracker} (h : Alike t t') (c : Checker) {u : CompilationUnit}
    (hforeign : u.isForeign = false) :
    (c.resolve t u).proposals = (c.resolve t' u).proposals := by
  rw [(c.resolve_eq t hforeign).1, (c.resolve_eq t' hforeign).1, h.findings_eq, Tracker.standing,
    h.logOf_eq, Tracker.standing]

/-- Moving or repeating a mark leaves a tracker that looks the same. -/
theorem MarksMoved.alike {calls calls' : List Call} (h : MarksMoved calls calls') :
    Alike (Tracker.run calls) (Tracker.run calls') := by
  cases h with
  | overMark before after c d s r =>
    simp only [Tracker.run, List.foldl_append, List.foldl_cons]
    apply Alike.foldl_call
    constructor
    · intro u
      rfl
    · intro id q
      by_cases hc : c.id = id <;> by_cases hd : d.id = id <;>
        simp [Tracker.call, hc, hd, or_left_comm]
  | overEntry before after c d s u visible owner =>
    simp only [Tracker.run, List.foldl_append, List.foldl_cons]
    apply Alike.foldl_call
    constructor
    · intro v
      simp [Tracker.call]
    · intro id q
      simp [Tracker.call]
  | repeated before after c s =>
    simp only [Tracker.run, List.foldl_append, List.foldl_cons]
    apply Alike.foldl_call
    constructor
    · intro u
      rfl
    · intro id q
      by_cases hc : c.id = id <;> simp [Tracker.call, hc]

theorem alike_of_eqvGen {calls calls' : List Call} (h : Relation.EqvGen MarksMoved calls calls') :
    Alike (Tracker.run calls) (Tracker.run calls') := by
  induction h with
  | rel _ _ h => exact h.alike
  | refl _ => exact Alike.refl _
  | symm _ _ _ ih =>
    exact ⟨fun u => (ih.logOf_eq u).symm, fun id s => (ih.mem_usedOf_iff id s).symm⟩
  | trans _ _ _ _ _ ih₁ ih₂ =>
    exact ⟨fun u => (ih₁.logOf_eq u).trans (ih₂.logOf_eq u),
      fun id s => (ih₁.mem_usedOf_iff id s).trans (ih₂.mem_usedOf_iff id s)⟩

end History

end UnusedImports
