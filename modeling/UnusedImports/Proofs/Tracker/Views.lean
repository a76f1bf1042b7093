import UnusedImports.Checker
import UnusedImports.Proofs.Grouping

/-!
# What the operations of a tracker change

A tracker is seen through two views: the log of every unit (`Tracker.logOf`) and the used
selectors of every clause (`Tracker.usedOf`). Each operation has one equation for each view, and
nothing else about the stores of a tracker is needed.

Resolving a unit and discarding it change the views alike, whatever is reported
(`usedOf_resolve`, `logOf_resolve`).
-/

set_option autoImplicit false

namespace UnusedImports

/-- The ids of the clauses of the entries. -/
def clauseIds (es : List Entry) : List Int :=
  es.map fun e => e.clause.id

@[simp] theorem clauseIds_nil : clauseIds [] = [] := rfl

@[simp] theorem clauseIds_cons (e : Entry) (es : List Entry) :
    clauseIds (e :: es) = e.clause.id :: clauseIds es := rfl

theorem mem_clauseIds {id : Int} {es : List Entry} :
    id ∈ clauseIds es ↔ ∃ e ∈ es, e.clause.id = id := by
  simp [clauseIds]

/-- If all clauses differ, one entry is for the clause of `e`. -/
theorem filter_clauseId {es : List Entry} (h : (clauseIds es).Nodup) {e : Entry} (he : e ∈ es) :
    (es.filter fun f => f.clause.id = e.clause.id) = [e] :=
  @Grouping.filter_key_eq_singleton Entry (fun f => f.clause.id) es h e he

/-! ## The latest entries -/

/-- The clauses of the latest entries are those of all entries. -/
theorem mem_clauseIds_latestEntries (es : List Entry) (id : Int) :
    id ∈ clauseIds (latestEntries es) ↔ id ∈ clauseIds es := by
  induction es with
  | nil => simp [latestEntries]
  | cons e rest ih =>
    by_cases h : id = e.clause.id
    · simp [latestEntries, h]
    · have hfilter :
          id ∈ clauseIds ((latestEntries rest).filter fun f => f.clause.id ≠ e.clause.id) ↔
            id ∈ clauseIds (latestEntries rest) := by
        simp only [mem_clauseIds, List.mem_filter]
        constructor
        · rintro ⟨f, ⟨hf, -⟩, hid⟩
          exact ⟨f, hf, hid⟩
        · rintro ⟨f, hf, rfl⟩
          exact ⟨f, ⟨hf, by simpa using h⟩, rfl⟩
      rw [latestEntries, clauseIds_cons, clauseIds_cons, List.mem_cons, List.mem_cons, hfilter, ih]

/-- Every clause has one latest entry. -/
theorem nodup_clauseIds_latestEntries (es : List Entry) : (clauseIds (latestEntries es)).Nodup := by
  induction es with
  | nil => simp [latestEntries]
  | cons e rest ih =>
    rw [latestEntries, clauseIds_cons, List.nodup_cons]
    constructor
    · simp [mem_clauseIds]
    · exact ih.sublist (List.filter_sublist.map _)

/-- The latest entries are entries. -/
theorem mem_of_mem_latestEntries {es : List Entry} {e : Entry} (h : e ∈ latestEntries es) :
    e ∈ es := by
  induction es with
  | nil => exact absurd h (List.not_mem_nil)
  | cons f rest ih =>
    rcases List.mem_cons.1 h with rfl | h
    · exact List.mem_cons_self
    · exact List.mem_cons_of_mem f (ih (List.mem_filter.1 h).1)

namespace Tracker

/-! ## The views after each operation -/

@[simp] theorem usedOf_empty (id : Int) : empty.usedOf id = [] := rfl

@[simp] theorem logOf_empty (u : UnitId) : empty.logOf u = [] := rfl

@[simp] theorem usedOf_markUsed (t : Tracker) (c : Clause) (s : Selector) (id : Int) :
    (t.markUsed c s).usedOf id = if c.id = id then (t.usedOf id).insert s else t.usedOf id := by
  unfold markUsed usedOf
  by_cases h : c.id = id <;> simp [Keyed.get?_put, h]

@[simp] theorem logOf_markUsed (t : Tracker) (c : Clause) (s : Selector) (u : UnitId) :
    (t.markUsed c s).logOf u = t.logOf u := rfl

@[simp] theorem usedOf_dropUsed (t : Tracker) (c : Clause) (id : Int) :
    (t.dropUsed c).usedOf id = if c.id = id then [] else t.usedOf id := by
  unfold dropUsed usedOf
  by_cases h : c.id = id <;> simp [Keyed.get?_erase, h]

@[simp] theorem logOf_dropUsed (t : Tracker) (c : Clause) (u : UnitId) :
    (t.dropUsed c).logOf u = t.logOf u := rfl

@[simp] theorem usedOf_record (t : Tracker) (u : UnitId) (e : Entry) (id : Int) :
    (t.record u e).usedOf id = t.usedOf id := rfl

@[simp] theorem logOf_record (t : Tracker) (u v : UnitId) (e : Entry) :
    (t.record u e).logOf v = if u = v then e :: t.logOf v else t.logOf v := by
  unfold record logOf
  by_cases h : u = v <;> simp [Keyed.get?_put, h]

@[simp] theorem usedOf_dropLog (t : Tracker) (u : UnitId) (id : Int) :
    (t.dropLog u).usedOf id = t.usedOf id := rfl

@[simp] theorem logOf_dropLog (t : Tracker) (u v : UnitId) :
    (t.dropLog u).logOf v = if u = v then [] else t.logOf v := by
  unfold dropLog logOf
  by_cases h : u = v <;> simp [Keyed.get?_erase, h]

@[simp] theorem logOf_dropUsedOf (t : Tracker) (es : List Entry) (u : UnitId) :
    (t.dropUsedOf es).logOf u = t.logOf u := by
  induction es generalizing t with
  | nil => rfl
  | cons e rest ih => exact (ih (t.dropUsed e.clause)).trans (logOf_dropUsed t e.clause u)

@[simp] theorem usedOf_dropUsedOf (t : Tracker) (es : List Entry) (id : Int) :
    (t.dropUsedOf es).usedOf id = if id ∈ clauseIds es then [] else t.usedOf id := by
  induction es generalizing t with
  | nil => rfl
  | cons e rest ih =>
    have hstep : (t.dropUsedOf (e :: rest)).usedOf id =
        ((t.dropUsed e.clause).dropUsedOf rest).usedOf id := rfl
    rw [hstep, ih, usedOf_dropUsed, clauseIds_cons]
    by_cases h : e.clause.id = id
    · simp [h]
    · simp [h, Ne.symm h]

/-- Discarding a unit is dropping its log and the used selectors of the clauses in it. -/
theorem discardUnit_eq (t : Tracker) (u : UnitId) :
    t.discardUnit u = (t.dropLog u).dropUsedOf (t.logOf u) := rfl

end Tracker

namespace Checker

/-- Resolving a unit drops the used selectors of exactly the clauses in its log. -/
theorem usedOf_resolve (c : Checker) (t : Tracker) (u : CompilationUnit) (id : Int) :
    (c.resolve t u).tracker.usedOf id =
      if id ∈ clauseIds (t.logOf u.id) then [] else t.usedOf id := by
  unfold resolve
  split
  · simp [Tracker.discardUnit_eq]
  · simp only [Tracker.drainUnit, Tracker.usedOf_dropUsedOf, Tracker.usedOf_dropLog]
    have hsplit : id ∈ clauseIds (t.logOf u.id) ↔
        id ∈ clauseIds (placedEntries (latestEntries (t.logOf u.id))) ∨
          id ∈ clauseIds ((latestEntries (t.logOf u.id)).filter fun e => e.clause.span.isNone) := by
      rw [← mem_clauseIds_latestEntries]
      simp only [mem_clauseIds, placedEntries, List.mem_filter]
      constructor
      · rintro ⟨e, he, hid⟩
        cases hspan : e.clause.span with
        | none => exact Or.inr ⟨e, ⟨he, by simp [hspan]⟩, hid⟩
        | some s => exact Or.inl ⟨e, ⟨he, by simp [hspan]⟩, hid⟩
      · rintro (⟨e, ⟨he, -⟩, hid⟩ | ⟨e, ⟨he, -⟩, hid⟩) <;> exact ⟨e, he, hid⟩
    by_cases hplaced : id ∈ clauseIds (placedEntries (latestEntries (t.logOf u.id)))
    · simp [hplaced, hsplit]
    · simp [hplaced, hsplit]

/-- Resolving a unit drops its log and no other. -/
theorem logOf_resolve (c : Checker) (t : Tracker) (u : CompilationUnit) (v : UnitId) :
    (c.resolve t u).tracker.logOf v = if u.id = v then [] else t.logOf v := by
  unfold resolve
  split
  · simp [Tracker.discardUnit_eq]
  · simp [Tracker.drainUnit]

end Checker

end UnusedImports
