import UnusedImports.Proofs.Fix.Collision
import UnusedImports.Proofs.Fix.Order

/-!
# When the fixes of a unit can be applied

If the clauses of a unit are written in its text, all edits of a resolution with fixes lie in the
text. They are apart, and can thus be applied together, exactly if no statement of the unit
collides (`Checker.fixSource_ok_iff`).
-/

set_option autoImplicit false

namespace UnusedImports

open Edit

namespace Fix

variable {t : Text} {used : Usage} {es : List Entry} {fs : List Finding}

/-- The clauses of a statement are written one behind the other. -/
theorem successive_clausesOf (h : Entry.Written t es) (hids : (clauseIds es).Nodup) (id : Int) :
    Successive t (clausesOf es id) := by
  constructor
  · intro c hc
    obtain ⟨e, he, rfl⟩ := List.mem_map.1 hc
    exact h.clauses e (mem_statementEntries.1 he).1
  · rw [clausesOf, List.pairwise_map]
    exact h.toSeparate.pairwise_statementEntries hids id

/-- A statement with edits has a first and a last clause. -/
theorem exists_ends_of_mem_statementEdits {cs : List Clause} {e : Edit}
    (he : e ∈ statementEdits t used cs) :
    ∃ first last, cs.head? = some first ∧ cs.getLast? = some last := by
  cases cs with
  | nil => exact absurd he List.not_mem_nil
  | cons c rest => exact ⟨c, _, rfl, List.getLast?_eq_some_getLast (List.cons_ne_nil c rest)⟩

/-- The edits of every statement lie in the text. -/
theorem within_statementEdits {cs : List Clause} (h : Successive t cs) {e : Edit}
    (he : e ∈ statementEdits t used cs) : e.Within t.length := by
  obtain ⟨first, last, hfirst, hlast⟩ := exists_ends_of_mem_statementEdits he
  have hfirstw := h.written first (List.mem_of_head? hfirst)
  have hlastw := h.written last (List.mem_of_getLast? hlast)
  have hbounds := mem_bounds_statementEdits h hfirst hlast he
  have hnonneg := Text.reachStart_nonneg (t := t) hfirstw.start_nonneg
  have hlength := Text.reachStop_le_length hlastw.stop_le_length
  exact ⟨by omega, hbounds.2.1, by omega⟩

/-- Edits of a statement in front of another one stop before the edits of the other one start. -/
theorem stop_le_start_of_statementEdits {cs ds : List Clause} (hcs : Successive t cs)
    (hds : Successive t ds) (hfollows : ∀ c ∈ cs, ∀ d ∈ ds, c.place.stop ≤ d.place.start)
    {e f : Edit} (he : e ∈ statementEdits t used cs) (hf : f ∈ statementEdits t used ds) :
    e.stop ≤ f.start := by
  obtain ⟨cfirst, clast, hcfirst, hclast⟩ := exists_ends_of_mem_statementEdits he
  obtain ⟨dfirst, dlast, hdfirst, hdlast⟩ := exists_ends_of_mem_statementEdits hf
  have hc := List.mem_of_getLast? hclast
  have hd := List.mem_of_head? hdfirst
  -- all edits of a statement lie between the reaches of its two ends
  have hreach := Text.reachStop_le_reachStart (hcs.written clast hc).solid_last
    (hds.written dfirst hd).solid_start (hfollows clast hc dfirst hd)
  have hebounds := mem_bounds_statementEdits hcs hcfirst hclast he
  have hfbounds := mem_bounds_statementEdits hds hdfirst hdlast hf
  omega

/-- Edits of different statements are apart. -/
theorem apart_of_ne (h : Entry.Written t es) (hids : (clauseIds es).Nodup) {i j : Int}
    (hij : i ≠ j) {e f : Edit} (he : e ∈ statementEdits t used (clausesOf es i))
    (hf : f ∈ statementEdits t used (clausesOf es j)) : Apart e f := by
  have hi := successive_clausesOf h hids i
  have hj := successive_clausesOf h hids j
  rcases h.toSeparate.statements_apart hids hij with hcase | hcase
  · refine Or.inl (stop_le_start_of_statementEdits hi hj ?_ he hf)
    simpa [clausesOf] using hcase
  · refine Or.inr (stop_le_start_of_statementEdits hj hi ?_ hf he)
    intro d hd c hc
    obtain ⟨g, hg, rfl⟩ := List.mem_map.1 hd
    obtain ⟨k, hk, rfl⟩ := List.mem_map.1 hc
    exact hcase k hk g hg

/-- The edits of a unit lie in its text. -/
theorem within_unitEdits (h : Entry.Written t es) (hids : (clauseIds es).Nodup) {e : Edit}
    (he : e ∈ unitEdits t used es fs) : e.Within t.length := by
  obtain ⟨id, -, he⟩ := List.mem_flatMap.1 he
  exact within_statementEdits (successive_clausesOf h hids id) he

/-- A statement without findings does not collide. -/
theorem not_collides_of_not_mem (hcovers : used.Covers es fs) {id : Int}
    (hid : id ∉ statementIds fs) : ¬ Collides t used (clausesOf es id) := by
  rintro ⟨front, kept, next, tail, heq, hcollapses, -, -⟩
  have hunused := unused_eq_nil_of_not_mem hcovers hid kept (by simp [heq])
  rw [collapses, hunused] at hcollapses
  exact Bool.false_ne_true hcollapses

/-- The edits of a unit are apart exactly if no statement collides. -/
theorem pairwise_apart_unitEdits_iff (h : Entry.Written t es) (hids : (clauseIds es).Nodup)
    (hcovers : used.Covers es fs) :
    (unitEdits t used es fs).Pairwise Apart ↔ ∀ id, ¬ Collides t used (clausesOf es id) := by
  have hothers : (statementIds fs).Pairwise fun i j =>
      ∀ e ∈ statementEdits t used (clausesOf es i),
        ∀ f ∈ statementEdits t used (clausesOf es j), Apart e f :=
    (Grouping.nodup_eraseDups _).imp fun hij e he f hf => apart_of_ne h hids hij he hf
  rw [unitEdits, List.pairwise_flatMap, and_iff_left hothers]
  -- only the edits of one statement are left to compare
  constructor
  · intro hpairs id
    by_cases hid : id ∈ statementIds fs
    · intro hcollides
      have hsuccessive := successive_clausesOf h hids id
      exact not_pairwise_apart_of_collides hsuccessive hcollides (hpairs id hid)
    · exact not_collides_of_not_mem hcovers hid
  · intro hsafe id _
    exact (pairwise_apart_statementEdits_iff (successive_clausesOf h hids id)).2 (hsafe id)

end Fix

namespace Checker

/-- The diagnostics that a collector for a file has after it received the warnings of a
resolution. -/
def diagnostics (c : Checker) (r : Resolution) (file : Text) : List Diagnostic :=
  ((⟨Collector.ofFile file, none⟩ : Sink).receiveAll (c.warnings r)).1.collector.diagnostics

/-- Without a suppressor every warning becomes a diagnostic. -/
theorem receiveAll_collector (ws : List Warning) (k : Collector) :
    ((⟨k, none⟩ : Sink).receiveAll ws).1.collector.diagnostics =
      k.diagnostics ++ ws.map fun w => { w with file := k.file } := by
  induction ws generalizing k with
  | nil => simp [Sink.receiveAll]
  | cons w rest ih =>
    rw [Sink.receiveAll, Sink.receive]
    simp only
    rw [ih, Collector.receive]
    simp

theorem diagnostics_eq (c : Checker) (r : Resolution) (file : Text) :
    c.diagnostics r file = (c.warnings r).map fun w => { w with file := .text file } :=
  receiveAll_collector (c.warnings r) (Collector.ofFile file)

/-- The edits of the diagnostics are those of the proposals. -/
theorem edits_diagnostics (c : Checker) (r : Resolution) (file : Text) :
    Diagnostic.edits (c.diagnostics r file) = Proposal.edits r.proposals := by
  rw [diagnostics_eq]
  simp [Diagnostic.edits, Proposal.edits, warnings, warning, List.flatMap_map]

/-- If the clauses of a unit are written in its text, a resolution with fixes succeeds and its edits
lie in the text. They are apart, and can be applied together, exactly if no statement collides. -/
theorem fixSource_ok_iff {c : Checker} {t : Tracker} {u : CompilationUnit}
    (hforeign : u.isForeign = false) (hfix : c.settings.emitFixes.truthy = true)
    (hwritten : Entry.Written u.content (t.standing u.id)) (file : Text) :
    (c.resolve t u).failure = none ∧
      (∀ e ∈ Diagnostic.edits (c.diagnostics (c.resolve t u) file), e.Within u.content.length) ∧
      ((Diagnostic.edits (c.diagnostics (c.resolve t u) file)).Pairwise Apart ↔
        ∀ id, ¬ Fix.Collides u.content t.usage (clausesOf (t.standing u.id) id)) ∧
      ((∃ text, Diagnostic.fixSource u.content (c.diagnostics (c.resolve t u) file) = .ok text) ↔
        ∀ id, ¬ Fix.Collides u.content t.usage (clausesOf (t.standing u.id) id)) := by
  obtain ⟨hfailure, -, hperm⟩ := resolve_with_fixes (t := t) hforeign hfix fun e he =>
    (hwritten.clauses e he).nodup_selectors
  have hids := t.nodup_clauseIds_standing u.id
  have hwithin : ∀ e ∈ Diagnostic.edits (c.diagnostics (c.resolve t u) file),
      e.Within u.content.length := by
    intro e he
    rw [edits_diagnostics, hperm.mem_iff] at he
    exact Fix.within_unitEdits hwritten hids he
  have hapart : (Diagnostic.edits (c.diagnostics (c.resolve t u) file)).Pairwise Apart ↔
      ∀ id, ¬ Fix.Collides u.content t.usage (clausesOf (t.standing u.id) id) := by
    rw [edits_diagnostics, hperm.pairwise_iff Apart.symm]
    exact Fix.pairwise_apart_unitEdits_iff hwritten hids (covers_standing t u.id)
  refine ⟨hfailure, hwithin, hapart, ?_⟩
  rw [Diagnostic.fixSource, applyAll_ok_iff, hapart]
  exact and_iff_right hwithin

end Checker

/-- A unit with a statement of two clauses and one of a single clause. -/
def severalUnit : CompilationUnit :=
  { id := .number 0
    path := "Several".toList
    content := "import a.{x, y}, b.z\nimport c.{u, v, w}\n".toList
    isForeign := false }

def severalX : Selector := ⟨['x'], 10, none, false⟩

def severalY : Selector := ⟨['y'], 13, none, false⟩

def severalZ : Selector := ⟨['z'], 19, none, false⟩

def severalU : Selector := ⟨['u'], 31, none, false⟩

def severalV : Selector := ⟨['v'], 34, none, false⟩

def severalW : Selector := ⟨['w'], 37, none, false⟩

def severalA : Clause := ⟨0, ['a'], [severalX, severalY], some ⟨0, 7, 15⟩⟩

def severalB : Clause := ⟨1, ['b'], [severalZ], some ⟨17, 17, 20⟩⟩

def severalC : Clause := ⟨2, ['c'], [severalU, severalV, severalW], some ⟨21, 28, 39⟩⟩

/-- A run that leaves `x`, `z` and `w` unused. -/
def severalRun : List Call :=
  [.recordEntry severalUnit severalA [severalA] .null,
    .recordEntry severalUnit severalB [severalB, severalA] .null,
    .recordEntry severalUnit severalC [severalC, severalB, severalA] (.int 1),
    .markUsed severalC severalU, .markUsed severalA severalY, .markUsed severalC severalV]

/-- The first clause is written anew in front of one that goes with its comma, and the last clause
loses a selector with its comma: these five edits can be applied. -/
theorem severalRun_fixSource_ok :
    Entry.Written severalUnit.content ((Tracker.run severalRun).standing severalUnit.id) ∧
      (Diagnostic.edits (fixingChecker.diagnostics
        (fixingChecker.resolve (Tracker.run severalRun) severalUnit) severalUnit.path)).Perm
          [⟨7, 15, "a.y".toList⟩, ⟨15, 17, []⟩, ⟨17, 20, []⟩, ⟨35, 37, []⟩, ⟨37, 38, []⟩] ∧
      ∃ text, Diagnostic.fixSource severalUnit.content
        (fixingChecker.diagnostics (fixingChecker.resolve (Tracker.run severalRun) severalUnit)
          severalUnit.path) = .ok text := by
  have hstanding : (Tracker.run severalRun).standing severalUnit.id =
      [⟨severalC, severalC, .int 1⟩, ⟨severalB, severalA, .null⟩, ⟨severalA, severalA, .null⟩] := by
    rfl
  have hwritten : Entry.Written severalUnit.content
      ((Tracker.run severalRun).standing severalUnit.id) := by
    rw [hstanding]
    refine ⟨⟨?_, ?_, ?_⟩, ?_⟩
    · simp [severalA, severalB, severalC, Clause.place]
    · simp [severalA, severalB, severalC, Clause.place]
    · simp [severalA, severalB, severalC, Clause.place]
    · simp only [List.forall_mem_cons]
      refine ⟨⟨by decide, by decide, by decide, by decide, by decide, by decide, ?_⟩,
        ⟨by decide, by decide, by decide, by decide, by decide, by decide,
          List.IsChain.singleton _⟩,
        ⟨by decide, by decide, by decide, by decide, by decide, by decide, ?_⟩,
        fun e he => absurd he List.not_mem_nil⟩
      · exact List.isChain_cons_cons.2 ⟨⟨32, by decide, by decide, by decide⟩,
          List.isChain_pair.2 ⟨35, by decide, by decide, by decide⟩⟩
      · exact List.isChain_pair.2 ⟨11, by decide, by decide, by decide⟩
  refine ⟨hwritten, ?_, ?_⟩
  · obtain ⟨-, -, hperm⟩ := Checker.resolve_with_fixes (c := fixingChecker)
      (t := Tracker.run severalRun) (u := severalUnit) rfl rfl fun e he =>
        (hwritten.clauses e he).nodup_selectors
    have hfindings : (Tracker.run severalRun).findings severalUnit.id =
        [⟨severalW, severalC, severalC, .int 1⟩, ⟨severalZ, severalB, severalA, .null⟩,
          ⟨severalX, severalA, severalA, .null⟩] := by
      rfl
    have hsorted : byClauseStart ((Tracker.run severalRun).findings severalUnit.id) =
        [⟨severalX, severalA, severalA, .null⟩, ⟨severalZ, severalB, severalA, .null⟩,
          ⟨severalW, severalC, severalC, .int 1⟩] := by
      rw [hfindings]
      simp [byClauseStart, List.mergeSort, List.MergeSort.Internal.splitInTwo, Clause.place,
        severalA, severalB, severalC]
    have hids : statementIds (byClauseStart ((Tracker.run severalRun).findings severalUnit.id)) =
        [0, 2] := by
      rw [hsorted]
      rfl
    have hfirst : clausesOf ((Tracker.run severalRun).standing severalUnit.id) 0 =
        [severalA, severalB] := by
      rw [hstanding]
      simp [clausesOf, statementEntries, Entry.inOrder, List.mergeSort,
        List.MergeSort.Internal.splitInTwo, Clause.place, severalA, severalB, severalC]
    have hsecond : clausesOf ((Tracker.run severalRun).standing severalUnit.id) 2 =
        [severalC] := by
      rw [hstanding]
      simp [clausesOf, statementEntries, Entry.inOrder, Clause.place, severalA, severalB, severalC]
    rw [Fix.unitEdits, hids, List.flatMap_cons, List.flatMap_singleton, hfirst, hsecond] at hperm
    rw [Checker.edits_diagnostics]
    refine hperm.trans (List.Perm.of_eq ?_)
    decide +kernel
  · refine (Checker.fixSource_ok_iff (c := fixingChecker) (t := Tracker.run severalRun) rfl rfl
      hwritten severalUnit.path).2.2.2.2 ?_
    rintro id ⟨front, kept, next, tail, heq, -, -, hblanks⟩
    -- no clause of the unit has blanks behind it
    have hkept : kept ∈ clausesOf ((Tracker.run severalRun).standing severalUnit.id) id := by
      rw [heq]
      simp
    obtain ⟨e, he, rfl⟩ := List.mem_map.1 hkept
    have hnone : ∀ e ∈ (Tracker.run severalRun).standing severalUnit.id,
        severalUnit.content.blanksEndLine e.clause.place.stop = false := by
      rw [hstanding]
      decide
    rw [hnone e (mem_statementEntries.1 he).1] at hblanks
    cases hblanks

/-- A unit in which the comma stands on the line behind the clause in front of it. -/
def brokenUnit : CompilationUnit :=
  { id := .number 0
    path := "Broken".toList
    content := "import a.{x, y} \n, b.z\n".toList
    isForeign := false }

def brokenX : Selector := ⟨['x'], 10, none, false⟩

def brokenY : Selector := ⟨['y'], 13, none, false⟩

def brokenZ : Selector := ⟨['z'], 21, none, false⟩

def brokenA : Clause := ⟨0, ['a'], [brokenX, brokenY], some ⟨0, 7, 15⟩⟩

def brokenB : Clause := ⟨1, ['b'], [brokenZ], some ⟨19, 19, 22⟩⟩

/-- A run that leaves `x` and `z` unused. -/
def brokenRun : List Call :=
  [.recordEntry brokenUnit brokenA [brokenA] .null,
    .recordEntry brokenUnit brokenB [brokenB, brokenA] .null, .markUsed brokenA brokenY]

/-- The clauses of the broken unit are written in its text, and yet its fixes are refused. -/
theorem brokenRun_refused :
    Entry.Written brokenUnit.content ((Tracker.run brokenRun).standing brokenUnit.id) ∧
      ¬ ∃ text, Diagnostic.fixSource brokenUnit.content
        (fixingChecker.diagnostics (fixingChecker.resolve (Tracker.run brokenRun) brokenUnit)
          brokenUnit.path) = .ok text := by
  have hstanding : (Tracker.run brokenRun).standing brokenUnit.id =
      [⟨brokenB, brokenA, .null⟩, ⟨brokenA, brokenA, .null⟩] := by
    rfl
  have hwritten : Entry.Written brokenUnit.content
      ((Tracker.run brokenRun).standing brokenUnit.id) := by
    rw [hstanding]
    refine ⟨⟨?_, ?_, ?_⟩, ?_⟩
    · simp [brokenA, brokenB, Clause.place]
    · simp [brokenA, brokenB, Clause.place]
    · simp [brokenA, brokenB, Clause.place]
    · intro e he
      simp only [List.mem_cons, List.not_mem_nil, or_false] at he
      rcases he with rfl | rfl
      · exact ⟨by decide, by decide, by decide, by decide, by decide, by decide,
          List.IsChain.singleton _⟩
      · refine ⟨by decide, by decide, by decide, by decide, by decide, by decide, ?_⟩
        exact List.isChain_pair.2 ⟨11, by decide, by decide, by decide⟩
  refine ⟨hwritten, fun hok => ?_⟩
  obtain ⟨-, -, hperm⟩ := Checker.resolve_with_fixes (c := fixingChecker)
    (t := Tracker.run brokenRun) (u := brokenUnit) rfl rfl fun e he =>
      (hwritten.clauses e he).nodup_selectors
  have hapart := (applyAll_ok_iff.1 hok).2
  rw [Checker.edits_diagnostics, hperm.pairwise_iff Apart.symm,
    Fix.pairwise_apart_unitEdits_iff hwritten ((Tracker.run brokenRun).nodup_clauseIds_standing _)
      (covers_standing _ _)] at hapart
  -- the first clause becomes `a.y` and takes the blank, where the deletion of the comma starts
  refine hapart 0 ⟨[], brokenA, brokenB, [], ?_, ?_, ?_, ?_⟩
  · rw [hstanding]
    simp [clausesOf, statementEntries, Entry.inOrder, List.mergeSort,
      List.MergeSort.Internal.splitInTwo, Clause.place, brokenA, brokenB]
  · decide
  · intro c hc
    cases List.mem_singleton.1 hc
    decide
  · decide

end UnusedImports
