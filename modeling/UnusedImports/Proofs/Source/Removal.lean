import UnusedImports.Proofs.Fix.Applicable
import UnusedImports.Proofs.Source.Assembly
import UnusedImports.Proofs.Source.Records

/-!
# Fixes remove exactly the unused selectors

If the log of a unit records the clauses of a source, in any order and any number of times, the
edits of a resolution with fixes are those of its statements (`RecordedIn.record`). So fixes can be
applied to every source, whatever its layout and whichever selectors were used, and they remove the
unused selectors and nothing else (`Checker.fixSource_removes_unused`).
-/

set_option autoImplicit false

namespace UnusedImports

namespace Grammar

variable {w : WordClass} {id : Nat → Int}

/-! ## The clauses of a source -/

/-- The clauses of a source are those of its statements. -/
theorem exists_statement_of_mem_partsClauses {n : Nat} {parts : List (Statement w × Text)}
    {cs : List Clause} (hcs : cs ∈ partsClauses id n parts) :
    ∃ (m : Nat) (s : Statement w), cs = s.clauses id m := by
  induction parts generalizing n with
  | nil => exact absurd hcs List.not_mem_nil
  | cons q rest ih =>
    rcases List.mem_cons.1 hcs with rfl | hcs
    · exact ⟨n, q.1, rfl⟩
    · exact ih hcs

/-- The clauses of a statement start one behind the other. -/
theorem pairwise_start_clauses (n : Nat) (s : Statement w) :
    (s.clauses id n).Pairwise fun c d => c.place.start < d.place.start := by
  have hrecords : (s.targets.placed targetGap Target.text (Target.record id) (s.point n)).Pairwise
      fun c d => c.place.start < d.place.start := by
    refine Row.pairwise_placed (fun m e k d hle => ?_) _ _
    have hpos := List.length_pos_iff.2 e.startsSolid.ne_nil
    exact Int.ofNat_lt.2 (by omega)
  refine List.pairwise_cons.2 ⟨?_, (List.pairwise_cons.1 hrecords).2⟩
  intro c hc
  obtain ⟨m, e, -, hstart, -, rfl⟩ := Row.mem_behind hc
  have hpos := List.length_pos_iff.2 s.targets.first.startsSolid.ne_nil
  rw [Statement.point] at hstart
  exact Int.ofNat_lt.2 (by omega)

/-- No clause of a target lists a selector twice. -/
theorem nodup_selectors (n : Nat) (is : Imports w) : (is.selectors n).Nodup := by
  cases is with
  | single name => exact List.nodup_singleton _
  | braces lead items =>
    refine Row.pairwise_placed (fun m i k j hle heq => ?_) _ _
    have hpos := List.length_pos_iff.2 i.startsSolid.ne_nil
    have hpos' : (m : Int) = k := congrArg Selector.namePos heq
    omega

theorem exists_target_of_mem_source {src : Source w} {cs : List Clause} {c : Clause}
    (hcs : cs ∈ src.clauses id) (hc : c ∈ cs) :
    ∃ (i : Int) (start m : Nat) (e : Target w), c = e.clause i start m := by
  obtain ⟨m, s, rfl⟩ := exists_statement_of_mem_partsClauses hcs
  exact exists_target_of_mem_clauses hc

namespace Source.RecordedIn

variable {src : Source w} {t : Tracker} {u : UnitId}

/-- Of a log that records a source the standing entries record it as well. -/
theorem record (h : src.RecordedIn id (t.logOf u)) :
    Entry.Record (src.clauses id) (t.standing u) where
  ne_nil cs hcs := by
    obtain ⟨m, s, rfl⟩ := exists_statement_of_mem_partsClauses hcs
    exact List.cons_ne_nil _ _
  sorted cs hcs := by
    obtain ⟨m, s, rfl⟩ := exists_statement_of_mem_partsClauses hcs
    exact pairwise_start_clauses m s
  nodup_ids := h.nodup_ids
  mem_iff c k := by
    constructor
    · rintro ⟨e, he, hpair⟩
      exact (h.mem_iff c k).1 ⟨e, Tracker.mem_logOf_of_mem_standing he, hpair⟩
    · rintro ⟨cs, hcs, hc, hk⟩
      obtain ⟨e, he, rfl, rfl⟩ := (h.mem_iff c k).2 ⟨cs, hcs, hc, hk⟩
      -- the latest entry for the clause records the same as this one
      obtain ⟨f, hf, hid⟩ := mem_clauseIds.1 ((mem_clauseIds_latestEntries (t.logOf u) _).2
        (mem_clauseIds.2 ⟨e, he, rfl⟩))
      obtain ⟨ds, hds, hd, hl⟩ := (h.mem_iff f.clause f.keywordClause).1
        ⟨f, mem_of_mem_latestEntries hf, rfl, rfl⟩
      have hsame : ds = cs := eq_of_clauseId_eq h.nodup_ids hds hcs hd hc hid
      subst hsame
      have hclause : f.clause = e.clause := List.inj_on_of_nodup_map h.nodup_ids
        (List.mem_flatten.2 ⟨ds, hds, hd⟩) (List.mem_flatten.2 ⟨ds, hds, hc⟩) hid
      have hkey : f.keywordClause = e.keywordClause := Option.some.inj (hl.symm.trans hk)
      refine ⟨f, List.mem_filter.2 ⟨hf, ?_⟩, hclause, hkey⟩
      obtain ⟨i, start, m, target, heq⟩ := exists_target_of_mem_source hds hd
      rw [heq]
      rfl

/-- No standing clause lists a selector twice. -/
theorem nodup_selectors_standing (h : src.RecordedIn id (t.logOf u)) :
    ∀ e ∈ t.standing u, e.clause.selectors.Nodup := by
  intro e he
  obtain ⟨cs, hcs, hc, -⟩ := (h.record.mem_iff e.clause e.keywordClause).1 ⟨e, he, rfl, rfl⟩
  obtain ⟨i, start, m, target, heq⟩ := exists_target_of_mem_source hcs hc
  rw [heq]
  exact nodup_selectors _ _

end Source.RecordedIn

end Grammar

namespace Checker

open Grammar

/-- If the log of a unit records the clauses of a source, fixes can be applied to its text. They
remove every statement of which nothing is used, keep every statement of which all is used, and
leave of any other one a statement with exactly the imports that stay; between the statements only
blanks and line breaks go. -/
theorem fixSource_removes_unused {w : WordClass} {src : Source w} {id : Nat → Int} {c : Checker}
    {t : Tracker} {u : CompilationUnit} (hforeign : u.isForeign = false)
    (hfix : c.settings.emitFixes.truthy = true) (hcontent : u.content = src.text)
    (hlog : src.RecordedIn id (t.logOf u.id)) (file : Text) :
    (c.resolve t u).failure = none ∧
      ∃ text, Diagnostic.fixSource u.content (c.diagnostics (c.resolve t u) file) = .ok text ∧
        src.Becomes t.usage id text := by
  have hrecord := hlog.record
  have hsel : ∀ e ∈ t.standing u.id, e.clause.selectors.Nodup := by
    intro e he
    obtain ⟨cs, hcs, hc, -⟩ := (hrecord.mem_iff e.clause e.keywordClause).1 ⟨e, he, rfl, rfl⟩
    obtain ⟨i, start, m, target, heq⟩ := exists_target_of_mem_source hcs hc
    rw [heq]
    exact nodup_selectors _ _
  -- the resolution has the edits of the unit, these are the edits of the statements, and those are
  -- the swaps of the pieces into which the source is cut
  obtain ⟨hfailure, -, hperm⟩ := resolve_with_fixes hforeign hfix hsel
  have hunit := hrecord.unitEdits_perm (t := u.content) (t.nodup_clauseIds_standing u.id)
    (covers_standing t u.id)
  obtain ⟨ps, hproper, hold, hedits, hbecomes⟩ := exists_pieces_source t.usage id src
  refine ⟨hfailure, Piece.new ps, ?_, hbecomes⟩
  rw [Diagnostic.fixSource, edits_diagnostics, hcontent, ← hold]
  refine Piece.applyAll_cuts hproper ?_
  rw [← hedits, ← hcontent]
  exact hperm.trans hunit

end Checker

namespace Grammar

/-- Letters, digits and underscores of ASCII. -/
def asciiWords : WordClass where
  contains c := c.isAlphanum || c = '_'
  separate c hc := by
    constructor
    · by_contra hsolid
      rcases Text.cases_of_not_solid hsolid with rfl | rfl | rfl | rfl | rfl | rfl <;>
        exact absurd hc (by decide)
    · by_contra hpunctuation
      simp only [isPunctuation, Bool.not_eq_false, Bool.or_eq_true, decide_eq_true_eq]
        at hpunctuation
      rcases hpunctuation with (((rfl | rfl) | rfl) | rfl) | rfl <;> exact absurd hc (by decide)

/-- The name that consists of a letter. -/
def letterName (c : Char) (hc : isLetter c = true) : Name asciiWords :=
  ⟨[c], c, [], rfl, hc, by simp⟩

/-- A target that imports one letter from another one. -/
def letterTarget (p n : Char) (hp : isLetter p = true) (hn : isLetter n = true) :
    Target asciiWords :=
  ⟨letterName p hp, [], .single (letterName n hn)⟩

/-- The statement with three clauses. -/
def tripleStatement : Statement asciiWords :=
  ⟨⟨[' '], List.forall_mem_singleton.2 rfl⟩, List.cons_ne_nil _ _,
    ⟨letterTarget 'a' 'x' rfl rfl,
      [((⟨[], List.forall_mem_nil _⟩, space), letterTarget 'b' 'y' rfl rfl),
        ((⟨[], List.forall_mem_nil _⟩, space), letterTarget 'c' 'z' rfl rfl)]⟩⟩

/-- The source of the sample unit. -/
def sampleSource : Source asciiWords where
  lead := []
  parts :=
    [(⟨⟨[' '], by simp [isSpace]⟩, List.cons_ne_nil _ _,
        ⟨⟨letterName 'a' rfl, [], .braces noWhite ⟨⟨letterName 'x' rfl, none, noWhite⟩,
          [(space, ⟨letterName 'y' rfl, none, noWhite⟩)]⟩⟩, []⟩⟩, ['\n']),
      (⟨⟨[' '], by simp [isSpace]⟩, List.cons_ne_nil _ _,
        ⟨⟨letterName 'b' rfl, [], .single (letterName 'z' rfl)⟩, []⟩⟩, [])]

/-- The sample run records the sample source, so its fixes leave what becomes of the source. -/
theorem sampleRun_removes_unused :
    sampleSource.text = History.sampleUnit.content ∧
      ∃ text, Diagnostic.fixSource History.sampleUnit.content
        (fixingChecker.diagnostics
          (fixingChecker.resolve (Tracker.run History.sampleRun) History.sampleUnit)
          History.sampleUnit.path) = .ok text ∧
        sampleSource.Becomes (Tracker.run History.sampleRun).usage
          (fun n => if n = 7 then 0 else 1) text := by
  have hclauses : sampleSource.clauses (fun n => if n = 7 then 0 else 1) =
      [[History.sampleA], [History.sampleB]] := by
    decide
  have hlog : (Tracker.run History.sampleRun).logOf History.sampleUnit.id =
      [⟨History.sampleA, History.sampleA, .int 1⟩, ⟨History.sampleA, History.sampleA, .null⟩,
        ⟨History.sampleB, History.sampleB, .null⟩] := by
    rfl
  have hrecorded : sampleSource.RecordedIn (fun n => if n = 7 then 0 else 1)
      ((Tracker.run History.sampleRun).logOf History.sampleUnit.id) := by
    rw [hlog]
    refine ⟨?_, ?_⟩
    · rw [hclauses]
      decide
    · intro c k
      rw [hclauses]
      simp [eq_comm]
  have hcontent : History.sampleUnit.content = sampleSource.text := by
    decide
  exact ⟨hcontent.symm, (Checker.fixSource_removes_unused rfl rfl hcontent hrecorded
    History.sampleUnit.path).2⟩

end Grammar

end UnusedImports
