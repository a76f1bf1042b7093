import UnusedImports.Proofs.Fix.Suppression
import UnusedImports.Proofs.Source.Removal

/-!
# Fixes of a source when warnings are suppressed

If the log of a unit records the clauses of a source, the edits that a collector gets behind a
suppressor are those of the statements that get through (`RecordedIn.edits_reported_perm`). As long
as no muted clause is cut off, they are the edits for a usage in which the muted clauses are used,
so the fixes leave well-formed statements with everything that was used or suppressed
(`Checker.fixSource_retains_suppressed`). A clause that is cut off is lost with its statement, or
stays without the comma in front of it (`cutOff_not_retained`).
-/

set_option autoImplicit false

namespace UnusedImports

namespace Grammar

variable {w : WordClass} {id : Nat → Int}

/-- The text is what fixes make of a source if certain selectors are used, those with `stays` among
them. -/
def Source.Retains (stays : Clause → Selector → Prop) (id : Nat → Int) (src : Source w)
    (text : Text) : Prop :=
  ∃ used : Usage, src.Becomes used id text ∧
    ∀ cs ∈ src.clauses id, ∀ c ∈ cs, ∀ s ∈ c.selectors, stays c s → s ∈ used.kept c

/-! ## Names in a statement -/

/-- The names of what is imported stand in its text. -/
theorem Imports.namePos_bounds {n : Nat} {is : Imports w} {s : Selector}
    (hs : s ∈ is.selectors n) : (n : Int) ≤ s.namePos ∧ s.namePos < (n + is.text.length : Nat) := by
  cases is with
  | single name =>
    rw [List.mem_singleton.1 hs, Imports.text]
    have hpos := List.length_pos_iff.2 name.startsSolid.ne_nil
    exact ⟨Int.le_refl _, Int.ofNat_lt.2 (by omega)⟩
  | braces lead items =>
    obtain ⟨m, i, -, hstart, hstop, rfl⟩ := Row.mem_placed hs
    have hpos := List.length_pos_iff.2 i.startsSolid.ne_nil
    simp only [Imports.text, List.length_cons, List.length_append, List.length_nil]
    exact ⟨Int.ofNat_le.2 (by omega), Int.ofNat_lt.2 (by omega)⟩

/-- The names of a clause stand in its target. -/
theorem Target.namePos_bounds {i : Int} {start n : Nat} {e : Target w} {s : Selector}
    (hs : s ∈ (e.clause i start n).selectors) :
    (n : Int) ≤ s.namePos ∧ s.namePos < (n + e.text.length : Nat) := by
  have hbounds := Imports.namePos_bounds (show s ∈ e.imports.selectors _ from hs)
  rw [Target.text, List.length_append, List.length_cons]
  omega

/-- The names of the clauses of a statement stand in order. -/
theorem pairwise_namesBefore_clauses (n : Nat) (s : Statement w) :
    (s.clauses id n).Pairwise Clause.NamesBefore := by
  have hrecords : (s.targets.placed targetGap Target.text (Target.record id) (s.point n)).Pairwise
      Clause.NamesBefore := by
    refine Row.pairwise_placed (fun m e k d hle => ?_) _ _
    intro r hr q hq
    have hr := Target.namePos_bounds hr
    have hq := Target.namePos_bounds hq
    omega
  -- the names of the first clause do not depend on where its span starts
  obtain ⟨hfirst, hrest⟩ := List.pairwise_cons.1 hrecords
  exact List.pairwise_cons.2 ⟨hfirst, hrest⟩

/-! ## What gets through -/

namespace Source.RecordedIn

variable {src : Source w} {c : Checker} {t : Tracker} {u : CompilationUnit} {s : Suppressor}

/-- The edits that a collector gets behind a suppressor are those of the statements that get
through. -/
theorem edits_reported_perm (hlog : src.RecordedIn id (t.logOf u.id))
    (hforeign : u.isForeign = false) (hfix : c.settings.emitFixes.truthy = true)
    (hcategory : c.settings.category.key?.isSome = true)
    (howners : ∀ e ∈ t.logOf u.id, e.owner.key?.isSome = true) (file : Text) (s : Suppressor) :
    (c.resolve t u).failure = none ∧ (c.reported (c.resolve t u) file s).2 = none ∧
      (Diagnostic.edits (c.reported (c.resolve t u) file s).1.collector.diagnostics).Perm
        ((src.clauses id).flatMap (Fix.forwardedEdits u.content t.usage
          (s.mutes c.settings.category (t.standing u.id)))) := by
  have hids := t.nodup_clauseIds_standing u.id
  have hcovers := covers_standing t u.id
  have hnames : ∀ i ∈ statementIds (byClauseStart (t.findings u.id)),
      (clausesOf (t.standing u.id) i).Pairwise Clause.NamesBefore := by
    intro i hi
    obtain ⟨cs, hcs, -, heq⟩ := hlog.record.exists_statement hids hcovers hi
    obtain ⟨m, d, rfl⟩ := exists_statement_of_mem_partsClauses hcs
    rw [heq]
    exact pairwise_namesBefore_clauses m d
  obtain ⟨hfailure, hrefused, hperm⟩ := Checker.edits_reported_perm hforeign hfix
    hlog.nodup_selectors_standing hnames hcategory
    (fun e he => howners e (Tracker.mem_logOf_of_mem_standing he)) file s
  refine ⟨hfailure, hrefused, hperm.trans ?_⟩
  exact hlog.record.flatMap_clausesOf_perm hids hcovers fun i hi =>
    Fix.forwardedEdits_eq_nil (Fix.unused_eq_nil_of_not_mem hcovers hi)

/-- If no muted clause is cut off, the edits that get through are those of the statements when all
clauses that stay are used. -/
theorem forwardedEdits_perm (hlog : src.RecordedIn id (t.logOf u.id)) {used : Usage}
    {muted : Clause → Bool} (hcut : ∀ cs ∈ src.clauses id, ¬ Fix.CutsOff used muted cs) :
    ((src.clauses id).flatMap (Fix.forwardedEdits u.content used muted)).Perm
      ((src.clauses id).flatMap (Fix.statementEdits u.content
        (used.sparing ((src.clauses id).flatMap (Fix.spared used muted))))) := by
  refine List.Perm.flatMap_left _ fun cs hcs => ?_
  have hnodup := hlog.nodup_ids
  have hids : (cs.map Clause.id).Nodup := by
    rw [List.map_flatten, List.nodup_flatten] at hnodup
    exact hnodup.1 _ (List.mem_map_of_mem hcs)
  refine Fix.forwardedEdits_perm hids (hcut cs hcs) (fun d hd => ?_) fun d hd hspared => ?_
  · exact Usage.unused_sparing_eq_nil (List.mem_flatMap.2 ⟨cs, hcs, hd⟩)
  · -- a clause with the same id that stays is the clause itself
    refine Usage.sparing_eq_self fun e he hid => hspared ?_
    obtain ⟨ds, hds, he⟩ := List.mem_flatMap.1 he
    have hmem := Fix.mem_of_mem_spared he
    obtain rfl : ds = cs := eq_of_clauseId_eq hnodup hds hcs hmem hd hid
    rwa [← List.inj_on_of_nodup_map hids hmem hd hid]

end Source.RecordedIn

end Grammar

namespace Checker

open Grammar

/-- The selector does not count as unused, or its warning is dropped. -/
def Protects (c : Checker) (s : Suppressor) (t : Tracker) (u : CompilationUnit) (d : Clause)
    (r : Selector) : Prop :=
  t.usage.isUnused d r = false ∨ s.mutes c.settings.category (t.standing u.id) d = true

/-- If the log of a unit records the clauses of a source and no clause with suppressed warnings is
cut off, the fixes that are reported behind the suppressor can be applied to the text. They leave
well-formed statements which retain every selector that was used or whose warning was suppressed. -/
theorem fixSource_retains_suppressed {w : WordClass} {src : Source w} {id : Nat → Int} {c : Checker}
    {t : Tracker} {u : CompilationUnit} {s : Suppressor} (hforeign : u.isForeign = false)
    (hfix : c.settings.emitFixes.truthy = true) (hcontent : u.content = src.text)
    (hlog : src.RecordedIn id (t.logOf u.id))
    (hcategory : c.settings.category.key?.isSome = true)
    (howners : ∀ e ∈ t.logOf u.id, e.owner.key?.isSome = true)
    (hcut : ∀ cs ∈ src.clauses id,
      ¬ Fix.CutsOff t.usage (s.mutes c.settings.category (t.standing u.id)) cs) (file : Text) :
    (c.resolve t u).failure = none ∧ (c.reported (c.resolve t u) file s).2 = none ∧
      ∃ text, Diagnostic.fixSource u.content
          (c.reported (c.resolve t u) file s).1.collector.diagnostics = .ok text ∧
        src.Retains (c.Protects s t u) id text := by
  obtain ⟨hfailure, hrefused, hperm⟩ :=
    hlog.edits_reported_perm hforeign hfix hcategory howners file s
  refine ⟨hfailure, hrefused, ?_⟩
  -- the edits are those of the source when the clauses that stay are used
  obtain ⟨ps, hproper, hold, hedits, hbecomes⟩ := exists_pieces_source
    (t.usage.sparing ((src.clauses id).flatMap
      (Fix.spared t.usage (s.mutes c.settings.category (t.standing u.id))))) id src
  refine ⟨Piece.new ps, ?_, _, hbecomes, ?_⟩
  · rw [Diagnostic.fixSource, hcontent, ← hold]
    refine Piece.applyAll_cuts hproper ?_
    rw [← hedits, ← hcontent]
    exact hperm.trans (hlog.forwardedEdits_perm hcut)
  · intro cs hcs d hd r hr hstays
    refine List.mem_filter.2 ⟨hr, ?_⟩
    rw [Bool.not_eq_true']
    rcases hstays with hkept | hmuted
    · by_contra hunused
      rw [Usage.isUnused_of_sparing (by simpa using hunused)] at hkept
      cases hkept
    · have hspared : d ∈ (src.clauses id).flatMap
          (Fix.spared t.usage (s.mutes c.settings.category (t.standing u.id))) :=
        List.mem_flatMap.2 ⟨cs, hcs, Fix.mem_spared_of_muted hd hmuted⟩
      simpa using List.filter_eq_nil_iff.1 (Usage.unused_sparing_eq_nil hspared) r hr

end Checker

namespace Grammar

variable {w : WordClass} {id : Nat → Int} {used : Usage}

/-! ## Clauses that are cut off -/

/-- What becomes of a statement is nothing, or it ends with solid text. -/
theorem Statement.Becomes.eq_nil_or_endsSolid {s : Statement w} {cs : List Clause} {text : Text}
    (h : s.Becomes used cs text) :
    used.fate cs = .removed ∧ text = [] ∨ Text.EndsSolid text := by
  cases hfate : used.fate cs with
  | kept =>
    rw [Statement.Becomes, hfate] at h
    exact Or.inr (h ▸ s.endsSolid)
  | mended =>
    rw [Statement.Becomes, hfate] at h
    obtain ⟨d, rfl, -⟩ := h
    exact Or.inr d.endsSolid
  | removed =>
    rw [Statement.Becomes, hfate] at h
    exact Or.inl ⟨rfl, h⟩

/-- What becomes of a source that is one statement is what becomes of the statement. -/
theorem Source.Becomes.of_single {s : Statement w} {text : Text}
    (h : (⟨[], [(s, [])]⟩ : Source w).Becomes used id text) :
    s.Becomes used (s.clauses id 0) text := by
  cases h with
  | part hgap hstatement hrest =>
    cases hrest with
    | last hlast =>
      -- the gaps around the statement are empty, and so is what becomes of them
      obtain ⟨_, -, _, -, hgap⟩ := hgap
      obtain ⟨_, -, _, -, hlast⟩ := hlast
      simp only [List.nil_eq, List.append_eq_nil_iff] at hgap hlast
      rw [hgap.1.2, hlast.1.2, List.nil_append, List.append_nil]
      exact hstatement

/-- The unit of a source that is one statement with three clauses. -/
def tripleUnit : CompilationUnit :=
  { id := .number 0
    path := "Triple".toList
    content := "import a.x, b.y, c.z".toList
    isForeign := false }

def tripleSource : Source asciiWords :=
  ⟨[], [(tripleStatement, [])]⟩

def tripleX : Selector := ⟨['x'], 9, none, false⟩

def tripleZ : Selector := ⟨['z'], 19, none, false⟩

def tripleA : Clause := ⟨0, ['a'], [tripleX], some ⟨0, 7, 10⟩⟩

def tripleB : Clause := ⟨1, ['b'], [⟨['y'], 14, none, false⟩], some ⟨12, 12, 15⟩⟩

def tripleC : Clause := ⟨2, ['c'], [tripleZ], some ⟨17, 17, 20⟩⟩

/-- The ids of the three clauses. -/
def tripleId (n : Nat) : Int :=
  if n = 7 then 0 else if n = 12 then 1 else 2

/-- The clauses of the unit are recorded with the given owners. -/
def tripleCalls (a b c : Value) : List Call :=
  [.recordEntry tripleUnit tripleA [tripleA] a,
    .recordEntry tripleUnit tripleB [tripleB, tripleA] b,
    .recordEntry tripleUnit tripleC [tripleC, tripleB, tripleA] c]

/-- The warnings of the owner `1` are suppressed. -/
def firstOwner : Suppressor := ⟨[.number (.integer 1)], [], 0⟩

theorem tripleSource_clauses : tripleSource.clauses tripleId = [[tripleA, tripleB, tripleC]] := by
  decide

/-- Entries for the three clauses record the source. -/
theorem tripleSource_recordedIn (a b c : Value) :
    tripleSource.RecordedIn tripleId
      [⟨tripleC, tripleA, c⟩, ⟨tripleB, tripleA, b⟩, ⟨tripleA, tripleA, a⟩] := by
  constructor
  · rw [tripleSource_clauses]
    decide
  · intro d k
    rw [tripleSource_clauses]
    simp only [List.mem_cons, List.not_mem_nil, or_false, exists_eq_or_imp, exists_eq_left,
      List.head?_cons, Option.some.injEq]
    constructor
    · rintro (⟨rfl, rfl⟩ | ⟨rfl, rfl⟩ | ⟨rfl, rfl⟩) <;> simp
    · rintro ⟨rfl | rfl | rfl, rfl⟩ <;> simp

/-- Nothing is used, and of the first clause the warning is suppressed. -/
def lostRun : List Call := tripleCalls (.int 1) (.int 2) (.int 2)

/-- The first clause is used, and of the second one the warning is suppressed. -/
def tornRun : List Call := tripleCalls (.int 2) (.int 1) (.int 2) ++ [.markUsed tripleA tripleX]

/-- What the fixes of a run make of the unit, read off the pieces into which they cut it. -/
theorem fixSource_triple {calls : List Call} {a b c : Value}
    (hlog : (Tracker.run calls).logOf tripleUnit.id =
      [⟨tripleC, tripleA, c⟩, ⟨tripleB, tripleA, b⟩, ⟨tripleA, tripleA, a⟩])
    (ha : a.key?.isSome = true) (hb : b.key?.isSome = true) (hc : c.key?.isSome = true)
    {ps : List Piece} (hproper : ∀ p ∈ ps, p.Proper) (hold : Piece.old ps = tripleUnit.content)
    (hedits : Fix.forwardedEdits tripleUnit.content (Tracker.run calls).usage
      (firstOwner.mutes fixingChecker.settings.category
        ((Tracker.run calls).standing tripleUnit.id)) [tripleA, tripleB, tripleC] =
          Piece.cuts 0 ps) :
    Diagnostic.fixSource tripleUnit.content
      (fixingChecker.reported (fixingChecker.resolve (Tracker.run calls) tripleUnit)
        tripleUnit.path firstOwner).1.collector.diagnostics = .ok (Piece.new ps) := by
  have hrecorded := tripleSource_recordedIn a b c
  rw [← hlog] at hrecorded
  have howners : ∀ e ∈ (Tracker.run calls).logOf tripleUnit.id, e.owner.key?.isSome = true := by
    rw [hlog]
    simp [ha, hb, hc]
  obtain ⟨-, -, hperm⟩ := hrecorded.edits_reported_perm (c := fixingChecker) rfl rfl rfl howners
    tripleUnit.path firstOwner
  rw [tripleSource_clauses, List.flatMap_cons, List.flatMap_nil, List.append_nil, hedits] at hperm
  rw [Diagnostic.fixSource, ← hold]
  exact Piece.applyAll_cuts hproper hperm

theorem lostRun_logOf : (Tracker.run lostRun).logOf tripleUnit.id =
    [⟨tripleC, tripleA, .int 2⟩, ⟨tripleB, tripleA, .int 2⟩, ⟨tripleA, tripleA, .int 1⟩] := by
  rfl

theorem tornRun_logOf : (Tracker.run tornRun).logOf tripleUnit.id =
    [⟨tripleC, tripleA, .int 2⟩, ⟨tripleB, tripleA, .int 1⟩, ⟨tripleA, tripleA, .int 2⟩] := by
  rfl

/-- The first run leaves nothing of the text. -/
theorem lostRun_fixSource :
    Diagnostic.fixSource tripleUnit.content
      (fixingChecker.reported (fixingChecker.resolve (Tracker.run lostRun) tripleUnit)
        tripleUnit.path firstOwner).1.collector.diagnostics = .ok [] :=
  @fixSource_triple _ _ _ _ lostRun_logOf rfl rfl rfl [.swap tripleUnit.content []]
    (by simp [Piece.Proper, tripleUnit]) (by decide) (by decide +kernel)

/-- The second run leaves the second clause without a comma in front of it. -/
theorem tornRun_fixSource :
    Diagnostic.fixSource tripleUnit.content
      (fixingChecker.reported (fixingChecker.resolve (Tracker.run tornRun) tripleUnit)
        tripleUnit.path firstOwner).1.collector.diagnostics = .ok "import a.xb.y, ".toList :=
  @fixSource_triple _ _ _ _ tornRun_logOf rfl rfl rfl
    [.keep "import a.x".toList, .swap ", ".toList [], .keep "b.y, ".toList, .swap "c.z".toList []]
    (by simp [Piece.Proper]) (by decide) (by decide +kernel)

/-- The empty text retains no clause. -/
theorem not_retains_nil {stays : Clause → Selector → Prop} (hstays : stays tripleA tripleX) :
    ¬ tripleSource.Retains stays tripleId [] := by
  rintro ⟨used, hbecomes, hretains⟩
  have hmem : tripleA ∈ tripleStatement.clauses tripleId 0 := by decide
  -- only a statement that is removed becomes the empty text, and it keeps no selector
  rcases hbecomes.of_single.eq_nil_or_endsSolid with ⟨hfate, -⟩ | ⟨front, d, heq, -⟩
  · have hkept := hretains _ (by rw [tripleSource_clauses]; exact List.mem_cons_self) tripleA
      (by simp) tripleX (by simp [tripleA]) hstays
    rw [Usage.kept_of_removed hfate tripleA hmem] at hkept
    exact absurd hkept List.not_mem_nil
  · simp at heq

/-- No statement ends with a blank. -/
theorem not_retains_torn (stays : Clause → Selector → Prop) :
    ¬ tripleSource.Retains stays tripleId "import a.xb.y, ".toList := by
  rintro ⟨used, hbecomes, -⟩
  rcases hbecomes.of_single.eq_nil_or_endsSolid with ⟨-, hnil⟩ | ⟨front, d, heq, hsolid⟩
  · exact absurd hnil (by decide)
  · have hlast : (front ++ [d]).getLast? = some ' ' := by
      rw [← heq]
      decide
    rw [List.getLast?_concat] at hlast
    cases hlast
    exact absurd hsolid (by decide)

/-- Two runs record the source. In the first one the clause whose warning is suppressed goes with
the whole statement; in the second one it loses the comma in front of it. -/
theorem cutOff_not_retained :
    tripleSource.text = tripleUnit.content ∧
      (tripleSource.RecordedIn tripleId ((Tracker.run lostRun).logOf tripleUnit.id) ∧
        Diagnostic.fixSource tripleUnit.content
          (fixingChecker.reported (fixingChecker.resolve (Tracker.run lostRun) tripleUnit)
            tripleUnit.path firstOwner).1.collector.diagnostics = .ok [] ∧
        ¬ tripleSource.Retains
          (fixingChecker.Protects firstOwner (Tracker.run lostRun) tripleUnit) tripleId []) ∧
      (tripleSource.RecordedIn tripleId ((Tracker.run tornRun).logOf tripleUnit.id) ∧
        Diagnostic.fixSource tripleUnit.content
          (fixingChecker.reported (fixingChecker.resolve (Tracker.run tornRun) tripleUnit)
            tripleUnit.path firstOwner).1.collector.diagnostics = .ok "import a.xb.y, ".toList ∧
        ¬ tripleSource.Retains
          (fixingChecker.Protects firstOwner (Tracker.run tornRun) tripleUnit) tripleId
          "import a.xb.y, ".toList) := by
  have hprotects : fixingChecker.Protects firstOwner (Tracker.run lostRun) tripleUnit tripleA
      tripleX := Or.inr (by decide +kernel)
  refine ⟨by decide, ⟨?_, lostRun_fixSource, not_retains_nil hprotects⟩, ?_, tornRun_fixSource,
    not_retains_torn _⟩
  · rw [lostRun_logOf]
    exact tripleSource_recordedIn _ _ _
  · rw [tornRun_logOf]
    exact tripleSource_recordedIn _ _ _

/-- The last clause is used, and of the first one the warning is suppressed. -/
def sparedRun : List Call :=
  tripleCalls (.int 1) (.int 2) (.int 2) ++ [.markUsed tripleC tripleZ]

/-- The second clause goes, and the first and the last one are retained. -/
theorem sparedRun_retains :
    tripleSource.text = tripleUnit.content ∧
      ∃ text, Diagnostic.fixSource tripleUnit.content
          (fixingChecker.reported (fixingChecker.resolve (Tracker.run sparedRun) tripleUnit)
            tripleUnit.path firstOwner).1.collector.diagnostics = .ok text ∧
        tripleSource.Retains
          (fixingChecker.Protects firstOwner (Tracker.run sparedRun) tripleUnit) tripleId text := by
  have hlog : (Tracker.run sparedRun).logOf tripleUnit.id =
      [⟨tripleC, tripleA, .int 2⟩, ⟨tripleB, tripleA, .int 2⟩, ⟨tripleA, tripleA, .int 1⟩] := by
    rfl
  have hrecorded : tripleSource.RecordedIn tripleId
      ((Tracker.run sparedRun).logOf tripleUnit.id) := by
    rw [hlog]
    exact tripleSource_recordedIn _ _ _
  have howners : ∀ e ∈ (Tracker.run sparedRun).logOf tripleUnit.id,
      e.owner.key?.isSome = true := by
    rw [hlog]
    simp [Value.key?]
  have hcut : ∀ cs ∈ tripleSource.clauses tripleId, ¬ Fix.CutsOff (Tracker.run sparedRun).usage
      (firstOwner.mutes fixingChecker.settings.category
        ((Tracker.run sparedRun).standing tripleUnit.id)) cs := by
    rw [tripleSource_clauses]
    intro cs hcs
    obtain rfl : cs = [tripleA, tripleB, tripleC] := List.mem_singleton.1 hcs
    rintro ⟨front, d, back, _, heq, -, hdead, -, -⟩
    -- the last clause is used, so nothing is cut off
    have hlast : (d :: back).getLast? = some tripleC := by
      rw [← List.getLast?_append_of_ne_nil front (List.cons_ne_nil d back), ← heq]
      rfl
    exact absurd (hdead tripleC (List.mem_of_getLast? hlast)) (by decide)
  have hcontent : tripleUnit.content = tripleSource.text := by decide
  exact ⟨hcontent.symm, (Checker.fixSource_retains_suppressed (c := fixingChecker) rfl rfl hcontent
    hrecorded rfl howners hcut tripleUnit.path).2.2⟩

end Grammar

end UnusedImports
