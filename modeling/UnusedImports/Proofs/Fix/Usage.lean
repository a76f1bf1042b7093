import UnusedImports.Proofs.Tracker.Findings

/-!
# Used and unused selectors of a clause

A `Usage` says which selectors of every clause were used. It splits the selectors of a clause in
those that go (`Usage.unused`) and those that stay (`Usage.kept`); a clause is dead if it has
selectors and none stays (`Usage.isDead`). `Usage.Covers` says of a list of findings that it has,
clause by clause, the unused selectors of the given entries.
-/

set_option autoImplicit false

namespace UnusedImports

theorem eraseDups_of_nodup {α : Type} [BEq α] [LawfulBEq α] {l : List α} (h : l.Nodup) :
    l.eraseDups = l := by
  induction l with
  | nil => rfl
  | cons a rest ih =>
    rw [List.nodup_cons] at h
    have hfilter : (rest.filter fun b => !b == a) = rest := by
      rw [List.filter_eq_self]
      intro b hb
      have hne : b ≠ a := fun heq => h.1 (heq ▸ hb)
      simpa using hne
    rw [List.eraseDups_cons, hfilter, ih h.2]

/-- Findings in the order of their names are the same findings. -/
theorem Finding.inOrder_perm (fs : List Finding) : (Finding.inOrder fs).Perm fs :=
  List.mergeSort_perm fs _

theorem Finding.inOrder_ne_nil {fs : List Finding} (h : fs ≠ []) : Finding.inOrder fs ≠ [] := by
  intro hnil
  have hperm := Finding.inOrder_perm fs
  rw [hnil] at hperm
  exact h hperm.nil_eq.symm

/-- The used selectors of every clause. -/
abbrev Usage := Int → List Selector

/-- The usage that a tracker has recorded. -/
def Tracker.usage (t : Tracker) : Usage := t.usedOf

namespace Usage

variable (used : Usage)

/-- The selector imports something and was not used. -/
def isUnused (c : Clause) (s : Selector) : Bool :=
  !s.isExclusion && !(used c.id).contains s

/-- The selectors of a clause that go. -/
def unused (c : Clause) : List Selector :=
  c.selectors.filter (used.isUnused c)

/-- The selectors of a clause that stay. -/
def kept (c : Clause) : List Selector :=
  c.selectors.filter fun s => !used.isUnused c s

/-- The clause has selectors, and all of them go. -/
def isDead (c : Clause) : Bool :=
  !c.selectors.isEmpty && c.selectors.all (used.isUnused c)

/-- The findings of one entry. -/
def findings (e : Entry) : List Finding :=
  unusedOf (used e.clause.id) e

variable {used}

theorem findings_eq_map (e : Entry) :
    used.findings e = (used.unused e.clause).map (Finding.mk · e) := rfl

theorem mem_findings {e : Entry} {f : Finding} :
    f ∈ used.findings e ↔ f.selector ∈ used.unused e.clause ∧ f.entry = e := by
  rw [findings_eq_map, List.mem_map]
  constructor
  · rintro ⟨s, hs, rfl⟩
    exact ⟨hs, rfl⟩
  · rintro ⟨hs, rfl⟩
    exact ⟨f.selector, hs, rfl⟩

theorem map_selector_findings (e : Entry) :
    (used.findings e).map Finding.selector = used.unused e.clause := by
  rw [findings_eq_map, List.map_map]
  exact List.map_id _

theorem findings_eq_nil_iff {e : Entry} : used.findings e = [] ↔ used.unused e.clause = [] := by
  rw [findings_eq_map, List.map_eq_nil_iff]

/-- The selectors found in a clause, when the clause lists no selector twice. -/
theorem selectors_findings {e : Entry} (h : e.clause.selectors.Nodup) :
    Finding.selectors (used.findings e) = used.unused e.clause := by
  rw [Finding.selectors, map_selector_findings]
  exact eraseDups_of_nodup (h.filter _)

/-- A selector of the clause goes if and only if it is among the unused ones. -/
theorem contains_unused {c : Clause} {s : Selector} (hs : s ∈ c.selectors) :
    (used.unused c).contains s = used.isUnused c s := by
  rw [Bool.eq_iff_iff, List.contains_iff_mem, unused, List.mem_filter]
  simp [hs]

/-- What is left after dropping the unused selectors is kept. -/
theorem filter_not_contains_unused (c : Clause) :
    (c.selectors.filter fun s => !(used.unused c).contains s) = used.kept c := by
  refine List.filter_congr fun s hs => ?_
  rw [contains_unused hs]

theorem length_kept_add_length_unused (c : Clause) :
    (used.unused c).length + (used.kept c).length = c.selectors.length := by
  have h := List.length_eq_length_filter_add (l := c.selectors) (used.isUnused c)
  simpa [unused, kept] using h.symm

/-- A clause of which nothing stays has only unused selectors. -/
theorem isDead_iff {c : Clause} :
    used.isDead c = true ↔ used.unused c ≠ [] ∧ used.kept c = [] := by
  rw [isDead, unused, kept]
  cases h : c.selectors with
  | nil => simp
  | cons s rest =>
    simp only [List.isEmpty_cons, Bool.not_false, Bool.true_and, List.all_eq_true,
      List.filter_eq_nil_iff, Bool.not_eq_true', Bool.not_eq_false]
    constructor
    · intro hall
      refine ⟨?_, hall⟩
      rw [List.filter_cons, hall s List.mem_cons_self]
      simp
    · exact fun hall => hall.2

/-- If nothing goes, all selectors stay. -/
theorem kept_eq_self {c : Clause} (h : used.unused c = []) : used.kept c = c.selectors := by
  rw [kept, List.filter_eq_self]
  intro s hs
  simpa using List.filter_eq_nil_iff.1 h s hs

/-- Of a clause that is not dead something stays, if anything goes. -/
theorem kept_ne_nil {c : Clause} (hdead : used.isDead c = false) (hunused : used.unused c ≠ []) :
    used.kept c ≠ [] := by
  intro hkept
  rw [isDead_iff.2 ⟨hunused, hkept⟩] at hdead
  exact Bool.false_ne_true hdead.symm

theorem findings_ne_nil_of_isDead {e : Entry} (h : used.isDead e.clause = true) :
    used.findings e ≠ [] :=
  fun hnil => (isDead_iff.1 h).1 (findings_eq_nil_iff.1 hnil)

/-- A clause of which nothing goes is not dead. -/
theorem isDead_of_unused_eq_nil {c : Clause} (h : used.unused c = []) : used.isDead c = false := by
  cases hdead : used.isDead c with
  | false => rfl
  | true => exact absurd h (isDead_iff.1 hdead).1

/-! ## Usages that agree on a clause -/

section Agreement

variable {used' : Usage} {c : Clause}

theorem isUnused_congr (h : used' c.id = used c.id) : used'.isUnused c = used.isUnused c := by
  funext s
  rw [isUnused, isUnused, h]

theorem unused_congr (h : used' c.id = used c.id) : used'.unused c = used.unused c := by
  rw [unused, unused, isUnused_congr h]

theorem kept_congr (h : used' c.id = used c.id) : used'.kept c = used.kept c := by
  rw [kept, kept, isUnused_congr h]

theorem isDead_congr (h : used' c.id = used c.id) : used'.isDead c = used.isDead c := by
  rw [isDead, isDead, isUnused_congr h]

end Agreement

/-! ## Clauses that count as used -/

section Sparing

variable {cs : List Clause} {c : Clause}

/-- The usage in which all selectors of the clauses `cs` are used as well. -/
def sparing (used : Usage) (cs : List Clause) : Usage :=
  fun id => used id ++ (cs.filter fun c => c.id = id).flatMap Clause.selectors

/-- More is kept if more is used. -/
theorem isUnused_of_sparing {s : Selector} (h : (used.sparing cs).isUnused c s = true) :
    used.isUnused c s = true := by
  rw [isUnused, Bool.and_eq_true, Bool.not_eq_true', Bool.not_eq_true', sparing,
    List.contains_append, Bool.or_eq_false_iff] at h
  rw [isUnused, h.1, h.2.1]
  rfl

theorem unused_sparing_eq_nil (hc : c ∈ cs) : (used.sparing cs).unused c = [] := by
  rw [unused, List.filter_eq_nil_iff]
  intro s hs hunused
  have hmem : s ∈ used.sparing cs c.id :=
    List.mem_append_right _ (List.mem_flatMap.2 ⟨c, List.mem_filter.2 ⟨hc, by simp⟩, hs⟩)
  simp [isUnused, hmem] at hunused

theorem sparing_eq_self {id : Int} (h : ∀ c ∈ cs, c.id ≠ id) : used.sparing cs id = used id := by
  have hnone : (cs.filter fun c => c.id = id) = [] := by
    rw [List.filter_eq_nil_iff]
    intro c hc
    simpa using h c hc
  rw [sparing, hnone, List.flatMap_nil, List.append_nil]

end Sparing

end Usage

/-! ## Findings of a list of entries -/

/-- The findings `fs` are the unused selectors of the entries `es`; those of one clause stand in
the order of its selectors. -/
structure Usage.Covers (used : Usage) (es : List Entry) (fs : List Finding) : Prop where
  ofClause_eq : ∀ e ∈ es, Finding.ofClause fs e.clause.id = used.findings e
  perm : fs.Perm (es.flatMap used.findings)

/-- The findings of one entry cover it. -/
theorem Usage.covers_singleton (used : Usage) (e : Entry) :
    used.Covers [e] (used.findings e) where
  ofClause_eq f hf := by
    rw [List.mem_singleton] at hf
    subst hf
    rw [Finding.ofClause, List.filter_eq_self]
    intro g hg
    rw [(Usage.mem_findings.1 hg).2]
    exact decide_eq_true rfl
  perm := by rw [List.flatMap_singleton]

namespace Tracker

/-- The findings of a unit, entry by entry. -/
theorem findings_eq_flatMap (t : Tracker) (u : UnitId) :
    t.findings u = (t.standing u).flatMap t.usage.findings := rfl

/-- The findings of one clause are those of its standing entry. -/
theorem ofClause_findings {t : Tracker} {u : UnitId} {e : Entry} (he : e ∈ t.standing u) :
    Finding.ofClause (t.findings u) e.clause.id = t.usage.findings e := by
  have hone := filter_clauseId (t.nodup_clauseIds_standing u) he
  rw [findings_eq_flatMap, Finding.ofClause, Sorting.filter_flatMap (q := fun d =>
    d.clause.id = e.clause.id), hone, List.flatMap_cons, List.flatMap_nil, List.append_nil]
  intro d _ f hf
  rw [(Usage.mem_findings.1 hf).2]

end Tracker

end UnusedImports
