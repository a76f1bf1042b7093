import UnusedImports.Proofs.Protocol.Diagnostics
import UnusedImports.Proofs.Fix.Applicable

/-!
# No fix has a negative offset

A clause is placed in a text if none of its offsets is negative, it does not stop where the text
starts, and a comma stands behind the name of each of its selectors but the last
(`Clause.Placed`). Fixes for such clauses have no negative offset, however the clauses lie to each
other and whichever selectors are unused (`Fix.places_statement`). So a diagnostic about such
clauses has no negative offset either (`Checker.placed_of_mem_diagnostics`); without fixes it is
enough that the names have none.

Without such a comma the edit that cuts the last selectors of a clause starts in front of the text
(`Fix.not_actionsPlaced_of_find?_eq_none`).
-/

set_option autoImplicit false

namespace UnusedImports

/-- The offsets of the clause are places of the text, and its names are followed by commas. -/
structure Clause.Placed (t : Text) (c : Clause) : Prop where
  start_nonneg : 0 ≤ c.place.start
  point_nonneg : 0 ≤ c.place.point
  stop_pos : 0 < c.place.stop
  names_nonneg : ∀ s ∈ c.selectors, 0 ≤ s.namePos
  commas : ∀ s ∈ c.selectors.dropLast, (t.find? ',' s.namePos).isSome = true

theorem Clause.Placed.stop_nonneg {t : Text} {c : Clause} (h : c.Placed t) : 0 ≤ c.place.stop :=
  Int.le_of_lt h.stop_pos

theorem Span.extent_nonneg {ss : List Span} {lo hi : Int}
    (h : ∀ s ∈ ss, 0 ≤ s.start ∧ 0 ≤ s.stop) (hextent : Span.extent ss = some (lo, hi)) :
    0 ≤ lo ∧ 0 ≤ hi := by
  cases ss with
  | nil => cases hextent
  | cons s rest =>
    cases hextent
    rw [List.forall_mem_cons] at h
    constructor
    · refine List.foldlRecOn rest _ h.1.1 ?_
      intro lo hlo r hr
      have := (h.2 r hr).1
      omega
    · refine List.foldlRecOn rest _ h.1.2 ?_
      intro hi hhi r hr
      have := (h.2 r hr).2
      omega

namespace Fix

variable {t : Text} {c : Clause} {clauses : List Clause} {fs gs : List Finding}

/-! ## Single actions -/

theorem repairStart_nonneg {start stop : Int} {replacement : Text} (h : 0 ≤ start) :
    0 ≤ t.repairStart start stop replacement := by
  have hblank : -1 ≤ t.lastNonBlank start := by
    rw [Text.lastNonBlank, if_neg (by omega)]
    omega
  rw [Text.repairStart]
  split <;> omega

theorem repairStop_nonneg {start stop : Int} {replacement : Text} (h : 0 ≤ stop) :
    0 ≤ t.repairStop start stop replacement := by
  rw [Text.repairStop]
  split
  · exact h
  · split
    · omega
    · split <;> omega

theorem placed_replace {start stop : Int} {replacement : Text} (hstart : 0 ≤ start)
    (hstop : 0 ≤ stop) : (replace t start stop replacement).edit.Placed :=
  ⟨repairStart_nonneg hstart, repairStop_nonneg hstop⟩

theorem placed_delete {start stop : Int} (hstart : 0 ≤ start) (hstop : 0 ≤ stop) :
    (delete t start stop).edit.Placed :=
  placed_replace hstart hstop

theorem cutStart_nonneg {place : Nat} (h : c.Placed t) : 0 ≤ cutStart place c := by
  rw [cutStart]
  split
  · exact h.point_nonneg
  · exact h.start_nonneg

/-- No action that is found has a negative offset. -/
def ActionsPlaced (found : Except Failure (List CodeAction)) : Prop :=
  ∀ actions, found = .ok actions → ∀ a ∈ actions, a.edit.Placed

theorem actionsPlaced_error (e : Failure) : ActionsPlaced (.error e) := by
  intro actions h
  cases h

theorem actionsPlaced_singleton {a : CodeAction} (h : a.edit.Placed) :
    ActionsPlaced (.ok [a]) := by
  intro actions hactions
  cases hactions
  simpa using h

theorem actionsPlaced_pair {a b : CodeAction} (ha : a.edit.Placed) (hb : b.edit.Placed) :
    ActionsPlaced (.ok [a, b]) := by
  intro actions hactions
  cases hactions
  simpa using ⟨ha, hb⟩

theorem actionsPlaced_tailActions {dead : List Int} {start : Int}
    (hclauses : ∀ d ∈ clauses, d.Placed t) (hc : c.Placed t) (hstart : 0 ≤ start) :
    ActionsPlaced (tailActions t clauses dead c start) := by
  rw [tailActions]
  split
  · exact actionsPlaced_error _
  · rename_i last _
    split
    · rename_i kept next rest heq
      have hmem : ∀ d ∈ kept :: next :: rest, d ∈ clauses := by
        intro d hd
        rw [← heq] at hd
        exact List.mem_of_mem_drop hd
      have hkept := hclauses kept (hmem kept (by simp))
      have hnext := hclauses next (hmem next (by simp))
      apply actionsPlaced_pair
      · exact placed_delete hkept.stop_nonneg hnext.start_nonneg
      · exact ⟨hstart, repairStop_nonneg hc.stop_nonneg⟩
    · exact actionsPlaced_error _

theorem actionsPlaced_lastSelectorActions {unused : List Selector} {s : Selector}
    (hc : c.Placed t) (hs : 0 ≤ s.namePos) :
    ActionsPlaced (lastSelectorActions t c unused s) := by
  rw [lastSelectorActions]
  split
  · exact actionsPlaced_error _
  · rename_i last _
    split
    · rename_i kept next rest heq
      have hsplit : c.selectors = c.selectors.take last ++ kept :: next :: rest := by
        rw [← heq, List.take_append_drop]
      have hnext : next ∈ c.selectors := by
        rw [hsplit]
        simp
      -- the selector that stays is not the last one, so a comma stands behind its name
      have hkept : kept ∈ c.selectors.dropLast := by
        rw [hsplit, List.dropLast_append_of_ne_nil (List.cons_ne_nil _ _),
          List.dropLast_cons_of_ne_nil (List.cons_ne_nil _ _)]
        simp
      obtain ⟨comma, hcomma⟩ := Option.isSome_iff_exists.1 (hc.commas kept hkept)
      rw [hcomma]
      apply actionsPlaced_pair
      · exact placed_delete (Int.natCast_nonneg comma) (hc.names_nonneg next hnext)
      · -- the closing brace is the last character of the clause
        have hbrace : 0 ≤ c.place.stop - 1 := Int.le_sub_one_of_lt hc.stop_pos
        exact placed_delete hs hbrace
    · exact actionsPlaced_error _

/-- If no comma stands behind the selector that stays, an edit starts in front of the text. -/
theorem not_actionsPlaced_of_find?_eq_none {unused front tail : List Selector}
    {kept next s : Selector} (hsplit : c.selectors = front ++ kept :: next :: tail)
    (hkept : unused.contains kept = false) (htail : ∀ r ∈ next :: tail, unused.contains r = true)
    (hcomma : t.find? ',' kept.namePos = none) :
    ¬ ActionsPlaced (lastSelectorActions t c unused s) := by
  have hplace : lastPlace? (fun r => !unused.contains r) c.selectors = some front.length := by
    rw [hsplit]
    apply lastPlace?_append_cons
    · rw [hkept]
      rfl
    · intro r hr
      rw [htail r hr]
      rfl
  have hdrop : c.selectors.drop front.length = kept :: next :: tail := by
    rw [hsplit, List.drop_left]
  have hstart : t.repairStart (-1) next.namePos [] < 0 := by
    have hblank : t.lastNonBlank (-1) = -2 := rfl
    rw [Text.repairStart, hblank]
    split <;> omega
  intro hplaced
  rw [lastSelectorActions, hplace] at hplaced
  simp only [hdrop, hcomma] at hplaced
  have hfirst := (hplaced _ rfl _ List.mem_cons_self).1
  exact Int.not_le.2 hstart hfirst

theorem actionsPlaced_selectorActions {unused : List Selector} {final s : Selector}
    (hc : c.Placed t) (hs : 0 ≤ s.namePos) :
    ActionsPlaced (selectorActions t c unused final s) := by
  rw [selectorActions]
  split
  · exact actionsPlaced_lastSelectorActions hc hs
  · split
    · rename_i kept next rest heq
      have hnext : next ∈ c.selectors := by
        have hmem : next ∈ c.selectors.dropWhile (· ≠ s) := by
          rw [heq]
          simp
        exact (List.dropWhile_sublist _).subset hmem
      exact actionsPlaced_singleton (placed_delete hs (hc.names_nonneg next hnext))
    · exact actionsPlaced_error _

/-! ## Attempts -/

/-- All proposals are for findings among `fs`, and no action of theirs has a negative offset. -/
def Places (fs : List Finding) (as : List Attempt) : Prop :=
  ∀ p, Except.ok p ∈ as → p.finding ∈ fs ∧ ∀ a ∈ p.actions, a.edit.Placed

theorem places_nil : Places fs [] :=
  fun _ h => absurd h List.not_mem_nil

theorem Places.mono {as : List Attempt} (h : Places fs as) (hsub : fs ⊆ gs) : Places gs as := by
  intro p hp
  obtain ⟨hfinding, hedits⟩ := h p hp
  exact ⟨hsub hfinding, hedits⟩

theorem places_flatMap {α : Type} {l : List α} {as : α → List Attempt}
    (h : ∀ a ∈ l, Places fs (as a)) : Places fs (l.flatMap as) := by
  intro p hp
  obtain ⟨a, ha, hpa⟩ := List.mem_flatMap.1 hp
  exact h a ha p hpa

theorem places_error (e : Failure) : Places fs [.error e] := by
  intro p hp
  cases List.mem_singleton.1 hp

/-- An attempt that looks for the actions of one finding. -/
theorem placed_of_map_eq_ok {f : Finding} {found : Except Failure (List CodeAction)} {p : Proposal}
    (hfound : ActionsPlaced found) (h : found.map (Proposal.mk f) = .ok p) :
    p.finding = f ∧ ∀ a ∈ p.actions, a.edit.Placed := by
  cases found with
  | error e => cases h
  | ok actions =>
    cases h
    exact ⟨rfl, hfound actions rfl⟩

theorem places_map {find : Finding → Except Failure (List CodeAction)}
    (h : ∀ f ∈ fs, ActionsPlaced (find f)) :
    Places fs (fs.map fun f => (find f).map (Proposal.mk f)) := by
  intro p hp
  obtain ⟨f, hf, heq⟩ := List.mem_map.1 hp
  obtain ⟨hfinding, hplaced⟩ := placed_of_map_eq_ok (h f hf) heq
  exact ⟨hfinding ▸ hf, hplaced⟩

theorem places_carriedByLast {found : Except Failure (List CodeAction)}
    (h : ActionsPlaced found) (fs : List Finding) : Places fs (carriedByLast found fs) := by
  induction fs with
  | nil => exact places_nil
  | cons f rest ih =>
    cases rest with
    | nil =>
      have hsingle : Places [f] ([f].map fun g => found.map (Proposal.mk g)) :=
        places_map fun _ _ => h
      exact hsingle
    | cons g rest =>
      intro p hp
      rw [carriedByLast, List.mem_cons] at hp
      rcases hp with hp | hp
      · cases hp
        exact ⟨List.mem_cons_self, fun a ha => absurd ha List.not_mem_nil⟩
      · exact ih.mono (List.subset_cons_self f _) p hp

theorem inOrder_subset (hsub : gs ⊆ fs) : Finding.inOrder gs ⊆ fs := by
  intro f hf
  apply hsub
  exact (Finding.inOrder_perm gs).mem_iff.1 hf

/-! ## Statements -/

theorem places_removeStatement (hclauses : ∀ d ∈ clauses, d.Placed t) :
    Places fs (removeStatement t clauses fs) := by
  refine (places_carriedByLast ?_ _).mono (inOrder_subset (List.Subset.refl fs))
  split
  · rename_i start stop hextent
    have hspans : ∀ s ∈ clauses.map Clause.place, 0 ≤ s.start ∧ 0 ≤ s.stop := by
      intro s hs
      obtain ⟨d, hd, rfl⟩ := List.mem_map.1 hs
      exact ⟨(hclauses d hd).start_nonneg, (hclauses d hd).stop_nonneg⟩
    have hnonneg := Span.extent_nonneg hspans hextent
    exact actionsPlaced_singleton (placed_delete hnonneg.1 hnonneg.2)
  · exact actionsPlaced_error _

theorem places_removeClause {dead : List Int} {place : Nat} (hclauses : ∀ d ∈ clauses, d.Placed t)
    (hc : c.Placed t) (hsub : gs ⊆ fs) :
    Places fs (removeClause t clauses dead place c gs) := by
  refine (places_carriedByLast ?_ _).mono (inOrder_subset hsub)
  split
  · rename_i next hnext
    have hstart := (hclauses next (List.mem_of_getElem? hnext)).start_nonneg
    exact actionsPlaced_singleton (placed_delete (cutStart_nonneg hc) hstart)
  · exact actionsPlaced_tailActions hclauses hc (cutStart_nonneg hc)

theorem places_updateClause {place : Nat} (hc : c.Placed t)
    (hnames : ∀ f ∈ fs, 0 ≤ f.selector.namePos) (hsub : gs ⊆ fs) :
    Places fs (updateClause t place c gs) := by
  rw [updateClause]
  split
  · -- one selector stays, so the clause is written anew
    refine (places_carriedByLast ?_ _).mono (inOrder_subset hsub)
    apply actionsPlaced_singleton
    exact placed_replace (cutStart_nonneg hc) hc.stop_nonneg
  · split
    · exact places_error _
    · refine (places_map ?_).mono (inOrder_subset hsub)
      intro f hf
      exact actionsPlaced_selectorActions hc (hnames f (inOrder_subset hsub hf))

/-- Mending a clause of a statement. -/
theorem places_mendClause {dead : List Int} {place : Nat} (hclauses : ∀ d ∈ clauses, d.Placed t)
    (hc : c ∈ clauses) (hnames : ∀ f ∈ fs, 0 ≤ f.selector.namePos) :
    Places fs (mendClause t clauses dead fs c place) := by
  have hsub : Finding.ofClause fs c.id ⊆ fs := List.filter_subset_self fs
  rw [mendClause]
  split
  · exact places_removeClause hclauses (hclauses c hc) hsub
  · split
    · exact places_nil
    · exact places_updateClause (hclauses c hc) hnames hsub

/-- The fixes of a statement whose clauses are placed in the text. -/
theorem places_statement (hclauses : ∀ d ∈ clauses, d.Placed t)
    (hnames : ∀ f ∈ fs, 0 ≤ f.selector.namePos) : Places fs (statement t clauses fs) := by
  have hordered : ∀ d ∈ inOrder clauses, d.Placed t := by
    intro d hd
    apply hclauses
    exact (List.mergeSort_perm clauses _).mem_iff.1 hd
  rw [statement]
  split
  · exact places_nil
  · split
    · exact places_error _
    · rw [mendClauses]
      split
      · exact places_removeStatement hordered
      · apply places_flatMap
        rintro ⟨c, place⟩ hc
        exact places_mendClause hordered (List.fst_mem_of_mem_zipIdx hc) hnames

theorem mem_of_mem_proposals {as : List Attempt} {p : Proposal} (hp : p ∈ proposals as) :
    Except.ok p ∈ as := by
  induction as with
  | nil => exact absurd hp List.not_mem_nil
  | cons a rest ih =>
    cases a with
    | error e => exact absurd hp List.not_mem_nil
    | ok q =>
      rw [proposals, List.mem_cons] at hp
      rcases hp with rfl | hp
      · exact List.mem_cons_self
      · exact List.mem_cons_of_mem _ (ih hp)

end Fix

namespace Checker

/-- The names of a unit stand at places of its text. If the checker proposes fixes, so do its
clauses, and a comma stands behind the name of each selector of a clause but the last, since fixes
look for these commas (`Clause.Placed`). -/
structure Located (c : Checker) (t : Tracker) (u : CompilationUnit) : Prop where
  names : ∀ e ∈ t.standing u.id, ∀ s ∈ e.clause.selectors, 0 ≤ s.namePos
  clauses : c.settings.emitFixes.truthy = true →
    ∀ e ∈ t.standing u.id, e.clause.Placed u.content

variable {c : Checker} {t : Tracker} {u : CompilationUnit} {file : Text} {d : Diagnostic}

/-- The attempts to report findings, of which only those with fixes look at the clauses. -/
theorem places_attempts {content : Text} {es : List Entry} {fs : List Finding}
    (hclauses : c.settings.emitFixes.truthy = true → ∀ e ∈ es, e.clause.Placed content)
    (hnames : ∀ f ∈ fs, 0 ≤ f.selector.namePos) : Fix.Places fs (c.attempts content es fs) := by
  rw [attempts]
  split
  · rename_i hfixes
    apply Fix.places_flatMap
    intro id _
    have hsub : statementFindings fs id ⊆ fs := List.filter_subset_self fs
    refine (Fix.places_statement ?_ fun f hf => hnames f (hsub hf)).mono hsub
    intro d hd
    obtain ⟨e, he, rfl⟩ := List.mem_map.1 hd
    exact hclauses hfixes e (List.mem_filter.1 he).1
  · intro p hp
    obtain ⟨f, hf, heq⟩ := List.mem_map.1 hp
    cases heq
    exact ⟨hf, fun a ha => absurd ha List.not_mem_nil⟩

/-- The names of what is unused in a located unit. -/
theorem Located.name_nonneg (h : c.Located t u) {f : Finding}
    (hf : f ∈ byClauseStart (t.findings u.id)) : 0 ≤ f.selector.namePos := by
  have hfound : f ∈ t.findings u.id := (List.mergeSort_perm _ _).mem_iff.1 hf
  obtain ⟨e, he, hfe⟩ := List.mem_flatMap.1 hfound
  obtain ⟨s, hs, rfl⟩ := List.mem_map.1 hfe
  exact h.names e he s (List.mem_filter.1 hs).1

/-- No diagnostic about a located unit has a negative offset. -/
theorem placed_of_mem_diagnostics (h : c.Located t u)
    (hd : d ∈ c.diagnostics (c.resolve t u) file) : d.Placed := by
  rw [diagnostics_eq, List.mem_map] at hd
  obtain ⟨w, hw, rfl⟩ := hd
  obtain ⟨p, hp, rfl⟩ := List.mem_map.1 hw
  cases hforeign : u.isForeign with
  | true =>
    rw [resolve_of_foreign c t hforeign] at hp
    exact absurd hp List.not_mem_nil
  | false =>
    rw [(c.resolve_eq t hforeign).1] at hp
    have hplaces := places_attempts h.clauses fun f hf => h.name_nonneg hf
    obtain ⟨hfinding, hedits⟩ := hplaces p (Fix.mem_of_mem_proposals hp)
    exact ⟨h.name_nonneg hfinding, hedits⟩

/-- A checker says in texts what it says, if its category is one. -/
theorem worded_of_mem_diagnostics (hcategory : c.settings.category.isString = true)
    {r : Resolution} (hd : d ∈ c.diagnostics r file) : d.Worded := by
  rw [diagnostics_eq, List.mem_map] at hd
  obtain ⟨w, hw, rfl⟩ := hd
  obtain ⟨p, -, rfl⟩ := List.mem_map.1 hw
  exact ⟨rfl, rfl, hcategory, rfl⟩

end Checker

end UnusedImports
