import UnusedImports.Proofs.Fix.Attempts
import UnusedImports.Proofs.Fix.Pruning
import UnusedImports.Proofs.Fix.Usage

/-!
# What a clause that stays yields

`Fix.clauseEdits` lists the edits of a clause of which something stays: none if all of it stays,
the new text of the clause if one selector stays, and the pruned list of selectors otherwise.
`yields_updateClause` says that updating the clause proposes exactly these edits and reports every
unused selector of the clause.
-/

set_option autoImplicit false

namespace UnusedImports.Fix

/-- The offset of the comma that is deleted behind a selector that stays. -/
def commaAfter (t : Text) (s : Selector) : Int :=
  match t.find? ',' s.namePos with
  | some place => place
  | none => -1

/-- How the selectors between the braces of a clause are edited. -/
def selectorPruning (t : Text) (used : Usage) (c : Clause) : Pruning Selector where
  alive s := !used.isUnused c s
  own _ := []
  cut s next := (delete t s.namePos next.namePos).edit
  bridge kept next := (delete t (commaAfter t kept) next.namePos).edit
  close _ s := (delete t s.namePos (c.place.stop - 1)).edit

/-- The edits of the clause at `place`, of which something stays. -/
def clauseEdits (t : Text) (used : Usage) (place : Nat) (c : Clause) : List Edit :=
  if used.unused c = [] then []
  else if (used.kept c).length = 1 then
    [(replace t (cutStart place c) c.place.stop (c.render (used.kept c))).edit]
  else (selectorPruning t used c).edits c.selectors

variable {t : Text} {used : Usage} {c : Clause}

/-- A selector that is not the last of its clause is deleted up to the next one. -/
theorem selectorActions_of_next {unused : List Selector} {final s next : Selector}
    {front rest : List Selector} (hsel : c.selectors = front ++ s :: next :: rest)
    (hs : s ∉ front) (hfinal : s ≠ final) :
    selectorActions t c unused final s = .ok [delete t s.namePos next.namePos] := by
  have hdrop : c.selectors.dropWhile (· ≠ s) = s :: next :: rest := by
    rw [hsel, List.dropWhile_append_of_pos]
    · simp
    · intro r hr
      have hne : r ≠ s := fun heq => hs (heq ▸ hr)
      simpa using hne
  rw [selectorActions, if_neg hfinal, hdrop]

/-- The last selector of its clause takes the comma behind the last selector that stays. -/
theorem selectorActions_of_last {final kept next : Selector} {front tail : List Selector}
    (hsel : c.selectors = front ++ kept :: next :: tail) (hkept : used.isUnused c kept = false)
    (htail : ∀ r ∈ next :: tail, used.isUnused c r = true) :
    selectorActions t c (used.unused c) final final =
      .ok [delete t (commaAfter t kept) next.namePos,
        delete t final.namePos (c.place.stop - 1)] := by
  have hplace : lastPlace? (fun r => !(used.unused c).contains r) c.selectors =
      some front.length := by
    rw [hsel]
    apply lastPlace?_append_cons
    · rw [Usage.contains_unused (by simp [hsel]), hkept]
      rfl
    · intro r hr
      rw [Usage.contains_unused (by rw [hsel]; simp_all), htail r hr]
      rfl
  have hdrop : c.selectors.drop front.length = kept :: next :: tail := by
    rw [hsel, List.drop_left]
  rw [selectorActions, if_pos rfl, lastSelectorActions, hplace]
  simp only [hdrop]
  rfl

/-- Every unused selector of a clause of which something stays finds its actions. -/
theorem selectorActions_ok {final s : Selector} (hnodup : c.selectors.Nodup)
    (hlast : c.selectors.getLast? = some final) (hkept : used.kept c ≠ [])
    (hs : s ∈ used.unused c) :
    ∃ actions, selectorActions t c (used.unused c) final s = .ok actions := by
  obtain ⟨hmem, hunused⟩ := List.mem_filter.1 hs
  by_cases hfinal : s = final
  · subst hfinal
    have hlive : (c.selectors.any fun r => !used.isUnused c r) = true := by
      obtain ⟨r, hr⟩ := List.exists_mem_of_ne_nil _ hkept
      obtain ⟨hrmem, hr⟩ := List.mem_filter.1 hr
      exact List.any_eq_true.2 ⟨r, hrmem, hr⟩
    obtain ⟨front, k, tail, hsel, hk, htail⟩ := exists_last_alive hlive
    cases tail with
    | nil =>
      -- the last selector would both go and stay
      rw [hsel, List.getLast?_append, List.getLast?_singleton, Option.some_or] at hlast
      cases hlast
      rw [hunused] at hk
      exact absurd hk Bool.false_ne_true
    | cons next tail =>
      exact ⟨_, selectorActions_of_last hsel (by simpa using hk)
        (fun r hr => by simpa using htail r hr)⟩
  · obtain ⟨front, rest, hsel⟩ := List.append_of_mem hmem
    cases rest with
    | nil =>
      rw [hsel, List.getLast?_append, List.getLast?_singleton, Option.some_or] at hlast
      exact absurd (Option.some.inj hlast) hfinal
    | cons next rest =>
      have hfront : s ∉ front := by
        rw [hsel, List.nodup_append] at hnodup
        exact fun hin => hnodup.2.2 s hin s List.mem_cons_self rfl
      exact ⟨_, selectorActions_of_next hsel hfront hfinal⟩

/-- The actions of the unused selectors, in the order of the selectors. -/
theorem flatMap_actionEdits_eq_inTurn {final : Selector} (hnodup : c.selectors.Nodup)
    (hlast : c.selectors.getLast? = some final) (front l : List Selector)
    (hsel : c.selectors = front ++ l) :
    (l.filter (used.isUnused c)).flatMap
        (fun s => actionEdits (selectorActions t c (used.unused c) final s)) =
      (selectorPruning t used c).inTurn
        (fun s => actionEdits (selectorActions t c (used.unused c) final s)) l := by
  induction l generalizing front with
  | nil => rfl
  | cons s rest ih =>
    have hrest := ih (front ++ [s]) (by rw [hsel, List.append_assoc, List.singleton_append])
    cases hs : used.isUnused c s with
    | false =>
      have halive : (selectorPruning t used c).alive s = true := by
        simp [selectorPruning, hs]
      rw [List.filter_cons_of_neg (by simp [hs]), hrest, Pruning.inTurn_cons_alive halive]
      rfl
    | true =>
      have hdead : (selectorPruning t used c).alive s = false := by
        simp [selectorPruning, hs]
      rw [List.filter_cons_of_pos hs, List.flatMap_cons, hrest]
      cases rest with
      | nil =>
        -- the last selector, whose actions are those that `inTurn` is given
        rw [Pruning.inTurn_singleton_dead hdead]
        exact List.append_nil _
      | cons next rest =>
        have hparts := hnodup
        rw [hsel, List.nodup_append, List.nodup_cons] at hparts
        have hfront : s ∉ front := fun hin => hparts.2.2 s hin s List.mem_cons_self rfl
        have hfinal : s ≠ final := by
          rintro rfl
          rw [hsel, List.getLast?_append, List.getLast?_cons_cons] at hlast
          obtain ⟨r, hr⟩ : ∃ r, (next :: rest).getLast? = some r :=
            ⟨_, List.getLast?_eq_some_getLast (List.cons_ne_nil next rest)⟩
          rw [hr, Option.some_or] at hlast
          cases hlast
          exact hparts.2.1.1 (List.mem_of_getLast? hr)
        rw [Pruning.inTurn_cons_cons_dead hdead, selectorActions_of_next hsel hfront hfinal]
        rfl

/-- Updating a clause of which something goes and something stays reports what goes, and edits the
clause. -/
theorem yields_updateClause (place : Nat) {e : Entry} (hnodup : e.clause.selectors.Nodup)
    (hunused : used.unused e.clause ≠ []) (hkept : used.kept e.clause ≠ []) :
    Yields (updateClause t place e.clause (used.findings e))
      (Finding.inOrder (used.findings e)) (clauseEdits t used place e.clause) := by
  have hperm := Finding.inOrder_perm (used.findings e)
  have horder : Finding.inOrder (used.findings e) ≠ [] :=
    Finding.inOrder_ne_nil fun h => hunused (Usage.findings_eq_nil_iff.1 h)
  rw [updateClause, Usage.selectors_findings hnodup]
  simp only [Usage.filter_not_contains_unused]
  by_cases hone : (used.kept e.clause).length = 1
  · rw [if_pos hone, clauseEdits, if_neg hunused, if_pos hone]
    exact yields_carriedByLast _ horder
  rw [if_neg hone, clauseEdits, if_neg hunused, if_neg hone]
  obtain ⟨final, hfinal⟩ : ∃ final, e.clause.selectors.getLast? = some final := by
    refine ⟨_, List.getLast?_eq_some_getLast ?_⟩
    intro hnil
    exact hunused (by rw [Usage.unused, hnil]; rfl)
  rw [hfinal]
  have hfind : ∀ f ∈ Finding.inOrder (used.findings e), ∃ actions,
      selectorActions t e.clause (used.unused e.clause) final f.selector = .ok actions :=
    fun f hf => selectorActions_ok hnodup hfinal hkept (Usage.mem_findings.1 (hperm.mem_iff.1 hf)).1
  have hyields := yields_map hfind
  refine hyields.perm ?_
  have hselectors : (used.findings e).flatMap
      (fun f => actionEdits
        (selectorActions t e.clause (used.unused e.clause) final f.selector)) =
      (used.unused e.clause).flatMap
        (fun s => actionEdits (selectorActions t e.clause (used.unused e.clause) final s)) := by
    rw [Usage.findings_eq_map, List.flatMap_map]
  have hlive : e.clause.selectors.any (selectorPruning t used e.clause).alive = true := by
    obtain ⟨r, hr⟩ := List.exists_mem_of_ne_nil _ hkept
    obtain ⟨hrmem, hr⟩ := List.mem_filter.1 hr
    exact List.any_eq_true.2 ⟨r, hrmem, hr⟩
  have hturn : (used.unused e.clause).flatMap
      (fun s => actionEdits (selectorActions t e.clause (used.unused e.clause) final s)) =
      (selectorPruning t used e.clause).inTurn
        (fun s => actionEdits (selectorActions t e.clause (used.unused e.clause) final s))
        e.clause.selectors :=
    flatMap_actionEdits_eq_inTurn hnodup hfinal [] e.clause.selectors rfl
  refine (hperm.flatMap_right _).trans ?_
  rw [hselectors, hturn]
  refine Pruning.inTurn_perm_edits hlive fun front kept next tail s hsel hkept htail hlast => ?_
  rw [hfinal] at hlast
  cases hlast
  rw [selectorActions_of_last hsel (by simpa [selectorPruning] using hkept)
    (fun r hr => by simpa [selectorPruning] using htail r hr)]
  rfl

end UnusedImports.Fix
