import UnusedImports.Checker
import Mathlib.Data.List.Perm.Basic

/-!
# Attempts that succeed

`Fix.Yields as fs es` says of a list of attempts that none fails, that the proposals are for the
findings `fs`, in this order, and that their edits are `es` in some order. It composes along
appended lists, so what a statement yields is put together from what its clauses yield.
-/

set_option autoImplicit false

namespace UnusedImports

/-- The edits of all proposals, in order. -/
def Proposal.edits (ps : List Proposal) : List Edit :=
  ps.flatMap fun p => p.actions.map CodeAction.edit

@[simp] theorem Proposal.edits_nil : Proposal.edits [] = [] := rfl

@[simp] theorem Proposal.edits_append (ps qs : List Proposal) :
    Proposal.edits (ps ++ qs) = Proposal.edits ps ++ Proposal.edits qs :=
  List.flatMap_append

namespace Fix

/-- Attempts that all succeed are their proposals. -/
theorem proposals_map_ok (ps : List Proposal) : proposals (ps.map Except.ok) = ps := by
  induction ps with
  | nil => rfl
  | cons p rest ih => rw [List.map_cons, proposals, ih]

theorem failure?_map_ok (ps : List Proposal) : failure? (ps.map Except.ok) = none := by
  induction ps with
  | nil => rfl
  | cons p rest ih => rw [List.map_cons, failure?, ih]

/-- No attempt fails, the proposals are for `fs` in order, and their edits are `es`. -/
def Yields (as : List Attempt) (fs : List Finding) (es : List Edit) : Prop :=
  ∃ ps : List Proposal, as = ps.map Except.ok ∧ ps.map Proposal.finding = fs ∧
    (Proposal.edits ps).Perm es

namespace Yields

theorem nil : Yields [] [] [] :=
  ⟨[], rfl, rfl, List.Perm.refl _⟩

theorem append {as bs : List Attempt} {fs gs : List Finding} {es ds : List Edit}
    (h : Yields as fs es) (h' : Yields bs gs ds) : Yields (as ++ bs) (fs ++ gs) (es ++ ds) := by
  obtain ⟨ps, rfl, rfl, hes⟩ := h
  obtain ⟨qs, rfl, rfl, hds⟩ := h'
  refine ⟨ps ++ qs, by rw [List.map_append], by rw [List.map_append], ?_⟩
  rw [Proposal.edits_append]
  exact hes.append hds

theorem perm {as : List Attempt} {fs : List Finding} {es ds : List Edit} (h : Yields as fs es)
    (hperm : es.Perm ds) : Yields as fs ds := by
  obtain ⟨ps, has, hfs, hes⟩ := h
  exact ⟨ps, has, hfs, hes.trans hperm⟩

theorem flatMap {α : Type} {as : α → List Attempt} {fs : α → List Finding} {es : α → List Edit}
    (l : List α) (h : ∀ a ∈ l, Yields (as a) (fs a) (es a)) :
    Yields (l.flatMap as) (l.flatMap fs) (l.flatMap es) := by
  induction l with
  | nil => exact nil
  | cons a rest ih =>
    rw [List.flatMap_cons, List.flatMap_cons, List.flatMap_cons]
    exact (h a List.mem_cons_self).append (ih fun b hb => h b (List.mem_cons_of_mem a hb))

end Yields

/-- The edits that a search for actions leads to. -/
def actionEdits : Except Failure (List CodeAction) → List Edit
  | .ok actions => actions.map CodeAction.edit
  | .error _ => []

/-- One attempt for each finding, each of which finds its actions. -/
theorem yields_map {find : Finding → Except Failure (List CodeAction)} {fs : List Finding}
    (h : ∀ f ∈ fs, ∃ actions, find f = .ok actions) :
    Yields (fs.map fun f => (find f).map (Proposal.mk f)) fs
      (fs.flatMap fun f => actionEdits (find f)) := by
  induction fs with
  | nil => exact Yields.nil
  | cons f rest ih =>
    obtain ⟨actions, hf⟩ := h f List.mem_cons_self
    have hhead : Yields [(find f).map (Proposal.mk f)] [f] (actionEdits (find f)) := by
      rw [hf]
      exact ⟨[⟨f, actions⟩], rfl, rfl, by simp [Proposal.edits, actionEdits]⟩
    exact hhead.append (ih fun g hg => h g (List.mem_cons_of_mem f hg))

/-- Findings that share a fix are all reported, and the fix is made once. -/
theorem yields_carriedByLast {fs : List Finding} (actions : List CodeAction) (hfs : fs ≠ []) :
    Yields (carriedByLast (.ok actions) fs) fs (actions.map CodeAction.edit) := by
  induction fs with
  | nil => exact absurd rfl hfs
  | cons f rest ih =>
    cases rest with
    | nil => exact ⟨[⟨f, actions⟩], rfl, rfl, by simp [Proposal.edits]⟩
    | cons g rest =>
      obtain ⟨ps, hps, hfindings, hedits⟩ := ih (List.cons_ne_nil g rest)
      refine ⟨⟨f, []⟩ :: ps, ?_, ?_, ?_⟩
      · rw [carriedByLast, hps, List.map_cons]
      · rw [List.map_cons, hfindings]
      · simpa [Proposal.edits] using hedits

end Fix

end UnusedImports
