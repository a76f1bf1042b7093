import UnusedImports.Proofs.Fix.Layout
import UnusedImports.Proofs.Fix.Tiling

/-!
# When the edits of a unit collide

The edits of a statement whose clauses are written in a text stay within reach of the statement
(`mem_bounds_statementEdits`), so edits of different statements are apart. Within a statement they
are apart unless the statement collides (`pairwise_apart_statementEdits_iff`): a clause is written
anew, only clauses that go stand behind it, and blanks end its line. The fixes of a unit can be
applied together exactly if no statement of it collides (`Checker.fixSource_ok_iff`).
-/

set_option autoImplicit false

namespace UnusedImports

open Edit

/-- The entries are written in a text: their clauses are, and they stand apart. -/
structure Entry.Written (t : Text) (es : List Entry) : Prop extends Entry.Separate es where
  clauses : ∀ e ∈ es, e.clause.Written t

namespace Fix

/-- Clauses that are written in a text one behind the other. -/
structure Successive (t : Text) (cs : List Clause) : Prop where
  written : ∀ c ∈ cs, c.Written t
  follows : cs.Pairwise fun c d => c.place.stop ≤ d.place.start

/-- A clause is written anew, only clauses that go stand behind it, and blanks end its line. -/
def Collides (t : Text) (used : Usage) (cs : List Clause) : Prop :=
  ∃ front kept next tail, cs = front ++ kept :: next :: tail ∧ collapses used kept = true ∧
    (∀ c ∈ next :: tail, used.isDead c = true) ∧ t.blanksEndLine kept.place.stop = true

variable {t : Text} {used : Usage} {cs : List Clause}

namespace Successive

theorem tail {c : Clause} (h : Successive t (c :: cs)) : Successive t cs :=
  ⟨fun d hd => h.written d (List.mem_cons_of_mem c hd), (List.pairwise_cons.1 h.follows).2⟩

/-- No clause starts in front of the first one. -/
theorem start_le (h : Successive t cs) {first c : Clause} (hfirst : cs.head? = some first)
    (hc : c ∈ cs) : first.place.start ≤ c.place.start := by
  cases cs with
  | nil => cases hfirst
  | cons d rest =>
    cases hfirst
    rcases List.mem_cons.1 hc with rfl | hc
    · exact Int.le_refl _
    · have hfollows := (List.pairwise_cons.1 h.follows).1 c hc
      have hw := h.written first List.mem_cons_self
      have hstart := hw.start_le_point
      have hpoint := hw.point_lt_stop
      omega

/-- No clause stops behind the last one. -/
theorem le_stop (h : Successive t cs) {last c : Clause} (hlast : cs.getLast? = some last)
    (hc : c ∈ cs) : c.place.stop ≤ last.place.stop := by
  obtain ⟨front, rfl⟩ := List.getLast?_eq_some_iff.1 hlast
  rcases List.mem_append.1 hc with hc | hc
  · have hfollows := (List.pairwise_append.1 h.follows).2.2 c hc last List.mem_cons_self
    have hw := h.written last (List.mem_of_getLast? hlast)
    have hstart := hw.start_le_point
    have hpoint := hw.point_lt_stop
    omega
  · rw [List.mem_singleton.1 hc]

/-- A clause stops before the next one starts. -/
theorem stop_le_start_next {front tail : List Clause} {c d : Clause}
    (h : Successive t (front ++ c :: d :: tail)) : c.place.stop ≤ d.place.start := by
  have hsuffix := (List.pairwise_append.1 h.follows).2.1
  exact (List.pairwise_cons.1 hsuffix).1 d List.mem_cons_self

/-- The clauses extend from the start of the first to the stop of the last one. -/
theorem extent_eq (h : Successive t cs) {first last : Clause} (hfirst : cs.head? = some first)
    (hlast : cs.getLast? = some last) :
    Span.extent (cs.map Clause.place) = some (first.place.start, last.place.stop) := by
  refine Span.extent_eq_some ⟨_, List.mem_map_of_mem (List.mem_of_head? hfirst), rfl⟩
    ⟨_, List.mem_map_of_mem (List.mem_of_getLast? hlast), rfl⟩ ?_
  intro s hs
  obtain ⟨c, hc, rfl⟩ := List.mem_map.1 hs
  exact ⟨h.start_le hfirst hc, h.le_stop hlast hc⟩

/-- Neighbouring clauses are edited one behind the other. -/
theorem adjacent_clauses (h : Successive t cs) (used : Usage) (place : Nat) :
    (cs.zipIdx place).IsChain (Pruning.Adjacent (clausePruning t used)
      (fun p => cutStart p.2 p.1) fun p => p.1.place.stop) := by
  induction cs generalizing place with
  | nil => exact List.IsChain.nil
  | cons c rest ih =>
    cases rest with
    | nil => exact List.IsChain.singleton _
    | cons d rest =>
      have hrest := ih h.tail (place + 1)
      rw [List.zipIdx_cons] at hrest
      rw [List.zipIdx_cons, List.zipIdx_cons, List.isChain_cons_cons]
      refine ⟨?_, hrest⟩
      have hc := h.written c List.mem_cons_self
      have hd := h.written d (by simp)
      have hfollows := (List.pairwise_cons.1 h.follows).1 d List.mem_cons_self
      have hcut := cutStart_lt_stop hc place
      have hdcut : cutStart (place + 1) d = d.place.start := if_neg (Nat.succ_ne_zero place)
      -- the next clause starts with solid text, which stops all repair
      constructor
      · intro halive
        have halive : used.isDead c = false := by simpa [clausePruning] using halive
        have htrim := Text.trimStop_le hc.stop_nonneg hfollows hd.solid_start
        simp only [hdcut]
        exact (tiled_clauseEdits_trimStop hc halive place).mono_right htrim
      · simp only [clausePruning, edit_delete_of_solidAt hd.solid_start, hdcut]
        exact Tiled.singleton (Int.le_refl _) (by dsimp only; omega) (Int.le_refl _)
      · simp only [clausePruning, edit_delete_of_solidAt hd.solid_start, hdcut]
        exact Tiled.singleton (Int.le_refl _) hfollows (Int.le_refl _)

/-- The last clause is edited within reach of its stop. -/
theorem final_clause {c : Clause} (h : c.Written t) (place : Nat) :
    Pruning.Final (clausePruning t used) (fun p => cutStart p.2 p.1)
      (t.reachStop c.place.stop) (c, place) := by
  have hcut := cutStart_lt_stop h place
  constructor
  · intro halive
    have halive : used.isDead c = false := by simpa [clausePruning] using halive
    exact (tiled_clauseEdits_trimStop h halive place).mono_right (Text.trimStop_le_reachStop _)
  · intro kept
    have hbounds := Text.repair_bounds (t := t) kept.1.place.stop h.stop_nonneg []
    have hclose : (clausePruning t used).close kept (c, place) =
        ⟨cutStart place c, t.repairStop kept.1.place.stop c.place.stop [], []⟩ := rfl
    rw [hclose]
    exact Tiled.singleton (Int.le_refl _) (by dsimp only; omega) hbounds.2.2.2

end Successive

/-! ## The edits of a statement -/

/-- If something of a statement stays, its clauses split at the last one of which something
stays. -/
theorem exists_last_standing (hall : cs.all used.isDead = false) :
    ∃ front k tail, cs = front ++ k :: tail ∧ used.isDead k = false ∧
      ∀ c ∈ tail, used.isDead c = true := by
  have hany : (cs.any fun c => !used.isDead c) = true := by
    rw [← List.not_all_eq_any_not, hall]
    rfl
  obtain ⟨front, k, tail, hcs, hk, htail⟩ := exists_last_alive hany
  exact ⟨front, k, tail, hcs, by simpa using hk, fun c hc => by simpa using htail c hc⟩

/-- The places of the clauses of a statement split like the clauses. -/
theorem zipIdx_append_cons (front tail : List Clause) (k : Clause) :
    (front ++ k :: tail).zipIdx =
      front.zipIdx ++ (k, front.length) :: tail.zipIdx (front.length + 1) := by
  rw [List.zipIdx_append, List.zipIdx_cons, Nat.zero_add]

theorem alive_of_not_isDead {c : Clause} (h : used.isDead c = false) (place : Nat) :
    (clausePruning t used).alive (c, place) = true := by
  simp [clausePruning, h]

theorem not_alive_of_isDead {tail : List Clause} (h : ∀ c ∈ tail, used.isDead c = true)
    (place : Nat) : ∀ p ∈ tail.zipIdx place, (clausePruning t used).alive p = false := by
  rintro ⟨c, i⟩ hp
  have hdead := h c (List.fst_mem_of_mem_zipIdx hp)
  simp [clausePruning, hdead]

/-- The last of the clauses is edited within reach of its stop. -/
theorem final_zipIdx (used : Usage) (h : Successive t cs) {last : Clause}
    (hlast : cs.getLast? = some last) :
    ∀ p ∈ cs.zipIdx.getLast?, Pruning.Final (clausePruning t used) (fun p => cutStart p.2 p.1)
      (t.reachStop last.place.stop) p := by
  intro p hp
  rw [List.getLast?_zipIdx, hlast] at hp
  cases hp
  exact Successive.final_clause (h.written last (List.mem_of_getLast? hlast)) _

/-- The edits of a statement of which something stays. -/
theorem statementEdits_of_live (hall : cs.all used.isDead = false) :
    statementEdits t used cs = (clausePruning t used).edits cs.zipIdx := by
  rw [statementEdits, hall, if_neg Bool.false_ne_true]

/-- A statement from which nothing goes has no edits. -/
theorem statementEdits_eq_nil (h : ∀ c ∈ cs, used.unused c = []) :
    statementEdits t used cs = [] := by
  cases cs with
  | nil => rfl
  | cons c rest =>
    have halive : ∀ d ∈ c :: rest, used.isDead d = false := fun d hd =>
      Usage.isDead_of_unused_eq_nil (h d hd)
    have hlive : (c :: rest).all used.isDead = false := by
      rw [List.all_cons, halive c List.mem_cons_self, Bool.false_and]
    rw [statementEdits_of_live hlive]
    refine Pruning.edits_eq_nil ?_
    rintro ⟨d, place⟩ hd
    have hmem := List.fst_mem_of_mem_zipIdx hd
    refine ⟨alive_of_not_isDead (halive d hmem) place, ?_⟩
    simp [clausePruning, clauseEdits, h d hmem]

/-- The edit of a statement of which nothing stays. -/
theorem statementEdits_of_dead (h : Successive t cs) (hall : cs.all used.isDead = true)
    {first last : Clause} (hfirst : cs.head? = some first) (hlast : cs.getLast? = some last) :
    statementEdits t used cs = [(delete t first.place.start last.place.stop).edit] := by
  rw [statementEdits, hall, if_pos rfl, h.extent_eq hfirst hlast]

/-- The edits of a statement stay within reach of its ends. -/
theorem mem_bounds_statementEdits (h : Successive t cs) {first last : Clause}
    (hfirst : cs.head? = some first) (hlast : cs.getLast? = some last) {e : Edit}
    (he : e ∈ statementEdits t used cs) :
    t.reachStart first.place.start ≤ e.start ∧ e.start ≤ e.stop ∧
      e.stop ≤ t.reachStop last.place.stop := by
  have hfirstw := h.written first (List.mem_of_head? hfirst)
  have hlastw := h.written last (List.mem_of_getLast? hlast)
  have hreach := Text.reachStart_le (t := t) first.place.start
  cases hall : cs.all used.isDead with
  | true =>
    rw [statementEdits_of_dead h hall hfirst hlast, List.mem_singleton] at he
    have hstart := hlastw.start_le_point
    have hpoint := hlastw.point_lt_stop
    have hbounds := Text.repair_bounds (t := t) first.place.start hlastw.stop_nonneg []
    have hle := h.start_le hfirst (List.mem_of_getLast? hlast)
    rw [he, delete, edit_replace]
    dsimp only
    omega
  | false =>
    obtain ⟨front, k, tail, rfl, hk, htail⟩ := exists_last_standing hall
    rw [statementEdits_of_live hall] at he
    have hkw := h.written k (by simp)
    have hadjacent := h.adjacent_clauses used 0
    have hfinal := final_zipIdx used h hlast
    have hhead : (first, 0) ∈ (front ++ k :: tail).zipIdx.head? := by
      rw [List.head?_zipIdx, hfirst]
      rfl
    rw [zipIdx_append_cons] at hadjacent hfinal hhead he
    have hbounds := Pruning.mem_bounds_edits (alive_of_not_isDead hk front.length)
      (not_alive_of_isDead htail (front.length + 1)) hadjacent hfinal
      (Int.le_of_lt (cutStart_lt_stop hkw front.length)) hhead he
    have hcut : first.place.start ≤ cutStart (first, 0).2 (first, 0).1 :=
      start_le_cutStart hfirstw 0
    exact ⟨by omega, hbounds.2⟩

/-- Two edits of a statement that collides are not apart. -/
theorem not_pairwise_apart_of_collides (h : Successive t cs) (hcollides : Collides t used cs) :
    ¬ (statementEdits t used cs).Pairwise Apart := by
  obtain ⟨front, kept, next, tail, rfl, hcollapses, htail, hblanks⟩ := hcollides
  have hkept := isDead_of_collapses hcollapses
  have hkeptw := h.written kept (by simp)
  have hnextw := h.written next (by simp)
  have hcut := cutStart_lt_stop hkeptw front.length
  have hfollows := h.stop_le_start_next
  have hlt := (Text.lt_trimStop_iff hkeptw.stop_nonneg hfollows hnextw.solid_start).2 hblanks
  have hlive : (front ++ kept :: next :: tail).all used.isDead = false := by
    simp [hkept]
  obtain ⟨es, hes, -⟩ := Pruning.edits_append_cons (p := clausePruning t used)
    (fun p => cutStart p.2 p.1) (fun p => p.1.place.stop) front.zipIdx
    (alive_of_not_isDead hkept front.length) (not_alive_of_isDead htail (front.length + 1))
  have hown : (clausePruning t used).own (kept, front.length) =
      [⟨cutStart front.length kept, t.trimStop kept.place.stop,
        kept.render (used.kept kept)⟩] := clauseEdits_of_collapses hcollapses front.length
  have hbridge : (clausePruning t used).bridge (kept, front.length) (next, front.length + 1) =
      ⟨kept.place.stop, next.place.start, []⟩ := edit_delete_of_solidAt hnextw.solid_start
  rw [statementEdits_of_live hlive, zipIdx_append_cons, hes, hown, List.zipIdx_cons,
    Pruning.afterLast, hbridge]
  -- the new text of the clause reaches over the stop of the clause, where the bridge starts
  intro hpairs
  have htwo := (List.pairwise_append.1 hpairs).2.1
  rw [List.singleton_append, List.pairwise_cons] at htwo
  rcases htwo.1 _ List.mem_cons_self with hapart | hapart
  · dsimp only at hapart
    omega
  · dsimp only at hapart
    omega

/-- The edits of a statement are apart unless it collides. -/
theorem pairwise_apart_statementEdits_iff (h : Successive t cs) :
    (statementEdits t used cs).Pairwise Apart ↔ ¬ Collides t used cs := by
  refine ⟨fun hpairs hcollides => not_pairwise_apart_of_collides h hcollides hpairs,
    fun hsafe => ?_⟩
  by_cases hnil : cs = []
  · subst hnil
    exact List.Pairwise.nil
  have hfirst := List.head?_eq_some_head hnil
  have hlast := List.getLast?_eq_some_getLast hnil
  cases hall : cs.all used.isDead with
  | true =>
    rw [statementEdits_of_dead h hall hfirst hlast]
    exact List.pairwise_singleton _ _
  | false =>
    obtain ⟨front, k, tail, rfl, hk, htail⟩ := exists_last_standing hall
    have hkw := h.written k (by simp)
    have hown : tail.zipIdx (front.length + 1) ≠ [] →
        Tiled (cutStart front.length k) k.place.stop (clauseEdits t used front.length k) := by
      intro hne
      obtain ⟨next, rest, rfl⟩ : ∃ next rest, tail = next :: rest :=
        List.exists_cons_of_ne_nil fun hnil => hne (by rw [hnil]; rfl)
      cases hcollapses : collapses used k with
      | false => exact tiled_clauseEdits hkw hk hcollapses front.length
      | true =>
        -- no blanks end its line, so there is nothing for it to take
        have hnot : ¬ k.place.stop < t.trimStop k.place.stop := by
          rw [Text.lt_trimStop_iff hkw.stop_nonneg h.stop_le_start_next
            (h.written next (by simp)).solid_start]
          exact fun hblanks => hsafe ⟨front, k, next, rest, rfl, hcollapses, htail, hblanks⟩
        exact (tiled_clauseEdits_trimStop hkw hk front.length).mono_right (Int.not_lt.1 hnot)
    have hadjacent := h.adjacent_clauses used 0
    have hfinal := final_zipIdx used h hlast
    have hhead : ((front ++ k :: tail).head hnil, 0) ∈ (front ++ k :: tail).zipIdx.head? := by
      rw [List.head?_zipIdx, hfirst]
      rfl
    rw [zipIdx_append_cons] at hadjacent hfinal hhead
    rw [statementEdits_of_live hall, zipIdx_append_cons]
    exact (Pruning.tiled_edits (alive_of_not_isDead hk front.length)
      (not_alive_of_isDead htail (front.length + 1)) hadjacent hfinal hown hhead).pairwise_apart

end Fix

end UnusedImports
