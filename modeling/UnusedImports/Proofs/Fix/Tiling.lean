import UnusedImports.Proofs.Edit.Batch
import UnusedImports.Proofs.Fix.Statements
import UnusedImports.Proofs.Text.Repair
import Mathlib.Data.List.Chain

/-!
# Edits of clauses that stand apart

The edits of a pruned list follow one another if those of its members do
(`Pruning.tiled_edits`). The members of a clause and of a statement do so wherever solid text stands
at the ends of the stretches, because white space repair stops there. There is one exception: a
clause that is written anew takes the blanks at the end of its line, and if only clauses that go
come behind it, the deletion of their separator starts with the same blanks (`Fix.Collides`).
-/

set_option autoImplicit false

namespace UnusedImports

open Edit

namespace Fix

/-! ## Pruned lists -/

namespace Pruning

variable {α : Type} {p : Pruning α} {start stop : α → Int} {hi : Int}

/-- Neighbours `a` and `b` of a list: what is edited in `a` and between them ends where `b`
starts. -/
structure Adjacent (p : Pruning α) (start stop : α → Int) (a b : α) : Prop where
  own : p.alive a = true → Tiled (start a) (start b) (p.own a)
  cut : Tiled (start a) (start b) [p.cut a b]
  bridge : Tiled (stop a) (start b) [p.bridge a b]

/-- The last member `a` of a list: what is edited in it ends at `hi`. -/
structure Final (p : Pruning α) (start : α → Int) (hi : Int) (a : α) : Prop where
  own : p.alive a = true → Tiled (start a) hi (p.own a)
  close : ∀ kept, Tiled (start a) hi [p.close kept a]

/-- The edits that delete all members of a list follow one another. -/
theorem tiled_tailEdits (kept : α) {a : α} {l : List α}
    (hadjacent : (a :: l).IsChain (Adjacent p start stop))
    (hfinal : ∀ b ∈ (a :: l).getLast?, Final p start hi b) :
    Tiled (start a) hi (p.tailEdits kept (a :: l)) := by
  induction l generalizing a with
  | nil => exact (hfinal a rfl).close kept
  | cons b rest ih =>
    rw [List.isChain_cons_cons] at hadjacent
    exact hadjacent.1.cut.append
      (ih hadjacent.2 fun c hc => hfinal c (by rw [List.getLast?_cons_cons]; exact hc))

/-- The edits split at a member that stays and behind which nothing stays. -/
theorem edits_append_cons (start stop : α → Int) (front : List α) {tail : List α} {k : α}
    (hk : p.alive k = true) (htail : ∀ a ∈ tail, p.alive a = false) :
    ∃ es, p.edits (front ++ k :: tail) = es ++ (p.own k ++ p.afterLast k tail) ∧
      ((front ++ k :: tail).IsChain (Adjacent p start stop) →
        ∀ a ∈ (front ++ k :: tail).head?, Tiled (start a) (start k) es) := by
  induction front with
  | nil =>
    -- the list starts with the member that stays, and nothing is edited in front of it
    have hnone : tail.any p.alive = false := by simpa using htail
    refine ⟨[], ?_, ?_⟩
    · rw [List.nil_append, List.nil_append, edits_cons_alive hk, hnone, if_neg Bool.false_ne_true]
    · intro _ a ha
      cases ha
      exact Int.le_refl _
  | cons b front ih =>
    obtain ⟨es, hes, htiled⟩ := ih
    have hlive : (front ++ k :: tail).any p.alive = true := by simp [hk]
    obtain ⟨c, rest, hrest⟩ : ∃ c rest, front ++ k :: tail = c :: rest :=
      List.exists_cons_of_ne_nil (by simp)
    cases hb : p.alive b with
    | true =>
      -- a member that stays comes with its own edits
      refine ⟨p.own b ++ es, ?_, ?_⟩
      · rw [List.cons_append, edits_cons_alive hb, if_pos hlive, hes, List.append_assoc]
      · intro hchain a ha
        rw [List.cons_append, List.head?_cons] at ha
        cases ha
        rw [List.cons_append, hrest, List.isChain_cons_cons, ← hrest] at hchain
        exact (hchain.1.own hb).append (htiled hchain.2 c (by rw [hrest]; rfl))
    | false =>
      -- a member that goes is cut up to the next one
      refine ⟨p.cut b c :: es, ?_, ?_⟩
      · rw [List.cons_append, hrest, edits_cons_cons_dead hb, ← hrest, hes, List.cons_append]
      · intro hchain a ha
        rw [List.cons_append, List.head?_cons] at ha
        cases ha
        rw [List.cons_append, hrest, List.isChain_cons_cons, ← hrest] at hchain
        exact hchain.1.cut.append (htiled hchain.2 c (by rw [hrest]; rfl))

variable {front tail : List α} {k : α}

/-- The edits behind the last member that stays follow one another. -/
theorem tiled_afterLast {a : α} {rest : List α}
    (hadjacent : (k :: a :: rest).IsChain (Adjacent p start stop))
    (hfinal : ∀ b ∈ (k :: a :: rest).getLast?, Final p start hi b) :
    Tiled (stop k) hi (p.afterLast k (a :: rest)) := by
  rw [List.isChain_cons_cons] at hadjacent
  exact hadjacent.1.bridge.append (tiled_tailEdits k hadjacent.2
    fun b hb => hfinal b (by rw [List.getLast?_cons_cons]; exact hb))

/-- What is edited in a member that stays ends before the end of the list. -/
theorem tiled_own (hk : p.alive k = true) (hadjacent : (k :: tail).IsChain (Adjacent p start stop))
    (hfinal : ∀ b ∈ (k :: tail).getLast?, Final p start hi b) :
    Tiled (start k) hi (p.own k) := by
  cases tail with
  | nil => exact (hfinal k rfl).own hk
  | cons a rest =>
    have hrest := (tiled_afterLast hadjacent hfinal).bounds
    rw [List.isChain_cons_cons] at hadjacent
    have htail := (tiled_tailEdits k hadjacent.2
      fun b hb => hfinal b (by rw [List.getLast?_cons_cons]; exact hb)).bounds
    exact (hadjacent.1.own hk).mono_right htail

/-- The edits of a list follow one another if those of the last member that stays leave the
separator behind it alone. -/
theorem tiled_edits {a : α} (hk : p.alive k = true) (htail : ∀ b ∈ tail, p.alive b = false)
    (hadjacent : (front ++ k :: tail).IsChain (Adjacent p start stop))
    (hfinal : ∀ b ∈ (front ++ k :: tail).getLast?, Final p start hi b)
    (hown : tail ≠ [] → Tiled (start k) (stop k) (p.own k))
    (ha : a ∈ (front ++ k :: tail).head?) :
    Tiled (start a) hi (p.edits (front ++ k :: tail)) := by
  obtain ⟨es, hes, hfront⟩ := edits_append_cons start stop front hk htail
  have hsuffix := hadjacent.right_of_append
  have hlast : ∀ b ∈ (k :: tail).getLast?, Final p start hi b := fun b hb =>
    hfinal b (by rw [List.getLast?_append, hb]; rfl)
  rw [hes]
  refine (hfront hadjacent a ha).append ?_
  cases tail with
  | nil =>
    rw [afterLast, List.append_nil]
    exact tiled_own hk hsuffix hlast
  | cons b rest =>
    exact (hown (List.cons_ne_nil b rest)).append (tiled_afterLast hsuffix hlast)

/-- The edits of a list lie between its first member and its end. -/
theorem mem_bounds_edits {a : α} {e : Edit} (hk : p.alive k = true)
    (htail : ∀ b ∈ tail, p.alive b = false)
    (hadjacent : (front ++ k :: tail).IsChain (Adjacent p start stop))
    (hfinal : ∀ b ∈ (front ++ k :: tail).getLast?, Final p start hi b)
    (hstop : start k ≤ stop k) (ha : a ∈ (front ++ k :: tail).head?)
    (he : e ∈ p.edits (front ++ k :: tail)) :
    start a ≤ e.start ∧ e.start ≤ e.stop ∧ e.stop ≤ hi := by
  obtain ⟨es, hes, hfront⟩ := edits_append_cons start stop front hk htail
  have hsuffix := hadjacent.right_of_append
  have hlast : ∀ b ∈ (k :: tail).getLast?, Final p start hi b := fun b hb =>
    hfinal b (by rw [List.getLast?_append, hb]; rfl)
  have hes₀ := hfront hadjacent a ha
  have hown := tiled_own hk hsuffix hlast
  have hlo := hes₀.bounds
  have hhi := hown.bounds
  rw [hes, List.mem_append, List.mem_append] at he
  rcases he with he | he | he
  · have hbounds := hes₀.mem_bounds he
    omega
  · have hbounds := hown.mem_bounds he
    omega
  · cases tail with
    | nil => exact absurd he List.not_mem_nil
    | cons b rest =>
      have hbounds := (tiled_afterLast hsuffix hlast).mem_bounds he
      omega

end Pruning

/-! ## Edits in front of solid text -/

variable {t : Text} {used : Usage} {c : Clause}

theorem edit_replace (start stop : Int) (replacement : Text) :
    (replace t start stop replacement).edit =
      ⟨t.repairStart start stop replacement, t.repairStop start stop replacement, replacement⟩ :=
  rfl

/-- A deletion in front of solid text is not repaired. -/
theorem edit_delete_of_solidAt {start stop : Int} (h : t.solidAt stop = true) :
    (delete t start stop).edit = ⟨start, stop, []⟩ := by
  have hafter := Text.blankAfter_of_solidAt h
  rw [delete, edit_replace, Text.repairStart_of_not_blankAfter hafter,
    Text.repairStop_of_not_blankAfter hafter]

/-- A replacement by a text that is not empty takes the blanks at the end of its line. -/
theorem edit_replace_of_ne_nil {start stop : Int} {replacement : Text} (h : replacement ≠ []) :
    (replace t start stop replacement).edit = ⟨start, t.trimStop stop, replacement⟩ := by
  have hempties : t.emptiesLine start stop replacement = false := by
    rw [Text.emptiesLine, List.isEmpty_eq_false_iff.2 h, Bool.and_false]
  rw [edit_replace, Text.repairStart, hempties, if_neg Bool.false_ne_true,
    Text.repairStop_of_not_emptiesLine hempties]

theorem render_ne_nil (c : Clause) (kept : List Selector) : c.render kept ≠ [] := by
  rw [Clause.render]
  split <;> simp

end Fix

/-! ## Clauses as they are written -/

/-- The clause is written in a text: it starts and stops with solid text, and the names of its
selectors are solid text in its target, in order and with commas between them. -/
structure Clause.Written (t : Text) (c : Clause) : Prop where
  start_le_point : c.place.start ≤ c.place.point
  point_lt_stop : c.place.point < c.place.stop
  solid_start : t.solidAt c.place.start = true
  solid_last : t.solidAt (c.place.stop - 1) = true
  names : ∀ s ∈ c.selectors,
    c.place.point ≤ s.namePos ∧ s.namePos < c.place.stop ∧ t.solidAt s.namePos = true
  increase : c.selectors.Pairwise fun r s => r.namePos < s.namePos
  commas : c.selectors.IsChain fun r s =>
    ∃ n : Nat, r.namePos ≤ (n : Int) ∧ (n : Int) < s.namePos ∧ t[n]? = some ','

namespace Clause.Written

variable {t : Text} {used : Usage} {c : Clause}

theorem start_nonneg (h : c.Written t) : 0 ≤ c.place.start :=
  (Text.solidAt_iff.1 h.solid_start).1

theorem stop_nonneg (h : c.Written t) : 0 ≤ c.place.stop := by
  have hstart := h.start_nonneg
  have hpoint := h.start_le_point
  have hstop := h.point_lt_stop
  omega

theorem stop_le_length (h : c.Written t) : c.place.stop ≤ t.length := by
  have hlast := Text.lt_length_of_solidAt h.solid_last
  omega

/-- No selector is listed twice. -/
theorem nodup_selectors (h : c.Written t) : c.selectors.Nodup :=
  h.increase.imp fun hlt heq => absurd (heq ▸ hlt) (Int.lt_irrefl _)

end Clause.Written

namespace Fix

variable {t : Text} {used : Usage} {c : Clause}

/-! ## Selectors -/

/-- A comma stands between the names of neighbouring selectors. -/
theorem commaAfter_bounds {r s : Selector} {n : Nat} (hnonneg : 0 ≤ r.namePos)
    (hr : r.namePos ≤ (n : Int)) (hs : (n : Int) < s.namePos) (hc : t[n]? = some ',') :
    r.namePos ≤ commaAfter t r ∧ commaAfter t r < s.namePos := by
  obtain ⟨m, hm, hrm, hmn⟩ := Text.exists_find?_le hnonneg hr hc
  have hcomma : commaAfter t r = (m : Int) := by rw [commaAfter, hm]
  rw [hcomma]
  omega

/-- Neighbouring selectors of a clause that is written are edited one behind the other. -/
theorem adjacent_selectors (used : Usage) (h : c.Written t) :
    c.selectors.IsChain
      (Pruning.Adjacent (selectorPruning t used c) Selector.namePos Selector.namePos) := by
  refine h.commas.imp_of_mem_imp ?_
  rintro r s hr hs ⟨n, hrn, hns, hc⟩
  obtain ⟨hpoint, -, hsolid⟩ := h.names r hr
  obtain ⟨-, -, hsolid⟩ := h.names s hs
  have hnonneg : 0 ≤ r.namePos := h.start_nonneg.trans (h.start_le_point.trans hpoint)
  have hcomma := commaAfter_bounds hnonneg hrn hns hc
  constructor
  · intro _
    exact hrn.trans (Int.le_of_lt hns)
  · simp only [selectorPruning, edit_delete_of_solidAt hsolid]
    exact Tiled.singleton (Int.le_refl _) (by dsimp only; omega) (Int.le_refl _)
  · simp only [selectorPruning, edit_delete_of_solidAt hsolid]
    exact Tiled.singleton hcomma.1 (Int.le_of_lt hcomma.2) (Int.le_refl _)

/-- The last selector of a clause that is written is edited in front of the end of the clause. -/
theorem final_selector (h : c.Written t) {s : Selector} (hs : s ∈ c.selectors) :
    Pruning.Final (selectorPruning t used c) Selector.namePos c.place.stop s := by
  obtain ⟨-, hstop, -⟩ := h.names s hs
  constructor
  · intro _
    exact Int.le_of_lt hstop
  · intro kept
    simp only [selectorPruning, edit_delete_of_solidAt h.solid_last]
    exact Tiled.singleton (Int.le_refl _) (by dsimp only; omega) (by dsimp only; omega)

/-- The edits between the braces of a clause stand in its target. -/
theorem tiled_selectors (h : c.Written t) (hkept : used.kept c ≠ []) :
    Tiled c.place.point c.place.stop ((selectorPruning t used c).edits c.selectors) := by
  have hlive : c.selectors.any (selectorPruning t used c).alive = true := by
    obtain ⟨r, hr⟩ := List.exists_mem_of_ne_nil _ hkept
    obtain ⟨hrmem, hr⟩ := List.mem_filter.1 hr
    exact List.any_eq_true.2 ⟨r, hrmem, hr⟩
  obtain ⟨front, k, tail, hsel, hk, htail⟩ := exists_last_alive hlive
  obtain ⟨s, hs⟩ : ∃ s, s ∈ c.selectors.head? := by
    rw [hsel]
    cases front <;> simp
  have hadjacent := adjacent_selectors used h
  have hfinal : ∀ r ∈ c.selectors.getLast?,
      Pruning.Final (selectorPruning t used c) Selector.namePos c.place.stop r :=
    fun r hr => final_selector h (List.mem_of_getLast? hr)
  have hpoint := (h.names s (List.mem_of_head? hs)).1
  rw [hsel] at hadjacent hfinal hs ⊢
  exact (Pruning.tiled_edits hk htail hadjacent hfinal (fun _ => Int.le_refl _) hs).mono_left hpoint

/-! ## Clauses -/

/-- Something of the clause goes and one selector stays, so the clause is written anew. -/
def collapses (used : Usage) (c : Clause) : Bool :=
  !(used.unused c).isEmpty && (used.kept c).length = 1

theorem kept_ne_nil_of_collapses (h : collapses used c = true) : used.kept c ≠ [] := by
  rw [collapses, Bool.and_eq_true, decide_eq_true_eq] at h
  intro hnil
  rw [hnil] at h
  exact absurd h.2 (by simp)

theorem isDead_of_collapses (h : collapses used c = true) : used.isDead c = false := by
  have hkept := kept_ne_nil_of_collapses h
  cases hdead : used.isDead c with
  | false => rfl
  | true => exact absurd (Usage.isDead_iff.1 hdead).2 hkept

theorem clauseEdits_of_collapses (h : collapses used c = true) (place : Nat) :
    clauseEdits t used place c =
      [⟨cutStart place c, t.trimStop c.place.stop, c.render (used.kept c)⟩] := by
  rw [collapses, Bool.and_eq_true, Bool.not_eq_true', List.isEmpty_eq_false_iff,
    decide_eq_true_eq] at h
  rw [clauseEdits, if_neg h.1, if_pos h.2, edit_replace_of_ne_nil (render_ne_nil c _)]

theorem start_le_cutStart (h : c.Written t) (place : Nat) : c.place.start ≤ cutStart place c := by
  rw [cutStart]
  split
  · exact h.start_le_point
  · exact Int.le_refl _

theorem cutStart_lt_stop (h : c.Written t) (place : Nat) : cutStart place c < c.place.stop := by
  have hstart := h.start_le_point
  have hpoint := h.point_lt_stop
  rw [cutStart]
  split <;> omega

theorem cutStart_le_point (h : c.Written t) (place : Nat) : cutStart place c ≤ c.place.point := by
  rw [cutStart]
  split
  · exact Int.le_refl _
  · exact h.start_le_point

/-- The edits of a clause that is not written anew stand in the clause. -/
theorem tiled_clauseEdits (h : c.Written t) (hdead : used.isDead c = false)
    (hcollapses : collapses used c = false) (place : Nat) :
    Tiled (cutStart place c) c.place.stop (clauseEdits t used place c) := by
  rw [clauseEdits]
  split
  · exact Int.le_of_lt (cutStart_lt_stop h place)
  · rename_i hunused
    split
    · rename_i hone
      simp [collapses, hunused, hone] at hcollapses
    · have hkept := Usage.kept_ne_nil hdead hunused
      exact (tiled_selectors h hkept).mono_left (cutStart_le_point h place)

/-- The edits of a clause of which something stays reach to the end of its line at most. -/
theorem tiled_clauseEdits_trimStop (h : c.Written t) (hdead : used.isDead c = false)
    (place : Nat) :
    Tiled (cutStart place c) (t.trimStop c.place.stop) (clauseEdits t used place c) := by
  have hcut := cutStart_lt_stop h place
  have htrim : c.place.stop ≤ t.trimStop c.place.stop := Text.le_trimStop h.stop_nonneg
  cases hcollapses : collapses used c with
  | false => exact (tiled_clauseEdits h hdead hcollapses place).mono_right htrim
  | true =>
    -- the clause is written anew, and takes the blanks at the end of its line
    rw [clauseEdits_of_collapses hcollapses]
    exact Tiled.singleton (Int.le_refl _) (by dsimp only; omega) (Int.le_refl _)

end Fix

end UnusedImports
