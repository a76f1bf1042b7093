import UnusedImports.Proofs.Fix.Collision
import UnusedImports.Proofs.Source.Outcome
import UnusedImports.Proofs.Source.Targets

/-!
# How a statement is edited

The targets of a statement of which something stays are a row from which some members are removed.
`Statement.pieces` cuts the text of the statement accordingly, its edits are the swaps of the pieces
(`statementEdits_eq_cuts`), and the new text of the pieces is a statement with exactly the imports
that stay (`exists_statement`). `exists_pieces` covers all fates of a statement, with what is taken
from the texts around it.
-/

set_option autoImplicit false

namespace UnusedImports.Grammar

open UnusedImports.Fix

variable {w : WordClass} {t : Text} {used : Usage} {id : Nat → Int}

/-! ## Clauses at their points -/

/-- The clause for a target at `n` whose span does not cover a keyword. -/
def Target.record (id : Nat → Int) (n : Nat) (e : Target w) : Clause :=
  e.clause (id n) n n

/-- How clauses are edited, if each can be cut from its point on. -/
def targetPruning (t : Text) (used : Usage) : Pruning Clause where
  alive c := !used.isDead c
  own c := clauseEdits t used 0 c
  cut c next := (delete t c.place.point next.place.start).edit
  bridge kept next := (delete t kept.place.stop next.place.start).edit
  close kept c := (action c.place.point (t.repairStop kept.place.stop c.place.stop []) []).edit

/-- A clause that is cut from its point on is edited in the same way at every place. -/
theorem agrees_fst {p : Clause × Nat} (h : cutStart p.2 p.1 = p.1.place.point) :
    Pruning.Agrees (clausePruning t used) (targetPruning t used) Prod.fst p where
  alive := rfl
  own := by
    change clauseEdits t used p.2 p.1 = clauseEdits t used 0 p.1
    rw [clauseEdits, clauseEdits, h]
    rfl
  cut b := by
    change (delete t (cutStart p.2 p.1) b.1.place.start).edit = _
    rw [h]
    rfl
  bridge b := rfl
  close kept := by
    change (action (cutStart p.2 p.1) _ []).edit = _
    rw [h]
    rfl

/-- The clauses of a statement are edited from their points on: only the first of them starts in
front of its point, and the keyword stays. -/
theorem edits_clauses (n : Nat) (s : Statement w) :
    (clausePruning t used).edits (s.clauses id n).zipIdx =
      (targetPruning t used).edits (s.targets.placed targetGap Target.text (Target.record id)
        (s.point n)) := by
  have hpoints : ∀ p ∈ (s.clauses id n).zipIdx, cutStart p.2 p.1 = p.1.place.point := by
    intro p hp
    rw [Statement.clauses, List.zipIdx_cons] at hp
    rcases List.mem_cons.1 hp with rfl | hp
    · -- at the first place the cut starts at the point by definition
      rfl
    · -- everywhere else the clause starts at its point
      obtain ⟨m, e, -, -, -, hrecord⟩ := Row.mem_behind (List.fst_mem_of_mem_zipIdx hp)
      rw [cutStart, ← hrecord]
      split <;> rfl
  rw [Pruning.edits_map fun p hp => agrees_fst (hpoints p hp), List.zipIdx_map_fst]
  -- the first clause and its record differ in the start of the span only, which nothing reads
  exact @Pruning.edits_cons_congr _ (targetPruning t used) (s.first id n)
    (s.targets.first.record id (s.point n)) rfl rfl rfl rfl rfl _

/-! ## Targets in a row -/

/-- How the targets of a statement are cut. The text `back` is taken with the end of the statement,
if its last target is removed or written anew. -/
def targetCarving (used : Usage) (id : Nat → Int) (back : Text) :
    Carving (Spaces × White) (Target w) where
  gap := targetGap
  body := Target.text
  alive n e := !used.isDead (e.record id n)
  own n e := e.pieces used (e.record id n) [] n
  extra n e := if used.isDead (e.record id n) || collapses used (e.record id n) then back else []
  final n e := e.pieces used (e.record id n) back n

theorem not_isDead_of_alive {back : Text} {n : Nat} {e : Target w}
    (h : (targetCarving used id back).alive n e = true) : used.isDead (e.record id n) = false := by
  simpa [targetCarving] using h

theorem sound_targetCarving (used : Usage) (id : Nat → Int) (back : Text) :
    (targetCarving used id back : Carving (Spaces × White) (Target w)).Sound where
  own n e := by
    refine (e.old_pieces (e.record id n) [] n).trans ?_
    simp [targetCarving]
  final n e h := by
    refine (e.old_pieces (e.record id n) back n).trans ?_
    simp [targetCarving, not_isDead_of_alive h]
  body_ne_nil e := e.startsSolid.ne_nil
  gap_ne_nil g := by simp [targetCarving, targetGap]
  own_proper n e := e.proper_pieces (e.record id n) [] n
  final_proper n e := e.proper_pieces (e.record id n) back n

/-- Nothing is taken from a comma between targets and the blanks in front of it. -/
theorem trimStop_targetGap {n : Nat} {e : Target w} {g : Spaces × White}
    (h : t.HasAt n (e.text ++ targetGap g)) :
    t.trimStop (n + e.text.length : Nat) = (n + e.text.length : Nat) := by
  obtain ⟨hbody, back, hback⟩ := Text.hasAt_append h
  have hnone : Text.absorbed false (targetGap g ++ back) = [] := by
    rw [targetGap, List.append_assoc, List.cons_append]
    exact Text.absorbed_append_solid false (fun _ hc => Spaces.isBlank g.1 hc) (by decide)
  rw [Text.trimStop_of_drop (Text.le_length_of_hasAt hbody e.startsSolid.ne_nil), ← hback, hnone,
    List.length_nil, Nat.add_zero]

/-- What is taken behind the last target of a statement. -/
theorem trimStop_after {n : Nat} {e : Target w} {after : Text} (h : t.drop n = e.text ++ after) :
    t.trimStop (n + e.text.length : Nat) =
      (n + e.text.length + (Text.absorbed false after).length : Nat) := by
  have hlength := Text.le_length_of_hasAt (Text.hasAt_of_drop h) e.startsSolid.ne_nil
  rw [Text.trimStop_of_drop hlength, Text.drop_add_of_drop h]

/-- Targets are edited as they are cut. -/
theorem carves_targets (after : Text) :
    (targetCarving used id (Text.absorbed false after) : Carving (Spaces × White) (Target w)).Carves
      t (targetPruning t used) (Target.record id) after where
  alive _ _ := rfl
  own n e g h halive := by
    obtain ⟨back, hback⟩ := h
    have hat : t.drop n = e.text ++ (targetGap g ++ back) :=
      hback.symm.trans (List.append_assoc _ _ _)
    exact clauseEdits_eq_cuts hat (trimStop_targetGap ⟨back, hback⟩) (not_isDead_of_alive halive)
  cut _ _ _ d h := edit_delete_of_solidAt (Carving.solidAt_next h d.startsSolid)
  bridge _ _ _ d h := edit_delete_of_solidAt (Carving.solidAt_next h d.startsSolid)
  final _ _ h halive := clauseEdits_eq_cuts h (trimStop_after h) (not_isDead_of_alive halive)
  close m k n e hk h hgone := by
    have hdead : used.isDead (e.record id n) = true := by simpa [targetCarving] using hgone
    -- solid text stands in front of the tail, so no line is emptied
    have hlast : t.solidAt ((m + k.text.length : Nat) - 1) = true :=
      Text.solidAt_last_of_hasAt hk k.endsSolid
    have hempties :
        t.emptiesLine (m + k.text.length : Nat) (n + e.text.length : Nat) [] = false := by
      rw [Text.emptiesLine, Text.blankBefore_of_solidAt hlast, Bool.false_and, Bool.false_and]
    have hstop := Text.repairStop_of_not_emptiesLine hempties
    rw [trimStop_after h] at hstop
    change (⟨n, t.repairStop (m + k.text.length : Nat) (n + e.text.length : Nat) [], []⟩ : Edit) = _
    rw [hstop]
    simp [targetCarving, hdead]

/-! ## Clauses of targets -/

/-- A clause of a target is dead exactly if no selector stays. -/
theorem isDead_clause (i : Int) (start n : Nat) (e : Target w) :
    used.isDead (e.clause i start n) = (used.kept (e.clause i start n)).isEmpty := by
  have hne : (e.clause i start n).selectors ≠ [] := by
    rw [Target.clause]
    cases e.imports with
    | single name => exact List.cons_ne_nil _ _
    | braces lead items => exact List.cons_ne_nil _ _
  rw [Bool.eq_iff_iff, Usage.isDead_iff, List.isEmpty_iff]
  refine ⟨fun h => h.2, fun hkept => ⟨fun hunused => hne ?_, hkept⟩⟩
  rw [← Usage.kept_eq_self hunused, hkept]

/-- The clauses of a statement are clauses of its targets. -/
theorem exists_target_of_mem_clauses {n : Nat} {s : Statement w} {c : Clause}
    (hc : c ∈ s.clauses id n) :
    ∃ (i : Int) (start m : Nat) (e : Target w), c = e.clause i start m := by
  rcases List.mem_cons.1 hc with rfl | hc
  · exact ⟨_, _, _, _, rfl⟩
  · obtain ⟨m, e, -, -, -, rfl⟩ := Row.mem_behind hc
    exact ⟨_, _, _, _, rfl⟩

/-- Of the clauses of a statement the dead ones are those of which no selector stays. -/
theorem isDead_of_mem_clauses {n : Nat} {s : Statement w} {c : Clause} (hc : c ∈ s.clauses id n) :
    used.isDead c = (used.kept c).isEmpty := by
  obtain ⟨i, start, m, e, rfl⟩ := exists_target_of_mem_clauses hc
  exact isDead_clause i start m e

/-! ## Statements of which something stays -/

/-- The pieces of a statement at `n` of which something stays. -/
def Statement.pieces (used : Usage) (id : Nat → Int) (back : Text) (n : Nat) (s : Statement w) :
    List Piece :=
  .keep (keyword ++ s.lead.val) ::
    (targetCarving used id back).pieces (s.point n) s.targets.first s.targets.rest

variable {n : Nat} {s : Statement w} {after : Text}

/-- Some target stays if not all clauses are dead. -/
theorem live_targets (hlive : (s.clauses id n).all used.isDead = false) (back : Text) :
    (targetCarving used id back).live (s.point n) s.targets.first s.targets.rest = true := by
  have halive : (targetCarving used id back : Carving (Spaces × White) (Target w)).placed
      (targetCarving used id back).alive (s.point n) s.targets.first s.targets.rest =
        (s.targets.placed targetGap Target.text (Target.record id) (s.point n)).map
          fun c => !used.isDead c :=
    (@Row.map_placed _ _ _ _ targetGap Target.text (Target.record id) (fun c => !used.isDead c)
      (s.point n) s.targets).symm
  have hfirst : used.isDead (s.first id n) = used.isDead (s.targets.first.record id (s.point n)) :=
    rfl
  have hany : ((s.clauses id n).any fun c => !used.isDead c) = true := by
    rw [← List.not_all_eq_any_not, hlive]
    rfl
  rw [Statement.clauses, List.any_cons, hfirst] at hany
  rw [Carving.live, halive, List.any_map, Row.placed, List.any_cons]
  exact hany

/-- The imports of a statement that stay are those of its clauses at their points. -/
theorem imports_clauses (n : Nat) (s : Statement w) :
    used.imports (s.clauses id n) =
      ((s.targets.placed targetGap Target.text (Target.record id) (s.point n)).filter
        fun c => !used.isDead c).map fun c => (used.reduce c).content := by
  have hfilter : ((s.clauses id n).filter fun c => !(used.kept c).isEmpty) =
      (s.clauses id n).filter fun c => !used.isDead c :=
    List.filter_congr fun c hc => by rw [isDead_of_mem_clauses hc]
  have hfirst : used.isDead (s.first id n) = used.isDead (s.targets.first.record id (s.point n)) :=
    rfl
  rw [Usage.imports, hfilter, Statement.clauses, Row.placed, List.filter_cons, List.filter_cons,
    hfirst]
  split <;> rfl

/-- The edits of a statement of which something stays are the swaps of its pieces. -/
theorem statementEdits_eq_cuts (hat : t.drop n = s.text ++ after)
    (hlive : (s.clauses id n).all used.isDead = false) :
    statementEdits t used (s.clauses id n) =
      Piece.cuts n (s.pieces used id (Text.absorbed false after) n) := by
  have htargets : t.drop (n + (keyword ++ s.lead.val).length) =
      s.targets.text targetGap Target.text ++ after := by
    refine Text.drop_add_of_drop ?_
    rw [hat, Statement.text, List.append_assoc (keyword ++ s.lead.val)]
  have hpoint : n + (keyword ++ s.lead.val).length = s.point n := by
    rw [List.length_append, Statement.point, Nat.add_assoc]
  rw [hpoint] at htargets
  rw [statementEdits_of_live hlive, edits_clauses, Statement.pieces, Piece.cuts_keep, hpoint]
  exact Carving.edits_placed (carves_targets after) (sound_targetCarving used id _) htargets
    (live_targets hlive _)

/-- What is left of a statement is a statement that imports what stays. -/
theorem exists_statement (hlive : (s.clauses id n).all used.isDead = false) (back : Text) :
    ∃ d : Statement w, Piece.new (s.pieces used id back n) = d.text ∧
      d.contents = used.imports (s.clauses id n) := by
  have hown : ∀ m (e : Target w), (targetCarving used id back).alive m e = true →
      ∃ d : Target w, Piece.new ((targetCarving used id back).own m e) =
        (targetCarving used id back).body d ∧
          d.content = (used.reduce (e.record id m)).content :=
    fun _ _ halive => exists_target (not_isDead_of_alive halive)
  have hfinal : ∀ m (e : Target w), (targetCarving used id back).alive m e = true →
      ∃ d : Target w, Piece.new ((targetCarving used id back).final m e) =
        (targetCarving used id back).body d ∧
          d.content = (used.reduce (e.record id m)).content :=
    fun _ _ halive => exists_target (not_isDead_of_alive halive)
  obtain ⟨r, hr, hmembers⟩ := Carving.exists_row hown hfinal (live_targets hlive back)
  have hfilter := Carving.survivors_eq_map_filter (c := targetCarving used id back)
    (f := Target.record (w := w) id) (q := fun c => !used.isDead c)
    (fun c => (used.reduce c).content) (fun _ _ => rfl) (s.point n) s.targets.first s.targets.rest
  refine ⟨{ s with targets := r }, ?_, ?_⟩
  · rw [Statement.pieces, Piece.new_cons, hr]
    rfl
  · rw [Statement.contents, hmembers, hfilter, imports_clauses]
    rfl

theorem lastExtra_targetCarving (back : Text) (n : Nat) (e : Target w)
    (rest : List ((Spaces × White) × Target w)) :
    (targetCarving used id back).lastExtra n e rest ∈ [[], back] := by
  induction rest generalizing n e with
  | nil =>
    rw [Carving.lastExtra, targetCarving]
    dsimp only
    split <;> simp
  | cons q rest ih => exact ih _ q.2

/-- The pieces of a statement make up its text, and what may be taken behind it. -/
theorem Statement.exists_old_pieces (id : Nat → Int) (back : Text) (n : Nat) (s : Statement w) :
    ∃ extra ∈ [[], back], Piece.old (s.pieces used id back n) = s.text ++ extra := by
  have hextra : (targetCarving used id back).lastExtra (s.point n) s.targets.first s.targets.rest ∈
      [[], back] := lastExtra_targetCarving back _ _ _
  refine ⟨_, hextra, ?_⟩
  rw [Statement.pieces, Piece.old_cons, Carving.old_pieces (sound_targetCarving used id back),
    ← List.append_assoc]
  rfl

theorem Statement.proper_pieces (id : Nat → Int) (back : Text) (n : Nat) (s : Statement w) :
    ∀ q ∈ s.pieces used id back n, q.Proper := by
  intro q hq
  rcases List.mem_cons.1 hq with rfl | hq
  · trivial
  · exact Carving.proper_pieces (sound_targetCarving used id back) _ _ _ q hq

/-! ## Statements of which nothing stays -/

/-- The clauses of a statement extend over its text. -/
theorem extent_clauses (n : Nat) (s : Statement w) :
    Span.extent ((s.clauses id n).map Clause.place) =
      some ((n : Int), ((n + s.text.length : Nat) : Int)) := by
  have hend : s.point n + (s.targets.text targetGap Target.text).length = n + s.text.length := by
    rw [Statement.text, Statement.point, List.length_append, List.length_append]
    omega
  have hstart : n ≤ s.point n := by
    rw [Statement.point]
    omega
  refine Span.extent_eq_some ⟨_, List.mem_map_of_mem List.mem_cons_self, rfl⟩ ?_ ?_
  · obtain ⟨m, e, hmem, hlast⟩ := @Row.exists_last_placed _ _ _ targetGap Target.text
      (Target.record id) (s.point n) s.targets
    -- the first clause stops where its record does
    have hstops : ((s.clauses id n).map Clause.place).map Span.stop =
        ((s.targets.placed targetGap Target.text (Target.record id) (s.point n)).map
          Clause.place).map Span.stop := rfl
    have hstop : (e.record id m).place.stop = (n + s.text.length : Nat) :=
      congrArg Int.ofNat (hlast.trans hend)
    rw [← List.mem_map, hstops, ← hstop]
    exact List.mem_map_of_mem (List.mem_map_of_mem hmem)
  · intro r hr
    obtain ⟨c, hc, rfl⟩ := List.mem_map.1 hr
    rcases List.mem_cons.1 hc with rfl | hc
    · have hfirst := @Row.length_first_le _ _ targetGap Target.text s.targets.first s.targets.rest
      refine ⟨Int.le_refl _, Int.ofNat_le.2 ?_⟩
      rw [← hend]
      exact Nat.add_le_add_left hfirst _
    · obtain ⟨m, e, -, hle, hstop, rfl⟩ := Row.mem_behind hc
      exact ⟨Int.ofNat_le.2 (by omega), Int.ofNat_le.2 (hstop.trans (Nat.le_of_eq hend))⟩

/-- The edit of a statement of which nothing stays. -/
theorem statementEdits_of_removed (n : Nat) (s : Statement w)
    (hdead : (s.clauses id n).all used.isDead = true) :
    statementEdits t used (s.clauses id n) =
      [(delete t n (n + s.text.length : Nat)).edit] := by
  rw [statementEdits, hdead, if_pos rfl, extent_clauses]

/-- A statement is removed with what repair takes from the texts around it. -/
theorem exists_delete_eq_cuts (x y m : Text) :
    ∃ front ∈ Fate.fronts y .removed, ∃ back ∈ Fate.backs x .removed,
      [(delete (x ++ m ++ y) x.length (x.length + m.length : Nat)).edit] =
        Piece.cuts (x.length - back.length) [.swap (back ++ m ++ front) []] := by
  have hdrop : (x ++ m ++ y).drop (x.length + m.length) = y := by
    rw [← List.length_append, List.drop_left]
  have htake : (x ++ m ++ y).take x.length = x := by
    rw [List.append_assoc, List.take_left]
  have hlength : x.length + m.length ≤ (x ++ m ++ y).length := by
    rw [List.length_append, List.length_append]
    omega
  rw [delete, edit_replace]
  cases hempties : (x ++ m ++ y).emptiesLine x.length (x.length + m.length : Nat) [] with
  | false =>
    -- text stands beside the statement: blanks in front of a line break go
    refine ⟨Text.absorbed false y, by simp [Fate.fronts], [], by simp [Fate.backs], ?_⟩
    rw [Text.repairStart, hempties, Text.repairStop_of_not_emptiesLine hempties,
      Text.trimStop_of_drop hlength, hdrop]
    simp [Nat.add_assoc]
  | true =>
    -- the statement stands alone on its lines: the whole lines go
    have hsuffix := (List.rtakeWhile_suffix Text.isBlank x).length_le
    refine ⟨Text.absorbed true y, by simp [Fate.fronts], x.rtakeWhile Text.isBlank,
      by simp [Fate.backs], ?_⟩
    rw [Text.repairStart_of_emptiesLine (by omega) hempties,
      Text.repairStop_of_emptiesLine hlength hempties, htake, hdrop]
    simp [Nat.add_assoc]
    omega

/-! ## All fates -/

/-- In the text around a statement its edits are the swaps of pieces that leave what becomes of the
statement, and that take what its fate allows from the texts around it. -/
theorem Statement.exists_pieces (used : Usage) (id : Nat → Int) (x y : Text) (s : Statement w) :
    ∃ front ∈ (used.fate (s.clauses id x.length)).fronts y,
      ∃ back ∈ (used.fate (s.clauses id x.length)).backs x, ∃ ps : List Piece,
        (∀ q ∈ ps, q.Proper) ∧ Piece.old ps = back ++ s.text ++ front ∧
          statementEdits (x ++ s.text ++ y) used (s.clauses id x.length) =
            Piece.cuts (x.length - back.length) ps ∧
          s.Becomes used (s.clauses id x.length) (Piece.new ps) := by
  cases hfate : used.fate (s.clauses id x.length) with
  | kept =>
    refine ⟨[], by simp [Fate.fronts], [], by simp [Fate.backs], [.keep s.text],
      Piece.proper_keep s.text, ?_, ?_, ?_⟩
    · simp [Piece.before]
    · rw [statementEdits_eq_nil (Usage.unused_of_kept hfate)]
      rfl
    · simp [Statement.Becomes, hfate, Piece.after]
  | removed =>
    have hdead : (s.clauses id x.length).all used.isDead = true := by
      rw [List.all_eq_true]
      intro c hc
      rw [isDead_of_mem_clauses hc, Usage.kept_of_removed hfate c hc]
      rfl
    obtain ⟨front, hfront, back, hback, hedits⟩ := exists_delete_eq_cuts x y s.text
    refine ⟨front, hfront, back, hback, [.swap (back ++ s.text ++ front) []],
      Piece.proper_swap (by simp [s.startsSolid.ne_nil]) [], ?_, ?_, ?_⟩
    · exact List.append_nil _
    · rw [statementEdits_of_removed x.length s hdead, hedits]
    · simp [Statement.Becomes, hfate, Piece.after]
  | mended =>
    have hlive : (s.clauses id x.length).all used.isDead = false := by
      obtain ⟨c, hc, hkept⟩ := Usage.exists_kept_of_mended hfate
      rw [List.all_eq_false]
      refine ⟨c, hc, ?_⟩
      rw [isDead_of_mem_clauses hc, List.isEmpty_iff]
      exact hkept
    have hat : (x ++ s.text ++ y).drop x.length = s.text ++ y := by
      rw [List.append_assoc, List.drop_left]
    obtain ⟨extra, hextra, hold⟩ :=
      @Statement.exists_old_pieces w used id (Text.absorbed false y) x.length s
    refine ⟨extra, hextra, [], by simp [Fate.backs], _, s.proper_pieces id _ _, hold, ?_, ?_⟩
    · exact statementEdits_eq_cuts hat hlive
    · rw [Statement.Becomes, hfate]
      exact exists_statement hlive _

end UnusedImports.Grammar
