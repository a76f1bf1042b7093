import UnusedImports.Proofs.Edit.Splice
import Mathlib.Algebra.BigOperators.Group.List.Basic
import Mathlib.Algebra.Ring.Int.Defs

/-!
# Batches applied in two stages

The edits of one batch are computed against one text. If only some of them are applied at first
(`chosen`), the others have to follow the text: each is moved by the growth of the chosen edits in
front of it (`drift`). Applied in the order of the whole batch (`postponed`), they lead to the text
that the whole batch leads to (`applyAll_in_stages`).

The proof walks along the sorted batch (`postponedFrom`). What it keeps is that the text of the
first stage begins with as many characters as the stretch behind which the walk stands, drift
included.
-/

set_option autoImplicit false

namespace UnusedImports.Edit

/-! ## The two stages -/

/-- By how many characters the edit lengthens a text. -/
def growth (e : Edit) : Int :=
  e.replacement.length - (e.stop - e.start)

/-- The edit, moved by `d` characters. -/
def moved (d : Int) (e : Edit) : Edit :=
  { e with start := e.start + d, stop := e.stop + d }

/-- The edits of a batch with their places, by start, then by stop, then by place. -/
def ordered (edits : List Edit) : List (Edit × Nat) :=
  edits.zipIdx.mergeSort (List.zipIdxLE le)

/-- The edits with the places chosen for the first stage, in the order of the batch. -/
def chosen (first : Nat → Bool) (edits : List Edit) : List Edit :=
  (edits.zipIdx.filter fun p => first p.2).map Prod.fst

/-- By how many characters the chosen edits in front of an edit move it. -/
def drift (first : Nat → Bool) (edits : List Edit) (p : Edit × Nat) : Int :=
  ((edits.zipIdx.filter fun q => first q.2 && decide (Precedes q p)).map fun q => growth q.1).sum

/-- The other edits, in the order of the whole batch, each moved by the chosen ones in front. -/
def postponed (first : Nat → Bool) (edits : List Edit) : List Edit :=
  ((ordered edits).filter fun p => !first p.2).map fun p => moved (drift first edits p) p.1

/-! ## The order of a part of a batch -/

theorem ordered_perm (edits : List Edit) : (ordered edits).Perm edits.zipIdx :=
  List.mergeSort_perm _ _

theorem map_fst_ordered (edits : List Edit) : (ordered edits).map Prod.fst = inOrder edits :=
  List.mergeSort_zipIdx

theorem pairwise_ordered (edits : List Edit) : (ordered edits).Pairwise Precedes :=
  pairwise_precedes edits

/-- Places in a batch increase. -/
theorem pairwise_places (edits : List Edit) : edits.zipIdx.Pairwise fun p q => p.2 < q.2 := by
  have hplaces : (edits.zipIdx.map Prod.snd).Pairwise (· < ·) := by
    rw [List.zipIdx_map_snd]
    exact List.pairwise_lt_range'
  exact List.pairwise_map.1 hplaces

/-- Edits that are in order with increasing places are in order without them. -/
theorem inOrder_map_fst {ps sorted : List (Edit × Nat)}
    (hplaces : ps.Pairwise fun p q => p.2 < q.2) (hperm : sorted.Perm ps)
    (hsorted : sorted.Pairwise Precedes) :
    inOrder (ps.map Prod.fst) = sorted.map Prod.fst := by
  have hnodup : ps.Nodup := hplaces.imp fun hlt heq => absurd (congrArg Prod.snd heq) hlt.ne
  -- in the list of the edits alone, an edit has the place that its pair has in `ps`
  have hzip : (ps.map fun p => (p.1, ps.idxOf p)) = (ps.map Prod.fst).zipIdx := by
    refine List.ext_getElem (by simp) fun i hi _ => ?_
    simp [hnodup.idxOf_getElem]
  have hidx : ∀ p ∈ ps, ∀ q ∈ ps, p.2 < q.2 → ps.idxOf p < ps.idxOf q := by
    intro p hp q hq hlt
    by_contra hge
    have hpi := List.idxOf_lt_length_of_mem hp
    have hqi := List.idxOf_lt_length_of_mem hq
    rcases Nat.lt_or_eq_of_le (Nat.not_lt.1 hge) with hback | heq
    · have hbehind := List.pairwise_iff_getElem.1 hplaces _ _ hqi hpi hback
      rw [List.getElem_idxOf, List.getElem_idxOf] at hbehind
      omega
    · have hsame : q = p := by
        rw [← List.getElem_idxOf hqi, ← List.getElem_idxOf hpi]
        simp only [heq]
      rw [hsame] at hlt
      exact absurd hlt (Nat.lt_irrefl _)
  refine (arranges_iff.1 ⟨sorted.map fun p => (p.1, ps.idxOf p), ?_, ?_, ?_⟩).symm
  · rw [← hzip]
    exact hperm.map _
  · rw [List.pairwise_map]
    refine hsorted.imp_of_mem ?_
    intro p q hp hq h
    have hplace := hidx p (hperm.mem_iff.1 hp) q (hperm.mem_iff.1 hq)
    simp only [Precedes] at h ⊢
    omega
  · simp [Function.comp_def]

/-- The first stage has its edits in the order of the whole batch. -/
theorem inOrder_chosen (first : Nat → Bool) (edits : List Edit) :
    inOrder (chosen first edits) =
      ((ordered edits).filter fun p => first p.2).map Prod.fst :=
  inOrder_map_fst ((pairwise_places edits).sublist List.filter_sublist)
    ((ordered_perm edits).filter _) ((pairwise_ordered edits).sublist List.filter_sublist)

/-! ## The walk along the batch -/

/-- The edits of a sorted list that are not chosen, moved by the chosen ones in front; what stands in
front of the list moves by `d`. -/
def postponedFrom (first : Nat → Bool) (d : Int) : List (Edit × Nat) → List Edit
  | [] => []
  | p :: rest =>
    if first p.2 then postponedFrom first (d + growth p.1) rest
    else moved d p.1 :: postponedFrom first d rest

variable (first : Nat → Bool)

/-- The walk moves each edit by the chosen edits in front of it. -/
theorem postponedFrom_eq_map {ps : List (Edit × Nat)} (hsorted : ps.Pairwise Precedes) (d : Int) :
    postponedFrom first d ps =
      (ps.filter fun p => !first p.2).map fun p => moved
        (d + ((ps.filter fun q => first q.2 && decide (Precedes q p)).map fun q => growth q.1).sum)
        p.1 := by
  induction ps generalizing d with
  | nil => rfl
  | cons p rest ih =>
    obtain ⟨hp, hrest⟩ := List.pairwise_cons.1 hsorted
    have hnone : ∀ q ∈ p :: rest, ¬ Precedes q p := by
      intro q hq hqp
      rcases List.mem_cons.1 hq with rfl | hq
      · unfold Precedes at hqp
        omega
      · have hpq := hp q hq
        unfold Precedes at hpq hqp
        omega
    cases hfirst : first p.2 with
    | true =>
      rw [postponedFrom, if_pos hfirst, ih hrest, List.filter_cons_of_neg (by simp [hfirst])]
      refine List.map_congr_left fun q hq => ?_
      -- `p` is in front of every later edit, and it is counted first
      have hpq := hp q (List.mem_of_mem_filter hq)
      rw [List.filter_cons_of_pos (by simp [hfirst, hpq]), List.map_cons, List.sum_cons,
        Int.add_assoc]
    | false =>
      rw [postponedFrom, if_neg (by simp [hfirst]), ih hrest,
        List.filter_cons_of_pos (by simp [hfirst]), List.map_cons]
      congr 1
      · rw [List.filter_eq_nil_iff.2 fun q hq => by simp [hnone q hq]]
        simp
      · refine List.map_congr_left fun q _ => ?_
        rw [List.filter_cons_of_neg (by simp [hfirst])]

theorem postponed_eq (edits : List Edit) :
    postponed first edits = postponedFrom first 0 (ordered edits) := by
  rw [postponedFrom_eq_map first (pairwise_ordered edits), postponed]
  refine List.map_congr_left fun p _ => ?_
  rw [drift, Int.zero_add,
    (((ordered_perm edits).filter fun q => first q.2 && decide (Precedes q p)).map
      fun q => growth q.1).sum_eq]

/-! ## The text between the stages -/

/-- A part of edits that follow one another does so too. -/
theorem Tiled.sublist {lo hi : Int} {ds es : List Edit} (hsub : ds.Sublist es)
    (h : Tiled lo hi es) : Tiled lo hi ds := by
  induction hsub generalizing lo with
  | slnil => exact h
  | cons e _ ih => exact (ih h.2.2).mono_left (h.1.trans h.2.1)
  | cons_cons e _ ih => exact ⟨h.1, h.2.1, ih h.2.2⟩

/-- The stretch of a text from `lo` to `hi` has as many characters as lie between these places. -/
theorem length_stretch {t : Text} {lo hi : Int} (hlo : 0 ≤ lo) (hle : lo ≤ hi)
    (hhi : hi ≤ t.length) : (((t.take hi.toNat).drop lo.toNat).length : Int) = hi - lo := by
  rw [List.length_drop, List.length_take]
  omega

/-- A stretch is put together from its parts in front of and behind a place. -/
theorem stretch_append (t : Text) {lo mid hi : Int} (hmid : lo ≤ mid) (hhi : mid ≤ hi) :
    (t.take hi.toNat).drop lo.toNat =
      (t.take mid.toNat).drop lo.toNat ++ (t.take hi.toNat).drop mid.toNat := by
  have hcut := List.take_append_drop (mid.toNat - lo.toNat) ((t.take hi.toNat).drop lo.toNat)
  rw [List.drop_drop, List.take_drop, List.take_take] at hcut
  rw [← hcut]
  congr 3 <;> omega

/-- What stands between two texts is the stretch behind the first and in front of the second. -/
theorem stretch_of_append {front middle : Text} (back : Text) {lo hi : Int}
    (hlo : (front.length : Int) = lo) (hhi : ((front ++ middle).length : Int) = hi) :
    ((front ++ middle ++ back).take hi.toNat).drop lo.toNat = middle := by
  rw [← hlo, ← hhi, Int.toNat_natCast, Int.toNat_natCast, List.take_left, List.drop_left]

/-- A text spliced from `lo` on is the stretch up to `mid` and the text spliced from there, if all
edits stand behind `mid`. -/
theorem spliced_of_le {t : Text} {lo mid : Int} {es : List Edit} (hmid : lo ≤ mid)
    (h : Tiled mid t.length es) :
    spliced t lo es = (t.take mid.toNat).drop lo.toNat ++ spliced t mid es := by
  cases es with
  | nil =>
    have hlength : mid ≤ t.length := h
    have hall := stretch_append t hmid hlength
    simpa [spliced] using hall
  | cons e rest =>
    rw [spliced, spliced, stretch_append t hmid h.1]
    simp only [List.append_assoc]

/-- The second stage, from the edits `ps` on. The text of the first stage begins with `pre`, which
stands for the first `done` characters of the text `t`, so everything behind them is moved by
`d`. -/
theorem spliced_postponedFrom {t : Text} (pre : Text) {done : Int} (d : Int)
    {ps : List (Edit × Nat)} (hdone : 0 ≤ done) (htiled : Tiled done t.length (ps.map Prod.fst))
    (hpre : (pre.length : Int) = done + d) :
    let between := pre ++ spliced t done ((ps.filter fun p => first p.2).map Prod.fst)
    Tiled (done + d) between.length (postponedFrom first d ps) ∧
      spliced between (done + d) (postponedFrom first d ps) =
        spliced t done (ps.map Prod.fst) := by
  induction ps generalizing pre done d with
  | nil =>
    have hlength : (done + d).toNat = pre.length := by omega
    refine ⟨?_, ?_⟩
    · rw [postponedFrom, Tiled, List.length_append]
      omega
    · simp [postponedFrom, spliced, hlength]
  | cons p rest ih =>
    obtain ⟨hstart, hstop, hrest⟩ := htiled
    have hbound := hrest.bounds
    have hchosen : Tiled p.1.stop t.length ((rest.filter fun q => first q.2).map Prod.fst) :=
      hrest.sublist (List.filter_sublist.map _)
    -- the gap in front of `p` stays in both stages
    let gap := (t.take p.1.start.toNat).drop done.toNat
    have hgap : (gap.length : Int) = p.1.start - done :=
      length_stretch hdone hstart (hstop.trans hbound)
    intro between
    cases hfirst : first p.2 with
    | true =>
      -- the replacement of `p` stands in the text already
      have hfilter : (p :: rest).filter (fun q => first q.2) =
          p :: rest.filter fun q => first q.2 := List.filter_cons_of_pos hfirst
      have hbetween : between = pre ++ (gap ++ p.1.replacement) ++
          spliced t p.1.stop ((rest.filter fun q => first q.2).map Prod.fst) := by
        simp only [between, hfilter, List.map_cons, spliced, List.append_assoc, gap]
      have hlength : ((pre ++ (gap ++ p.1.replacement)).length : Int) =
          p.1.stop + (d + growth p.1) := by
        rw [List.length_append, List.length_append, growth]
        omega
      obtain ⟨htiles, hspliced⟩ := ih _ _ (by omega) hrest hlength
      rw [← hbetween] at htiles hspliced
      have hle : done + d ≤ p.1.stop + (d + growth p.1) := by
        rw [List.length_append] at hlength
        omega
      have hfront := stretch_of_append
        (spliced t p.1.stop ((rest.filter fun q => first q.2).map Prod.fst)) hpre hlength
      rw [← hbetween] at hfront
      rw [postponedFrom, if_pos hfirst]
      refine ⟨htiles.mono_left hle, ?_⟩
      rw [spliced_of_le hle htiles, hfront, hspliced, List.map_cons, spliced]
    | false =>
      -- the stretch of `p` is still in the text, moved like the gap
      let kept := (t.take p.1.stop.toNat).drop p.1.start.toNat
      have hkept : (kept.length : Int) = p.1.stop - p.1.start :=
        length_stretch (hdone.trans hstart) hstop hbound
      have hfilter : (p :: rest).filter (fun q => first q.2) = rest.filter fun q => first q.2 :=
        List.filter_cons_of_neg (Bool.eq_false_iff.1 hfirst)
      have hbetween : between = (pre ++ gap ++ kept) ++
          spliced t p.1.stop ((rest.filter fun q => first q.2).map Prod.fst) := by
        simp only [between, hfilter, spliced_of_le (hstart.trans hstop) hchosen,
          stretch_append t hstart hstop, List.append_assoc, gap, kept]
      have hlength : ((pre ++ gap ++ kept).length : Int) = p.1.stop + d := by
        rw [List.length_append, List.length_append]
        omega
      obtain ⟨htiles, hspliced⟩ := ih _ _ (by omega) hrest hlength
      rw [← hbetween] at htiles hspliced
      have hfront : (between.take (p.1.start + d).toNat).drop (done + d).toNat = gap := by
        rw [hbetween, List.append_assoc]
        refine stretch_of_append _ hpre ?_
        rw [List.length_append]
        omega
      rw [postponedFrom, if_neg (Bool.eq_false_iff.1 hfirst)]
      refine ⟨⟨?_, ?_, htiles⟩, ?_⟩
      · change done + d ≤ p.1.start + d
        omega
      · change p.1.start + d ≤ p.1.stop + d
        omega
      · rw [spliced, List.map_cons, spliced]
        change (between.take (p.1.start + d).toNat).drop (done + d).toNat ++ p.1.replacement ++
          spliced between (p.1.stop + d) (postponedFrom first d rest) = _
        rw [hfront, hspliced]

/-! ## The stages together -/

/-- The edits of a batch that can be applied follow one another. -/
theorem tiled_inOrder {t text : Text} {edits : List Edit} (h : applyAll t edits = .ok text) :
    Tiled 0 t.length (inOrder edits) := by
  obtain ⟨hwithin, hapart⟩ := applyAll_ok_iff.1 ⟨text, h⟩
  have hperm := inOrder_perm edits
  have hin : ∀ e ∈ inOrder edits, e.Within t.length := fun e he => hwithin e (hperm.mem_iff.1 he)
  have hpairs := (pairwise_stop_le_start_iff hin (pairwise_inOrder edits)).2
    ((hperm.pairwise_iff Apart.symm).2 hapart)
  exact tiled_of_pairwise (Int.natCast_nonneg t.length) (fun e he => (hin e he).1) hin hpairs

/-- If a batch can be applied, then any part of it can be applied first, and the other edits can be
applied to the text that comes out, in the order of the whole batch and each moved by the growth of
the chosen edits in front of it. In the end there is the same text. -/
theorem applyAll_in_stages {t text : Text} {edits : List Edit}
    (h : applyAll t edits = .ok text) :
    ∃ between, applyAll t (chosen first edits) = .ok between ∧
      applyAll between (postponed first edits) = .ok text := by
  have htiled := tiled_inOrder h
  have htext := htiled.applyAll_eq
  have hchosen : Tiled 0 t.length (inOrder (chosen first edits)) := by
    rw [inOrder_chosen]
    rw [← map_fst_ordered] at htiled
    exact htiled.sublist (List.filter_sublist.map _)
  refine ⟨_, hchosen.applyAll_eq, ?_⟩
  rw [← map_fst_ordered] at htiled
  obtain ⟨htiles, hspliced⟩ := spliced_postponedFrom first [] 0 (Int.le_refl 0) htiled rfl
  rw [Int.add_zero, List.nil_append, ← inOrder_chosen, ← postponed_eq] at htiles hspliced
  have hinOrder := htiles.inOrder_eq
  rw [← hinOrder] at htiles
  rw [htiles.applyAll_eq, hinOrder, hspliced, map_fst_ordered, ← h, htext]

/-- A deletion between two insertions that stand in the batch in the other order, a replacement at
the second insertion, and an insertion behind them. -/
def convergingEdits : List Edit :=
  [⟨1, 3, []⟩, ⟨3, 3, "+".toList⟩, ⟨1, 1, "-".toList⟩, ⟨3, 4, "YY".toList⟩, ⟨5, 5, "!".toList⟩]

/-- The deletion and the replacement are applied first. -/
def convergingStage (place : Nat) : Bool :=
  place = 0 || place = 3

/-- In the order of the text the deletion stands between the insertions. -/
theorem ordered_convergingEdits :
    ordered convergingEdits =
      [(⟨1, 1, "-".toList⟩, 2), (⟨1, 3, []⟩, 0), (⟨3, 3, "+".toList⟩, 1),
        (⟨3, 4, "YY".toList⟩, 3), (⟨5, 5, "!".toList⟩, 4)] := by
  simp [ordered, convergingEdits, List.mergeSort, List.MergeSort.Internal.splitInTwo,
    List.zipIdxLE, le]

/-- The deletion brings the insertions to one offset, where they keep their order. -/
example : postponed convergingStage convergingEdits =
    [⟨1, 1, "-".toList⟩, ⟨1, 1, "+".toList⟩, ⟨4, 4, "!".toList⟩] := by
  rw [postponed, ordered_convergingEdits]
  rfl

theorem applyAll_convergingEdits :
    applyAll "abcdef".toList convergingEdits = .ok "a-+YYe!f".toList ∧
      ∃ between, applyAll "abcdef".toList (chosen convergingStage convergingEdits) = .ok between ∧
        applyAll between (postponed convergingStage convergingEdits) = .ok "a-+YYe!f".toList := by
  have htogether : applyAll "abcdef".toList convergingEdits = .ok "a-+YYe!f".toList := by
    rw [applyAll, ← map_fst_ordered, ordered_convergingEdits]
    rfl
  exact ⟨htogether, applyAll_in_stages convergingStage htogether⟩

end UnusedImports.Edit
