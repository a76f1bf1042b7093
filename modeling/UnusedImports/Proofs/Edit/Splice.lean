import UnusedImports.Proofs.Edit.Batch

/-!
# A batch of edits as one splice

The edits of a batch are applied one after the other, from the end of the text towards its start,
and only neighbours are checked. Yet the batch acts as one simultaneous splice
(`applyAll_splices`). With the edits arranged by start, by stop and by their places in the batch
(`Arranges`), it is accepted exactly if all edits lie in the text and every edit stops before every
later one starts. Its text is then made of the gaps between the edits and of the replacements
(`spliced`). A batch that is not accepted is refused for the first edit that lies outside the text
or starts before its predecessor stops (`FirstRefused`).
-/

set_option autoImplicit false

namespace UnusedImports.Edit

/-! ## The order of a batch -/

/-- An edit, given with its place in a batch, comes before another one: it starts before it, or else
it stops before it, or else it has an earlier place. -/
def Precedes (p q : Edit × Nat) : Prop :=
  p.1.start < q.1.start ∨
    p.1.start = q.1.start ∧ (p.1.stop < q.1.stop ∨ p.1.stop = q.1.stop ∧ p.2 < q.2)

instance (p q : Edit × Nat) : Decidable (Precedes p q) :=
  inferInstanceAs (Decidable (_ ∨ _ ∧ (_ ∨ _ ∧ _)))

/-- `sorted` has the edits of a batch by start, then by stop, then by their places. -/
def Arranges (sorted edits : List Edit) : Prop :=
  ∃ ps : List (Edit × Nat), ps.Perm edits.zipIdx ∧ ps.Pairwise Precedes ∧ ps.map Prod.fst = sorted

/-- The places of a list are different. -/
theorem nodup_places (edits : List Edit) : (edits.zipIdx.map Prod.snd).Nodup := by
  rw [List.zipIdx_map_snd]
  exact List.nodup_range'

/-- In a list of edits with different places, the order of the edits with their places is the order
by start, stop and place. -/
theorem precedes_of_zipIdxLE {p q : Edit × Nat} (h : List.zipIdxLE le p q = true)
    (hne : p.2 ≠ q.2) : Precedes p q := by
  rw [List.zipIdxLE] at h
  unfold Precedes
  split at h
  · rename_i hle
    rw [le_iff] at hle
    split at h
    · have hplaces := of_decide_eq_true h
      omega
    · rename_i hge
      rw [le_iff] at hge
      omega
  · cases h

/-- A batch sorted with its places is in order by start, stop and place. -/
theorem pairwise_precedes (edits : List Edit) :
    (edits.zipIdx.mergeSort (List.zipIdxLE le)).Pairwise Precedes := by
  have hpairs := List.pairwise_mergeSort (List.zipIdxLE_trans trans_le)
    (List.zipIdxLE_total total_le) edits.zipIdx
  have hplaces : (edits.zipIdx.mergeSort (List.zipIdxLE le)).Pairwise fun p q => p.2 ≠ q.2 := by
    have hperm := List.mergeSort_perm edits.zipIdx (List.zipIdxLE le)
    have hnodup := (hperm.map Prod.snd).nodup_iff.2 (nodup_places edits)
    exact List.pairwise_map.1 hnodup
  exact hpairs.imp₂ (fun p q => precedes_of_zipIdxLE) hplaces

/-- There is one arrangement of a batch, and it is the order in which the batch is checked. -/
theorem arranges_iff {sorted edits : List Edit} :
    Arranges sorted edits ↔ sorted = inOrder edits := by
  have hperm := List.mergeSort_perm edits.zipIdx (List.zipIdxLE le)
  constructor
  · rintro ⟨ps, hps, hsorted, rfl⟩
    have heq : ps = edits.zipIdx.mergeSort (List.zipIdxLE le) := by
      refine List.Perm.eq_of_pairwise ?_ hsorted (pairwise_precedes edits) (hps.trans hperm.symm)
      intro p q _ _ hpq hqp
      -- no edit comes before one that comes before it
      unfold Precedes at hpq hqp
      omega
    rw [heq, inOrder]
    exact List.mergeSort_zipIdx
  · rintro rfl
    exact ⟨_, hperm, pairwise_precedes edits, List.mergeSort_zipIdx⟩

/-! ## The spliced text -/

/-- The part of the text behind `done` in which the replacements of a sorted batch stand in the
places of their stretches: the gap in front of each edit, the replacement of the edit, and in the
end the text behind the last edit. -/
def spliced (t : Text) (done : Int) : List Edit → Text
  | [] => t.drop done.toNat
  | e :: rest => (t.take e.start.toNat).drop done.toNat ++ e.replacement ++ spliced t e.stop rest

/-- Edits that lie in the text and stop before the later ones start follow one another. -/
theorem tiled_of_pairwise {lo : Int} {length : Nat} {es : List Edit} (hlo : lo ≤ length)
    (hstart : ∀ e ∈ es, lo ≤ e.start) (hwithin : ∀ e ∈ es, e.Within length)
    (hpairs : es.Pairwise fun a b => a.stop ≤ b.start) : Tiled lo length es := by
  induction es generalizing lo with
  | nil => exact hlo
  | cons e rest ih =>
    obtain ⟨hafter, hrest⟩ := List.pairwise_cons.1 hpairs
    have he := hwithin e List.mem_cons_self
    refine ⟨hstart e List.mem_cons_self, he.2.1, ?_⟩
    exact ih he.2.2 hafter (fun d hd => hwithin d (List.mem_cons_of_mem e hd)) hrest

/-- Edits that follow one another are applied as one splice: what stands in front of `done` stays,
and the replacements stand behind it. -/
theorem foldr_apply_eq_spliced {t : Text} {done : Int} {es : List Edit} (hdone : 0 ≤ done)
    (h : Tiled done t.length es) :
    es.foldr apply t = t.take done.toNat ++ spliced t done es := by
  -- the edits behind `e` are applied first, and they leave what stands in front of the end of `e`
  induction es generalizing done with
  | nil => exact (List.take_append_drop done.toNat t).symm
  | cons e rest ih =>
    obtain ⟨hstart, hstop, hrest⟩ := h
    have hbound := hrest.bounds
    have hothers := ih (by omega) hrest
    have hfront : (t.take e.stop.toNat ++ spliced t e.stop rest).take e.start.toNat =
        t.take e.start.toNat := by
      rw [List.take_append_of_le_length (by rw [List.length_take]; omega), List.take_take]
      congr 1
      omega
    have hback : (t.take e.stop.toNat ++ spliced t e.stop rest).drop e.stop.toNat =
        spliced t e.stop rest := by
      refine List.drop_left' ?_
      rw [List.length_take]
      omega
    have hgap : t.take done.toNat ++ (t.take e.start.toNat).drop done.toNat =
        t.take e.start.toNat := by
      have htake : t.take done.toNat = (t.take e.start.toNat).take done.toNat := by
        rw [List.take_take]
        congr 1
        omega
      rw [htake]
      exact List.take_append_drop _ _
    calc (e :: rest).foldr apply t
        = apply e (t.take e.stop.toNat ++ spliced t e.stop rest) := by
          rw [List.foldr_cons, hothers]
      _ = t.take e.start.toNat ++ e.replacement ++ spliced t e.stop rest := by
          rw [apply, hfront, hback]
      _ = t.take done.toNat ++ (t.take e.start.toNat).drop done.toNat ++ e.replacement ++
            spliced t e.stop rest := by
          rw [hgap]
      _ = t.take done.toNat ++ spliced t done (e :: rest) := by
          simp only [spliced, List.append_assoc]

/-- Edits that follow one another in the text can be applied. -/
theorem Tiled.applyAll_eq {t : Text} {edits : List Edit} (h : Tiled 0 t.length (inOrder edits)) :
    applyAll t edits = .ok (spliced t 0 (inOrder edits)) := by
  have hfault : fault? t.length none (inOrder edits) = none :=
    (fault?_eq_none_iff none _).2 ⟨fun e he => h.mem_bounds he, by simp, h.pairwise_stop_le_start⟩
  rw [applyAll_eq_ok hfault, foldr_apply_eq_spliced (Int.le_refl 0) h]
  rfl

/-! ## The first edit that is refused -/

/-- Every edit of a sorted batch with its predecessor; in front of the batch stands `previous`. -/
def withPrevious (previous : Option Edit) (sorted : List Edit) : List (Option Edit × Edit) :=
  (previous :: sorted.map some).zip sorted

/-- Why an edit with a given predecessor is refused: it lies outside the text, or it lies in the
text and starts before its predecessor stops. -/
inductive Refused (length : Nat) : Option Edit × Edit → Refusal → Prop where
  | outside {previous : Option Edit} {e : Edit} (h : ¬ e.Within length) :
    Refused length (previous, e) (.outside e length)
  | overlap {p e : Edit} (hwithin : e.Within length) (h : e.start < p.stop) :
    Refused length (some p, e) (.overlap p e)

/-- Of edits with their predecessors `r` refuses the first one that is refused. -/
def FirstRefused (length : Nat) (pairs : List (Option Edit × Edit)) (r : Refusal) : Prop :=
  ∃ front p back, pairs = front ++ p :: back ∧ Refused length p r ∧
    ∀ q ∈ front, ∀ s, ¬ Refused length q s

variable {length : Nat} {r : Refusal}

theorem not_firstRefused_nil : ¬ FirstRefused length [] r := by
  rintro ⟨front, p, back, heq, -⟩
  cases front <;> cases heq

/-- The first edit that is refused is the first edit, or the first one of the others. -/
theorem firstRefused_cons {p : Option Edit × Edit} {ps : List (Option Edit × Edit)} :
    FirstRefused length (p :: ps) r ↔
      Refused length p r ∨ (∀ s, ¬ Refused length p s) ∧ FirstRefused length ps r := by
  constructor
  · rintro ⟨front, q, back, heq, hq, hfront⟩
    cases front with
    | nil =>
      cases heq
      exact Or.inl hq
    | cons f front =>
      cases heq
      exact Or.inr ⟨hfront p List.mem_cons_self, front, q, back, rfl, hq,
        fun d hd => hfront d (List.mem_cons_of_mem p hd)⟩
  · rintro (hp | ⟨hp, front, q, back, rfl, hq, hfront⟩)
    · exact ⟨[], p, ps, rfl, hp, fun d hd => absurd hd List.not_mem_nil⟩
    · exact ⟨p :: front, q, back, rfl, hq, List.forall_mem_cons.2 ⟨hp, hfront⟩⟩

/-- The check of a sorted batch finds the first edit that is refused. -/
theorem fault?_eq_some_iff (previous : Option Edit) (es : List Edit) :
    fault? length previous es = some r ↔ FirstRefused length (withPrevious previous es) r := by
  induction es generalizing previous with
  | nil => exact iff_of_false (by simp [fault?]) not_firstRefused_nil
  | cons e rest ih =>
    have hcons : withPrevious previous (e :: rest) = (previous, e) :: withPrevious (some e) rest :=
      rfl
    rw [hcons, firstRefused_cons, ← ih]
    by_cases hwithin : e.Within length
    · cases previous with
      | none =>
        have hnone : ∀ s, ¬ Refused length (none, e) s := by
          rintro s (⟨h⟩)
          exact h hwithin
        simp [fault?, hwithin, hnone]
      | some p =>
        by_cases hoverlap : e.start < p.stop
        · have hsome : Refused length (some p, e) r ↔ .overlap p e = r := by
            constructor
            · rintro (⟨h⟩ | ⟨-, h⟩)
              · exact absurd hwithin h
              · rfl
            · rintro rfl
              exact .overlap hwithin hoverlap
          have hnot : ¬ ∀ s, ¬ Refused length (some p, e) s :=
            fun h => h _ (.overlap hwithin hoverlap)
          simp [fault?, hwithin, hoverlap, hsome, hnot]
        · have hnone : ∀ s, ¬ Refused length (some p, e) s := by
            rintro s (⟨h⟩ | ⟨-, h⟩)
            · exact h hwithin
            · exact hoverlap h
          simp [fault?, hwithin, hoverlap, hnone]
    · have hsome : Refused length (previous, e) r ↔ .outside e length = r := by
        constructor
        · rintro (⟨-⟩ | ⟨h, -⟩)
          · rfl
          · exact absurd h hwithin
        · rintro rfl
          exact .outside hwithin
      have hnot : ¬ ∀ s, ¬ Refused length (previous, e) s := fun h => h _ (.outside hwithin)
      cases previous <;> simp [fault?, hwithin, hsome, hnot]

/-- A batch is refused for the first edit that is refused. -/
theorem applyAll_eq_error_iff {t : Text} {edits : List Edit} :
    applyAll t edits = .error r ↔ FirstRefused t.length (withPrevious none (inOrder edits)) r := by
  rw [← fault?_eq_some_iff, applyAll, check]
  cases fault? t.length none (inOrder edits) with
  | none => exact iff_of_false (fun h => by cases h) (fun h => by cases h)
  | some s =>
    constructor
    · intro h
      cases h
      rfl
    · intro h
      cases h
      rfl

/-! ## The splice -/

/-- A batch with the arrangement `sorted` is accepted exactly if its edits lie in the text and every
edit stops before every later one starts. Its text is then the text in which all replacements stand
in the places of their stretches. Otherwise the batch is refused for the first edit that lies
outside the text, or in the text and in front of the end of its predecessor. -/
theorem applyAll_splices {t : Text} {edits sorted : List Edit} (h : Arranges sorted edits) :
    ((∃ text, applyAll t edits = .ok text) ↔
      (∀ e ∈ edits, e.Within t.length) ∧ sorted.Pairwise fun a b => a.stop ≤ b.start) ∧
    (∀ text, applyAll t edits = .ok text → text = spliced t 0 sorted) ∧
    ∀ r, applyAll t edits = .error r ↔ FirstRefused t.length (withPrevious none sorted) r := by
  obtain rfl := arranges_iff.1 h
  have hperm := inOrder_perm edits
  have haccepted : (∃ text, applyAll t edits = .ok text) ↔
      (∀ e ∈ edits, e.Within t.length) ∧ (inOrder edits).Pairwise fun a b => a.stop ≤ b.start := by
    rw [applyAll_ok_iff]
    refine and_congr_right fun hwithin => ?_
    rw [pairwise_stop_le_start_iff (fun e he => hwithin e (hperm.mem_iff.1 he))
      (pairwise_inOrder edits)]
    exact (hperm.pairwise_iff Apart.symm).symm
  refine ⟨haccepted, ?_, fun r => applyAll_eq_error_iff⟩
  intro text htext
  obtain ⟨hwithin, hpairs⟩ := haccepted.1 ⟨text, htext⟩
  have hin : ∀ e ∈ inOrder edits, e.Within t.length := fun e he => hwithin e (hperm.mem_iff.1 he)
  have hfault : fault? t.length none (inOrder edits) = none :=
    (fault?_eq_none_iff none _).2 ⟨hin, by simp, hpairs⟩
  have htiled := tiled_of_pairwise (Int.natCast_nonneg t.length) (fun e he => (hin e he).1) hin
    hpairs
  rw [applyAll_eq_ok hfault, foldr_apply_eq_spliced (Int.le_refl 0) htiled] at htext
  exact (Except.ok.inj htext).symm

/-- Two insertions and a replacement at one offset, and an edit in front of them that comes last in
the batch. -/
def tiedEdits : List Edit :=
  [⟨2, 3, "YY".toList⟩, ⟨2, 2, "-".toList⟩, ⟨2, 2, "+".toList⟩, ⟨0, 2, "X".toList⟩]

/-- The insertions stand in the order of the batch and in front of the replacement. -/
theorem applyAll_tiedEdits :
    Arranges [⟨0, 2, "X".toList⟩, ⟨2, 2, "-".toList⟩, ⟨2, 2, "+".toList⟩, ⟨2, 3, "YY".toList⟩]
        tiedEdits ∧
      applyAll "abcdef".toList tiedEdits = .ok "X-+YYdef".toList := by
  have harranges : Arranges [⟨0, 2, "X".toList⟩, ⟨2, 2, "-".toList⟩, ⟨2, 2, "+".toList⟩,
      ⟨2, 3, "YY".toList⟩] tiedEdits := by
    refine ⟨[(⟨0, 2, "X".toList⟩, 3), (⟨2, 2, "-".toList⟩, 1), (⟨2, 2, "+".toList⟩, 2),
      (⟨2, 3, "YY".toList⟩, 0)], ?_, ?_, rfl⟩ <;> decide
  have haccepted := (applyAll_splices (t := "abcdef".toList) harranges).1.2
    ⟨by decide, by decide⟩
  obtain ⟨text, htext⟩ := haccepted
  have hspliced := (applyAll_splices harranges).2.1 text htext
  refine ⟨harranges, ?_⟩
  rw [htext, hspliced]
  decide

end UnusedImports.Edit
