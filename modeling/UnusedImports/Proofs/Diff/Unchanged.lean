import UnusedImports.Proofs.Diff.Script

/-!
# The script between equal lists

Between a list and itself nothing changes (`script_self`). The longest stretch is sought from the
telling lines only, and a stretch off the diagonal could be as long as one on it. But it is never
found first: a run of telling lines is as long as the longest stretch that ends with it
(`RowFits`), and a stretch that ends below the diagonal has its mirror image in an earlier row. So
the stretch found lies on the diagonal (`OnDiagonal`), and extending it gives the whole list.
-/

set_option autoImplicit false

namespace UnusedImports.Diff

/-! ## Places of a line -/

theorem mem_placesFrom {line : Text} {start j : Nat} {ls : List Text} :
    j ∈ placesFrom line start ls ↔ start ≤ j ∧ ls[j - start]? = some line := by
  induction ls generalizing start with
  | nil => simp [placesFrom]
  | cons l rest ih =>
    have hnext : start + 1 ≤ j ∧ rest[j - (start + 1)]? = some line ↔
        start < j ∧ (l :: rest)[j - start]? = some line := by
      refine and_congr_right fun hj => ?_
      have hstep : j - start = j - (start + 1) + 1 := by omega
      rw [hstep, List.getElem?_cons_succ]
    have hhere : start ≤ j ∧ (l :: rest)[j - start]? = some line ↔
        (j = start ∧ l = line) ∨ (start < j ∧ (l :: rest)[j - start]? = some line) := by
      rcases Nat.lt_trichotomy j start with hlt | rfl | hlt
      · constructor
        · rintro ⟨h, -⟩
          omega
        · rintro (⟨h, -⟩ | ⟨h, -⟩) <;> omega
      · simp
      · constructor
        · rintro ⟨-, h⟩
          exact Or.inr ⟨hlt, h⟩
        · rintro (⟨h, -⟩ | ⟨-, h⟩)
          · omega
          · exact ⟨hlt.le, h⟩
    rw [hhere, placesFrom]
    by_cases hl : l = line
    · rw [if_pos hl, List.mem_cons, ih, hnext]
      simp [hl]
    · rw [if_neg hl, ih, hnext]
      simp [hl]

/-- The places of a line increase. -/
theorem pairwise_placesFrom (line : Text) (start : Nat) (ls : List Text) :
    (placesFrom line start ls).Pairwise (· < ·) := by
  induction ls generalizing start with
  | nil => exact List.Pairwise.nil
  | cons l rest ih =>
    rw [placesFrom]
    split
    · exact List.pairwise_cons.2 ⟨fun j hj => (mem_placesFrom.1 hj).1, ih (start + 1)⟩
    · exact ih (start + 1)

/-! ## Rows -/

theorem map_fst_nextRow (places : List Nat) (previous : List (Nat × Nat)) :
    (nextRow places previous).map Prod.fst = places := by
  fun_induction nextRow places previous with
  | case1 => rfl
  | case2 j places previous _ ih => rw [List.map_cons, ih]
  | case3 places previous k size rest _ ih => rw [List.map_cons, ih]
  | case4 j places previous k size rest _ _ ih => rw [List.map_cons, ih]

/-- A stretch of a row starts in the row or extends one of the row before. -/
theorem size_of_mem_nextRow {places : List Nat} {previous : List (Nat × Nat)} {e : Nat × Nat}
    (he : e ∈ nextRow places previous) :
    e.2 = 1 ∨ ∃ f ∈ previous, f.1 + 1 = e.1 ∧ e.2 = f.2 + 1 := by
  induction places generalizing previous with
  | nil => exact absurd he List.not_mem_nil
  | cons j places ih =>
    have hsub : ∀ f ∈ previous.dropWhile fun e => decide (e.1 + 1 < j), f ∈ previous :=
      fun f hf => (List.dropWhile_sublist _).subset hf
    rw [nextRow] at he
    split at he
    · rcases List.mem_cons.1 he with rfl | he
      · exact Or.inl rfl
      · exact (ih he).imp_right fun ⟨f, hf, _⟩ => absurd hf List.not_mem_nil
    · rename_i k size rest hsome
      rw [hsome] at hsub
      split at he
      · rename_i hk
        rcases List.mem_cons.1 he with rfl | he
        · exact Or.inr ⟨(k, size), hsub _ List.mem_cons_self, hk, rfl⟩
        · exact (ih he).imp_right fun ⟨f, hf, h⟩ => ⟨f, hsub _ (List.mem_cons_of_mem _ hf), h⟩
      · rcases List.mem_cons.1 he with rfl | he
        · exact Or.inl rfl
        · exact (ih he).imp_right fun ⟨f, hf, h⟩ => ⟨f, hsub _ hf, h⟩

/-- What a condition does not hold of is not dropped with what it holds of. -/
theorem mem_dropWhile_of_neg {α : Type} {p : α → Bool} {a : α} {l : List α} (ha : a ∈ l)
    (hp : p a = false) : a ∈ l.dropWhile p := by
  induction l with
  | nil => exact ha
  | cons b rest ih =>
    rw [List.dropWhile_cons]
    split
    · rename_i hb
      rcases List.mem_cons.1 ha with rfl | ha
      · rw [hp] at hb
        cases hb
      · exact ih ha
    · exact ha

/-- If places and rows increase, the stretches of a row are extended wherever the next row has a
place for it. -/
theorem mem_nextRow_of_mem {places : List Nat} {previous : List (Nat × Nat)} {k size : Nat}
    (hplaces : places.Pairwise (· < ·)) (hprevious : previous.Pairwise fun e f => e.1 < f.1)
    (hmem : (k, size) ∈ previous) (hk : k + 1 ∈ places) :
    (k + 1, size + 1) ∈ nextRow places previous := by
  induction places generalizing previous with
  | nil => exact absurd hk List.not_mem_nil
  | cons j places ih =>
    rw [List.pairwise_cons] at hplaces
    have hj : j ≤ k + 1 := by
      rcases List.mem_cons.1 hk with rfl | hk
      · exact Nat.le_refl _
      · exact (hplaces.1 _ hk).le
    -- what ends too early for the first place is dropped, and the stretch is not
    have hkept : (k, size) ∈ previous.dropWhile fun e => decide (e.1 + 1 < j) :=
      mem_dropWhile_of_neg hmem (decide_eq_false (Nat.not_lt.2 hj))
    have hsorted := hprevious.sublist (List.dropWhile_sublist fun e => decide (e.1 + 1 < j))
    rw [nextRow]
    split
    · rename_i hnone
      rw [hnone] at hkept
      exact absurd hkept List.not_mem_nil
    · rename_i i m rest hsome
      rw [hsome] at hkept hsorted
      split
      · rename_i hi
        rcases List.mem_cons.1 hkept with heq | hrest
        · cases heq
          rw [hi]
          exact List.mem_cons_self
        · have hlt : i < k := (List.pairwise_cons.1 hsorted).1 _ hrest
          refine List.mem_cons_of_mem _ (ih hplaces.2 (List.pairwise_cons.1 hsorted).2 hrest ?_)
          exact (List.mem_cons.1 hk).resolve_left (by omega)
      · rename_i hi
        have hle : i ≤ k := by
          rcases List.mem_cons.1 hkept with heq | hrest
          · cases heq
            exact Nat.le_refl _
          · exact ((List.pairwise_cons.1 hsorted).1 _ hrest).le
        have hfirst : ¬ i + 1 < j := by
          have hhead := List.head?_dropWhile_not (fun e : Nat × Nat => decide (e.1 + 1 < j)) previous
          rw [hsome] at hhead
          simpa using hhead
        refine List.mem_cons_of_mem _ (ih hplaces.2 hsorted hkept ?_)
        exact (List.mem_cons.1 hk).resolve_left (by omega)

/-! ## Runs of telling lines -/

/-- The line tells where other lists correspond to the list. -/
def tells (ls : List Text) (line : Text) : Bool :=
  isTelling ls.length (placesFrom line 0 ls).length

/-- The number of telling lines that stand directly in front of the place `i`. -/
def tellingRun (ls : List Text) : Nat → Nat
  | 0 => 0
  | i + 1 => if (ls[i]?).any (tells ls) then tellingRun ls i + 1 else 0

theorem tellingRun_le (ls : List Text) (i : Nat) : tellingRun ls i ≤ i := by
  induction i with
  | zero => exact Nat.le_refl 0
  | succ i ih =>
    rw [tellingRun]
    split <;> omega

/-- Of a list compared with itself, the stretches that end with the first `done` lines: none is
longer than the runs of telling lines that end with it, and one on the diagonal is as long as the
run. -/
structure RowFits (ls : List Text) (done : Nat) (row : List (Nat × Nat)) : Prop where
  increase : row.Pairwise fun e f => e.1 < f.1
  size_le_run : ∀ e ∈ row, e.2 ≤ tellingRun ls (e.1 + 1) ∧ e.2 ≤ tellingRun ls done
  diagonal : ∀ k, done = k + 1 → 0 < tellingRun ls done → (k, tellingRun ls done) ∈ row

theorem rowFits_nil (ls : List Text) : RowFits ls 0 [] :=
  ⟨List.Pairwise.nil, fun _ he => absurd he List.not_mem_nil, fun _ hk => by omega⟩

/-- The places of a line as a row of the search takes them. -/
theorem places_located (ls : List Text) (line : Text) :
    (((located ls line).places.filter fun j => decide (0 ≤ j) && decide (j < 0 + ls.length)).map
      (· - 0)) = if tells ls line then placesFrom line 0 ls else [] := by
  have hplaces : (located ls line).places = if tells ls line then placesFrom line 0 ls else [] :=
    rfl
  rw [hplaces]
  split
  · rw [List.filter_eq_self.2]
    · simp
    · intro j hj
      have hline := (mem_placesFrom.1 hj).2
      have hlt := (List.getElem?_eq_some_iff.1 hline).1
      simpa using hlt
  · rfl

/-- The next row fits too. -/
theorem RowFits.next {ls : List Text} {done : Nat} {row : List (Nat × Nat)}
    (h : RowFits ls done row) {line : Text} (hline : ls[done]? = some line) :
    RowFits ls (done + 1) (nextRow (if tells ls line then placesFrom line 0 ls else []) row) := by
  have hrun : ∀ i, ls[i]? = some line →
      tellingRun ls (i + 1) = if tells ls line then tellingRun ls i + 1 else 0 := by
    intro i hi
    rw [tellingRun, hi, Option.any_some]
  cases htells : tells ls line with
  | false =>
    refine ⟨List.Pairwise.nil, fun e he => absurd he List.not_mem_nil, fun k _ hpos => ?_⟩
    rw [hrun _ hline, htells] at hpos
    exact absurd hpos (Nat.lt_irrefl 0)
  | true =>
    simp only [htells, if_true] at hrun ⊢
    have hplace : ∀ e ∈ nextRow (placesFrom line 0 ls) row, ls[e.1]? = some line := by
      intro e he
      have hmem := List.mem_map_of_mem (f := Prod.fst) he
      rw [map_fst_nextRow] at hmem
      exact (mem_placesFrom.1 hmem).2
    refine ⟨?_, ?_, ?_⟩
    · rw [← List.pairwise_map, map_fst_nextRow]
      exact pairwise_placesFrom line 0 ls
    · intro e he
      rw [hrun _ (hplace e he), hrun _ hline]
      rcases size_of_mem_nextRow he with hone | ⟨f, hf, hstep, hsize⟩
      · omega
      · -- the stretch extends one of the row before by a telling line
        have hbound := h.size_le_run f hf
        rw [hstep] at hbound
        omega
    · rintro k hk -
      obtain rfl : done = k := Nat.succ.inj hk
      have hmem : done ∈ placesFrom line 0 ls := mem_placesFrom.2 ⟨Nat.zero_le _, hline⟩
      rw [hrun _ hline]
      by_cases hpos : 0 < tellingRun ls done
      · obtain ⟨i, rfl⟩ : ∃ i, done = i + 1 :=
          Nat.exists_eq_add_one.2 (hpos.trans_le (tellingRun_le ls done))
        exact mem_nextRow_of_mem (pairwise_placesFrom line 0 ls) h.increase (h.diagonal i rfl hpos)
          hmem
      · -- the run starts here, and so does the stretch
        rw [← map_fst_nextRow (placesFrom line 0 ls) row] at hmem
        obtain ⟨⟨j, size⟩, he, rfl⟩ := List.mem_map.1 hmem
        have hsize : size = 0 + 1 := by
          rcases size_of_mem_nextRow he with hone | ⟨f, hf, -, hsize⟩
          · exact hone
          · have hbound := (h.size_le_run f hf).2
            change size = f.2 + 1 at hsize
            omega
        rw [Nat.eq_zero_of_not_pos hpos, ← hsize]
        exact he

/-! ## The stretch found -/

/-- A longer stretch of the row takes the place of the best one. -/
theorem bestOfRow_cons_of_lt {place j size : Nat} {row : List (Nat × Nat)} {best : Stretch}
    (h : best.size < size) :
    bestOfRow place ((j, size) :: row) best =
      bestOfRow place row ⟨place + 1 - size, j + 1 - size, size⟩ := by
  rw [bestOfRow, List.foldl_cons]
  simp only [if_pos h]
  rfl

/-- A stretch is kept if none in the row is longer. -/
theorem bestOfRow_eq_self {place : Nat} {row : List (Nat × Nat)} {best : Stretch}
    (h : ∀ e ∈ row, e.2 ≤ best.size) : bestOfRow place row best = best := by
  induction row with
  | nil => rfl
  | cons e row ih =>
    rw [List.forall_mem_cons] at h
    rw [bestOfRow, List.foldl_cons]
    simp only [if_neg (Nat.not_lt.2 h.1)]
    exact ih h.2

/-- The stretch lies on the diagonal, among the first `done` lines, and is as long as any run of
telling lines there. -/
structure OnDiagonal (ls : List Text) (done : Nat) (best : Stretch) : Prop where
  inOld_eq : best.inOld = best.inNew
  fits : best.inOld + best.size ≤ done
  run_le : ∀ i ≤ done, tellingRun ls i ≤ best.size

/-- Of a row that fits at most the stretch on the diagonal is taken. -/
theorem OnDiagonal.next {ls : List Text} {place : Nat} {row : List (Nat × Nat)}
    {best : Stretch} (h : OnDiagonal ls place best) (hrow : RowFits ls (place + 1) row) :
    OnDiagonal ls (place + 1) (bestOfRow place row best) := by
  have hall : ∀ {size : Nat}, best.size ≤ size → tellingRun ls (place + 1) ≤ size →
      ∀ i ≤ place + 1, tellingRun ls i ≤ size := by
    intro size hbest hlast i hi
    rcases Nat.lt_or_eq_of_le hi with hlt | rfl
    · exact (h.run_le i (Nat.le_of_lt_succ hlt)).trans hbest
    · exact hlast
  by_cases hlonger : best.size < tellingRun ls (place + 1)
  · have hpos : 0 < tellingRun ls (place + 1) := by omega
    obtain ⟨front, back, rfl⟩ := List.append_of_mem (hrow.diagonal place rfl hpos)
    have hincrease := List.pairwise_append.1 hrow.increase
    -- a stretch below the diagonal is no longer than the run in an earlier row
    have hfront : ∀ e ∈ front, e.2 ≤ best.size := by
      intro e he
      have hplace := hincrease.2.2 e he _ List.mem_cons_self
      have hsize := (hrow.size_le_run e (List.mem_append_left _ he)).1
      exact hsize.trans (h.run_le _ hplace)
    have hback : ∀ e ∈ back, e.2 ≤ tellingRun ls (place + 1) := by
      intro e he
      exact (hrow.size_le_run e (List.mem_append_right _ (List.mem_cons_of_mem _ he))).2
    have hbest : bestOfRow place (front ++ (place, tellingRun ls (place + 1)) :: back) best =
          ⟨place + 1 - tellingRun ls (place + 1), place + 1 - tellingRun ls (place + 1),
            tellingRun ls (place + 1)⟩ := by
      have hkept : bestOfRow place front best = best := bestOfRow_eq_self hfront
      rw [bestOfRow] at hkept
      rw [bestOfRow, List.foldl_append, hkept]
      exact (bestOfRow_cons_of_lt hlonger).trans (bestOfRow_eq_self hback)
    have hle := tellingRun_le ls (place + 1)
    rw [hbest]
    refine ⟨rfl, ?_, hall hlonger.le (Nat.le_refl _)⟩
    change place + 1 - tellingRun ls (place + 1) + tellingRun ls (place + 1) ≤ place + 1
    omega
  · rw [bestOfRow_eq_self]
    · exact ⟨h.inOld_eq, h.fits.trans (Nat.le_succ _), hall (Nat.le_refl _) (Nat.not_lt.1 hlonger)⟩
    · intro e he
      exact (hrow.size_le_run e he).2.trans (Nat.not_lt.1 hlonger)

/-- Between a list and itself the search finds a stretch on the diagonal. -/
theorem onDiagonal_bestFrom {ls rest : List Text} {place : Nat} {row : List (Nat × Nat)}
    {best : Stretch} (hrest : rest = ls.drop place) (hplace : place ≤ ls.length)
    (hrow : RowFits ls place row) (hbest : OnDiagonal ls place best) :
    OnDiagonal ls ls.length
      (bestFrom 0 (0 + ls.length) (rest.map (located ls)) place row best) := by
  induction rest generalizing place row best with
  | nil =>
    have hend : place = ls.length :=
      le_antisymm hplace (List.drop_eq_nil_iff.1 hrest.symm)
    rw [List.map_nil, bestFrom]
    exact hend ▸ hbest
  | cons line rest ih =>
    have hline : ls[place]? = some line := by
      rw [← List.head?_drop, ← hrest, List.head?_cons]
    have hnext : rest = ls.drop (place + 1) := by
      rw [← List.tail_drop, ← hrest, List.tail_cons]
    have hfits := hrow.next hline
    rw [List.map_cons, bestFrom]
    simp only [places_located]
    exact ih hnext (List.getElem?_eq_some_iff.1 hline).1 hfits (hbest.next hfits)

/-! ## The whole list -/

/-- Equal lists agree everywhere. -/
theorem agreement_self (old : List OldLine) : agreement old (plain old) = old.length := by
  induction old with
  | nil => rfl
  | cons a as ih =>
    change (if a.line = a.line then agreement as (plain as) + 1 else 0) = as.length + 1
    rw [if_pos rfl, ih]

/-- A stretch on the diagonal extends to the whole list. -/
theorem extend_of_onDiagonal {ls : List Text} {best : Stretch}
    (h : OnDiagonal ls ls.length best) :
    extend (ls.map (located ls)) ls best = ⟨0, 0, ls.length⟩ := by
  obtain ⟨heq, hfits, -⟩ := h
  have hplain : ∀ part : List Text, plain (part.map (located ls)) = part :=
    fun part => plain_map_located ls part
  have hback : agreement ((ls.map (located ls)).take best.inOld).reverse
      (ls.take best.inNew).reverse = best.inOld := by
    have hself := agreement_self ((ls.take best.inOld).reverse.map (located ls))
    rw [hplain, List.length_map, List.length_reverse, List.length_take] at hself
    rw [← List.map_take, ← List.map_reverse, ← heq, hself]
    omega
  have hahead : agreement ((ls.map (located ls)).drop (best.inOld + best.size))
      (ls.drop (best.inNew + best.size)) = ls.length - (best.inOld + best.size) := by
    have hself := agreement_self ((ls.drop (best.inOld + best.size)).map (located ls))
    rw [hplain, List.length_map, List.length_drop] at hself
    rw [← List.map_drop, ← heq, hself]
  rw [extend, hback, hahead, Stretch.mk.injEq]
  omega

theorem longest_self (ls : List Text) :
    longest 0 (ls.map (located ls)) ls = ⟨0, 0, ls.length⟩ := by
  refine extend_of_onDiagonal (onDiagonal_bestFrom rfl (Nat.zero_le _) (rowFits_nil ls) ?_)
  refine ⟨rfl, Nat.le_refl 0, fun i hi => ?_⟩
  rw [Nat.le_zero.1 hi]
  exact Nat.le_refl 0

theorem align_nil (start : Nat) : align start [] [] = [] := by
  rw [align]
  split
  · rename_i h
    obtain ⟨hsize, hfits, -⟩ := h
    exact absurd hfits (by simp only [List.length_nil]; omega)
  · rfl

/-- Between a list and itself nothing changes. -/
theorem script_self (ls : List Text) : (script ls ls).any Segment.isChange = false := by
  cases hls : ls with
  | nil => rw [script, List.map_nil, align_nil]; rfl
  | cons line rest =>
    rw [← hls]
    have hshared : Shared (ls.map (located ls)) ls ⟨0, 0, ls.length⟩ := by
      refine ⟨by simp [hls], by simp, ?_⟩
      rw [List.drop_zero, List.take_of_length_le (by simp), plain_map_located]
      simp
    have halign : align 0 (ls.map (located ls)) ls = [.same ls] := by
      rw [align]
      simp only [longest_self, dif_pos hshared]
      rw [List.take_zero, List.take_zero, align_nil, List.drop_zero,
        List.take_of_length_le (by simp), plain_map_located, List.drop_of_length_le (by simp),
        List.drop_of_length_le (by simp), align_nil]
      rfl
    rw [script, halign]
    rfl

end UnusedImports.Diff
