import UnusedImports.Text.Repair
import Mathlib.Data.List.Basic

/-!
# How far white space repair reaches

White space repair takes blanks at the end of a line, and blanks and a line break around an emptied
line. It stops at any other character, so it does not touch an edit in front of solid text
(`blankAfter_of_solidAt`), it does not reach over solid text (`trimStop_le`), and the repairs of
two stretches with solid ends stay apart (`reachStop_le_reachStart`). Repairs inside such a stretch
keep to its reach (`reachStart_mono`, `reachStop_mono`).
-/

set_option autoImplicit false

namespace UnusedImports.Text

/-- A character that is neither a blank nor a line break stands at an offset. -/
def solidAt (t : Text) (offset : Int) : Bool :=
  0 ≤ offset &&
    match t[offset.toNat]? with
    | some c => !isBlank c && !isLineBreak c
    | none => false

/-- Where a stretch stops that takes the blanks in front of a line break. -/
def trimStop (t : Text) (stop : Int) : Int :=
  match t.nextNonBlank? stop with
  | none => stop
  | some next => if t.endsLine next then next else stop

/-- Blanks stand at an offset, and only blanks up to the end of the line. -/
def blanksEndLine (t : Text) (offset : Int) : Bool :=
  t.blankAfter offset &&
    match t[offset.toNat]? with
    | some c => isBlank c
    | none => false

/-- The least offset at which the repair of a stretch from `start` can start. -/
def reachStart (t : Text) (start : Int) : Int :=
  if t.blankBefore start then t.lastNonBlank start + 1 else start

/-- The greatest offset at which the repair of a stretch up to `stop` can stop. -/
def reachStop (t : Text) (stop : Int) : Int :=
  match t.nextNonBlank? stop with
  | none => stop
  | some next => if t.endsLine next then next + 1 else stop

variable {t : Text}

theorem solidAt_iff {offset : Int} :
    t.solidAt offset = true ↔
      0 ≤ offset ∧ ∃ c, t[offset.toNat]? = some c ∧ isBlank c = false ∧ isLineBreak c = false := by
  rw [solidAt, Bool.and_eq_true, decide_eq_true_eq]
  cases t[offset.toNat]? <;> simp

theorem lt_length_of_solidAt {offset : Int} (h : t.solidAt offset = true) :
    offset < t.length := by
  obtain ⟨hnonneg, c, hc, -⟩ := solidAt_iff.1 h
  have hlt := (List.getElem?_eq_some_iff.1 hc).1
  omega

/-! ## The next character that is not a blank -/

/-- Blanks are taken up to any character that is not one. -/
theorem length_takeWhile_le {p : Char → Bool} {l : Text} {n : Nat} {c : Char}
    (hc : l[n]? = some c) (hp : p c = false) : (l.takeWhile p).length ≤ n := by
  induction l generalizing n with
  | nil => simp at hc
  | cons x rest ih =>
    cases n with
    | zero =>
      simp only [List.getElem?_cons_zero, Option.some.injEq] at hc
      simp [hc, hp]
    | succ n =>
      rw [List.getElem?_cons_succ] at hc
      rw [List.takeWhile_cons]
      split
      · exact Nat.succ_le_succ (ih hc)
      · exact Nat.zero_le _

theorem nextNonBlank?_bounds {b : Int} {n : Nat} (h : t.nextNonBlank? b = some n) :
    b.toNat ≤ n ∧ n < t.length := by
  rw [nextNonBlank?] at h
  split at h
  · rename_i hlt
    cases h
    exact ⟨Nat.le_add_right _ _, hlt⟩
  · cases h

/-- The next character that is not a blank is not behind any such character. -/
theorem exists_nextNonBlank?_le {b : Int} {n : Nat} {c : Char} (hb : b.toNat ≤ n)
    (hc : t[n]? = some c) (hblank : isBlank c = false) :
    ∃ m, t.nextNonBlank? b = some m ∧ m ≤ n := by
  have hdrop : (t.drop b.toNat)[n - b.toNat]? = some c := by
    rw [List.getElem?_drop, Nat.add_sub_cancel' hb]
    exact hc
  have hle := length_takeWhile_le hdrop hblank
  have hlt := (List.getElem?_eq_some_iff.1 hc).1
  refine ⟨_, if_pos ?_, ?_⟩ <;> omega

/-- What stands at the next offset without a blank is not a blank. -/
theorem getElem?_nextNonBlank? {b : Int} {n : Nat} (h : t.nextNonBlank? b = some n) :
    ∃ c, t[n]? = some c ∧ isBlank c = false := by
  rw [nextNonBlank?] at h
  split at h
  · rename_i hlt
    cases h
    have hget : t[b.toNat + ((t.drop b.toNat).takeWhile isBlank).length]? =
        ((t.drop b.toNat).dropWhile isBlank).head? := by
      have hright := @List.getElem?_append_right _ ((t.drop b.toNat).takeWhile isBlank)
        ((t.drop b.toNat).dropWhile isBlank) _ (Nat.le_refl _)
      rw [List.takeWhile_append_dropWhile, Nat.sub_self] at hright
      rw [← List.getElem?_drop, List.head?_eq_getElem?, hright]
    cases hrest : ((t.drop b.toNat).dropWhile isBlank) with
    | nil =>
      rw [hrest, List.head?_nil, List.getElem?_eq_none_iff] at hget
      omega
    | cons c rest =>
      rw [hrest, List.head?_cons] at hget
      have hhead := List.head?_dropWhile_not isBlank (t.drop b.toNat)
      rw [hrest, List.head?_cons] at hhead
      exact ⟨c, hget, hhead⟩
  · cases h

/-! ## The last character that is not a blank -/

theorem le_length_dropWhile {p : Char → Bool} (front back : Text) {c : Char} (hp : p c = false) :
    back.length + 1 ≤ ((front ++ c :: back).dropWhile p).length := by
  induction front with
  | nil => simp [hp]
  | cons x rest ih =>
    rw [List.cons_append, List.dropWhile_cons]
    split
    · exact ih
    · simp only [List.length_cons, List.length_append]
      omega

theorem lastNonBlank_lt (offset : Int) : t.lastNonBlank offset < offset := by
  rw [lastNonBlank]
  split
  · omega
  · have hle := (List.dropWhile_sublist isBlank
      (l := (t.take offset.toNat).reverse)).length_le
    rw [List.length_reverse, List.length_take] at hle
    omega

/-- The last character that is not a blank is not in front of any such character. -/
theorem le_lastNonBlank {offset : Int} {n : Nat} {c : Char} (hn : (n : Int) < offset)
    (hc : t[n]? = some c) (hblank : isBlank c = false) : (n : Int) ≤ t.lastNonBlank offset := by
  have hget : (t.take offset.toNat)[n]? = some c := by
    rw [List.getElem?_take_of_lt (by omega)]
    exact hc
  obtain ⟨hlt, hget⟩ := List.getElem?_eq_some_iff.1 hget
  -- what stands in front of the offset, split at `n`: the last character that is not a blank is
  -- found from the right, so dropping blanks stops at `c` at the latest
  have hsplit : t.take offset.toNat =
      (t.take offset.toNat).take n ++ c :: (t.take offset.toNat).drop (n + 1) := by
    rw [← hget, List.getElem_cons_drop, List.take_append_drop]
  have hle := le_length_dropWhile ((t.take offset.toNat).drop (n + 1)).reverse
    ((t.take offset.toNat).take n).reverse hblank
  have hreverse : (t.take offset.toNat).reverse =
      ((t.take offset.toNat).drop (n + 1)).reverse ++
        c :: ((t.take offset.toNat).take n).reverse := by
    conv_lhs => rw [hsplit]
    simp
  rw [← hreverse, List.length_reverse, List.length_take_of_le (Nat.le_of_lt hlt)] at hle
  rw [lastNonBlank, if_neg (by omega)]
  omega

/-! ## Solid text stops the repair -/

/-- Nothing is repaired behind a stretch that is followed by solid text. -/
theorem blankAfter_of_solidAt {stop : Int} (h : t.solidAt stop = true) :
    t.blankAfter stop = false := by
  obtain ⟨-, c, hc, hblank, hbreak⟩ := solidAt_iff.1 h
  obtain ⟨m, hm, hle⟩ := exists_nextNonBlank?_le (Nat.le_refl _) hc hblank
  have heq : m = stop.toNat := Nat.le_antisymm hle (nextNonBlank?_bounds hm).1
  subst heq
  simp [blankAfter, hm, endsLine, hc, hbreak]

/-- The line in front of an offset behind solid text is not blank. -/
theorem blankBefore_of_solidAt {start : Int} (h : t.solidAt (start - 1) = true) :
    t.blankBefore start = false := by
  obtain ⟨hnonneg, c, hc, hblank, hbreak⟩ := solidAt_iff.1 h
  have hle : ((start - 1).toNat : Int) ≤ t.lastNonBlank start :=
    le_lastNonBlank (by omega) hc hblank
  have hlt := lastNonBlank_lt (t := t) start
  have heq : t.lastNonBlank start = start - 1 := by omega
  rw [blankBefore, heq, endsLine, hc]
  simp only [Bool.or_eq_false_iff, decide_eq_false_iff_not]
  exact ⟨by omega, hbreak⟩

theorem repairStart_of_not_blankAfter {start stop : Int} {replacement : Text}
    (h : t.blankAfter stop = false) : t.repairStart start stop replacement = start := by
  simp [repairStart, emptiesLine, h]

theorem repairStop_of_not_blankAfter {start stop : Int} {replacement : Text}
    (h : t.blankAfter stop = false) : t.repairStop start stop replacement = stop := by
  rw [repairStop]
  cases t.nextNonBlank? stop with
  | none => rfl
  | some next => simp [emptiesLine, h]

/-- A stretch that does not empty a line takes the blanks at the end of the line. -/
theorem repairStop_of_not_emptiesLine {start stop : Int} {replacement : Text}
    (h : t.emptiesLine start stop replacement = false) :
    t.repairStop start stop replacement = t.trimStop stop := by
  rw [repairStop, trimStop]
  cases hnext : t.nextNonBlank? stop with
  | none => rfl
  | some next => simp [h, blankAfter, hnext]

/-! ## The ends of repaired stretches -/

theorem trimStop_of_none {stop : Int} (h : t.nextNonBlank? stop = none) :
    t.trimStop stop = stop := by
  rw [trimStop, h]

theorem trimStop_of_some {stop : Int} {next : Nat} (h : t.nextNonBlank? stop = some next) :
    t.trimStop stop = if t.endsLine next then (next : Int) else stop := by
  rw [trimStop, h]

theorem reachStop_of_none {stop : Int} (h : t.nextNonBlank? stop = none) :
    t.reachStop stop = stop := by
  rw [reachStop, h]

theorem reachStop_of_some {stop : Int} {next : Nat} (h : t.nextNonBlank? stop = some next) :
    t.reachStop stop = if t.endsLine next then (next : Int) + 1 else stop := by
  rw [reachStop, h]

theorem le_trimStop {stop : Int} (hstop : 0 ≤ stop) : stop ≤ t.trimStop stop := by
  cases hnext : t.nextNonBlank? stop with
  | none => exact Int.le_of_eq (trimStop_of_none hnext).symm
  | some next =>
    have hbounds := nextNonBlank?_bounds hnext
    rw [trimStop_of_some hnext]
    split <;> omega

/-- Trimming does not reach over solid text. -/
theorem trimStop_le {stop offset : Int} (hstop : 0 ≤ stop) (hle : stop ≤ offset)
    (h : t.solidAt offset = true) : t.trimStop stop ≤ offset := by
  obtain ⟨-, c, hc, hblank, -⟩ := solidAt_iff.1 h
  obtain ⟨m, hm, hmle⟩ := exists_nextNonBlank?_le (b := stop) (by omega) hc hblank
  rw [trimStop_of_some hm]
  split <;> omega

/-- In front of solid text something is trimmed exactly if blanks end the line. -/
theorem lt_trimStop_iff {stop offset : Int} (hstop : 0 ≤ stop) (hle : stop ≤ offset)
    (h : t.solidAt offset = true) : stop < t.trimStop stop ↔ t.blanksEndLine stop = true := by
  obtain ⟨-, c, hc, hblank, -⟩ := solidAt_iff.1 h
  obtain ⟨m, hm, hmle⟩ := exists_nextNonBlank?_le (b := stop) (by omega) hc hblank
  obtain ⟨d, hd⟩ : ∃ d, t[stop.toNat]? = some d := by
    have hlt := (List.getElem?_eq_some_iff.1 hc).1
    exact ⟨_, List.getElem?_eq_getElem (by omega)⟩
  have hbounds := nextNonBlank?_bounds hm
  have hends : t.blanksEndLine stop = (t.endsLine m && isBlank d) := by
    rw [blanksEndLine, blankAfter, hm, hd]
  -- the blanks from `stop` on are none exactly if `stop` is the next offset without a blank
  have hnone : isBlank d = false ↔ m = stop.toNat := by
    constructor
    · intro hdblank
      obtain ⟨n, hn, hnle⟩ := exists_nextNonBlank?_le (b := stop) (Nat.le_refl _) hd hdblank
      rw [hm] at hn
      cases hn
      exact Nat.le_antisymm hnle hbounds.1
    · rintro rfl
      obtain ⟨e, he, heblank⟩ := getElem?_nextNonBlank? hm
      rw [hd] at he
      cases he
      exact heblank
  rw [trimStop_of_some hm, hends]
  cases hline : t.endsLine m with
  | false => simp
  | true =>
    rw [if_pos rfl, Bool.true_and]
    cases hdblank : isBlank d with
    | false =>
      have heq := hnone.1 hdblank
      refine iff_of_false ?_ Bool.false_ne_true
      omega
    | true =>
      have hne : m ≠ stop.toNat := fun heq => by
        rw [hnone.2 heq] at hdblank
        exact Bool.false_ne_true hdblank
      refine iff_of_true ?_ rfl
      omega

theorem trimStop_le_reachStop (stop : Int) : t.trimStop stop ≤ t.reachStop stop := by
  cases hnext : t.nextNonBlank? stop with
  | none => exact Int.le_of_eq ((trimStop_of_none hnext).trans (reachStop_of_none hnext).symm)
  | some next =>
    rw [trimStop_of_some hnext, reachStop_of_some hnext]
    split <;> omega

theorem le_reachStop {stop : Int} (hstop : 0 ≤ stop) : stop ≤ t.reachStop stop :=
  Int.le_trans (le_trimStop hstop) (trimStop_le_reachStop stop)

theorem reachStop_le_length {stop : Int} (hstop : stop ≤ t.length) :
    t.reachStop stop ≤ t.length := by
  cases hnext : t.nextNonBlank? stop with
  | none =>
    rw [reachStop_of_none hnext]
    exact hstop
  | some next =>
    have hbounds := nextNonBlank?_bounds hnext
    rw [reachStop_of_some hnext]
    split <;> omega

theorem reachStart_le (start : Int) : t.reachStart start ≤ start := by
  have hlt := lastNonBlank_lt (t := t) start
  rw [reachStart]
  split <;> omega

theorem reachStart_nonneg {start : Int} (hstart : 0 ≤ start) : 0 ≤ t.reachStart start := by
  have hlast : -1 ≤ t.lastNonBlank start := by
    rw [lastNonBlank, if_neg (by omega)]
    omega
  rw [reachStart]
  split <;> omega

/-- A repaired stretch stays within reach of its two ends. -/
theorem repair_bounds (start : Int) {stop : Int} (hstop : 0 ≤ stop) (replacement : Text) :
    t.reachStart start ≤ t.repairStart start stop replacement ∧
      t.repairStart start stop replacement ≤ start ∧
      stop ≤ t.repairStop start stop replacement ∧
      t.repairStop start stop replacement ≤ t.reachStop stop := by
  cases hempties : t.emptiesLine start stop replacement with
  | false =>
    rw [repairStart, hempties, repairStop_of_not_emptiesLine hempties]
    exact ⟨reachStart_le start, Int.le_refl _, le_trimStop hstop, trimStop_le_reachStop stop⟩
  | true =>
    have hblank : t.blankBefore start = true ∧ t.blankAfter stop = true := by
      simp only [emptiesLine, Bool.and_eq_true] at hempties
      exact hempties.1
    have hstart : t.repairStart start stop replacement = t.reachStart start := by
      rw [repairStart, hempties, if_pos rfl, reachStart, hblank.1, if_pos rfl]
    have hreach : t.repairStop start stop replacement = t.reachStop stop := by
      rw [repairStop, reachStop]
      cases hnext : t.nextNonBlank? stop with
      | none => rfl
      | some next =>
        have hline : t.endsLine next = true := by
          have hafter := hblank.2
          simpa [blankAfter, hnext] using hafter
        simp [hempties, hline]
    rw [hstart, hreach]
    exact ⟨Int.le_refl _, reachStart_le start, le_reachStop hstop, Int.le_refl _⟩

/-- Repairs of two stretches do not meet, if the first ends with solid text and the second starts
with solid text. -/
theorem reachStop_le_reachStart {stop start : Int} (hstop : t.solidAt (stop - 1) = true)
    (hstart : t.solidAt start = true) (hle : stop ≤ start) :
    t.reachStop stop ≤ t.reachStart start := by
  obtain ⟨hnonneg, c, hc, hblank, -⟩ := solidAt_iff.1 hstop
  obtain ⟨-, d, hd, hdblank, hdbreak⟩ := solidAt_iff.1 hstart
  -- the last character of the first stretch is in front of the second one
  have hlast : ((stop - 1).toNat : Int) ≤ t.lastNonBlank start :=
    le_lastNonBlank (by omega) hc hblank
  obtain ⟨next, hnext, hnextle⟩ := exists_nextNonBlank?_le (b := stop) (by omega) hd hdblank
  have hbounds := nextNonBlank?_bounds hnext
  have hreach : stop ≤ t.reachStart start := by
    rw [reachStart]
    split <;> omega
  rw [reachStop_of_some hnext]
  split
  · rename_i hline
    -- a line break stands between the stretches
    have hne : next ≠ start.toNat := by
      rintro rfl
      rw [endsLine, hd] at hline
      simp only [hdbreak] at hline
      exact Bool.false_ne_true hline
    obtain ⟨e, he, heblank⟩ := getElem?_nextNonBlank? hnext
    have hbreak : (next : Int) ≤ t.lastNonBlank start := le_lastNonBlank (by omega) he heblank
    rw [reachStart]
    split <;> omega
  · exact hreach

/-- What is repaired behind a part of a stretch with a solid end stays within reach of the end. -/
theorem reachStop_mono {stop limit : Int} (hstop : 0 ≤ stop) (hle : stop ≤ limit)
    (hsolid : t.solidAt (limit - 1) = true) : t.reachStop stop ≤ t.reachStop limit := by
  rcases Int.lt_or_eq_of_le hle with hlt | rfl
  · obtain ⟨hnonneg, c, hc, hblank, -⟩ := solidAt_iff.1 hsolid
    -- the next character without a blank is not behind the solid end
    obtain ⟨next, hnext, hnextle⟩ := exists_nextNonBlank?_le (b := stop) (by omega) hc hblank
    have hreach := le_reachStop (t := t) (Int.le_trans hstop hle)
    rw [reachStop_of_some hnext]
    split <;> omega
  · exact Int.le_refl _

/-- What is repaired in front of a part of a stretch with a solid start stays within reach of the
start. -/
theorem reachStart_mono {start limit : Int} (hle : limit ≤ start)
    (hsolid : t.solidAt limit = true) : t.reachStart limit ≤ t.reachStart start := by
  rcases Int.lt_or_eq_of_le hle with hlt | rfl
  · obtain ⟨hnonneg, c, hc, hblank, -⟩ := solidAt_iff.1 hsolid
    have hlast : (limit.toNat : Int) ≤ t.lastNonBlank start :=
      le_lastNonBlank (by omega) hc hblank
    have hreach := reachStart_le (t := t) limit
    rw [reachStart.eq_def t start]
    split <;> omega
  · exact Int.le_refl _

/-! ## The next place of a character -/

/-- The next place of a character is not behind any place of it. -/
theorem exists_find?_le {c : Char} {start : Int} {n : Nat} (hstart : 0 ≤ start)
    (hle : start ≤ n) (hc : t[n]? = some c) :
    ∃ m, t.find? c start = some m ∧ start ≤ m ∧ m ≤ n := by
  have hlt := (List.getElem?_eq_some_iff.1 hc).1
  have hreach : t.reach start = start.toNat := by
    rw [reach, if_neg (by omega), Nat.min_eq_left (by omega)]
  have hget : (t.drop start.toNat)[n - start.toNat]? = some c := by
    rw [List.getElem?_drop, Nat.add_sub_cancel' (by omega)]
    exact hc
  obtain ⟨hdrop, hget⟩ := List.getElem?_eq_some_iff.1 hget
  -- a first place behind `n` would pass over the character at `n`
  have hfind : (t.drop start.toNat).findIdx (· = c) ≤ n - start.toNat := by
    by_contra hlate
    have hnot := List.not_of_lt_findIdx (Nat.lt_of_not_le hlate)
    simp [hget] at hnot
  refine ⟨start.toNat + (t.drop start.toNat).findIdx (· = c), ?_, by omega, by omega⟩
  rw [find?, hreach, List.findIdx?_eq_some_iff_findIdx_eq.2 ⟨by omega, rfl⟩, Option.map_some]

end UnusedImports.Text
