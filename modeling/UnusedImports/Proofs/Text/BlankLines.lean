import UnusedImports.Proofs.Edit.Batch
import UnusedImports.Proofs.Text.Standing

/-!
# What white space repair removes

A line ends at a line feed, a form feed or a substitute (`Text.isLineEnd`). In front of a stretch
stands the beginning of its first line (`Text.lineFront`), and behind it the rest of its last line
(`Text.lineBack`). White space repair looks at no more than these two: it empties a line exactly if
both are blank and nothing is put in the place of the stretch (`Text.emptiesLine_iff`).

`Text.repair_takes_blanks` says what a repaired stretch takes. All of it is blank, but for the line
end of an emptied line, and an emptied line that has a line end goes as a whole.
-/

set_option autoImplicit false

namespace UnusedImports.Text

/-- The line breaks that are not blanks: line feed, form feed and substitute. -/
def isLineEnd (c : Char) : Bool :=
  c = '\n' || c = '\x0c' || c = '\x1a'

/-- What stands in front of an offset in its line: everything back to the last line end, or to the
start of the text. -/
def lineFront (t : Text) (offset : Int) : Text :=
  (t.take offset.toNat).rtakeWhile fun c => !isLineEnd c

/-- What stands behind an offset in its line: everything up to the next line end, or to the end of
the text. -/
def lineBack (t : Text) (offset : Int) : Text :=
  (t.drop offset.toNat).takeWhile fun c => !isLineEnd c

/-- The offset at which the line of an offset starts. -/
def startOfLine (t : Text) (offset : Int) : Int :=
  offset - (t.lineFront offset).length

/-- The offset of the line end of the line of an offset, or the end of the text. -/
def endOfLine (t : Text) (offset : Int) : Int :=
  offset + (t.lineBack offset).length

/-- Only blanks stand in the lines of a stretch in front of it and behind it. -/
structure BlankAround (t : Text) (start stop : Int) : Prop where
  front : ∀ c ∈ t.lineFront start, isBlank c = true
  back : ∀ c ∈ t.lineBack stop, isBlank c = true

variable {t : Text} {n : Nat}

/-! ## Blanks up to a line end -/

theorem isLineEnd_iff {c : Char} :
    isLineEnd c = true ↔ isLineBreak c = true ∧ isBlank c = false := by
  simp only [isLineEnd, isLineBreak, isBlank, Bool.or_eq_true, decide_eq_true_eq,
    Bool.or_eq_false_iff, decide_eq_false_iff_not]
  constructor
  · rintro ((rfl | rfl) | rfl) <;> decide
  · tauto

/-- Everything up to the first line end is blank exactly if the first character that is not a blank
is a line end. -/
theorem forall_isBlank_iff (l : Text) :
    (∀ c ∈ l.takeWhile (fun c => !isLineEnd c), isBlank c = true) ↔
      ∀ c ∈ (l.dropWhile isBlank).head?, isLineEnd c = true := by
  induction l with
  | nil => simp
  | cons x rest ih =>
    cases hblank : isBlank x with
    | true =>
      have hx : isLineEnd x = false := by
        rw [← Bool.not_eq_true, isLineEnd_iff]
        simp [hblank]
      rw [List.takeWhile_cons_of_pos (by simp [hx]), List.dropWhile_cons_of_pos hblank,
        List.forall_mem_cons, ih]
      exact and_iff_right hblank
    | false =>
      rw [List.dropWhile_cons_of_neg (by simp [hblank])]
      cases hx : isLineEnd x <;> simp [hx, hblank]

/-- If everything up to the first line end is blank, these are the blanks in front. -/
theorem takeWhile_isBlank_eq {l : Text}
    (h : ∀ c ∈ l.takeWhile (fun c => !isLineEnd c), isBlank c = true) :
    l.takeWhile (fun c => !isLineEnd c) = l.takeWhile isBlank := by
  induction l with
  | nil => rfl
  | cons x rest ih =>
    cases hx : isLineEnd x with
    | true =>
      have hblank := (isLineEnd_iff.1 hx).2
      rw [List.takeWhile_cons_of_neg (by simp [hx]), List.takeWhile_cons_of_neg (by simp [hblank])]
    | false =>
      rw [List.takeWhile_cons_of_pos (by simp [hx]), List.forall_mem_cons] at h
      rw [List.takeWhile_cons_of_pos (by simp [hx]), List.takeWhile_cons_of_pos h.1, ih h.2]

/-! ## Lines that are emptied -/

theorem blankAfter_iff (hn : n ≤ t.length) :
    t.blankAfter n = true ↔ ∀ c ∈ t.lineBack n, isBlank c = true := by
  rw [lineBack, Int.toNat_natCast, forall_isBlank_iff]
  have hhead := List.head?_dropWhile_not isBlank (t.drop n)
  rcases nextNonBlank?_of_drop hn with ⟨hnext, hdrop⟩ | ⟨c, rest, hdrop, hnext, hends⟩
  · simp [blankAfter, hnext, hdrop]
  · rw [hdrop, List.head?_cons] at hhead
    have hblank : isBlank c = false := by simpa using hhead
    rw [blankAfter, hnext, hdrop]
    dsimp only
    rw [hends]
    simp [isLineEnd_iff, hblank]

theorem blankBefore_iff (t : Text) (n : Nat) :
    t.blankBefore n = true ↔ ∀ c ∈ t.lineFront n, isBlank c = true := by
  have hlast : t.lastNonBlank n = ((t.take n).reverse.dropWhile isBlank).length - 1 := by
    rw [lastNonBlank, if_neg (by omega), Int.toNat_natCast]
  rw [lineFront, Int.toNat_natCast, List.rtakeWhile]
  simp only [List.mem_reverse]
  rw [forall_isBlank_iff, blankBefore, hlast]
  have hhead := List.head?_dropWhile_not isBlank (t.take n).reverse
  have hsplit := List.takeWhile_append_dropWhile (p := isBlank) (l := (t.take n).reverse)
  cases hdrop : (t.take n).reverse.dropWhile isBlank with
  | nil => simp
  | cons c rest =>
    -- seen from the start of the text, `c` is the last character that is not a blank
    rw [hdrop] at hhead hsplit
    have hblank : isBlank c = false := by simpa using hhead
    have hfront : t.take n =
        rest.reverse ++ c :: ((t.take n).reverse.takeWhile isBlank).reverse := by
      conv_lhs => rw [← List.reverse_reverse (t.take n), ← hsplit]
      simp only [List.reverse_append, List.reverse_cons, List.append_assoc, List.singleton_append]
    have hget : t[rest.length]? = some c := by
      rw [← List.take_append_drop n t, hfront, List.append_assoc,
        List.getElem?_append_right (by simp)]
      simp
    have hplace : ((c :: rest).length : Int) - 1 = rest.length := by
      rw [List.length_cons]
      omega
    rw [hplace, Int.toNat_natCast, endsLine, hget]
    simp [isLineEnd_iff, hblank, Int.not_lt.2 (Int.natCast_nonneg rest.length)]

/-- A stretch empties a line exactly if nothing is put in its place and only blanks stand around
it. -/
theorem emptiesLine_iff {m : Nat} (hn : n ≤ t.length) {replacement : Text} :
    t.emptiesLine m n replacement = true ↔ replacement = [] ∧ t.BlankAround m n := by
  rw [emptiesLine, Bool.and_eq_true, Bool.and_eq_true, blankBefore_iff, blankAfter_iff hn,
    List.isEmpty_iff]
  constructor
  · rintro ⟨⟨hfront, hback⟩, hreplacement⟩
    exact ⟨hreplacement, hfront, hback⟩
  · rintro ⟨hreplacement, hfront, hback⟩
    exact ⟨⟨hfront, hback⟩, hreplacement⟩

/-! ## What is taken -/

/-- Behind a stretch blanks are taken, and the line end behind them if a line is emptied. -/
theorem exists_absorbed (emptied : Bool) (back : Text) :
    ∃ blanks ending : Text, absorbed emptied back = blanks ++ ending ∧
      (∀ c ∈ blanks, isBlank c = true) ∧
      (ending = [] ∨ emptied = true ∧ ∃ c, ending = [c] ∧ isLineEnd c = true) ∧
      (absorbed emptied back ≠ [] → ∃ c rest, back = blanks ++ c :: rest ∧ isLineEnd c = true) ∧
      absorbed emptied back <+: back := by
  have hsplit := List.takeWhile_append_dropWhile (p := isBlank) (l := back)
  have hhead := List.head?_dropWhile_not isBlank back
  have hblanks : ∀ c ∈ back.takeWhile isBlank, isBlank c = true :=
    fun c hc => List.mem_takeWhile_imp hc
  rw [absorbed]
  cases hback : back.dropWhile isBlank with
  | nil => exact ⟨[], [], rfl, by simp, Or.inl rfl, by simp, List.nil_prefix⟩
  | cons c rest =>
    rw [hback] at hsplit hhead
    dsimp only
    cases hbreak : isLineBreak c with
    | false => exact ⟨[], [], rfl, by simp, Or.inl rfl, by simp, List.nil_prefix⟩
    | true =>
      have hend : isLineEnd c = true := isLineEnd_iff.2 ⟨hbreak, by simpa using hhead⟩
      refine ⟨back.takeWhile isBlank, if emptied then [c] else [], rfl, hblanks, ?_,
        fun _ => ⟨c, rest, hsplit.symm, hend⟩, ?_⟩
      · cases emptied with
        | false => exact Or.inl rfl
        | true => exact Or.inr ⟨rfl, c, rfl, hend⟩
      · rw [if_pos rfl]
        conv_rhs => rw [← hsplit]
        rw [List.prefix_append_right_inj]
        cases emptied with
        | false => exact List.nil_prefix
        | true => exact ⟨rest, rfl⟩

/-- An emptied line that has a line end is taken up to it and with it. -/
theorem length_absorbed_of_blank {back : Text}
    (hblank : ∀ c ∈ back.takeWhile (fun c => !isLineEnd c), isBlank c = true)
    (hend : (back.takeWhile fun c => !isLineEnd c).length < back.length) :
    (absorbed true back).length = (back.takeWhile fun c => !isLineEnd c).length + 1 := by
  rw [takeWhile_isBlank_eq hblank] at hend ⊢
  have hsplit := congrArg List.length
    (List.takeWhile_append_dropWhile (p := isBlank) (l := back))
  rw [List.length_append] at hsplit
  rw [forall_isBlank_iff] at hblank
  rw [absorbed]
  cases hback : back.dropWhile isBlank with
  | nil =>
    rw [hback, List.length_nil] at hsplit
    omega
  | cons c rest =>
    rw [hback] at hblank
    have hbreak := (isLineEnd_iff.1 (hblank c rfl)).1
    dsimp only
    rw [if_pos hbreak, if_pos rfl, List.length_append, List.length_singleton]

/-- Where a repaired stretch stops, whether or not it empties a line. -/
theorem repairStop_eq {start : Int} (hn : n ≤ t.length) (replacement : Text) :
    t.repairStop start n replacement =
      (n + (absorbed (t.emptiesLine start n replacement) (t.drop n)).length : Nat) := by
  cases hempties : t.emptiesLine start n replacement with
  | false => rw [repairStop_of_not_emptiesLine hempties, trimStop_of_drop hn]
  | true => exact repairStop_of_emptiesLine hn hempties

/-- In front of a stretch blanks are taken, and none if no line is emptied. -/
theorem exists_repairStart_eq (hn : n ≤ t.length) (stop : Int) (replacement : Text) :
    ∃ blanks : Text, blanks <:+ t.take n ∧ (∀ c ∈ blanks, isBlank c = true) ∧
      t.repairStart n stop replacement = (n - blanks.length : Nat) ∧
      (t.emptiesLine n stop replacement = false → blanks = []) := by
  cases hempties : t.emptiesLine n stop replacement with
  | false =>
    refine ⟨[], List.nil_suffix, by simp, ?_, fun _ => rfl⟩
    rw [repairStart, hempties]
    rfl
  | true =>
    exact ⟨(t.take n).rtakeWhile isBlank, List.rtakeWhile_suffix _ _,
      fun c hc => List.mem_rtakeWhile_imp hc, repairStart_of_emptiesLine hn hempties,
      fun h => absurd h (by simp)⟩

/-- An emptied line that has a line end is taken from its start up to its line end. -/
theorem repair_of_blankAround {m : Nat} (hm : m ≤ t.length) (hn : n ≤ t.length)
    (hblank : t.BlankAround m n) (hend : t.endOfLine n < t.length) :
    t.repairStart m n [] = t.startOfLine m ∧ t.repairStop m n [] = t.endOfLine n + 1 := by
  have hempties : t.emptiesLine m n [] = true := (emptiesLine_iff hn).2 ⟨rfl, hblank⟩
  obtain ⟨hfront, hback⟩ := hblank
  constructor
  · have hline : t.lineFront m = (t.take m).rtakeWhile isBlank := by
      rw [lineFront, Int.toNat_natCast, List.rtakeWhile] at hfront ⊢
      simp only [List.mem_reverse] at hfront
      rw [takeWhile_isBlank_eq hfront, List.rtakeWhile]
    have hlength := (List.rtakeWhile_suffix isBlank (t.take m)).length_le
    rw [List.length_take, Nat.min_eq_left hm] at hlength
    rw [repairStart_of_emptiesLine hm hempties, startOfLine, hline]
    omega
  · rw [lineBack, Int.toNat_natCast] at hback
    rw [endOfLine, lineBack, Int.toNat_natCast] at hend ⊢
    have hshort : ((t.drop n).takeWhile fun c => !isLineEnd c).length < (t.drop n).length := by
      rw [List.length_drop]
      omega
    rw [repairStop_of_emptiesLine hn hempties, length_absorbed_of_blank hback hshort]
    omega

/-- A repaired stretch goes beyond the stretch by blanks only, and by the line end behind it if a
line is emptied. Behind the stretch it takes something only if no more than blanks stand up to a
line end. In front of the stretch, and of line ends, it takes something only if nothing is put in
its place and its lines are blank around it. In this case, if its last line has a line end, the
lines are taken from their start up to the line end and with it. -/
theorem repair_takes_blanks {start stop lo hi : Int} {replacement : Text} (hstart : 0 ≤ start)
    (hle : start ≤ stop) (hstop : stop ≤ t.length)
    (hrepair : t.repair start stop replacement = (lo, hi)) :
    (0 ≤ lo ∧ lo ≤ start ∧ stop ≤ hi ∧ hi ≤ t.length) ∧
    (∀ c ∈ (t.take start.toNat).drop lo.toNat, isBlank c = true) ∧
    (∃ blanks ending : Text, (t.take hi.toNat).drop stop.toNat = blanks ++ ending ∧
      (∀ c ∈ blanks, isBlank c = true) ∧
      (ending = [] ∨ ∃ c, ending = [c] ∧ isLineEnd c = true) ∧
      (stop < hi → ∃ c rest, t.drop stop.toNat = blanks ++ c :: rest ∧ isLineEnd c = true) ∧
      (lo < start ∨ ending ≠ [] → replacement = [] ∧ t.BlankAround start stop)) ∧
    (replacement = [] → t.BlankAround start stop → t.endOfLine stop < t.length →
      Edit.applyAll t [⟨lo, hi, replacement⟩] =
        .ok (t.take (t.startOfLine start).toNat ++ t.drop (t.endOfLine stop + 1).toNat)) := by
  obtain ⟨m, rfl⟩ := Int.eq_ofNat_of_zero_le hstart
  obtain ⟨n, rfl⟩ := Int.eq_ofNat_of_zero_le (hstart.trans hle)
  have hm : m ≤ t.length := by omega
  have hn : n ≤ t.length := by omega
  have hmn : m ≤ n := by omega
  obtain ⟨rfl, rfl⟩ := Prod.mk.inj hrepair
  obtain ⟨hreach, hlo, hhi, hreachStop⟩ :=
    repair_bounds (t := t) m (Int.natCast_nonneg n) replacement
  have hbounds : 0 ≤ t.repairStart m n replacement ∧ t.repairStart m n replacement ≤ m ∧
      n ≤ t.repairStop m n replacement ∧ t.repairStop m n replacement ≤ t.length :=
    ⟨(reachStart_nonneg hstart).trans hreach, hlo, hhi,
      hreachStop.trans (reachStop_le_length hstop)⟩
  refine ⟨hbounds, ?_, ?_, ?_⟩
  · obtain ⟨blanks, hsuffix, hblanks, hfront, -⟩ :=
      exists_repairStart_eq hm n replacement
    have hdrop : (t.take m).drop (m - blanks.length) = blanks := by
      have heq := List.suffix_iff_eq_drop.1 hsuffix
      rwa [List.length_take, Nat.min_eq_left hm, eq_comm] at heq
    rw [hfront, Int.toNat_natCast, Int.toNat_natCast, hdrop]
    exact hblanks
  · obtain ⟨blanks, ending, habsorbed, hblanks, hending, hnext, hprefix⟩ :=
      exists_absorbed (t.emptiesLine m n replacement) (t.drop n)
    have htaken : (t.take (t.repairStop m n replacement).toNat).drop n = blanks ++ ending := by
      rw [repairStop_eq hn, Int.toNat_natCast, List.drop_take, Nat.add_sub_cancel_left,
        ← List.prefix_iff_eq_take.1 hprefix, habsorbed]
    refine ⟨blanks, ending, htaken, hblanks, hending.imp_right fun h => h.2, ?_, ?_⟩
    · intro hlt
      rw [repairStop_eq hn] at hlt
      apply hnext
      intro hnil
      rw [hnil, List.length_nil, Nat.add_zero] at hlt
      exact Int.lt_irrefl _ hlt
    · intro hmore
      rw [← emptiesLine_iff hn]
      rcases hmore with hfront | hne
      · by_contra hempties
        rw [repairStart, if_neg hempties] at hfront
        exact Int.lt_irrefl _ hfront
      · exact (hending.resolve_left hne).1
  · rintro rfl hblank hend
    obtain ⟨hfront, hback⟩ := repair_of_blankAround hm hn hblank hend
    have hwithin : Edit.Within ⟨t.repairStart m n [], t.repairStop m n [], []⟩ t.length :=
      ⟨hbounds.1, hlo.trans ((Int.ofNat_le.2 hmn).trans hhi), hbounds.2.2.2⟩
    rw [Edit.applyAll_singleton hwithin, Edit.apply, List.append_nil, hfront, hback]

/-! ## An indented import -/

/-- A text with an import on a line of its own, between blanks. -/
def indentedImport : Text :=
  "object A \x7b\n  import a.x   \n  val y = 1\n\x7d\n".toList

/-- The import is removed with the blanks around it and with the line feed behind them. -/
theorem indentedImport_removed :
    (0 ≤ (13 : Int) ∧ (13 : Int) ≤ 23 ∧ (23 : Int) ≤ indentedImport.length) ∧
    indentedImport.repair 13 23 [] = (11, 27) ∧
    (indentedImport.BlankAround 13 23 ∧ indentedImport.endOfLine 23 < indentedImport.length) ∧
    Edit.applyAll indentedImport [⟨11, 27, []⟩] =
      .ok "object A \x7b\n  val y = 1\n\x7d\n".toList := by
  have hrepair : indentedImport.repair 13 23 [] = (11, 27) := by decide
  have hblank : indentedImport.BlankAround 13 23 :=
    ⟨List.all_eq_true.1 (by decide), List.all_eq_true.1 (by decide)⟩
  have hend : indentedImport.endOfLine 23 < indentedImport.length := by decide
  obtain ⟨-, -, -, hremoved⟩ := repair_takes_blanks (by decide) (by decide) (by decide) hrepair
  refine ⟨by decide, hrepair, ⟨hblank, hend⟩, ?_⟩
  rw [hremoved rfl hblank hend]
  decide

end UnusedImports.Text
