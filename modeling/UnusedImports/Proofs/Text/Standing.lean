import UnusedImports.Proofs.Text.Repair
import Mathlib.Data.List.DropRight
import Mathlib.Data.List.Infix

/-!
# Repair read off the text around a place

`t.HasAt n s` says that the text `s` stands in `t` at the offset `n`. What white space repair does
at a place depends on the text in front of it and the text behind it only: `Text.absorbed` is what
a stretch takes from the text behind it, with or without the line break, and the stretch of an
emptied line takes the blanks at the end of the text in front of it (`repairStart_of_emptiesLine`,
`repairStop_of_emptiesLine`, `trimStop_of_drop`).
-/

set_option autoImplicit false

namespace UnusedImports.Text

/-- The text `s` stands in `t` at the offset `n`. -/
def HasAt (t : Text) (n : Nat) (s : Text) : Prop :=
  s <+: t.drop n

/-- A character that is neither a blank nor a line break. -/
def isSolid (c : Char) : Bool :=
  !isBlank c && !isLineBreak c

/-- What a stretch takes from the text behind it: the blanks in front of a line break, and the line
break if a line is emptied. -/
def absorbed (emptied : Bool) (back : Text) : Text :=
  match back.dropWhile isBlank with
  | [] => []
  | c :: _ => if isLineBreak c then back.takeWhile isBlank ++ (if emptied then [c] else []) else []

/-- The characters that are not solid. -/
theorem cases_of_not_solid {c : Char} (h : ¬ isSolid c = true) :
    c = ' ' ∨ c = '\t' ∨ c = '\r' ∨ c = '\n' ∨ c = '\x0c' ∨ c = '\x1a' := by
  simp only [isSolid, isBlank, isLineBreak, Bool.and_eq_true, Bool.not_eq_true',
    Bool.or_eq_false_iff, decide_eq_false_iff_not] at h
  tauto

/-- The text starts with a solid character. -/
def StartsSolid (t : Text) : Prop :=
  ∃ c rest, t = c :: rest ∧ isSolid c = true

/-- The text ends with a solid character. -/
def EndsSolid (t : Text) : Prop :=
  ∃ front c, t = front ++ [c] ∧ isSolid c = true

variable {t : Text} {n : Nat}

theorem StartsSolid.append {a : Text} (h : a.StartsSolid) (b : Text) : StartsSolid (a ++ b) := by
  obtain ⟨c, rest, rfl, hc⟩ := h
  exact ⟨c, rest ++ b, rfl, hc⟩

theorem StartsSolid.ne_nil {a : Text} (h : a.StartsSolid) : a ≠ [] := by
  obtain ⟨c, rest, rfl, -⟩ := h
  exact List.cons_ne_nil c rest

theorem EndsSolid.append {b : Text} (h : b.EndsSolid) (a : Text) : EndsSolid (a ++ b) := by
  obtain ⟨front, c, rfl, hc⟩ := h
  exact ⟨a ++ front, c, by rw [List.append_assoc], hc⟩

/-- A text of solid characters ends with one. -/
theorem EndsSolid.of_forall {a : Text} (hne : a ≠ []) (h : ∀ c ∈ a, isSolid c = true) :
    a.EndsSolid :=
  ⟨a.dropLast, a.getLast hne, (List.dropLast_append_getLast hne).symm, h _ (List.getLast_mem hne)⟩

/-! ## Places -/

theorem hasAt_append {a b : Text} (h : t.HasAt n (a ++ b)) :
    t.HasAt n a ∧ t.HasAt (n + a.length) b := by
  obtain ⟨back, hback⟩ := h
  constructor
  · exact ⟨b ++ back, by rw [← hback, List.append_assoc]⟩
  · refine ⟨back, ?_⟩
    rw [← List.drop_drop, ← hback, List.append_assoc, List.drop_left]

theorem hasAt_of_drop {s back : Text} (h : t.drop n = s ++ back) : t.HasAt n s :=
  ⟨back, h.symm⟩

/-- What stands behind a text that stands in another one. -/
theorem drop_add_of_drop {a b : Text} (h : t.drop n = a ++ b) : t.drop (n + a.length) = b := by
  rw [← List.drop_drop, h, List.drop_left]

/-- A text that stands in another one ends in it. -/
theorem le_length_of_hasAt {s : Text} (h : t.HasAt n s) (hs : s ≠ []) :
    n + s.length ≤ t.length := by
  have hle := h.length_le
  have hpos := List.length_pos_iff.2 hs
  rw [List.length_drop] at hle
  omega

theorem getElem?_of_hasAt {c : Char} {s : Text} (h : t.HasAt n (c :: s)) : t[n]? = some c := by
  obtain ⟨back, hback⟩ := h
  have hhead : (t.drop n)[0]? = some c := by
    rw [← hback]
    rfl
  rwa [List.getElem?_drop] at hhead

/-- Where a text starts that starts with a solid character. -/
theorem solidAt_of_hasAt {s : Text} (h : t.HasAt n s) (hs : s.StartsSolid) :
    t.solidAt n = true := by
  obtain ⟨c, rest, rfl, hc⟩ := hs
  rw [isSolid, Bool.and_eq_true, Bool.not_eq_true', Bool.not_eq_true'] at hc
  exact solidAt_iff.2 ⟨Int.natCast_nonneg n, c, getElem?_of_hasAt h, hc⟩

/-- Where a text ends that ends with a solid character. -/
theorem solidAt_last_of_hasAt {s : Text} (h : t.HasAt n s) (hs : s.EndsSolid) :
    t.solidAt ((n + s.length : Nat) - 1) = true := by
  obtain ⟨front, c, rfl, hc⟩ := hs
  have hlast := solidAt_of_hasAt (hasAt_append h).2 ⟨c, [], rfl, hc⟩
  have hstop : ((n + (front ++ [c]).length : Nat) : Int) - 1 = (n + front.length : Nat) := by
    rw [List.length_append, List.length_singleton]
    omega
  rwa [hstop]

/-- The first comma behind a text without commas. -/
theorem find?_of_hasAt {a : Char} {s back : Text} (h : t.HasAt n (s ++ a :: back))
    (hs : a ∉ s) : t.find? a n = some (n + s.length) := by
  obtain ⟨rest, hrest⟩ := h
  have hlt : n < t.length := by
    by_contra hge
    rw [List.drop_eq_nil_of_le (Nat.le_of_not_lt hge)] at hrest
    simp at hrest
  have hreach : t.reach n = n := by
    rw [reach, if_neg (by omega), Int.toNat_natCast, Nat.min_eq_left (Nat.le_of_lt hlt)]
  have hnone : s.findIdx? (· = a) = none := by
    rw [List.findIdx?_eq_none_iff]
    intro c hc
    exact decide_eq_false fun heq => hs (heq ▸ hc)
  rw [find?, hreach, ← hrest, List.append_assoc, List.findIdx?_append, hnone]
  simp [List.findIdx?_cons]

/-! ## Behind a stretch -/

/-- Nothing is taken, or blanks up to a line break. -/
theorem absorbed_cases (emptied : Bool) (back : Text) :
    absorbed emptied back = [] ∨ ∃ blanks c rest, back = blanks ++ c :: rest ∧
      isBlank c = false ∧ absorbed emptied back = blanks ++ if emptied then [c] else [] := by
  have hsplit := List.takeWhile_append_dropWhile (p := isBlank) (l := back)
  have hhead := List.head?_dropWhile_not isBlank back
  rw [absorbed]
  cases hback : back.dropWhile isBlank with
  | nil => exact Or.inl rfl
  | cons c rest =>
    rw [hback] at hsplit hhead
    dsimp only
    split
    · exact Or.inr ⟨_, c, rest, hsplit.symm, by simpa using hhead, rfl⟩
    · exact Or.inl rfl

/-- Behind blanks and a solid character nothing is taken. -/
theorem absorbed_append_solid (emptied : Bool) {blanks back : Text} {c : Char}
    (hblanks : ∀ b ∈ blanks, isBlank b = true) (hc : isSolid c = true) :
    absorbed emptied (blanks ++ c :: back) = [] := by
  rw [isSolid, Bool.and_eq_true, Bool.not_eq_true', Bool.not_eq_true'] at hc
  have hdrop : (blanks ++ c :: back).dropWhile isBlank = c :: back := by
    rw [List.dropWhile_append_of_pos hblanks, List.dropWhile_cons_of_neg (by simp [hc.1])]
  rw [absorbed, hdrop]
  simp [hc.2]

/-- What is taken does not depend on solid text further behind. -/
theorem absorbed_append (emptied : Bool) (gap : Text) {back : Text}
    (hback : ∀ c ∈ back.head?, isSolid c = true) :
    absorbed emptied (gap ++ back) = absorbed emptied gap := by
  have hblank := List.takeWhile_append_dropWhile (p := isBlank) (l := gap)
  cases hgap : gap.dropWhile isBlank with
  | nil =>
    -- the gap is blank, so the line goes on with the solid text behind it
    have hall : ∀ c ∈ gap, isBlank c = true := List.dropWhile_eq_nil_iff.1 hgap
    rw [absorbed, absorbed, hgap]
    cases back with
    | nil => rw [List.append_nil, hgap]
    | cons c rest =>
      have hnone : absorbed emptied (gap ++ c :: rest) = [] :=
        absorbed_append_solid emptied hall (hback c rfl)
      rwa [absorbed] at hnone
  | cons c rest =>
    -- the gap has a character that is not a blank, and nothing behind it is looked at
    have hhead := List.head?_dropWhile_not isBlank gap
    rw [hgap, List.head?_cons] at hhead
    have hdrop : (gap ++ back).dropWhile isBlank = c :: (rest ++ back) := by
      rw [List.dropWhile_append, hgap]
      rfl
    have htake : (gap ++ back).takeWhile isBlank = gap.takeWhile isBlank := by
      conv_lhs => rw [← hblank, hgap]
      rw [List.append_assoc, List.takeWhile_append_of_pos fun b hb => List.mem_takeWhile_imp hb,
        List.cons_append, List.takeWhile_cons_of_neg (by simpa using hhead), List.append_nil]
    rw [absorbed, absorbed, hdrop, hgap, htake]

/-- The next character that is not a blank, read off the text behind. -/
theorem nextNonBlank?_of_drop (hn : n ≤ t.length) :
    (t.nextNonBlank? n = none ∧ (t.drop n).dropWhile isBlank = []) ∨
      ∃ c rest, (t.drop n).dropWhile isBlank = c :: rest ∧
        t.nextNonBlank? n = some (n + ((t.drop n).takeWhile isBlank).length) ∧
        t.endsLine (n + ((t.drop n).takeWhile isBlank).length) = isLineBreak c := by
  have hsplit := List.takeWhile_append_dropWhile (p := isBlank) (l := t.drop n)
  have hlength := congrArg List.length hsplit
  rw [List.length_append, List.length_drop] at hlength
  cases hdrop : (t.drop n).dropWhile isBlank with
  | nil =>
    rw [hdrop, List.length_nil] at hlength
    refine Or.inl ⟨?_, rfl⟩
    rw [nextNonBlank?, Int.toNat_natCast, if_neg (by omega)]
  | cons c rest =>
    rw [hdrop] at hlength hsplit
    rw [List.length_cons] at hlength
    refine Or.inr ⟨c, rest, rfl, ?_, ?_⟩
    · rw [nextNonBlank?, Int.toNat_natCast, if_pos (by omega)]
    · have hat : t.HasAt (n + ((t.drop n).takeWhile isBlank).length) (c :: rest) :=
        ⟨[], by rw [List.append_nil, drop_add_of_drop hsplit.symm]⟩
      rw [endsLine, getElem?_of_hasAt hat]

/-- A stretch that empties no line takes the blanks in front of a line break. -/
theorem trimStop_of_drop (hn : n ≤ t.length) :
    t.trimStop n = (n + (absorbed false (t.drop n)).length : Nat) := by
  rcases nextNonBlank?_of_drop hn with ⟨hnext, hdrop⟩ | ⟨c, rest, hdrop, hnext, hends⟩
  · rw [trimStop_of_none hnext, absorbed, hdrop]
    rfl
  · rw [trimStop_of_some hnext, hends, absorbed, hdrop]
    dsimp only
    split
    · simp
    · rfl

/-- A stretch that empties a line takes the blanks in front of a line break, and the line break. -/
theorem repairStop_of_emptiesLine {start : Int} (hn : n ≤ t.length) {replacement : Text}
    (h : t.emptiesLine start n replacement = true) :
    t.repairStop start n replacement = (n + (absorbed true (t.drop n)).length : Nat) := by
  rcases nextNonBlank?_of_drop hn with ⟨hnext, hdrop⟩ | ⟨c, rest, hdrop, hnext, hends⟩
  · rw [repairStop, hnext, absorbed, hdrop]
    rfl
  · have hbreak : isLineBreak c = true := by
      simp only [emptiesLine, blankAfter, hnext, Bool.and_eq_true] at h
      rw [← hends]
      exact h.1.2
    rw [repairStop, hnext, absorbed, hdrop]
    dsimp only
    rw [if_pos h, if_pos hbreak, if_pos rfl, List.length_append, List.length_singleton]
    push_cast
    omega

/-! ## In front of a stretch -/

/-- A stretch that empties a line takes the blanks in front of it. -/
theorem repairStart_of_emptiesLine {stop : Int} (hn : n ≤ t.length) {replacement : Text}
    (h : t.emptiesLine n stop replacement = true) :
    t.repairStart n stop replacement =
      (n - ((t.take n).rtakeWhile isBlank).length : Nat) := by
  have hsplit := congrArg List.length
    (List.takeWhile_append_dropWhile (p := isBlank) (l := (t.take n).reverse))
  rw [List.length_append, List.length_reverse, List.length_take, Nat.min_eq_left hn] at hsplit
  rw [repairStart, if_pos h, lastNonBlank, if_neg (by omega), List.rtakeWhile, List.length_reverse,
    Int.toNat_natCast]
  omega

/-- The blanks at the end of a text are no more than those behind its last solid character. -/
theorem rtakeWhile_append (gap : Text) {front : Text}
    (hfront : ∀ c ∈ front.getLast?, isBlank c = false) :
    (front ++ gap).rtakeWhile isBlank = gap.rtakeWhile isBlank := by
  have hreverse : front.reverse.takeWhile isBlank = [] := by
    rw [← List.head?_reverse] at hfront
    cases hcase : front.reverse with
    | nil => rfl
    | cons c rest =>
      rw [hcase] at hfront
      rw [List.takeWhile_cons_of_neg (by simp [hfront c rfl])]
  rw [List.rtakeWhile, List.rtakeWhile, List.reverse_append, List.takeWhile_append, hreverse]
  split
  · -- the whole gap is blank, and in front of it nothing is
    rename_i hall
    rw [List.append_nil]
    congr 1
    exact ((List.takeWhile_prefix _).eq_of_length hall).symm
  · rfl

end UnusedImports.Text
