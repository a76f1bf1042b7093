import UnusedImports.Proofs.Text.Utf8
import UnusedImports.Yaml.Source

/-!
# Reading pages to the end of the bytes

Blocks and pages take the bytes of a document as the bytes of characters, one stretch behind the
other (`Intake.Takes`), and the pages go on until no byte is left. So a document that can be read to
its end is UTF-8 (`Source.exists_octets_of_ofBytes`).

Bytes that are not UTF-8 and fill at most one block are refused before anything is read
(`Source.ofBytes_of_not_utf8`).
-/

set_option autoImplicit false

namespace UnusedImports.Yaml

namespace Intake

variable {i next last : Intake} {wanted steps : Nat} {t : Text}

/-- The bytes that are not yet taken as characters. -/
def pending (i : Intake) : List UInt8 :=
  i.partialCharacter ++ i.left

/-- On the way from one intake to another, bytes were taken as characters. -/
def Takes (i next : Intake) : Prop :=
  ∃ t : Text, i.pending = Text.octets t ++ next.pending

theorem Takes.refl (i : Intake) : i.Takes i :=
  ⟨[], rfl⟩

theorem Takes.trans (h : i.Takes next) (h' : next.Takes last) : i.Takes last := by
  obtain ⟨t, ht⟩ := h
  obtain ⟨u, hu⟩ := h'
  refine ⟨t ++ u, ?_⟩
  rw [ht, hu, Text.octets_append, List.append_assoc]

/-- The number of characters that can still come from an intake: those that are ready, a carriage
return that waits, and one for each byte. -/
def bound (i : Intake) : Nat :=
  i.ready.length + i.pending.length + if i.waitingReturn then 1 else 0

/-! ## Blocks -/

theorem blockSize_pos (i : Intake) (wanted : Nat) : 0 < i.blockSize wanted := by
  have hblock : leastBlock ≤ i.blockSize wanted := Nat.le_max_left _ _
  exact Nat.lt_of_lt_of_le (by decide) hblock

theorem isEmpty_take_blockSize : (i.left.take (i.blockSize wanted)).isEmpty = i.left.isEmpty := by
  have hpos := i.blockSize_pos wanted
  rw [Bool.eq_iff_iff, List.isEmpty_iff, List.isEmpty_iff, List.take_eq_nil_iff]
  constructor
  · rintro (h | h)
    · omega
    · exact h
  · exact Or.inr

theorem drop_length_take_blockSize :
    i.left.drop (i.left.take (i.blockSize wanted)).length = i.left.drop (i.blockSize wanted) := by
  rw [List.length_take]
  rcases Nat.le_total (i.blockSize wanted) i.left.length with hle | hle
  · rw [Nat.min_eq_left hle]
  · rw [Nat.min_eq_right hle, List.drop_length, List.drop_eq_nil_of_le hle]

theorem length_unixLines_le (t : Text) : (unixLines t).length ≤ t.length := by
  fun_induction unixLines t with
  | case1 => exact Nat.le_refl 0
  | case2 rest ih =>
    simp only [List.length_cons]
    omega
  | case3 c rest _ ih =>
    simp only [List.length_cons]
    omega

/-- The characters of a block, behind a carriage return that waited for them. -/
def withReturn (waiting isLast : Bool) (decoded : Text) : Text :=
  if waiting && (isLast || !decoded.isEmpty) then '\r' :: decoded else decoded

/-- A carriage return is held back at the end of a block, and counts again afterwards. -/
theorem length_withReturn_le (waiting isLast : Bool) (decoded : Text) :
    let all := withReturn waiting isLast decoded
    let waits := !isLast && all.getLast? = some '\r'
    (unixLines (if waits then all.dropLast else all)).length +
        (if waits || (waiting && all.isEmpty) then 1 else 0) ≤
      decoded.length + if waiting then 1 else 0 := by
  intro all waits
  -- the return that waited is among the characters, or it waits still because there are none
  have hall : all.length ≤ decoded.length + if waiting && !all.isEmpty then 1 else 0 := by
    simp only [all, withReturn]
    cases waiting <;> cases isLast <;> cases decoded <;> simp
  have hlines : (unixLines (if waits then all.dropLast else all)).length +
      (if waits then 1 else 0) ≤ all.length := by
    have hunix := length_unixLines_le (if waits then all.dropLast else all)
    cases hwaits : waits with
    | false => simpa [hwaits] using hunix
    | true =>
      have hne : all ≠ [] := by
        intro hnil
        simp [waits, hnil] at hwaits
      have hpos := List.length_pos_iff.2 hne
      simp only [hwaits, if_true, List.length_dropLast] at hunix ⊢
      omega
  cases hwaits : waits <;> cases waiting <;> cases hempty : all.isEmpty <;>
    simp [hwaits, hempty] at hall hlines ⊢ <;> omega

/-- A block that is taken: its bytes and those in front of it are read as far as possible. -/
theorem takeBlock_eq_ok (h : i.takeBlock wanted = .ok next) :
    i.Takes next ∧ next.left = i.left.drop (i.blockSize wanted) ∧ next.bound ≤ i.bound ∧
      (i.left = [] → next.pending = []) ∧
      Text.decodePrefix next.partialCharacter = ([], next.partialCharacter) := by
  have hbytes := Text.octets_decodePrefix (i.partialCharacter ++ i.left.take (i.blockSize wanted))
  have hstuck := Text.decodePrefix_stuck (i.partialCharacter ++ i.left.take (i.blockSize wanted))
  rw [takeBlock, isEmpty_take_blockSize, drop_length_take_blockSize] at h
  generalize Text.decodePrefix (i.partialCharacter ++ i.left.take (i.blockSize wanted)) = read
    at h hbytes hstuck
  obtain ⟨decoded, rest⟩ := read
  have hpending : i.pending =
      Text.octets decoded ++ (rest ++ i.left.drop (i.blockSize wanted)) := by
    rw [pending, ← List.append_assoc, ← hbytes, List.append_assoc, List.take_append_drop]
  simp only at h
  split at h
  · cases h
  · rename_i hrest
    let all := withReturn i.waitingReturn i.left.isEmpty decoded
    let waits := !i.left.isEmpty && all.getLast? = some '\r'
    have hready : next.ready = i.ready ++ unixLines (if waits then all.dropLast else all) := by
      cases h
      rfl
    have hwaiting : next.waitingReturn = (waits || (i.waitingReturn && all.isEmpty)) := by
      cases h
      rfl
    have hnext : next.pending = rest ++ i.left.drop (i.blockSize wanted) := by
      cases h
      rfl
    refine ⟨⟨decoded, hnext ▸ hpending⟩, ?_, ?_, ?_, ?_⟩
    · cases h
      rfl
    · have hlines := length_withReturn_le i.waitingReturn i.left.isEmpty decoded
      have hoctets := Text.length_le_length_octets decoded
      have hlength := congrArg List.length hpending
      rw [List.length_append] at hlength
      rw [bound, bound, hready, hwaiting, hnext, List.length_append]
      simp only [all, waits] at hlines ⊢
      omega
    · intro hnil
      rw [hnil, List.isEmpty_nil, Bool.true_and, Bool.or_eq_true, not_or] at hrest
      have hdone : rest = [] := by simpa using hrest.2
      rw [hnext, hdone, hnil, List.drop_nil, List.append_nil]
    · cases h
      exact hstuck

/-! ## Pages -/

/-- Blocks are taken until a page is ready or no byte is left. -/
theorem fill_eq_ok (hsteps : i.left.length < steps ∨ i.pending = [])
    (h : fill steps i = .ok next) :
    i.Takes next ∧ next.bound ≤ i.bound ∧ (pageSize ≤ next.ready.length ∨ next.pending = []) := by
  induction steps generalizing i with
  | zero =>
    cases h
    exact ⟨.refl _, Nat.le_refl _, Or.inr (hsteps.resolve_left (Nat.not_lt_zero _))⟩
  | succ steps ih =>
    rw [fill] at h
    split at h
    · rename_i hready
      cases h
      exact ⟨.refl _, Nat.le_refl _, Or.inl hready⟩
    · cases hblock : i.takeBlock (pageSize - i.ready.length) with
      | error f => simp [hblock] at h
      | ok mid =>
        obtain ⟨htakes, hleft, hbound, hdone, -⟩ := takeBlock_eq_ok hblock
        simp only [hblock] at h
        split at h
        · rename_i hempty
          rw [Bool.and_eq_true, List.isEmpty_iff] at hempty
          cases h
          exact ⟨htakes, hbound, Or.inr (hdone hempty.1)⟩
        · have hmid : mid.left.length < steps ∨ mid.pending = [] := by
            by_cases hnil : i.left = []
            · exact Or.inr (hdone hnil)
            · -- a block takes at least one byte
              have hlt : i.left.length < steps + 1 := by
                rcases hsteps with hlt | hpending
                · exact hlt
                · exact absurd (List.append_eq_nil_iff.1 hpending).2 hnil
              have hpos := i.blockSize_pos (pageSize - i.ready.length)
              have hlength := List.length_pos_iff.2 hnil
              rw [hleft, List.length_drop]
              omega
          obtain ⟨htakes', hbound', hend⟩ := ih hmid h
          exact ⟨htakes.trans htakes', Nat.le_trans hbound' hbound, hend⟩

/-- A page holds some of the characters that can still come, and is empty only behind the last
byte. -/
theorem page_eq_ok (h : i.page = .ok (t, next)) :
    i.Takes next ∧ next.bound + t.length ≤ i.bound ∧ (t = [] → next.pending = []) := by
  rw [page] at h
  cases hfill : fill (i.left.length + 2) i with
  | error f => simp [hfill] at h
  | ok full =>
    obtain ⟨htakes, hbound, hend⟩ := fill_eq_ok (Or.inl (by omega)) hfill
    simp only [hfill] at h
    cases h
    refine ⟨htakes, ?_, ?_⟩
    · have hsplit := congrArg List.length (List.take_append_drop pageSize full.ready)
      rw [List.length_append] at hsplit
      simp only [bound, pending] at hbound ⊢
      omega
    · intro hnil
      refine hend.resolve_left ?_
      rw [List.take_eq_nil_iff] at hnil
      rcases hnil with hzero | hready
      · cases hzero
      · rw [hready]
        decide

end Intake

namespace Source

open Intake

variable {i : Intake} {steps : Nat} {bytes : List UInt8}

/-- If the pages have no fault, all bytes are those of characters. -/
theorem exists_octets_of_ofPages (hsteps : i.bound < steps)
    (h : (ofPages steps i).barrier = none) : ∃ t : Text, i.pending = Text.octets t := by
  induction steps generalizing i with
  | zero => exact absurd hsteps (Nat.not_lt_zero _)
  | succ steps ih =>
    rw [ofPages] at h
    split at h
    · cases h
    · rename_i next hpage
      obtain ⟨⟨t, ht⟩, -, hdone⟩ := page_eq_ok hpage
      exact ⟨t, by rw [ht, hdone rfl, List.append_nil]⟩
    · rename_i t next hne hpage
      obtain ⟨⟨u, hu⟩, hbound, -⟩ := page_eq_ok hpage
      split at h
      · have hlength : 0 < t.length := List.length_pos_iff.2 hne
        obtain ⟨rest, hrest⟩ := ih (by omega) h
        exact ⟨u ++ rest, by rw [hu, hrest, Text.octets_append]⟩
      · cases h

/-- A document that can be read to its end is UTF-8. -/
theorem exists_octets_of_ofBytes (h : (ofBytes bytes).barrier = none) :
    ∃ t : Text, bytes = Text.octets t := by
  rw [ofBytes] at h
  split at h
  · cases h
  · rename_i first i hfirst
    split at h
    · cases h
    · rename_i second next hsecond
      obtain ⟨⟨t, ht⟩, hbound, -⟩ := page_eq_ok hfirst
      obtain ⟨⟨u, hu⟩, hbound', -⟩ := page_eq_ok hsecond
      have hstart : (start bytes).bound = bytes.length := by
        simp [bound, start, pending]
      split at h
      · obtain ⟨rest, hrest⟩ := exists_octets_of_ofPages (by omega) h
        refine ⟨t ++ (u ++ rest), ?_⟩
        have hbytes : bytes = (start bytes).pending := rfl
        rw [hbytes, ht, hu, hrest, Text.octets_append, Text.octets_append]
      · cases h

end Source

/-! ## Bytes of one block -/

namespace Intake

variable {i next : Intake} {wanted steps : Nat} {bytes : List UInt8} {f : Failure}

theorem eq_notUtf8_of_takeBlock (h : i.takeBlock wanted = .error f) : f = .notUtf8 := by
  rw [takeBlock] at h
  simp only at h
  split at h
  · cases h
    rfl
  · cases h

/-- At the end of the bytes, the beginning of a character is left over. -/
structure Stuck (i : Intake) : Prop where
  left : i.left = []
  ne_nil : i.partialCharacter ≠ []
  reads : Text.decodePrefix i.partialCharacter = ([], i.partialCharacter)

theorem Stuck.takeBlock (h : i.Stuck) : i.takeBlock wanted = .error .notUtf8 := by
  have hrest : i.partialCharacter.isEmpty = false := List.isEmpty_eq_false_iff.2 h.ne_nil
  rw [Intake.takeBlock, h.left]
  simp [h.reads, hrest]

theorem Stuck.fill (h : i.Stuck) :
    Intake.fill (steps + 1) i =
      if pageSize ≤ i.ready.length then .ok i else .error .notUtf8 := by
  rw [Intake.fill, h.takeBlock]

/-- Pages that are ready are read, and then the bytes are refused. -/
theorem Stuck.page (h : i.Stuck) :
    i.page = if pageSize ≤ i.ready.length then
        .ok (i.ready.take pageSize, { i with ready := i.ready.drop pageSize })
      else .error .notUtf8 := by
  rw [Intake.page, h.fill]
  by_cases hready : pageSize ≤ i.ready.length
  · rw [if_pos hready, if_pos hready]
  · rw [if_neg hready, if_neg hready]

/-- The only block of bytes that are not UTF-8 is refused, or the beginning of a character is left
over. -/
theorem takeBlock_start (hsize : bytes.length ≤ leastBlock)
    (hbytes : ∀ t : Text, bytes ≠ Text.octets t) :
    (start bytes).takeBlock wanted = .error .notUtf8 ∨
      ∃ next, (start bytes).takeBlock wanted = .ok next ∧ next.Stuck ∧
        next.ready.length < leastBlock := by
  cases hblock : (start bytes).takeBlock wanted with
  | error f => exact Or.inl (by rw [eq_notUtf8_of_takeBlock hblock])
  | ok next =>
    obtain ⟨⟨t, ht⟩, hleft, hbound, -, hreads⟩ := takeBlock_eq_ok hblock
    have hnil : next.left = [] := by
      have hle : leastBlock ≤ (start bytes).blockSize wanted := Nat.le_max_left _ _
      rw [hleft, List.drop_eq_nil_iff]
      exact Nat.le_trans hsize hle
    have hne : next.partialCharacter ≠ [] := by
      intro hdone
      apply hbytes t
      have hstart : bytes = (start bytes).pending := rfl
      rw [hstart, ht, pending, hdone, hnil, List.append_nil, List.append_nil]
    refine Or.inr ⟨next, rfl, ⟨hnil, hne, hreads⟩, ?_⟩
    have hpos := List.length_pos_iff.2 hne
    simp only [bound, pending, start, List.length_append, List.length_nil, List.nil_append]
      at hbound
    simp only [Bool.false_eq_true, if_false] at hbound
    omega

end Intake

open Intake in
/-- Bytes that are not UTF-8 and fill at most one block are refused before anything is read. -/
theorem Source.ofBytes_of_not_utf8 {bytes : List UInt8} (hsize : bytes.length ≤ leastBlock)
    (hbytes : ∀ t : Text, bytes ≠ Text.octets t) : ofBytes bytes = ⟨[], some .notUtf8⟩ := by
  have hne : bytes ≠ [] := hbytes []
  have hempty : (start bytes).left.isEmpty = false := List.isEmpty_eq_false_iff.2 hne
  have hready : ¬ pageSize ≤ (start bytes).ready.length := Nat.not_succ_le_zero _
  have hpage : (start bytes).page = .error .notUtf8 ∨
      ∃ next : Intake, (start bytes).page = next.page ∧ next.Stuck ∧
        next.ready.length < leastBlock := by
    rcases takeBlock_start hsize hbytes with hblock | ⟨next, hblock, hstuck, hlength⟩
    · apply Or.inl
      rw [page, fill, if_neg hready, hblock]
    · refine Or.inr ⟨next, ?_, hstuck, hlength⟩
      have hfill : fill ((start bytes).left.length + 2) (start bytes) =
          fill ((start bytes).left.length + 1) next := by
        simp only [fill, if_neg hready, hblock, hempty, Bool.false_and, Bool.false_eq_true,
          if_false]
      rw [page, hfill, hstuck.fill, page, hstuck.fill]
  rw [ofBytes]
  rcases hpage with hrefused | ⟨next, hnext, hstuck, hlength⟩
  · rw [hrefused]
  · rw [hnext, hstuck.page]
    split
    · rename_i heq
      split at heq <;> cases heq
      rfl
    · rename_i first rest heq
      split at heq
      · -- what is ready behind the first page is not another page
        cases heq
        have hrest : ({ next with ready := next.ready.drop pageSize } : Intake).Stuck :=
          ⟨hstuck.left, hstuck.ne_nil, hstuck.reads⟩
        have hshort : ¬ pageSize ≤ (next.ready.drop pageSize).length := by
          have hblock : leastBlock = pageSize + pageSize := rfl
          rw [List.length_drop]
          omega
        rw [hrest.page, if_neg hshort]
      · cases heq

end UnusedImports.Yaml
