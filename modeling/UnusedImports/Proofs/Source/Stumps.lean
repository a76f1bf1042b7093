import UnusedImports.Proofs.Fix.Tiling
import UnusedImports.Proofs.Source.Comments

/-!
# Rows of items as rows of stumps

To a search for the next comma an item ends at its first comma, which need not be the separator
behind it. So a row of items is read as a row of stumps, the parts of the items in front of their
first commas, and everything else belongs to the gaps (`text_stumps`). Selectors are edited as
stumps are cut (`carves_stumps`), and what is left of the row is a row of the items that stay, if
the last of these is its own stump or nothing goes behind it (`exists_row_remaining`). Otherwise it
ends in a comment or in a quoted name (`scan_remaining`).
-/

set_option autoImplicit false

namespace UnusedImports.Commented

open UnusedImports.Fix

variable {nests : Bool} {t : Text} {used : Usage} {c : Clause}

/-! ## Items at their offsets -/

/-- What a function of offsets yields for the items of a row that stands at `n`. -/
def atItems {β : Type} (f : Nat → Item nests → β) (n : Nat) (i : Item nests)
    (rest : List (Trivia nests × Item nests)) : List β :=
  Row.placed itemGap Item.text f n ⟨i, rest⟩

/-- No unused selector of the clause stands at the offset. -/
def staysAt (used : Usage) (c : Clause) (n : Nat) : Bool :=
  !(used.unused c).any fun s => s.namePos = (n : Int)

/-- The items of a row at `n` that stay. -/
def keptItems (used : Usage) (c : Clause) (n : Nat) (i : Item nests)
    (rest : List (Trivia nests × Item nests)) : List (Item nests) :=
  ((atItems Prod.mk n i rest).filter fun p => staysAt used c p.1).map Prod.snd

/-- The selector whose name stands at `n`. An exclusion, which stays, stands in for it where there
is none. -/
def selectorAt (c : Clause) (n : Nat) : Selector :=
  (c.selectors.find? fun s => s.namePos = (n : Int)).getD
    { name := [], namePos := n, rename := some ['_'], isWildcard := false }

theorem of_find?_namePos {n : Nat} {s : Selector}
    (h : (c.selectors.find? fun r => r.namePos = (n : Int)) = some s) :
    s ∈ c.selectors ∧ s.namePos = (n : Int) := by
  have hn := List.find?_some h
  exact ⟨List.mem_of_find?_eq_some h, of_decide_eq_true hn⟩

theorem namePos_selectorAt (c : Clause) (n : Nat) : (selectorAt c n).namePos = n := by
  rw [selectorAt]
  cases hfind : c.selectors.find? fun s => s.namePos = (n : Int) with
  | none => rfl
  | some s => exact (of_find?_namePos hfind).2

/-- If names stand at different offsets, a selector is the one at its offset. -/
theorem selectorAt_namePos (hnodup : (c.selectors.map Selector.namePos).Nodup) {s : Selector}
    (hs : s ∈ c.selectors) {n : Nat} (hn : s.namePos = (n : Int)) : selectorAt c n = s := by
  cases hfind : c.selectors.find? fun r => r.namePos = (n : Int) with
  | none => exact absurd hn (by simpa using List.find?_eq_none.1 hfind s hs)
  | some r =>
    obtain ⟨hr, hrn⟩ := of_find?_namePos hfind
    rw [selectorAt, hfind, Option.getD_some]
    exact List.inj_on_of_nodup_map hnodup hr hs (hrn.trans hn.symm)

/-- Whether a selector stays can be read off its offset. -/
theorem isUnused_selectorAt (hnodup : (c.selectors.map Selector.namePos).Nodup) (n : Nat) :
    (!used.isUnused c (selectorAt c n)) = staysAt used c n := by
  rw [staysAt, Bool.not_inj_iff, Bool.eq_iff_iff, List.any_eq_true]
  constructor
  · intro hunused
    cases hfind : c.selectors.find? fun s => s.namePos = (n : Int) with
    | none =>
      -- there is no selector, and the one that stands in for it is never unused
      rw [selectorAt, hfind] at hunused
      simp [Usage.isUnused, Selector.isExclusion] at hunused
    | some s =>
      obtain ⟨hs, hn⟩ := of_find?_namePos hfind
      rw [selectorAt, hfind, Option.getD_some] at hunused
      exact ⟨s, List.mem_filter.2 ⟨hs, hunused⟩, decide_eq_true hn⟩
  · rintro ⟨s, hs, hn⟩
    obtain ⟨hmem, hunused⟩ := List.mem_filter.1 hs
    rwa [selectorAt_namePos hnodup hmem (of_decide_eq_true hn)]

/-! ## Stumps -/

/-- A text that starts with a solid character and has no comma. -/
abbrev Stump := { t : Text // t.StartsSolid ∧ ',' ∉ t }

/-- A text that starts with a comma. -/
abbrev Cut := { t : Text // ∃ back, t = ',' :: back }

/-- The part of an item in front of its first comma. -/
def Item.stump (i : Item nests) : Stump where
  val := i.text.takeWhile (· ≠ ',')
  property := by
    obtain ⟨c, rest, htext, hsolid, hcomma⟩ := i.exists_cons
    constructor
    · exact ⟨c, _, by rw [htext, List.takeWhile_cons_of_pos (by simpa using hcomma)], hsolid⟩
    · intro hmem
      simpa using List.mem_takeWhile_imp hmem

/-- The part of an item from its first comma on. -/
def Item.remainder (i : Item nests) : Text :=
  i.text.dropWhile (· ≠ ',')

theorem Item.stump_append_remainder (i : Item nests) : i.stump.val ++ i.remainder = i.text :=
  List.takeWhile_append_dropWhile

/-- An item without commas is its stump. -/
theorem Item.stump_eq_text {i : Item nests} (h : ',' ∉ i.text) : i.stump.val = i.text := by
  refine List.takeWhile_eq_self_iff.2 fun d hd => ?_
  simpa using fun heq : d = ',' => h (heq ▸ hd)

/-- The stump of an item with a comma ends in a comment or in a quoted name. -/
theorem Item.scan_stump {i : Item nests} (h : ',' ∈ i.text) :
    scan nests .code i.stump.val ≠ .code := by
  have hsplit := i.stump_append_remainder
  cases hremainder : i.remainder with
  | nil =>
    rw [hremainder, List.append_nil] at hsplit
    exact absurd (hsplit ▸ h) i.stump.property.2
  | cons d rest =>
    have hhead := List.head?_dropWhile_not (fun d => decide (d ≠ ',')) i.text
    rw [← Item.remainder, hremainder, List.head?_cons] at hhead
    obtain rfl : d = ',' := by simpa using hhead
    exact i.sheltered.scan_comma i.stump.val rest (by rw [← hremainder, hsplit])

/-- A gap between stumps takes what is left of the item in front of it. -/
def cut (i : Item nests) (g : Trivia nests) : Cut where
  val := i.remainder ++ itemGap g
  property := by
    cases hremainder : i.remainder with
    | nil => exact ⟨g.val, rfl⟩
    | cons d rest =>
      have hhead := List.head?_dropWhile_not (fun d => decide (d ≠ ',')) i.text
      rw [← Item.remainder, hremainder, List.head?_cons] at hhead
      obtain rfl : d = ',' := by simpa using hhead
      exact ⟨rest ++ itemGap g, rfl⟩

/-- The stumps behind the item `i`. -/
def stumps : Item nests → List (Trivia nests × Item nests) → List (Cut × Stump)
  | _, [] => []
  | i, (g, j) :: rest => (cut i g, j.stump) :: stumps j rest

/-- What is left of the last item of a row. -/
def lastRemainder : Item nests → List (Trivia nests × Item nests) → Text
  | i, [] => i.remainder
  | _, (_, j) :: rest => lastRemainder j rest

/-- The stumps stand where the items stand. -/
theorem next_stump (n : Nat) (i : Item nests) (g : Trivia nests) :
    Row.next Subtype.val Subtype.val n i.stump (cut i g) = Row.next itemGap Item.text n i g := by
  have hlength := congrArg List.length i.stump_append_remainder
  rw [List.length_append] at hlength
  rw [Row.next, Row.next, cut, List.length_append]
  omega

theorem text_stumps (i : Item nests) (rest : List (Trivia nests × Item nests)) :
    Row.text Subtype.val Subtype.val ⟨i.stump, stumps i rest⟩ ++ lastRemainder i rest =
      Row.text itemGap Item.text ⟨i, rest⟩ := by
  induction rest generalizing i with
  | nil => rw [stumps, Row.text_nil, Row.text_nil, lastRemainder, i.stump_append_remainder]
  | cons q rest ih =>
    obtain ⟨g, j⟩ := q
    rw [stumps, Row.text_cons, Row.text_cons, lastRemainder, List.append_assoc, ih j, cut,
      ← List.append_assoc i.stump.val, i.stump_append_remainder]

theorem placed_stumps {β : Type} (f : Nat → β) (n : Nat) (i : Item nests)
    (rest : List (Trivia nests × Item nests)) :
    Row.placed Subtype.val Subtype.val (fun m _ => f m) n ⟨i.stump, stumps i rest⟩ =
      atItems (fun m _ => f m) n i rest := by
  induction rest generalizing n i with
  | nil => rfl
  | cons q rest ih =>
    obtain ⟨g, j⟩ := q
    have hrest := ih (Row.next itemGap Item.text n i g) j
    rw [Row.placed] at hrest
    rw [stumps, Row.placed, Row.behind, next_stump, hrest]
    rfl

/-- How a row of stumps is cut. The text `back` stands behind the last stump and goes with it. -/
def stumpCarving (used : Usage) (c : Clause) (back : Text) : Carving Cut Stump where
  gap := Subtype.val
  body := Subtype.val
  alive n _ := staysAt used c n
  own _ s := [.keep s.val]
  extra _ _ := back
  final _ s := [.keep (s.val ++ back)]

theorem sound_stumpCarving (used : Usage) (c : Clause) (back : Text) :
    (stumpCarving used c back).Sound where
  own _ s := List.append_nil s.val
  final _ s _ := List.append_nil (s.val ++ back)
  body_ne_nil s := s.property.1.ne_nil
  gap_ne_nil g := by
    obtain ⟨back, hback⟩ := g.property
    intro hnil
    exact List.cons_ne_nil ',' back (hback.symm.trans hnil)
  own_proper _ s := Piece.proper_keep s.val
  final_proper _ s := Piece.proper_keep (s.val ++ back)

/-- The comma that is found from a stump on is the one behind it. -/
theorem commaAfter_selectorAt {n : Nat} {s : Stump} {g : Cut} {back : Text}
    (h : t.HasAt n (s.val ++ g.val ++ back)) :
    commaAfter t (selectorAt c n) = (n + s.val.length : Nat) := by
  obtain ⟨rest, hrest⟩ := g.property
  rw [List.append_assoc, hrest, List.cons_append] at h
  rw [commaAfter, namePos_selectorAt, Text.find?_of_hasAt h s.property.2]

/-- Selectors are edited as the stumps at their offsets are cut. -/
theorem carves_stumps (hnodup : (c.selectors.map Selector.namePos).Nodup) {back after : Text}
    (hafter : after.StartsSolid) (hstop : c.place.stop - 1 + after.length = t.length) :
    (stumpCarving used c back).Carves t (selectorPruning t used c) (fun m _ => selectorAt c m)
      (back ++ after) where
  alive n _ := isUnused_selectorAt hnodup n
  own _ _ _ _ _ := rfl
  cut n s g d h := by
    simp only [selectorPruning, namePos_selectorAt]
    exact edit_delete_of_solidAt (Carving.solidAt_next h d.property.1)
  bridge n s g d h := by
    simp only [selectorPruning, namePos_selectorAt, commaAfter_selectorAt h]
    exact edit_delete_of_solidAt (Carving.solidAt_next h d.property.1)
  final _ _ _ _ := rfl
  close _ _ n s _ h _ := by
    -- the text behind the last stump ends where the closing brace stands
    have hbehind : t.drop (n + (s.val ++ back).length) = after := by
      refine Text.drop_add_of_drop ?_
      rw [h, List.append_assoc]
      rfl
    have hlength := congrArg List.length hbehind
    have hpos := List.length_pos_iff.2 hafter.ne_nil
    rw [List.length_drop] at hlength
    rw [List.length_append, ← Nat.add_assoc] at hbehind hlength
    have heq : c.place.stop - 1 = (n + s.val.length + back.length : Nat) := by omega
    have hbrace : t.solidAt (n + s.val.length + back.length : Nat) = true :=
      Text.solidAt_of_hasAt ⟨[], (List.append_nil _).trans hbehind.symm⟩ hafter
    simp only [selectorPruning, namePos_selectorAt, heq]
    exact edit_delete_of_solidAt hbrace

theorem lastExtra_stumpCarving (back : Text) (n : Nat) (s : Stump) (rest : List (Cut × Stump)) :
    (stumpCarving used c back).lastExtra n s rest = back := by
  induction rest generalizing n s with
  | nil => rfl
  | cons q rest ih => exact ih _ q.2

/-! ## What is left between the braces -/

/-- Some item of the row stays. -/
def liveItems (used : Usage) (c : Clause) (n : Nat) (i : Item nests)
    (rest : List (Trivia nests × Item nests)) : Bool :=
  (atItems (fun m _ => staysAt used c m) n i rest).any id

/-- What is left of the items of a row at `n` and the text `back` behind the last stump. -/
def remaining (used : Usage) (c : Clause) (back : Text) (n : Nat) (i : Item nests)
    (rest : List (Trivia nests × Item nests)) : Text :=
  Piece.new ((stumpCarving used c back).pieces n i.stump (stumps i rest))

/-- Where the item behind `i` and `g` stands. -/
def nextItem (n : Nat) (i : Item nests) (g : Trivia nests) : Nat :=
  Row.next itemGap Item.text n i g

section Rows

variable {n : Nat} {i j : Item nests} {g : Trivia nests} {rest : List (Trivia nests × Item nests)}
  {back : Text}

theorem next_stumpCarving :
    (stumpCarving used c back).next n i.stump (cut i g) = nextItem n i g :=
  next_stump n i g

theorem live_stumps :
    (stumpCarving used c back).live n i.stump (stumps i rest) = liveItems used c n i rest :=
  congrArg (List.any · id) (placed_stumps (staysAt used c) n i rest)

theorem liveItems_nil : liveItems used c n i [] = staysAt used c n :=
  Bool.or_false _

theorem liveItems_cons : liveItems used c n i ((g, j) :: rest) =
    (staysAt used c n || liveItems used c (nextItem n i g) j rest) := rfl

theorem keptItems_nil : keptItems used c n i [] = if staysAt used c n then [i] else [] := by
  change (List.filter _ [(n, i)]).map Prod.snd = _
  rw [List.filter_singleton]
  cases staysAt used c n <;> rfl

theorem keptItems_cons : keptItems used c n i ((g, j) :: rest) =
    (if staysAt used c n then [i] else []) ++ keptItems used c (nextItem n i g) j rest := by
  change (List.filter _ ((n, i) :: atItems Prod.mk (nextItem n i g) j rest)).map Prod.snd = _
  rw [List.filter_cons]
  cases staysAt used c n <;> rfl

/-- Some item stays exactly if there is one that stays. -/
theorem keptItems_eq_nil_iff :
    keptItems used c n i rest = [] ↔ liveItems used c n i rest = false := by
  induction rest generalizing n i with
  | nil =>
    rw [keptItems_nil, liveItems_nil]
    cases staysAt used c n <;> simp
  | cons q rest ih =>
    obtain ⟨g, j⟩ := q
    rw [keptItems_cons, liveItems_cons, List.append_eq_nil_iff, ih, Bool.or_eq_false_iff]
    cases staysAt used c n <;> simp

theorem remaining_nil (h : staysAt used c n = true) :
    remaining used c back n i [] = i.stump.val ++ back := by
  have halive : (stumpCarving used c back).alive n i.stump = true := h
  rw [remaining, stumps, Carving.pieces, halive, if_pos rfl]
  exact List.append_nil _

/-- An item that goes leaves nothing. -/
theorem remaining_of_dead (h : staysAt used c n = false) :
    remaining used c back n i ((g, j) :: rest) =
      remaining used c back (nextItem n i g) j rest := by
  have halive : (stumpCarving used c back).alive n i.stump = false := h
  rw [remaining, stumps, Carving.pieces, halive, if_neg Bool.false_ne_true, Piece.new_cons,
    next_stumpCarving]
  rfl

/-- An item stays as a whole if something behind it stays. -/
theorem remaining_of_live (h : staysAt used c n = true)
    (hothers : liveItems used c (nextItem n i g) j rest = true) :
    remaining used c back n i ((g, j) :: rest) =
      i.text ++ itemGap g ++ remaining used c back (nextItem n i g) j rest := by
  have halive : (stumpCarving used c back).alive n i.stump = true := h
  rw [remaining, stumps, Carving.pieces, halive, if_pos rfl, next_stumpCarving, live_stumps,
    hothers, if_pos rfl, Piece.new_append, Piece.new_cons, ← i.stump_append_remainder,
    List.append_assoc i.stump.val, ← List.append_assoc]
  simp [stumpCarving, Piece.after, cut, remaining]

/-- Of the last item that stays its stump is left, if something behind it goes. -/
theorem remaining_of_last (h : staysAt used c n = true)
    (hothers : liveItems used c (nextItem n i g) j rest = false) :
    remaining used c back n i ((g, j) :: rest) = i.stump.val := by
  have halive : (stumpCarving used c back).alive n i.stump = true := h
  have hdead : (stumpCarving used c back).live (nextItem n i g) j.stump (stumps j rest) = false :=
    live_stumps.trans hothers
  rw [remaining, stumps, Carving.pieces, halive, if_pos rfl, next_stumpCarving, live_stumps,
    hothers, if_neg Bool.false_ne_true, Piece.new_append, Piece.new_cons,
    Carving.new_pieces_of_dead hdead]
  simp [stumpCarving, Piece.after]

/-- Of a row from which something goes at the end, the last flag says so. -/
theorem exists_last_gone (hdead : liveItems used c n i rest = false) :
    (atItems (fun m _ => staysAt used c m) n i rest).getLast? = some false := by
  induction rest generalizing n i with
  | nil => exact congrArg some (liveItems_nil.symm.trans hdead)
  | cons q rest ih =>
    obtain ⟨g, j⟩ := q
    rw [liveItems_cons, Bool.or_eq_false_iff] at hdead
    exact (List.getLast?_cons_cons).trans (ih hdead.2)

/-- If the separator behind the last item that stays is found, what is left is a row of the items
that stay. -/
theorem exists_row_remaining (hback : lastRemainder i rest = back)
    (hlive : liveItems used c n i rest = true)
    (hfound : (atItems (fun m _ => staysAt used c m) n i rest).getLast? = some true ∨
      ∀ k ∈ (keptItems used c n i rest).getLast?, ',' ∉ k.text) :
    ∃ r : Row (Trivia nests) (Item nests),
      remaining used c back n i rest = r.text itemGap Item.text ∧
        r.members = keptItems used c n i rest := by
  induction rest generalizing n i with
  | nil =>
    rw [liveItems_nil] at hlive
    refine ⟨⟨i, []⟩, ?_, ?_⟩
    · rw [remaining_nil hlive, ← hback, lastRemainder, i.stump_append_remainder, Row.text_nil]
    · rw [keptItems_nil, hlive, if_pos rfl]
      rfl
  | cons q rest ih =>
    obtain ⟨g, j⟩ := q
    rw [liveItems_cons] at hlive
    cases hothers : liveItems used c (nextItem n i g) j rest with
    | true =>
      -- the last item that stays is one of the others
      have hne : keptItems used c (nextItem n i g) j rest ≠ [] := by
        rw [ne_eq, keptItems_eq_nil_iff, hothers]
        decide
      obtain ⟨r, hr, hmembers⟩ := ih (n := nextItem n i g) hback hothers <| by
        refine hfound.imp (List.getLast?_cons_cons).symm.trans fun hk k hmem => hk k ?_
        rwa [keptItems_cons, List.getLast?_append_of_ne_nil _ hne]
      cases hstays : staysAt used c n with
      | true =>
        refine ⟨⟨i, (g, r.first) :: r.rest⟩, ?_, ?_⟩
        · rw [remaining_of_live hstays hothers, hr, Row.text_cons]
        · rw [keptItems_cons, hstays, if_pos rfl, ← hmembers]
          rfl
      | false =>
        refine ⟨r, ?_, ?_⟩
        · rw [remaining_of_dead hstays, hr]
        · rw [keptItems_cons, hstays, if_neg Bool.false_ne_true, List.nil_append, hmembers]
    | false =>
      -- this is the last item that stays, and the last item of the row goes
      rw [hothers, Bool.or_false] at hlive
      have hkept : keptItems used c n i ((g, j) :: rest) = [i] := by
        rw [keptItems_cons, hlive, if_pos rfl, keptItems_eq_nil_iff.2 hothers, List.append_nil]
      have hlast : (atItems (fun m _ => staysAt used c m) n i ((g, j) :: rest)).getLast? =
          some false :=
        (List.getLast?_cons_cons).trans (exists_last_gone hothers)
      have hcomma : ',' ∉ i.text := by
        rcases hfound with hstays | hk
        · rw [hlast] at hstays
          cases hstays
        · exact hk i (by rw [hkept]; rfl)
      refine ⟨⟨i, []⟩, ?_, ?_⟩
      · rw [remaining_of_last hlive hothers, Item.stump_eq_text hcomma, Row.text_nil]
      · rw [hkept]
        rfl

/-- If another comma is taken for the separator, what is left ends in a comment or in a quoted
name. -/
theorem scan_remaining {k : Item nests}
    (hlast : (atItems (fun m _ => staysAt used c m) n i rest).getLast? = some false)
    (hk : (keptItems used c n i rest).getLast? = some k) (hcomma : ',' ∈ k.text) :
    scan nests .code (remaining used c back n i rest) ≠ .code := by
  induction rest generalizing n i with
  | nil =>
    have hgone : staysAt used c n = false := by
      simpa [atItems, Row.placed, Row.behind] using hlast
    rw [keptItems_nil, hgone] at hk
    cases hk
  | cons q rest ih =>
    obtain ⟨g, j⟩ := q
    have hlast' := (List.getLast?_cons_cons).symm.trans hlast
    cases hothers : liveItems used c (nextItem n i g) j rest with
    | true =>
      have hne : keptItems used c (nextItem n i g) j rest ≠ [] := by
        rw [ne_eq, keptItems_eq_nil_iff, hothers]
        decide
      rw [keptItems_cons, List.getLast?_append_of_ne_nil _ hne] at hk
      have hrest := ih hlast' hk
      cases hstays : staysAt used c n with
      | true =>
        rwa [remaining_of_live hstays hothers, scan_append, scan_append, i.sheltered.scan_eq,
          scan_itemGap]
      | false => rwa [remaining_of_dead hstays]
    | false =>
      rw [keptItems_cons, keptItems_eq_nil_iff.2 hothers, List.append_nil] at hk
      cases hstays : staysAt used c n with
      | true =>
        rw [hstays, if_pos rfl, List.getLast?_singleton] at hk
        cases hk
        rw [remaining_of_last hstays hothers]
        exact Item.scan_stump hcomma
      | false =>
        rw [hstays] at hk
        cases hk

end Rows

end UnusedImports.Commented
