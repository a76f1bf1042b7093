import UnusedImports.Proofs.Fix.Muting
import UnusedImports.Proofs.Source.Stumps

/-!
# Items dropped from braces

When several selectors of a clause stay, the unused ones are cut from between its braces, and if the
last one goes, the comma behind the last one that stays goes with it. That comma is looked for from
the name on, so it is the separator unless a comma stands in the item itself, in a quoted name or in
a comment (`SeparatorFound`). The edits can be applied either way, and they leave braces with
exactly the items that stay if the separator is found, and no such braces if it is not
(`statement_drops_items`).
-/

set_option autoImplicit false

namespace UnusedImports.Commented

open UnusedImports.Fix

variable {nests : Bool} {used : Usage} {c : Clause}

/-! ## Braces at their offset -/

/-- Where the first item stands, if the opening brace stands at `n`. -/
def Braces.point (d : Braces nests) (n : Nat) : Nat :=
  n + 1 + d.lead.val.length

/-- The items between braces at `n` that stay. -/
def Braces.kept (used : Usage) (c : Clause) (n : Nat) (d : Braces nests) : List (Item nests) :=
  keptItems used c (d.point n) d.items.first d.items.rest

/-- The clause has exact offsets: its braces stand at `n`, and it ends behind them. -/
structure Braces.RecordedBy (d : Braces nests) (n : Nat) (c : Clause) : Prop where
  names : c.selectors.map Selector.namePos =
    atItems (fun m _ => (m : Int)) (d.point n) d.items.first d.items.rest
  stop : c.place.stop = (n + d.text.length : Nat)

/-- The comma behind the last item that stays is the separator, or it is not looked for because
the last selector stays. -/
def SeparatorFound (used : Usage) (c : Clause) (n : Nat) (d : Braces nests) : Prop :=
  (∀ s ∈ c.selectors.getLast?, used.isUnused c s = false) ∨
    ∀ i ∈ (d.kept used c n).getLast?, ',' ∉ i.text

namespace Braces.RecordedBy

variable {d : Braces nests} {n : Nat}

/-- Names stand at different offsets. -/
theorem nodup_namePos (h : d.RecordedBy n c) : (c.selectors.map Selector.namePos).Nodup := by
  rw [h.names]
  refine Row.pairwise_placed (fun m i k j hle heq => ?_) _ _
  obtain ⟨a, rest, htext, -, -⟩ := i.exists_cons
  rw [htext, List.length_cons] at hle
  omega

/-- The selectors are those at the offsets of the items. -/
theorem selectors_eq (h : d.RecordedBy n c) :
    c.selectors =
      atItems (fun m _ => selectorAt c m) (d.point n) d.items.first d.items.rest := by
  have hmap : (c.selectors.map Selector.namePos).map (fun z => selectorAt c z.toNat) =
      atItems (fun m _ => selectorAt c m) (d.point n) d.items.first d.items.rest := by
    rw [h.names]
    exact Row.map_placed _ _ _ _
  rw [← hmap, List.map_map]
  refine (List.map_id _).symm.trans (List.map_congr_left fun s hs => ?_)
  -- the name of a selector stands at the offset of an item
  have hpos : s.namePos ∈ c.selectors.map Selector.namePos := List.mem_map_of_mem hs
  rw [h.names] at hpos
  obtain ⟨m, i, -, -, -, hm⟩ := Row.mem_placed hpos
  refine (selectorAt_namePos h.nodup_namePos hs ?_).symm
  rw [← hm, Int.toNat_natCast]

/-- An item stays if its selector does. -/
theorem staysAt_eq (h : d.RecordedBy n c) :
    atItems (fun m _ => staysAt used c m) (d.point n) d.items.first d.items.rest =
      c.selectors.map fun s => !used.isUnused c s := by
  rw [h.selectors_eq]
  refine Eq.trans ?_ (Row.map_placed _ _ _ _).symm
  simp only [isUnused_selectorAt h.nodup_namePos]
  rfl

/-- Some item stays if some selector does. -/
theorem liveItems_eq_true (h : d.RecordedBy n c) (hkept : used.kept c ≠ []) :
    liveItems used c (d.point n) d.items.first d.items.rest = true := by
  obtain ⟨s, hs⟩ := List.exists_mem_of_ne_nil _ hkept
  obtain ⟨hmem, hstays⟩ := List.mem_filter.1 hs
  rw [liveItems, h.staysAt_eq, List.any_map]
  exact List.any_eq_true.2 ⟨s, hmem, hstays⟩

end Braces.RecordedBy

/-- What is left of the last item behind its stump. -/
def Braces.tail (d : Braces nests) : Text :=
  lastRemainder d.items.first d.items.rest

/-- The text of the stumps and the tail is the text of the items. -/
theorem Braces.rowText_stumps (d : Braces nests) :
    (stumpCarving used c d.tail).rowText d.items.first.stump
        (stumps d.items.first d.items.rest) ++ d.tail = d.items.text itemGap Item.text :=
  text_stumps d.items.first d.items.rest

/-- The pieces of a text in which braces stand between `front` and `back`. -/
def Braces.pieces (used : Usage) (c : Clause) (front back : Text) (d : Braces nests) :
    List Piece :=
  .keep (front ++ '\x7b' :: d.lead.val) ::
    ((stumpCarving used c d.tail).pieces (d.point front.length) d.items.first.stump
        (stumps d.items.first d.items.rest) ++ [.keep ('\x7d' :: back)])

/-- What is left between the braces. -/
def Braces.remainder (used : Usage) (c : Clause) (n : Nat) (d : Braces nests) : Text :=
  d.lead.val ++ remaining used c d.tail (d.point n) d.items.first d.items.rest

section Pieces

variable {front back : Text} {d : Braces nests}

theorem Braces.old_pieces : Piece.old (d.pieces used c front back) = front ++ d.text ++ back := by
  rw [pieces, Piece.old_cons, Piece.old_append, Carving.old_pieces (sound_stumpCarving used c _),
    lastExtra_stumpCarving, rowText_stumps, text, inner]
  simp [Piece.before]

theorem Braces.new_pieces :
    Piece.new (d.pieces used c front back) =
      front ++ ('\x7b' :: d.remainder used c front.length ++ ['\x7d']) ++ back := by
  rw [pieces, Piece.new_cons, Piece.new_append, remainder, remaining]
  simp [Piece.after]

theorem Braces.proper_pieces : ∀ q ∈ d.pieces used c front back, q.Proper := by
  intro q hq
  rw [pieces, List.mem_cons, List.mem_append, List.mem_singleton] at hq
  rcases hq with rfl | hq | rfl
  · trivial
  · exact Carving.proper_pieces (sound_stumpCarving used c _) _ _ _ q hq
  · trivial

/-- The edits between braces are the swaps of the pieces. -/
theorem Braces.edits_eq_cuts (h : d.RecordedBy front.length c) (hkept : used.kept c ≠ []) :
    (selectorPruning (front ++ d.text ++ back) used c).edits c.selectors =
      Piece.cuts 0 (d.pieces used c front back) := by
  have hpoint : (front ++ '\x7b' :: d.lead.val).length = d.point front.length := by
    rw [List.length_append, List.length_cons, point]
    omega
  have hat : (front ++ d.text ++ back).drop (d.point front.length) =
      (stumpCarving used c d.tail).rowText d.items.first.stump
        (stumps d.items.first d.items.rest) ++ (d.tail ++ '\x7d' :: back) := by
    have htext : front ++ d.text ++ back = front ++ '\x7b' :: d.lead.val ++
        (d.items.text itemGap Item.text ++ '\x7d' :: back) := by
      simp [text, inner]
    rw [← List.append_assoc, rowText_stumps, ← hpoint, htext, List.drop_left]
  have hstop : c.place.stop - 1 + ('\x7d' :: back).length = (front ++ d.text ++ back).length := by
    rw [h.stop]
    simp only [List.length_append, List.length_cons]
    omega
  have hedits := Carving.edits_placed (carves_stumps h.nodup_namePos ⟨_, _, rfl, by decide⟩ hstop)
    (sound_stumpCarving used c _) hat (live_stumps.trans (h.liveItems_eq_true hkept))
  rw [pieces, Piece.cuts_keep, Piece.cuts_append, Piece.cuts_keep, Piece.cuts_nil, List.append_nil,
    Nat.zero_add, hpoint, ← hedits]
  exact congrArg _ (h.selectors_eq.trans (placed_stumps (selectorAt c) _ _ _).symm)

/-- If the separator is found, what is left between the braces is the items that stay. -/
theorem Braces.exists_remainder {n : Nat} (h : d.RecordedBy n c) (hkept : used.kept c ≠ [])
    (hfound : SeparatorFound used c n d) :
    ∃ d' : Braces nests, d.remainder used c n = d'.inner ∧ d'.items.members = d.kept used c n := by
  obtain ⟨r, hr, hmembers⟩ := exists_row_remaining (rfl : _ = d.tail)
    (h.liveItems_eq_true hkept) <| by
      refine hfound.imp (fun hlast => ?_) id
      obtain ⟨s, hs⟩ := List.exists_mem_of_ne_nil _ hkept
      have hne : c.selectors ≠ [] := List.ne_nil_of_mem (List.mem_filter.1 hs).1
      rw [h.staysAt_eq, List.getLast?_map, List.getLast?_eq_some_getLast hne, Option.map_some,
        hlast _ (List.getLast?_eq_some_getLast hne)]
      rfl
  exact ⟨⟨d.lead, r⟩, by rw [remainder, hr, inner], hmembers⟩

/-- If another comma is taken for the separator, a comment or a quoted name is left open. -/
theorem Braces.scan_remainder {n : Nat} (h : d.RecordedBy n c)
    (hlost : ¬ SeparatorFound used c n d) :
    scan nests .code (d.remainder used c n) ≠ .code := by
  simp only [SeparatorFound, not_or, not_forall, exists_prop] at hlost
  obtain ⟨⟨s, hs, hgone⟩, ⟨k, hk, hcomma⟩⟩ := hlost
  rw [remainder, scan_append, d.lead.property.sheltered.scan_eq]
  refine scan_remaining ?_ hk (not_not.1 hcomma)
  rw [h.staysAt_eq, List.getLast?_map, hs, Option.map_some]
  simpa using hgone

end Pieces

section Statements

variable (front back : Text) {d : Braces nests} {es : List Entry} {fs : List Finding} {e : Entry}

/-- If at least two selectors of a clause stay, its edits can be applied, and they change the text
between its braces. -/
theorem exists_applyAll_remainder (hcovers : used.Covers es fs) (hids : (clauseIds es).Nodup)
    (hsel : ∀ f ∈ es, f.clause.selectors.Nodup) (hspan : ∀ f ∈ es, f.clause.span.isSome = true)
    (he : e ∈ es) (hrecorded : d.RecordedBy front.length e.clause)
    (hunused : used.unused e.clause ≠ []) (hkept : 2 ≤ (used.kept e.clause).length) :
    ∃ ps : List Proposal,
      statement (front ++ d.text ++ back) (es.map Entry.clause) fs = ps.map Except.ok ∧
      Edit.applyAll (front ++ d.text ++ back)
          (Proposal.edits (ps.filter fun p => p.finding.entry.clause.id = e.clause.id)) =
        .ok (front ++ ('\x7b' :: d.remainder used e.clause front.length ++ ['\x7d']) ++ back) := by
  have hne : used.kept e.clause ≠ [] := List.ne_nil_of_length_pos (by omega)
  have halive : used.isDead e.clause = false := by
    rw [Bool.eq_false_iff, ne_eq, Usage.isDead_iff]
    exact fun h => hne h.2
  obtain ⟨place, ps, hps, hedits⟩ := exists_forwards_statement (t := front ++ d.text ++ back)
    hcovers hids hsel hspan he hunused halive
  refine ⟨ps, hps, ?_⟩
  -- the proposals for the clause have the swaps of the pieces as their edits
  rw [clauseEdits, if_neg hunused, if_neg (by omega), Braces.edits_eq_cuts hrecorded hne] at hedits
  have hfilter : ps.filter (fun p => p.finding.entry.clause.id = e.clause.id) =
      audible (fun c => c.id ≠ e.clause.id) ps := by
    simp [audible]
  have happly := Piece.applyAll_cuts Braces.proper_pieces hedits
  rwa [Braces.old_pieces, Braces.new_pieces, ← hfilter] at happly

/-- If at least two selectors of a clause stay, its edits can be applied. They leave braces with
exactly the items that stay if the separator behind the last of these is found, and otherwise a
comment or a quoted name that is not closed, so that no items stand between the braces. -/
theorem statement_drops_items (hcovers : used.Covers es fs) (hids : (clauseIds es).Nodup)
    (hsel : ∀ f ∈ es, f.clause.selectors.Nodup) (hspan : ∀ f ∈ es, f.clause.span.isSome = true)
    (he : e ∈ es) (hrecorded : d.RecordedBy front.length e.clause)
    (hunused : used.unused e.clause ≠ []) (hkept : 2 ≤ (used.kept e.clause).length) :
    ∃ ps : List Proposal,
      statement (front ++ d.text ++ back) (es.map Entry.clause) fs = ps.map Except.ok ∧
      ∃ text, Edit.applyAll (front ++ d.text ++ back)
          (Proposal.edits (ps.filter fun p => p.finding.entry.clause.id = e.clause.id)) =
            .ok text ∧
        (SeparatorFound used e.clause front.length d → ∃ d' : Braces nests,
          text = front ++ d'.text ++ back ∧
            d'.items.members = d.kept used e.clause front.length) ∧
        (¬ SeparatorFound used e.clause front.length d →
          ∀ d' : Braces nests, text ≠ front ++ d'.text ++ back) := by
  have hne : used.kept e.clause ≠ [] := List.ne_nil_of_length_pos (by omega)
  obtain ⟨ps, hps, happly⟩ := exists_applyAll_remainder front back hcovers hids hsel hspan he
    hrecorded hunused hkept
  refine ⟨ps, hps, _, happly, ?_, ?_⟩
  · intro hfound
    obtain ⟨d', hd', hmembers⟩ := Braces.exists_remainder hrecorded hne hfound
    exact ⟨d', by rw [hd', Braces.text], hmembers⟩
  · intro hlost d' heq
    -- the text between the braces would leave a reader in code
    have hinner : d.remainder used e.clause front.length = d'.inner := by
      simpa [Braces.text] using heq
    exact Braces.scan_remainder hrecorded hlost (hinner ▸ d'.scan_inner)

end Statements

/-! ## Commas in comments and quoted names -/

/-- A name of one character. -/
def letter (c : Char) (h : isWord c = true) : Name :=
  ⟨[c], .word (List.cons_ne_nil c []) (by simpa using h)⟩

/-- An item without trivia. -/
def bare (name : Name) : Item nests :=
  ⟨name, none, ⟨[], .nil⟩⟩

/-- An item with a comma in a comment behind it. -/
def commented (name : Name) : Item true :=
  ⟨name, none, ⟨' ' :: ('/' :: '*' :: [' ', ',', ' ', '*', '/'] ++ []),
    .white (by decide) (.comment (by decide) .nil)⟩⟩

/-- Three items with a space behind each comma. -/
def threeItems (i j k : Item true) : Braces true :=
  ⟨⟨[], .nil⟩, ⟨i, [(⟨[' '], .white (by decide) .nil⟩, j), (⟨[' '], .white (by decide) .nil⟩, k)]⟩⟩

/-- A clause with three selectors at the start of a text. -/
def threeSelectors (first : Text) (second third stop : Int) : Clause :=
  { id := 0
    qualifier := ['a']
    selectors :=
      [⟨first, 10, none, false⟩, ⟨['y'], second, none, false⟩, ⟨['z'], third, none, false⟩]
    span := some ⟨0, 7, stop⟩ }

/-- The first two selectors of a clause are used. -/
def firstTwo (c : Clause) : Usage :=
  fun _ => c.selectors.take 2

/-- The text `{\x60p,q\x60 /* , */, y, z}`. -/
def shelteredBraces : Braces true :=
  threeItems (commented ⟨'\x60' :: ['p', ',', 'q'] ++ ['\x60'], .quoted (by simp)⟩)
    (bare (letter 'y' rfl)) (bare (letter 'z' rfl))

def shelteredClause : Clause :=
  threeSelectors "p,q".toList 25 28 30

/-- Commas in front of the last item that stays do no harm. -/
theorem shelteredBraces_drop_items :
    ∃ ps : List Proposal,
      statement ("import a.".toList ++ shelteredBraces.text ++ ['\n']) [shelteredClause]
        ((firstTwo shelteredClause).findings ⟨shelteredClause, shelteredClause, .null⟩) =
          ps.map Except.ok ∧
      ∃ text, Edit.applyAll ("import a.".toList ++ shelteredBraces.text ++ ['\n'])
          (Proposal.edits (ps.filter fun p => p.finding.entry.clause.id = shelteredClause.id)) =
            .ok text ∧
        ∃ d : Braces true, text = "import a.".toList ++ d.text ++ ['\n'] ∧
          d.items.members = [shelteredBraces.items.first, bare (letter 'y' rfl)] := by
  have hrecorded : shelteredBraces.RecordedBy "import a.".toList.length shelteredClause :=
    ⟨by decide, by decide⟩
  have hkept : shelteredBraces.kept (firstTwo shelteredClause) shelteredClause
      "import a.".toList.length = [shelteredBraces.items.first, bare (letter 'y' rfl)] :=
    rfl
  have hfound : SeparatorFound (firstTwo shelteredClause) shelteredClause
      "import a.".toList.length shelteredBraces := by
    refine Or.inr fun i hi => ?_
    rw [hkept] at hi
    cases hi
    decide
  obtain ⟨ps, hps, text, happly, hdrop, -⟩ := statement_drops_items "import a.".toList ['\n']
    (Usage.covers_singleton (firstTwo shelteredClause) ⟨shelteredClause, shelteredClause, .null⟩)
    (List.nodup_singleton _) (by simp; decide) (by simp; decide) (List.mem_singleton_self _)
    hrecorded (by decide) (by decide)
  exact ⟨ps, hps, text, happly, hdrop hfound⟩

/-- The text `{x, y /* , */, z}`. -/
def exposedBraces : Braces true :=
  threeItems (bare (letter 'x' rfl)) (commented (letter 'y' rfl))
    (bare (letter 'z' rfl))

def exposedClause : Clause :=
  threeSelectors ['x'] 13 24 26

/-- A comma in a comment behind the last item that stays is taken for the separator, and the comment
is left open. -/
theorem exposedBraces_left_open :
    exposedBraces.RecordedBy "import a.".toList.length exposedClause ∧
      (firstTwo exposedClause).unused exposedClause ≠ [] ∧
      2 ≤ ((firstTwo exposedClause).kept exposedClause).length ∧
      ∃ ps : List Proposal,
        statement ("import a.".toList ++ exposedBraces.text ++ ['\n']) [exposedClause]
          ((firstTwo exposedClause).findings ⟨exposedClause, exposedClause, .null⟩) =
            ps.map Except.ok ∧
        ∃ text, Edit.applyAll ("import a.".toList ++ exposedBraces.text ++ ['\n'])
            (Proposal.edits (ps.filter fun p => p.finding.entry.clause.id = exposedClause.id)) =
              .ok text ∧
          text = "import a.\x7bx, y /* \x7d\n".toList ∧
          ∀ d : Braces true, text ≠ "import a.".toList ++ d.text ++ ['\n'] := by
  have hrecorded : exposedBraces.RecordedBy "import a.".toList.length exposedClause :=
    ⟨by decide, by decide⟩
  have hunused : (firstTwo exposedClause).unused exposedClause ≠ [] := by decide
  have hkept : 2 ≤ ((firstTwo exposedClause).kept exposedClause).length := by decide
  obtain ⟨ps, hps, happly⟩ := exists_applyAll_remainder "import a.".toList ['\n']
    (Usage.covers_singleton (firstTwo exposedClause) ⟨exposedClause, exposedClause, .null⟩)
    (List.nodup_singleton _) (by simp; decide) (by simp; decide) (List.mem_singleton_self _)
    hrecorded hunused hkept
  refine ⟨hrecorded, hunused, hkept, ps, hps, _, happly, by decide, ?_⟩
  intro d heq
  have hinner : exposedBraces.remainder (firstTwo exposedClause) exposedClause
      "import a.".toList.length = d.inner := by
    simpa [Braces.text] using heq
  have hscan := d.scan_inner
  rw [← hinner] at hscan
  exact absurd hscan (by decide)

end UnusedImports.Commented
