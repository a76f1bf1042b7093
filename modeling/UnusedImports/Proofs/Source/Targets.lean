import UnusedImports.Proofs.Fix.Tiling
import UnusedImports.Proofs.Source.Grammar

/-!
# How a target is edited

A target of which something stays is kept, written anew, or reduced to a row of the items that stay.
`Target.pieces` cuts its text accordingly. Its edits are the swaps of the pieces
(`clauseEdits_eq_cuts`), and the new text of the pieces is a target with exactly the contents that
stay (`exists_target`).
-/

set_option autoImplicit false

namespace UnusedImports.Grammar

open UnusedImports.Fix

variable {w : WordClass} {t : Text} {used : Usage}

/-! ## Items -/

/-- How the items of the clause `c` are cut. -/
def itemCarving (used : Usage) (c : Clause) : Carving White (Item w) where
  gap := itemGap
  body := Item.text
  alive n i := !used.isUnused c (i.selector n)
  own _ i := [.keep i.text]
  extra _ _ := []
  final _ i := [.keep i.text]

theorem sound_itemCarving (used : Usage) (c : Clause) :
    (itemCarving used c : Carving White (Item w)).Sound where
  own _ i := List.append_nil i.text
  final _ _ _ := rfl
  body_ne_nil i := i.startsSolid.ne_nil
  gap_ne_nil lead := List.cons_ne_nil ',' lead.val
  own_proper _ i := Piece.proper_keep i.text
  final_proper _ i := Piece.proper_keep i.text

/-- The comma behind an item is the next one. -/
theorem commaAfter_selector {n : Nat} {i : Item w} {lead : White} {back : Text}
    (h : t.HasAt n (i.text ++ itemGap lead ++ back)) :
    commaAfter t (i.selector n) = (n + i.text.length : Nat) := by
  rw [List.append_assoc, itemGap, List.cons_append] at h
  have hfind := Text.find?_of_hasAt h i.comma_not_mem
  simp only [commaAfter, Item.selector, hfind]

/-- Items between braces are edited as they are cut. The brace and what follows it stand behind
them. -/
theorem carves_items {c : Clause} {after : Text} (hafter : after.StartsSolid)
    (hstop : c.place.stop - 1 + after.length = t.length) :
    (itemCarving used c : Carving White (Item w)).Carves t (selectorPruning t used c)
      (fun n i => i.selector n) after where
  alive _ _ := rfl
  own _ _ _ _ _ := rfl
  cut _ _ _ d h := edit_delete_of_solidAt (Carving.solidAt_next h d.startsSolid)
  bridge _ _ _ d h := by
    refine (edit_delete_of_solidAt (Carving.solidAt_next h d.startsSolid)).trans ?_
    rw [commaAfter_selector h]
    rfl
  final _ _ _ _ := rfl
  close _ _ n i _ h _ := by
    -- the last item ends where the closing brace stands
    have hbehind : t.drop (n + i.text.length) = after := Text.drop_add_of_drop h
    have hlength := congrArg List.length hbehind
    have hpos := List.length_pos_iff.2 hafter.ne_nil
    rw [List.length_drop] at hlength
    have heq : c.place.stop - 1 = (n + i.text.length : Nat) := by omega
    have hbrace : t.solidAt (n + i.text.length : Nat) = true :=
      Text.solidAt_of_hasAt ⟨[], (List.append_nil _).trans hbehind.symm⟩ hafter
    change (delete t n (c.place.stop - 1)).edit = _
    rw [heq, edit_delete_of_solidAt hbrace]
    rfl

/-! ## Rendered targets -/

/-- A selector of what is imported has a name of the grammar, and so has its rename. -/
theorem exists_names {n : Nat} {is : Imports w} {s : Selector} (hs : s ∈ is.selectors n) :
    ∃ (name : Name w) (rename : Option (Name w)),
      s.name = name.val ∧ s.rename = rename.map Subtype.val ∧ s.isWildcard = name.isWildcard := by
  cases is with
  | single name =>
    rw [Imports.selectors, List.mem_singleton] at hs
    subst hs
    exact ⟨name, none, rfl, rfl, rfl⟩
  | braces lead items =>
    obtain ⟨m, i, -, -, -, rfl⟩ := Row.mem_placed hs
    refine ⟨i.name, i.rename.map Rename.name, rfl, ?_, rfl⟩
    rw [Option.map_map]
    rfl

/-- A space. -/
def space : White := ⟨[' '], by simp [isWhite]⟩

/-- No white space. -/
def noWhite : White := ⟨[], by simp⟩

/-- The item for a selector that gets another name. -/
theorem exists_item_render {name : Name w} {rename : Option (Name w)} {s : Selector}
    (hname : s.name = name.val) (hrename : s.rename = rename.map Subtype.val)
    (hwildcard : s.isWildcard = name.isWildcard) (h : s.isRename = true) :
    ∃ i : Item w, s.render = i.text ∧ i.content = s.content := by
  rw [Selector.render, Selector.content, hwildcard, hname]
  cases hcard : name.isWildcard with
  | true =>
    -- a wildcard is written without its rename
    have hunderscore : name.val = ['_'] := of_decide_eq_true hcard
    refine ⟨⟨name, none, noWhite⟩, ?_, ?_⟩
    · simp [Item.text, noWhite, hunderscore]
    · simp [Item.content]
  | false =>
    cases rename with
    | none => simp [Selector.isRename, hrename] at h
    | some r =>
      have hne : r.val ≠ name.val := by simpa [Selector.isRename, hrename, hname] using h
      refine ⟨⟨name, some ⟨space, space, r⟩, noWhite⟩, ?_, ?_⟩
      · simp [Item.text, Rename.text, space, noWhite, hrename, hne]
      · simp [Item.content, hcard, hrename]

/-- The name for a selector that gets no other name. -/
theorem render_of_not_isRename {name : Name w} {s : Selector} (hname : s.name = name.val)
    (hwildcard : s.isWildcard = name.isWildcard) (h : s.isRename = false) :
    s.render = name.val ∧ s.content = (name.val, none) := by
  rw [Selector.render, Selector.content, hwildcard, hname]
  cases hcard : name.isWildcard with
  | true =>
    have hunderscore : name.val = ['_'] := of_decide_eq_true hcard
    simp [hunderscore]
  | false =>
    cases hrename : s.rename with
    | none => simp
    | some r =>
      -- a rename to the same name is not written
      have heq : r = name.val := by simpa [Selector.isRename, hrename, hname] using h
      simp [heq]

/-- A target that is written anew for one of its selectors imports what the selector imports. -/
theorem exists_target_render {n : Nat} {e : Target w} {s : Selector} {c : Clause}
    (hs : s ∈ e.imports.selectors n) (hqualifier : c.qualifier = e.pathText) :
    ∃ d : Target w, c.render [s] = d.text ∧ d.content = (c.qualifier, [s.content]) := by
  obtain ⟨name, rename, hname, hrename, hwildcard⟩ := exists_names hs
  rw [Clause.render, Clause.needsBraces, hqualifier]
  cases hisRename : s.isRename with
  | true =>
    obtain ⟨i, hrender, hcontent⟩ := exists_item_render hname hrename hwildcard hisRename
    refine ⟨{ e with imports := .braces noWhite ⟨i, []⟩ }, ?_, ?_⟩
    · simp [Text.join, Target.text, Target.pathText, Imports.text, Row.text, noWhite, hrender]
    · simp [Target.content, Target.pathText, Imports.contents, Row.members, hcontent]
  | false =>
    obtain ⟨hrender, hcontent⟩ := render_of_not_isRename hname hwildcard hisRename
    refine ⟨{ e with imports := .single name }, ?_, ?_⟩
    · simp [Text.join, Target.text, Target.pathText, Imports.text, hrender]
    · simp [Target.content, Target.pathText, Imports.contents, hcontent]

/-! ## Targets -/

/-- The pieces of what is imported, if it stands at `n` and more than one selector stays. -/
def Imports.pieces (used : Usage) (c : Clause) (n : Nat) : Imports w → List Piece
  | .single name => [.keep name.val]
  | .braces lead items =>
    .keep ('\x7b' :: lead.val) ::
      ((itemCarving used c).pieces (n + 1 + lead.val.length) items.first items.rest ++
        [.keep ['\x7d']])

/-- The pieces of a target at `n` with the clause `c`, of which something stays. The text `back` is
removed with the target, if it is written anew. -/
def Target.pieces (used : Usage) (c : Clause) (back : Text) (n : Nat) (e : Target w) : List Piece :=
  if used.unused c = [] then [.keep e.text]
  else if collapses used c then [.swap (e.text ++ back) (c.render (used.kept c))]
  else .keep (e.pathText ++ ['.']) :: e.imports.pieces used c (n + e.pathText.length + 1)

variable {e : Target w} {id : Int} {start n : Nat} {back after : Text}

theorem lastExtra_itemCarving (c : Clause) (n : Nat) (i : Item w) (rest : List (White × Item w)) :
    (itemCarving used c).lastExtra n i rest = [] := by
  induction rest generalizing n i with
  | nil => rfl
  | cons q rest ih => exact ih _ q.2

theorem Imports.old_pieces (c : Clause) (n : Nat) (is : Imports w) :
    Piece.old (is.pieces used c n) = is.text := by
  cases is with
  | single name => exact List.append_nil _
  | braces lead items =>
    rw [Imports.pieces, Piece.old_cons, Piece.old_append,
      Carving.old_pieces (sound_itemCarving used c), lastExtra_itemCarving, List.append_nil]
    simp only [Piece.old_cons, Piece.old_nil, Piece.before, List.append_nil, Imports.text,
      ← List.append_assoc]
    rfl

/-- The pieces of a target make up its text and what is removed behind it. -/
theorem Target.old_pieces (c : Clause) (back : Text) (n : Nat) (e : Target w) :
    Piece.old (e.pieces used c back n) = e.text ++ if collapses used c then back else [] := by
  rw [Target.pieces]
  split
  · rename_i hunused
    simp [collapses, hunused, Piece.before]
  · split
    · simp [Piece.before]
    · simp [Piece.before, Imports.old_pieces, Target.text]

theorem Target.proper_pieces (c : Clause) (back : Text) (n : Nat) (e : Target w) :
    ∀ q ∈ e.pieces used c back n, q.Proper := by
  rw [Target.pieces]
  split
  · exact Piece.proper_keep e.text
  · split
    · exact Piece.proper_swap (by simp [e.startsSolid.ne_nil]) _
    · intro q hq
      rcases List.mem_cons.1 hq with rfl | hq
      · trivial
      · cases himports : e.imports with
        | single name =>
          rw [himports] at hq
          exact Piece.proper_keep name.val q hq
        | braces lead items =>
          rw [himports, Imports.pieces, List.mem_cons, List.mem_append, List.mem_singleton] at hq
          rcases hq with rfl | hq | rfl
          · trivial
          · exact Carving.proper_pieces (sound_itemCarving used c) _ _ _ q hq
          · trivial

/-- Something stays in a row of items exactly if some selector stays. -/
theorem live_itemCarving (c : Clause) (n : Nat) (items : Row White (Item w)) :
    (itemCarving used c).live n items.first items.rest =
      (items.placed itemGap Item.text Item.selector n).any fun s => !used.isUnused c s := by
  have halive : (itemCarving used c : Carving White (Item w)).placed
      (itemCarving used c).alive n items.first items.rest =
        (items.placed itemGap Item.text Item.selector n).map fun s => !used.isUnused c s :=
    (@Row.map_placed _ _ _ _ itemGap Item.text Item.selector (fun s => !used.isUnused c s) n
      items).symm
  rw [Carving.live, halive, List.any_map]
  rfl

/-- A clause of which something goes and something stays has braces, and an item between them
stays. -/
theorem Imports.exists_braces {c : Clause} {is : Imports w}
    (hselectors : c.selectors = is.selectors n) (hunused : used.unused c ≠ [])
    (hkept : used.kept c ≠ []) :
    ∃ lead items, is = .braces lead items ∧
      (itemCarving used c).live (n + 1 + lead.val.length) items.first items.rest = true := by
  obtain ⟨s, hs⟩ := List.exists_mem_of_ne_nil _ hkept
  obtain ⟨hsmem, hstays⟩ := List.mem_filter.1 hs
  rw [hselectors] at hsmem
  cases is with
  | single name =>
    -- the one selector would both go and stay
    rw [Imports.selectors] at hselectors hsmem
    rw [Usage.unused, hselectors, ← List.mem_singleton.1 hsmem] at hunused
    simp at hstays
    simp [hstays] at hunused
  | braces lead items =>
    refine ⟨lead, items, rfl, ?_⟩
    rw [live_itemCarving, List.any_eq_true]
    exact ⟨s, hsmem, hstays⟩

/-- The edits between braces are the swaps of the pieces of the items. -/
theorem Imports.edits_eq_cuts {c : Clause} {is : Imports w}
    (hselectors : c.selectors = is.selectors n) (hat : t.drop n = is.text ++ after)
    (hstop : c.place.stop + after.length = t.length) (hunused : used.unused c ≠ [])
    (hkept : used.kept c ≠ []) :
    (selectorPruning t used c).edits c.selectors = Piece.cuts n (is.pieces used c n) := by
  obtain ⟨lead, items, rfl, hlive⟩ := Imports.exists_braces hselectors hunused hkept
  have hitems : t.drop (n + ('\x7b' :: lead.val).length) =
      (itemCarving used c).rowText items.first items.rest ++ '\x7d' :: after := by
    refine Text.drop_add_of_drop ?_
    rw [hat, Imports.text, List.append_assoc, List.append_assoc]
    rfl
  have hlength : n + ('\x7b' :: lead.val).length = n + 1 + lead.val.length := by
    rw [List.length_cons, Nat.add_comm lead.val.length 1, Nat.add_assoc]
  rw [hlength] at hitems
  have hbrace : c.place.stop - 1 + ('\x7d' :: after).length = t.length := by
    rw [List.length_cons]
    omega
  have hedits := Carving.edits_placed (carves_items ⟨_, _, rfl, by decide⟩ hbrace)
    (sound_itemCarving used c) hitems hlive
  rw [hselectors, Imports.pieces, Piece.cuts_keep, Piece.cuts_append, Piece.cuts_keep,
    Piece.cuts_nil, List.append_nil, hlength]
  exact hedits

/-- The edits of a target of which something stays are the swaps of its pieces. -/
theorem clauseEdits_eq_cuts (hat : t.drop n = e.text ++ after)
    (hback : t.trimStop (n + e.text.length : Nat) = (n + e.text.length + back.length : Nat))
    (hdead : used.isDead (e.clause id start n) = false) :
    clauseEdits t used 0 (e.clause id start n) =
      Piece.cuts n (e.pieces used (e.clause id start n) back n) := by
  have hcutStart : cutStart 0 (e.clause id start n) = (n : Int) := rfl
  have hplace : (e.clause id start n).place.stop = (n + e.text.length : Nat) := rfl
  rw [Target.pieces]
  split
  · -- nothing goes
    rename_i hunused
    rw [clauseEdits, if_pos hunused]
    rfl
  · rename_i hunused
    split
    · -- one selector stays, and the target is written anew
      rename_i hcollapses
      rw [clauseEdits_of_collapses hcollapses, Piece.cuts_swap, Piece.cuts_nil, hcutStart,
        List.length_append, ← Nat.add_assoc, ← hback, hplace]
    · -- several selectors stay, and the braces with them
      rename_i hcollapses
      have hone : (used.kept (e.clause id start n)).length ≠ 1 := by
        simpa [collapses, hunused] using hcollapses
      have hlength := congrArg List.length hat
      have hpos := List.length_pos_iff.2 e.startsSolid.ne_nil
      rw [List.length_drop, List.length_append] at hlength
      have himports : t.drop (n + (e.pathText ++ ['.']).length) = e.imports.text ++ after := by
        refine Text.drop_add_of_drop ?_
        rw [hat, Target.text]
        simp
      have hpoint : n + (e.pathText ++ ['.']).length = n + e.pathText.length + 1 := by
        rw [List.length_append, List.length_singleton, Nat.add_assoc]
      rw [hpoint] at himports
      rw [clauseEdits, if_neg hunused, if_neg hone, Piece.cuts_keep, hpoint]
      exact Imports.edits_eq_cuts rfl himports (by rw [hplace]; omega) hunused
        (Usage.kept_ne_nil hdead hunused)

/-- What is left of the items between braces imports what stays. -/
theorem Imports.exists_imports {c : Clause} {is : Imports w}
    (hselectors : c.selectors = is.selectors n) (hunused : used.unused c ≠ [])
    (hkept : used.kept c ≠ []) :
    ∃ js : Imports w, Piece.new (is.pieces used c n) = js.text ∧
      js.contents = (used.kept c).map Selector.content := by
  obtain ⟨lead, items, rfl, hlive⟩ := Imports.exists_braces hselectors hunused hkept
  have hown : ∀ m (i : Item w), (itemCarving used c).alive m i = true →
      ∃ d : Item w, Piece.new ((itemCarving used c).own m i) = (itemCarving used c).body d ∧
        d.content = (i.selector m).content :=
    fun m i _ => ⟨i, List.append_nil _, rfl⟩
  obtain ⟨r, hr, hmembers⟩ := Carving.exists_row hown hown hlive
  have hfilter := Carving.survivors_eq_map_filter (c := itemCarving used c)
    (f := fun n (i : Item w) => i.selector n) (q := fun s => !used.isUnused c s) Selector.content
    (fun _ _ => rfl) (n + 1 + lead.val.length) items.first items.rest
  refine ⟨.braces lead r, ?_, ?_⟩
  · rw [Imports.pieces, Piece.new_cons, Piece.new_append, hr, Piece.new_cons, Piece.new_nil,
      List.append_nil, Piece.after, Piece.after, Imports.text, List.append_assoc]
    rfl
  · rw [Imports.contents, hmembers, hfilter, Usage.kept, hselectors]
    rfl

/-- What is left of a target is a target that imports what stays. -/
theorem exists_target (hdead : used.isDead (e.clause id start n) = false) :
    ∃ d : Target w, Piece.new (e.pieces used (e.clause id start n) back n) = d.text ∧
      d.content = (used.reduce (e.clause id start n)).content := by
  rw [Target.pieces]
  split
  · rename_i hunused
    refine ⟨e, List.append_nil _, ?_⟩
    rw [← Target.content_clause id start n e, Usage.reduce, Usage.kept_eq_self hunused]
  · rename_i hunused
    split
    · -- the selector that stays is rendered as a target of the grammar
      rename_i hcollapses
      rw [collapses, Bool.and_eq_true, decide_eq_true_eq] at hcollapses
      obtain ⟨s, hs⟩ := List.length_eq_one_iff.1 hcollapses.2
      have hmem : s ∈ e.imports.selectors (n + e.pathText.length + 1) := by
        have hkept : s ∈ used.kept (e.clause id start n) := by simp [hs]
        exact (List.mem_filter.1 hkept).1
      obtain ⟨d, hrender, hcontent⟩ :=
        exists_target_render (c := e.clause id start n) hmem rfl
      refine ⟨d, ?_, ?_⟩
      · rw [hs, hrender]
        exact List.append_nil _
      · rw [hcontent, Usage.reduce, hs]
        rfl
    · obtain ⟨js, hjs, hcontents⟩ := Imports.exists_imports (c := e.clause id start n) rfl hunused
        (Usage.kept_ne_nil hdead hunused)
      refine ⟨{ e with imports := js }, ?_, ?_⟩
      · rw [Piece.new_cons, hjs, Piece.after, List.append_assoc]
        rfl
      · rw [Target.content, hcontents]
        rfl

end UnusedImports.Grammar
