import UnusedImports.Proofs.Source.Statements

/-!
# How a source is edited

The pieces of the statements of a source and the texts between them make up the source
(`exists_pieces_source`). What the fate of a statement takes from the text next to it stays in that
text, because statements start and end with solid text, and what two statements take from the text
between them does not overlap (`exists_middle`).
-/

set_option autoImplicit false

namespace UnusedImports

namespace Fate

theorem fronts_append (f : Fate) (gap : Text) {back : Text}
    (hback : ∀ c ∈ back.head?, Text.isSolid c = true) : f.fronts (gap ++ back) = f.fronts gap := by
  cases f <;> simp [fronts, Text.absorbed_append _ gap hback]

theorem backs_append (f : Fate) (gap : Text) {front : Text}
    (hfront : ∀ c ∈ front.getLast?, Text.isBlank c = false) :
    f.backs (front ++ gap) = f.backs gap := by
  cases f <;> simp [backs, Text.rtakeWhile_append gap hfront]

/-- What is taken from the start of a text is nothing, or blanks and at most one other character. -/
theorem eq_absorbed_of_mem_fronts {f : Fate} {gap front : Text} (h : front ∈ f.fronts gap) :
    front = [] ∨ ∃ emptied, front = Text.absorbed emptied gap := by
  cases f with
  | kept => exact Or.inl (by simpa [fronts] using h)
  | mended =>
    rcases List.mem_pair.1 h with h | h
    · exact Or.inl h
    · exact Or.inr ⟨false, h⟩
  | removed =>
    rcases List.mem_pair.1 h with h | h
    · exact Or.inr ⟨false, h⟩
    · exact Or.inr ⟨true, h⟩

theorem suffix_of_mem_backs {f : Fate} {gap back : Text} (h : back ∈ f.backs gap) :
    back <:+ gap := by
  cases f with
  | kept =>
    rw [List.mem_singleton.1 h]
    exact List.nil_suffix
  | mended =>
    rw [List.mem_singleton.1 h]
    exact List.nil_suffix
  | removed =>
    rcases List.mem_pair.1 h with rfl | rfl
    · exact List.nil_suffix
    · exact List.rtakeWhile_suffix Text.isBlank gap

/-- What two neighbours take from the text between them does not overlap. -/
theorem exists_middle {left right : Fate} {gap front back : Text} (hfront : front ∈ left.fronts gap)
    (hback : back ∈ right.backs gap) : ∃ middle, gap = front ++ middle ++ back := by
  have hnothing : front = [] → ∃ middle, gap = front ++ middle ++ back := by
    rintro rfl
    obtain ⟨middle, hmiddle⟩ := suffix_of_mem_backs hback
    exact ⟨middle, hmiddle.symm⟩
  rcases eq_absorbed_of_mem_fronts hfront with hnil | ⟨emptied, habsorbed⟩
  · exact hnothing hnil
  · rcases Text.absorbed_cases emptied gap with hnil | ⟨blanks, c, rest, rfl, hc, heq⟩
    · exact hnothing (habsorbed.trans hnil)
    · -- what is taken at the end stands behind the line break
      have hrest : back ∈ right.backs rest := by
        rw [← List.singleton_append, ← List.append_assoc, backs_append] at hback
        · exact hback
        · simpa using hc
      obtain ⟨middle, rfl⟩ := suffix_of_mem_backs hrest
      rw [habsorbed, heq]
      cases emptied with
      | true => exact ⟨middle, by simp⟩
      | false => exact ⟨c :: middle, by simp⟩

end Fate

namespace Grammar

open UnusedImports.Fix

variable {w : WordClass} {t : Text}

/-- Statements start with solid text. -/
theorem isSolid_head_partsText (parts : List (Statement w × Text)) :
    ∀ c ∈ (partsText parts).head?, Text.isSolid c = true := by
  cases parts with
  | nil => simp [partsText]
  | cons q rest =>
    obtain ⟨c, back, hc, hsolid⟩ := q.1.startsSolid
    simp [partsText, hc, hsolid]

/-- The pieces of the text `gap`, of which `front` is already taken, and of the statements behind
it. -/
theorem exists_pieces_parts (used : Usage) (id : Nat → Int) (parts : List (Statement w × Text))
    {left : Fate} {x gap front : Text} (hfront : front ∈ left.fronts gap)
    (hx : ∀ c ∈ x.getLast?, Text.isBlank c = false) (ht : t = x ++ gap ++ partsText parts) :
    ∃ ps : List Piece, (∀ q ∈ ps, q.Proper) ∧ front ++ Piece.old ps = gap ++ partsText parts ∧
      (partsClauses id (x.length + gap.length) parts).flatMap (statementEdits t used) =
        Piece.cuts (x.length + front.length) ps ∧
      PartsBecome used id left x.length gap parts (Piece.new ps) := by
  -- the induction carries what the statement in front has taken from the gap
  induction parts generalizing left x gap front with
  | nil =>
    have hnone : ([] : Text) ∈ Fate.kept.backs gap := List.mem_singleton.2 rfl
    obtain ⟨middle, hgap⟩ := Fate.exists_middle hfront hnone
    refine ⟨[.keep middle], Piece.proper_keep middle, ?_, rfl, ?_⟩
    · rw [hgap]
      simp [Piece.before, partsText]
    · refine .last ⟨front, hfront, [], hnone, ?_⟩
      rw [hgap]
      simp [Piece.after]
  | cons q rest ih =>
    obtain ⟨s, next⟩ := q
    have hnext : x ++ gap ++ s.text ++ (next ++ partsText rest) = t := by
      rw [ht]
      simp [partsText]
    -- cut the next statement in the text around it
    obtain ⟨front', hfront', back, hback, ps, hproper, hold, hedits, hbecomes⟩ :=
      s.exists_pieces used id (x ++ gap) (next ++ partsText rest)
    -- what it takes stays in the gaps next to it
    rw [Fate.fronts_append _ next (isSolid_head_partsText rest)] at hfront'
    rw [Fate.backs_append _ gap hx] at hback
    rw [hnext] at hedits
    obtain ⟨middle, hgap⟩ := Fate.exists_middle hfront hback
    have hlast : ∀ c ∈ (x ++ gap ++ s.text).getLast?, Text.isBlank c = false := by
      obtain ⟨body, c, hbody, hc⟩ := s.endsSolid
      rw [Text.isSolid, Bool.and_eq_true, Bool.not_eq_true'] at hc
      rw [hbody, ← List.append_assoc, List.getLast?_concat]
      simpa using hc.1
    obtain ⟨qs, hqproper, hqold, hqedits, hqbecomes⟩ := ih hfront' hlast (by
      rw [← hnext]
      simp)
    simp only [List.length_append] at hedits hbecomes hfront' hback hqedits hqbecomes
    have hstart : x.length + gap.length - back.length =
        x.length + front.length + middle.length := by
      rw [hgap, List.length_append, List.length_append]
      omega
    -- the rest of the gap, the statement, and what is behind it
    refine ⟨.keep middle :: (ps ++ qs), ?_, ?_, ?_, ?_⟩
    · intro q hq
      rcases List.mem_cons.1 hq with rfl | hq
      · trivial
      · rcases List.mem_append.1 hq with hq | hq
        · exact hproper q hq
        · exact hqproper q hq
    · rw [Piece.old_cons, Piece.old_append, hold, Piece.before, List.append_assoc (back ++ s.text),
        hqold, hgap]
      simp [partsText]
    · rw [partsClauses, List.flatMap_cons, hedits, hqedits, Piece.cuts_keep, Piece.cuts_append,
        hstart, hold]
      congr 2
      rw [hgap, List.length_append, List.length_append, List.length_append, List.length_append]
      omega
    · rw [Piece.new_cons, Piece.new_append, ← List.append_assoc]
      exact .part ⟨front, hfront, back, hback, hgap⟩ hbecomes hqbecomes

/-- The pieces of a source. -/
theorem exists_pieces_source (used : Usage) (id : Nat → Int) (src : Source w) :
    ∃ ps : List Piece, (∀ q ∈ ps, q.Proper) ∧ Piece.old ps = src.text ∧
      (src.clauses id).flatMap (statementEdits src.text used) = Piece.cuts 0 ps ∧
      src.Becomes used id (Piece.new ps) := by
  have hfront : ([] : Text) ∈ Fate.kept.fronts src.lead := List.mem_singleton.2 rfl
  have hstart : ∀ c ∈ ([] : Text).getLast?, Text.isBlank c = false := by simp
  have h := exists_pieces_parts (t := src.text) used id src.parts hfront hstart rfl
  simpa [Source.text, Source.clauses, Source.Becomes] using h

end Grammar

end UnusedImports
