import UnusedImports.Proofs.Edit.Pieces
import UnusedImports.Proofs.Fix.Pruning
import UnusedImports.Proofs.Text.Standing

/-!
# Rows with gaps

The clauses of a statement and the selectors between braces stand in rows: a first member, and then
gaps and members in turn. `Carving.pieces` cuts the text of a row from which members are removed
into pieces, and two facts carry over from the members to the row: the edits of a pruned list are
the swaps of the pieces (`Carving.edits_placed`), and the new text of the pieces is the text of a
row of the members that stay (`Carving.exists_row`).
-/

set_option autoImplicit false

namespace UnusedImports

/-- A first member, and further members with gaps in front of them. -/
structure Row (γ ε : Type) where
  first : ε
  rest : List (γ × ε)

namespace Row

variable {γ ε β κ : Type}

/-- The members of a row. -/
def members (r : Row γ ε) : List ε :=
  r.first :: r.rest.map Prod.snd

variable (gap : γ → Text) (body : ε → Text)

/-- The text of a row from the texts of its gaps and members. -/
def text (r : Row γ ε) : Text :=
  body r.first ++ r.rest.flatMap fun q => gap q.1 ++ body q.2

/-- Where the member behind `e` and `g` stands, if `e` stands at `n`. -/
def next (n : Nat) (e : ε) (g : γ) : Nat :=
  n + (body e).length + (gap g).length

/-- What a function of offsets and members yields for the members behind `e`, which stands at
`n`. -/
def behind (f : Nat → ε → β) : Nat → ε → List (γ × ε) → List β
  | _, _, [] => []
  | n, e, (g, d) :: rest => f (next gap body n e g) d :: behind f (next gap body n e g) d rest

/-- What a function of offsets and members yields for the members of a row that stands at `n`. -/
def placed (f : Nat → ε → β) (n : Nat) (r : Row γ ε) : List β :=
  f n r.first :: behind gap body f n r.first r.rest

variable {gap : γ → Text} {body : ε → Text}

theorem map_behind (f : Nat → ε → β) (k : β → κ) (n : Nat) (e : ε) (rest : List (γ × ε)) :
    (behind gap body f n e rest).map k = behind gap body (fun n e => k (f n e)) n e rest := by
  induction rest generalizing n e with
  | nil => rfl
  | cons q rest ih => rw [behind, List.map_cons, ih, behind]

theorem map_placed (f : Nat → ε → β) (k : β → κ) (n : Nat) (r : Row γ ε) :
    (placed gap body f n r).map k = placed gap body (fun n e => k (f n e)) n r := by
  rw [placed, List.map_cons, map_behind, placed]

/-- A function that ignores the offsets is mapped over the members. -/
theorem placed_const (f : ε → β) (n : Nat) (r : Row γ ε) :
    placed gap body (fun _ e => f e) n r = r.members.map f := by
  obtain ⟨e, rest⟩ := r
  rw [placed, members, List.map_cons, List.map_map]
  congr 1
  induction rest generalizing n e with
  | nil => rfl
  | cons q rest ih => rw [behind, List.map_cons, ih, Function.comp_apply]

theorem text_nil (e : ε) : text gap body ⟨e, []⟩ = body e :=
  List.append_nil _

theorem text_cons (e d : ε) (g : γ) (rest : List (γ × ε)) :
    text gap body ⟨e, (g, d) :: rest⟩ = body e ++ gap g ++ text gap body ⟨d, rest⟩ := by
  simp [text]

theorem length_first_le (e : ε) (rest : List (γ × ε)) :
    (body e).length ≤ (text gap body ⟨e, rest⟩).length := by
  rw [text, List.length_append]
  exact Nat.le_add_right _ _

/-- A member behind `e` stands behind `e` and ends where the row ends, or before. -/
theorem mem_behind {f : Nat → ε → β} {n : Nat} {e : ε} {rest : List (γ × ε)} {b : β}
    (hb : b ∈ behind gap body f n e rest) :
    ∃ m d, d ∈ rest.map Prod.snd ∧ n + (body e).length ≤ m ∧
      m + (body d).length ≤ n + (text gap body ⟨e, rest⟩).length ∧ f m d = b := by
  induction rest generalizing n e with
  | nil => exact absurd hb List.not_mem_nil
  | cons q rest ih =>
    obtain ⟨g, d⟩ := q
    have hlength := congrArg List.length (@text_cons _ _ gap body e d g rest)
    rw [List.length_append, List.length_append] at hlength
    rcases List.mem_cons.1 hb with rfl | hb
    · -- the next member, right behind the gap
      have hfirst : _ ≤ (text gap body ⟨d, rest⟩).length := length_first_le d rest
      refine ⟨next gap body n e g, d, by simp, ?_, ?_, rfl⟩ <;> rw [next] <;> omega
    · -- a member behind the next one, where the row of the others ends where this row ends
      obtain ⟨m, k, hk, hstart, hstop, hf⟩ := ih hb
      rw [next] at hstart hstop
      refine ⟨m, k, List.mem_cons_of_mem d hk, ?_, ?_, hf⟩ <;> omega

/-- A member of a row stands in the row. -/
theorem mem_placed {f : Nat → ε → β} {n : Nat} {r : Row γ ε} {b : β}
    (hb : b ∈ placed gap body f n r) :
    ∃ m e, e ∈ r.members ∧ n ≤ m ∧ m + (body e).length ≤ n + (r.text gap body).length ∧
      f m e = b := by
  obtain ⟨e, rest⟩ := r
  rcases List.mem_cons.1 hb with rfl | hb
  · exact ⟨n, e, List.mem_cons_self, Nat.le_refl n, Nat.add_le_add_left (length_first_le e rest) n,
      rfl⟩
  · obtain ⟨m, d, hd, hstart, hstop, hf⟩ := mem_behind hb
    exact ⟨m, d, List.mem_cons_of_mem e hd, by omega, hstop, hf⟩

/-- Some member of a row ends where the row ends. -/
theorem exists_last_placed (f : Nat → ε → β) (n : Nat) (r : Row γ ε) :
    ∃ m e, f m e ∈ placed gap body f n r ∧ m + (body e).length = n + (r.text gap body).length := by
  obtain ⟨e, rest⟩ := r
  induction rest generalizing n e with
  | nil => exact ⟨n, e, List.mem_cons_self, by rw [text_nil]⟩
  | cons q rest ih =>
    obtain ⟨g, d⟩ := q
    obtain ⟨m, k, hmem, hlast⟩ := ih (next gap body n e g) d
    refine ⟨m, k, List.mem_cons_of_mem _ hmem, ?_⟩
    rw [hlast, text_cons, List.length_append, List.length_append, next]
    omega

/-- The members of a row stand one behind the other. -/
theorem pairwise_placed {f : Nat → ε → β} {R : β → β → Prop}
    (hR : ∀ m e k d, m + (body e).length ≤ k → R (f m e) (f k d)) (n : Nat) (r : Row γ ε) :
    (placed gap body f n r).Pairwise R := by
  obtain ⟨e, rest⟩ := r
  induction rest generalizing n e with
  | nil => exact List.pairwise_singleton _ _
  | cons q rest ih =>
    obtain ⟨g, d⟩ := q
    refine List.pairwise_cons.2 ⟨?_, ih (next gap body n e g) d⟩
    intro b hb
    have hbehind : b ∈ behind gap body f n e ((g, d) :: rest) := hb
    obtain ⟨m, k, -, hstart, -, rfl⟩ := mem_behind hbehind
    exact hR n e m k hstart

end Row

/-- How a row is cut into pieces. -/
structure Carving (γ ε : Type) where
  gap : γ → Text
  body : ε → Text
  /-- The member at an offset stays. -/
  alive : Nat → ε → Bool
  /-- The pieces of a member that stays. -/
  own : Nat → ε → List Piece
  /-- What is taken from the text behind the row, if the member is the last one. -/
  extra : Nat → ε → Text
  /-- The pieces of a last member that stays, together with the extra text. -/
  final : Nat → ε → List Piece

namespace Carving

variable {γ ε β κ : Type} (c : Carving γ ε)

/-- Where the member behind `e` and `g` stands. -/
def next (n : Nat) (e : ε) (g : γ) : Nat :=
  Row.next c.gap c.body n e g

/-- What a function yields for all members of a row at an offset. -/
def placed (f : Nat → ε → β) (n : Nat) (e : ε) (rest : List (γ × ε)) : List β :=
  Row.placed c.gap c.body f n ⟨e, rest⟩

/-- The text of a row. -/
def rowText (e : ε) (rest : List (γ × ε)) : Text :=
  Row.text c.gap c.body ⟨e, rest⟩

/-- Some member of a row at an offset stays. -/
def live (n : Nat) (e : ε) (rest : List (γ × ε)) : Bool :=
  (c.placed c.alive n e rest).any id

/-- What a function yields for the members of a row that stay. -/
def survivors (k : Nat → ε → κ) (n : Nat) (e : ε) (rest : List (γ × ε)) : List κ :=
  (c.placed (fun n e => if c.alive n e then [k n e] else []) n e rest).flatten

/-- What is taken from the text behind a row at an offset. -/
def lastExtra : Nat → ε → List (γ × ε) → Text
  | n, e, [] => c.extra n e
  | n, e, (g, d) :: rest => lastExtra (c.next n e g) d rest

/-- The pieces of a row at an offset from which the members that go are removed. -/
def pieces : Nat → ε → List (γ × ε) → List Piece
  | n, e, [] => if c.alive n e then c.final n e else [.swap (c.body e ++ c.extra n e) []]
  | n, e, (g, d) :: rest =>
    if c.alive n e then
      c.own n e ++ (if c.live (c.next n e g) d rest then .keep (c.gap g) else .swap (c.gap g) []) ::
        pieces (c.next n e g) d rest
    else .swap (c.body e ++ c.gap g) [] :: pieces (c.next n e g) d rest

variable {c}

@[simp] theorem placed_nil (f : Nat → ε → β) (n : Nat) (e : ε) : c.placed f n e [] = [f n e] := rfl

@[simp] theorem placed_cons (f : Nat → ε → β) (n : Nat) (e d : ε) (g : γ) (rest : List (γ × ε)) :
    c.placed f n e ((g, d) :: rest) = f n e :: c.placed f (c.next n e g) d rest := rfl

@[simp] theorem rowText_nil (e : ε) : c.rowText e [] = c.body e :=
  Row.text_nil e

@[simp] theorem rowText_cons (e d : ε) (g : γ) (rest : List (γ × ε)) :
    c.rowText e ((g, d) :: rest) = c.body e ++ c.gap g ++ c.rowText d rest :=
  Row.text_cons e d g rest

theorem live_nil (n : Nat) (e : ε) : c.live n e [] = c.alive n e := by
  simp [live]

theorem live_cons (n : Nat) (e d : ε) (g : γ) (rest : List (γ × ε)) :
    c.live n e ((g, d) :: rest) = (c.alive n e || c.live (c.next n e g) d rest) := by
  simp [live]

@[simp] theorem survivors_nil (k : Nat → ε → κ) (n : Nat) (e : ε) :
    c.survivors k n e [] = if c.alive n e then [k n e] else [] := by
  simp [survivors]

theorem survivors_cons (k : Nat → ε → κ) (n : Nat) (e d : ε) (g : γ) (rest : List (γ × ε)) :
    c.survivors k n e ((g, d) :: rest) =
      (if c.alive n e then [k n e] else []) ++ c.survivors k (c.next n e g) d rest := by
  simp [survivors]

/-- Nothing survives in a row from which nothing stays. -/
theorem survivors_of_dead {k : Nat → ε → κ} {n : Nat} {e : ε} {rest : List (γ × ε)}
    (hdead : c.live n e rest = false) : c.survivors k n e rest = [] := by
  induction rest generalizing n e with
  | nil =>
    rw [live_nil] at hdead
    simp [hdead]
  | cons q rest ih =>
    obtain ⟨g, d⟩ := q
    rw [live_cons, Bool.or_eq_false_iff] at hdead
    rw [survivors_cons, hdead.1, ih hdead.2]
    rfl

/-- The members that stay, if what a function yields for a member tells whether it stays. -/
theorem survivors_eq_map_filter {f : Nat → ε → β} {q : β → Bool} (k : β → κ)
    (halive : ∀ n e, c.alive n e = q (f n e)) (n : Nat) (e : ε) (rest : List (γ × ε)) :
    c.survivors (fun n e => k (f n e)) n e rest = ((c.placed f n e rest).filter q).map k := by
  induction rest generalizing n e with
  | nil =>
    rw [survivors_nil, placed_nil, halive, List.filter_singleton]
    cases q (f n e) <;> rfl
  | cons p rest ih =>
    obtain ⟨g, d⟩ := p
    rw [survivors_cons, placed_cons, ih, halive, List.filter_cons]
    cases q (f n e) <;> rfl

/-- The pieces of a member make up its text. -/
structure Sound (c : Carving γ ε) : Prop where
  own : ∀ n e, Piece.old (c.own n e) = c.body e
  final : ∀ n e, c.alive n e = true → Piece.old (c.final n e) = c.body e ++ c.extra n e
  body_ne_nil : ∀ e, c.body e ≠ []
  gap_ne_nil : ∀ g, c.gap g ≠ []
  own_proper : ∀ n e, ∀ q ∈ c.own n e, q.Proper
  final_proper : ∀ n e, ∀ q ∈ c.final n e, q.Proper

/-- The pieces of a row make up its text and what is taken behind it. -/
theorem old_pieces (h : c.Sound) (n : Nat) (e : ε) (rest : List (γ × ε)) :
    Piece.old (c.pieces n e rest) = c.rowText e rest ++ c.lastExtra n e rest := by
  induction rest generalizing n e with
  | nil =>
    rw [pieces, rowText_nil, lastExtra]
    split
    · rename_i halive
      exact h.final n e halive
    · simp [Piece.before]
  | cons q rest ih =>
    obtain ⟨g, d⟩ := q
    rw [pieces, rowText_cons, lastExtra]
    split
    · rw [Piece.old_append, h.own, Piece.old_cons, ih]
      split <;> simp [Piece.before]
    · rw [Piece.old_cons, ih]
      simp [Piece.before]

/-- The pieces of a row are proper. -/
theorem proper_pieces (h : c.Sound) (n : Nat) (e : ε) (rest : List (γ × ε)) :
    ∀ q ∈ c.pieces n e rest, q.Proper := by
  induction rest generalizing n e with
  | nil =>
    rw [pieces]
    split
    · exact h.final_proper n e
    · exact Piece.proper_swap (by simp [h.body_ne_nil e]) []
  | cons r rest ih =>
    obtain ⟨g, d⟩ := r
    intro q hq
    rw [pieces] at hq
    split at hq
    · rw [List.mem_append, List.mem_cons] at hq
      rcases hq with hq | rfl | hq
      · exact h.own_proper n e q hq
      · split
        · trivial
        · exact h.gap_ne_nil g
      · exact ih _ _ q hq
    · rcases List.mem_cons.1 hq with rfl | hq
      · simp [Piece.Proper, h.body_ne_nil e]
      · exact ih _ _ q hq

/-! ## The row that stays -/

/-- Nothing is left of a row from which nothing stays. -/
theorem new_pieces_of_dead {n : Nat} {e : ε} {rest : List (γ × ε)}
    (hdead : c.live n e rest = false) : Piece.new (c.pieces n e rest) = [] := by
  induction rest generalizing n e with
  | nil =>
    rw [live_nil] at hdead
    rw [pieces, hdead, if_neg Bool.false_ne_true]
    rfl
  | cons q rest ih =>
    obtain ⟨g, d⟩ := q
    rw [live_cons, Bool.or_eq_false_iff] at hdead
    rw [pieces, hdead.1, if_neg Bool.false_ne_true, Piece.new_cons, ih hdead.2]
    rfl

/-- What is left of a row from which something stays is a row of what is left of its members. -/
theorem exists_row {content : ε → κ} {k : Nat → ε → κ}
    (hown : ∀ n e, c.alive n e = true →
      ∃ d, Piece.new (c.own n e) = c.body d ∧ content d = k n e)
    (hfinal : ∀ n e, c.alive n e = true →
      ∃ d, Piece.new (c.final n e) = c.body d ∧ content d = k n e)
    {n : Nat} {e : ε} {rest : List (γ × ε)} (hlive : c.live n e rest = true) :
    ∃ r : Row γ ε, Piece.new (c.pieces n e rest) = r.text c.gap c.body ∧
      r.members.map content = c.survivors k n e rest := by
  induction rest generalizing n e with
  | nil =>
    rw [live_nil] at hlive
    obtain ⟨d, hd, hcontent⟩ := hfinal n e hlive
    refine ⟨⟨d, []⟩, ?_, ?_⟩
    · rw [pieces, hlive, if_pos rfl, hd]
      exact (List.append_nil _).symm
    · simp [Row.members, hlive, hcontent]
  | cons q rest ih =>
    obtain ⟨g, f⟩ := q
    rw [live_cons] at hlive
    cases halive : c.alive n e with
    | false =>
      -- the member goes with the gap behind it, so the row of the others is the whole row
      rw [halive, Bool.false_or] at hlive
      obtain ⟨r, hr, hmembers⟩ := ih hlive
      refine ⟨r, ?_, ?_⟩
      · rw [pieces, halive, if_neg Bool.false_ne_true, Piece.new_cons, hr]
        rfl
      · rw [hmembers, survivors_cons, halive]
        rfl
    | true =>
      obtain ⟨d, hd, hcontent⟩ := hown n e halive
      cases hothers : c.live (c.next n e g) f rest with
      | true =>
        -- the gap stays between the member and the first of the others that stays
        obtain ⟨r, hr, hmembers⟩ := ih hothers
        refine ⟨⟨d, (g, r.first) :: r.rest⟩, ?_, ?_⟩
        · rw [pieces, halive, if_pos rfl, hothers, if_pos rfl, Piece.new_append, Piece.new_cons,
            hd, hr]
          simp [Row.text, Piece.after]
        · rw [survivors_cons, halive, if_pos rfl, ← hmembers, ← hcontent]
          rfl
      | false =>
        -- the last member that stays, which loses the gap behind it
        refine ⟨⟨d, []⟩, ?_, ?_⟩
        · rw [pieces, halive, if_pos rfl, hothers, if_neg Bool.false_ne_true, Piece.new_append,
            Piece.new_cons, hd, new_pieces_of_dead hothers]
          rfl
        · rw [survivors_cons, halive, if_pos rfl, survivors_of_dead hothers, ← hcontent]
          rfl

/-! ## The edits of a row -/

/-- In the text `t` a pruning edits the members of a row, as `record` records them, in the way the
row is carved. The text `after` stands behind the row. -/
structure Carves (c : Carving γ ε) (t : Text) (p : Fix.Pruning β) (record : Nat → ε → β)
    (after : Text) : Prop where
  alive : ∀ n e, p.alive (record n e) = c.alive n e
  own : ∀ n e g, t.HasAt n (c.body e ++ c.gap g) → c.alive n e = true →
    p.own (record n e) = Piece.cuts n (c.own n e)
  cut : ∀ n e g d, t.HasAt n (c.body e ++ c.gap g ++ c.body d) →
    p.cut (record n e) (record (c.next n e g) d) = ⟨n, c.next n e g, []⟩
  bridge : ∀ n e g d, t.HasAt n (c.body e ++ c.gap g ++ c.body d) →
    p.bridge (record n e) (record (c.next n e g) d) =
      ⟨(n + (c.body e).length : Nat), c.next n e g, []⟩
  final : ∀ n e, t.drop n = c.body e ++ after → c.alive n e = true →
    p.own (record n e) = Piece.cuts n (c.final n e)
  close : ∀ m k n e, t.HasAt m (c.body k) → t.drop n = c.body e ++ after → c.alive n e = false →
    p.close (record m k) (record n e) =
      ⟨n, (n + (c.body e).length + (c.extra n e).length : Nat), []⟩

variable {t after : Text} {p : Fix.Pruning β} {record : Nat → ε → β}

/-- A row stands where its first member, its first gap and the row of the others stand. -/
theorem hasAt_rowText_cons {n : Nat} {e d : ε} {g : γ} {rest : List (γ × ε)}
    (h : t.drop n = c.rowText e ((g, d) :: rest) ++ after) :
    t.HasAt n (c.body e ++ c.gap g ++ c.body d) ∧
      t.drop (c.next n e g) = c.rowText d rest ++ after := by
  rw [rowText_cons, List.append_assoc] at h
  constructor
  · refine ⟨(rest.flatMap fun q => c.gap q.1 ++ c.body q.2) ++ after, ?_⟩
    rw [h, rowText, Row.text]
    simp
  · rw [next, Row.next, Nat.add_assoc, ← List.length_append]
    exact Text.drop_add_of_drop h

/-- The next member starts with solid text. -/
theorem solidAt_next {n : Nat} {e d : ε} {g : γ} (h : t.HasAt n (c.body e ++ c.gap g ++ c.body d))
    (hd : (c.body d).StartsSolid) : t.solidAt (c.next n e g) = true := by
  have hnext := Text.solidAt_of_hasAt (Text.hasAt_append h).2 hd
  rwa [List.length_append, ← Nat.add_assoc] at hnext

/-- The edits that delete a row from which nothing stays. -/
theorem tailEdits_placed (h : c.Carves t p record after) {m : Nat} {k : ε}
    (hk : t.HasAt m (c.body k)) {n : Nat} {e : ε} {rest : List (γ × ε)}
    (hat : t.drop n = c.rowText e rest ++ after) (hdead : c.live n e rest = false) :
    p.tailEdits (record m k) (c.placed record n e rest) = Piece.cuts n (c.pieces n e rest) := by
  induction rest generalizing n e with
  | nil =>
    rw [live_nil] at hdead
    rw [rowText_nil] at hat
    rw [placed_nil, Fix.Pruning.tailEdits, h.close m k n e hk hat hdead, pieces, hdead,
      if_neg Bool.false_ne_true, Piece.cuts_swap, Piece.cuts_nil, List.length_append,
      Nat.add_assoc]
  | cons q rest ih =>
    obtain ⟨g, d⟩ := q
    obtain ⟨hhere, hrest⟩ := hasAt_rowText_cons hat
    rw [live_cons, Bool.or_eq_false_iff] at hdead
    have hothers := ih hrest hdead.2
    rw [placed, Row.placed] at hothers
    rw [placed_cons, placed, Row.placed, Fix.Pruning.tailEdits, hothers, h.cut n e g d hhere,
      pieces, hdead.1, if_neg Bool.false_ne_true, Piece.cuts_swap, List.length_append,
      ← Nat.add_assoc]
    rfl

/-- The members that stay are those that the pruning keeps. -/
theorem any_placed (h : c.Carves t p record after) (n : Nat) (e : ε) (rest : List (γ × ε)) :
    (c.placed record n e rest).any p.alive = c.live n e rest := by
  have halive : (fun n e => p.alive (record n e)) = c.alive := by
    funext n e
    exact h.alive n e
  rw [live, ← halive, placed, placed, ← Row.map_placed, List.any_map]
  rfl

/-- The edits of a row of which something stays are the swaps of its pieces. -/
theorem edits_placed (h : c.Carves t p record after) (hsound : c.Sound) {n : Nat} {e : ε}
    {rest : List (γ × ε)} (hat : t.drop n = c.rowText e rest ++ after)
    (hlive : c.live n e rest = true) :
    p.edits (c.placed record n e rest) = Piece.cuts n (c.pieces n e rest) := by
  induction rest generalizing n e with
  | nil =>
    rw [live_nil] at hlive
    rw [rowText_nil] at hat
    have halive : p.alive (record n e) = true := (h.alive n e).trans hlive
    rw [placed_nil, Fix.Pruning.edits_cons_alive halive, pieces, hlive, if_pos rfl,
      h.final n e hat hlive]
    exact List.append_nil _
  | cons q rest ih =>
    obtain ⟨g, d⟩ := q
    obtain ⟨hhere, hrest⟩ := hasAt_rowText_cons hat
    have hnext : n + (c.body e).length + (c.gap g).length = c.next n e g := rfl
    cases halive : c.alive n e with
    | true =>
      have hpalive : p.alive (record n e) = true := (h.alive n e).trans halive
      have hown := h.own n e g (Text.hasAt_append hhere).1 halive
      rw [placed_cons, Fix.Pruning.edits_cons_alive hpalive, any_placed h, pieces, halive,
        if_pos rfl, Piece.cuts_append, hsound.own, hown]
      congr 1
      cases hothers : c.live (c.next n e g) d rest with
      | true => rw [if_pos rfl, if_pos rfl, Piece.cuts_keep, hnext, ih hrest hothers]
      | false =>
        -- the bridge deletes the gap, and the tail behind it is all deleted
        have hk := (Text.hasAt_append (Text.hasAt_append hhere).1).1
        have htail := tailEdits_placed h hk hrest hothers
        rw [placed, Row.placed] at htail
        rw [if_neg Bool.false_ne_true, if_neg Bool.false_ne_true, Piece.cuts_swap, hnext, placed,
          Row.placed, Fix.Pruning.afterLast, htail, h.bridge n e g d hhere]
    | false =>
      -- the cut deletes the member and the gap, and something stays among the others
      have hdead : p.alive (record n e) = false := (h.alive n e).trans halive
      rw [live_cons, halive, Bool.false_or] at hlive
      have hothers := ih hrest hlive
      rw [placed, Row.placed] at hothers
      rw [placed_cons, placed, Row.placed, Fix.Pruning.edits_cons_cons_dead hdead, hothers,
        h.cut n e g d hhere, pieces, halive, if_neg Bool.false_ne_true, Piece.cuts_swap,
        List.length_append, ← Nat.add_assoc, hnext]

end Carving

end UnusedImports
