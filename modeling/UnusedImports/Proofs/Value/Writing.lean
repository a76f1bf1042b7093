import UnusedImports.Value

/-!
# Which values can be written

A value can be written if no number in it is too long. What a list or a mapping holds can be
written if the list or the mapping can (`Value.areWritable_iff`, `Value.isWritable_of_field?`).

`Gives` says of a step when it succeeds and with which result. Items that are written one after the
other are written exactly if each of them can be (`gives_mapM`).
-/

set_option autoImplicit false

namespace UnusedImports

/-! ## Steps with a condition -/

section

variable {ε α β : Type} {x : Except ε α} {P Q : Prop} {a : α}

/-- The step succeeds exactly under a condition, and then has the given result. -/
def Gives (x : Except ε α) (P : Prop) (a : α) : Prop :=
  ∀ b, x = .ok b ↔ P ∧ b = a

theorem gives_ok (a : α) : Gives (.ok a : Except ε α) True a := by
  intro b
  rw [true_and, Except.ok.injEq, eq_comm]

theorem gives_error {e : ε} (h : ¬ P) : Gives (.error e) P a := by
  intro b
  constructor
  · intro hb
    cases hb
  · rintro ⟨hP, -⟩
    exact absurd hP h

theorem Gives.congr (h : Gives x P a) (hPQ : P ↔ Q) : Gives x Q a := by
  intro b
  rw [h b, hPQ]

theorem gives_ite {c : Bool} (a : α) (e : ε) :
    Gives (if c then .ok a else .error e) (c = true) a := by
  cases c with
  | false => exact gives_error Bool.false_ne_true
  | true => exact (gives_ok a).congr (iff_of_true trivial rfl)

theorem Gives.bind {f : α → Except ε β} {b : β} (hx : Gives x P a) (hf : Gives (f a) Q b) :
    Gives (x >>= f) (P ∧ Q) b := by
  cases hxa : x with
  | error e =>
    apply gives_error
    rintro ⟨hP, -⟩
    have hok := (hx a).2 ⟨hP, rfl⟩
    rw [hxa] at hok
    cases hok
  | ok c =>
    obtain ⟨hP, rfl⟩ := (hx c).1 hxa
    exact hf.congr (and_iff_right hP).symm

theorem Gives.map (hx : Gives x P a) (f : α → β) : Gives (x.map f) P (f a) := by
  have h : Gives (x >>= fun a => .ok (f a)) (P ∧ True) (f a) := hx.bind (gives_ok (f a))
  have heq : (x >>= fun a => .ok (f a)) = x.map f := by cases x <;> rfl
  rw [heq] at h
  exact h.congr (and_iff_left trivial)

/-- A step for each item succeeds exactly if it does for all of them. -/
theorem gives_mapM {f : α → Except ε β} {g : α → β} {P : α → Prop}
    (hf : ∀ a, Gives (f a) (P a) (g a)) (items : List α) :
    Gives (items.mapM f) (∀ a ∈ items, P a) (items.map g) := by
  induction items with
  | nil => exact (gives_ok []).congr (by simp)
  | cons a rest ih =>
    rw [List.mapM_cons, List.map_cons]
    -- the results of the rest are taken up behind the one of the first item
    have hrest := ih.bind (f := fun bs => pure (g a :: bs)) (gives_ok (g a :: rest.map g))
    exact ((hf a).bind hrest).congr (by simp)

end

namespace Value

variable {v w : Value}

/-! ## Parts of values -/

theorem mem_of_lookup?_eq_some {key : Text} {entries : List (Value × Value)}
    (h : lookup? key entries = some w) : (.text key, w) ∈ entries := by
  fun_induction lookup? key entries with
  | case1 => cases h
  | case2 entries v =>
    cases h
    exact List.mem_cons_self
  | case3 entries t v hne ih => exact List.mem_cons_of_mem _ (ih h)
  | case4 e entries _ ih => exact List.mem_cons_of_mem _ (ih h)

theorem isWritable_ofString (s : String) : (ofString s).isWritable = true := rfl

theorem areWritable_iff {items : List Value} :
    areWritable items = true ↔ ∀ v ∈ items, v.isWritable = true := by
  induction items with
  | nil => simp [areWritable]
  | cons v rest ih => simp [areWritable, ih]

theorem areWritableEntries_iff {entries : List (Value × Value)} :
    areWritableEntries entries = true ↔
      ∀ e ∈ entries, e.1.isWritable = true ∧ e.2.isWritable = true := by
  induction entries with
  | nil => simp [areWritableEntries]
  | cons e rest ih => simp [areWritableEntries, ih]

theorem isWritable_of_lookup? {key : Text} {entries : List (Value × Value)}
    (hentries : areWritableEntries entries = true) (h : lookup? key entries = some w) :
    w.isWritable = true :=
  (areWritableEntries_iff.1 hentries _ (mem_of_lookup?_eq_some h)).2

/-- What a mapping holds can be written if the mapping can. -/
theorem isWritable_of_field? {key : Text} (hv : v.isWritable = true) (h : v.field? key = some w) :
    w.isWritable = true := by
  cases v with
  | map entries => exact isWritable_of_lookup? hv h
  | _ => cases h

/-! ## Writing -/

/-- A value that can be written is written as it is shown. -/
theorem gives_written (v : Value) :
    Gives v.written (v.isWritable = true) (.ofPoints v.shownPoints) := by
  rw [written]
  exact gives_ite _ _

end Value

end UnusedImports
