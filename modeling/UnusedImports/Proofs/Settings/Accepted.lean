import UnusedImports.Proofs.Value.Writing
import UnusedImports.Settings.File
import Mathlib.Data.List.Induction

/-!
# Settings that a file is accepted with

A mapping gives a field the value of its last entry with the name of the field (`given?`,
`get_assign`). If the settings of a mapping are accepted, their lists show the items given and their
deprecations are a mapping (`checked_eq_ok`); the flags and the category are as given. What is
loaded from a file is either accepted or standard (`load_cases`).
-/

set_option autoImplicit false

namespace UnusedImports.Settings

variable {s r : Settings} {fields : List (Field × Value)} {entries : List (Value × Value)}
  {bytes : ByteArray} {path : Text}

/-! ## Given values -/

/-- The value that fields give to one of them: the last one counts. -/
def given? (f : Field) (fields : List (Field × Value)) : Option Value :=
  ((fields.filter fun e => e.1 = f).getLast?).map Prod.snd

theorem get_set (s : Settings) (f g : Field) (v : Value) :
    (s.set f v).get g = if f = g then v else s.get g := by
  cases f <;> cases g <;> rfl

/-- A field has the value given to it, or else the one it had. -/
theorem get_assign (s : Settings) (fields : List (Field × Value)) (f : Field) :
    (s.assign fields).get f = (given? f fields).getD (s.get f) := by
  -- the last field counts, so the induction is from the end of the list
  induction fields using List.reverseRecOn with
  | nil => rfl
  | append_singleton front e ih =>
    have hassign : s.assign (front ++ [e]) = (s.assign front).set e.1 e.2 := by
      rw [assign, assign, List.foldl_append]
      rfl
    rw [hassign, get_set, given?, List.filter_append]
    by_cases hf : e.1 = f
    · rw [if_pos hf, List.filter_cons_of_pos (by simp [hf]), List.filter_nil,
        List.getLast?_append]
      rfl
    · rw [if_neg hf, List.filter_cons_of_neg (by simp [hf]), List.filter_nil, List.append_nil, ih]
      rfl

/-! ## Accepted settings -/

/-- An item of a list as the text that shows it. -/
def shownItem (v : Value) : Value :=
  .ofPoints v.shownPoints

theorem gives_showable (v : Value) : Gives (showable v) (v.isWritable = true) v := by
  rw [showable]
  exact gives_ite _ _

/-- Values that can all be shown are shown as they are. -/
theorem mapM_showable_eq_ok {items shown : List Value} (h : items.mapM showable = .ok shown) :
    shown = items := by
  have hshown := gives_mapM gives_showable items
  rw [((hshown shown).1 h).2, List.map_id']

theorem shownItems_eq_ok {f : Field} {v w : Value} (h : shownItems f v = .ok w) :
    ∃ items, v = .list items ∧ w = .list (items.map shownItem) := by
  cases v with
  | list items =>
    cases hitems : items.mapM showable with
    | error e => simp [shownItems, hitems, bind, Except.bind] at h
    | ok shown =>
      have heq : shown = items := mapM_showable_eq_ok hitems
      subst heq
      simp only [shownItems, hitems, bind, Except.bind, pure, Except.pure, Except.ok.injEq] at h
      exact ⟨shown, rfl, h.symm⟩
  | _ => cases h

theorem checkMapping_eq_ok {v w : Value} (h : checkMapping v = .ok w) :
    ∃ entries, v = .map entries ∧ w = v := by
  cases v with
  | map entries =>
    cases h
    exact ⟨entries, rfl, rfl⟩
  | _ => cases h

/-- Checked settings differ from those that are checked in how the items of their lists are
shown. -/
theorem checked_eq_ok (h : s.checked = .ok r) :
    ∃ owners categories deprecations, s.suppressedOwners = .list owners ∧
      s.disabledCategories = .list categories ∧ s.deprecations = .map deprecations ∧
      r = { s with
        suppressedOwners := .list (owners.map shownItem)
        disabledCategories := .list (categories.map shownItem) } := by
  rw [checked] at h
  cases howners : shownItems .suppressedOwners s.suppressedOwners with
  | error e => simp [howners, bind, Except.bind] at h
  | ok owners =>
    cases hcategories : shownItems .disabledCategories s.disabledCategories with
    | error e => simp [howners, hcategories, bind, Except.bind] at h
    | ok categories =>
      cases hdeprecations : checkMapping s.deprecations with
      | error e => simp [howners, hcategories, hdeprecations, bind, Except.bind] at h
      | ok deprecations =>
        simp only [howners, hcategories, hdeprecations, bind, Except.bind, pure, Except.pure,
          Except.ok.injEq] at h
        obtain ⟨ownerItems, hs, rfl⟩ := shownItems_eq_ok howners
        obtain ⟨categoryItems, hs', rfl⟩ := shownItems_eq_ok hcategories
        obtain ⟨entries, hs'', rfl⟩ := checkMapping_eq_ok hdeprecations
        exact ⟨ownerItems, categoryItems, entries, hs, hs', hs'', h.symm⟩

/-- The accepted settings of a mapping are its checked fields. -/
theorem checked_of_ofEntries (h : ofEntries entries = .ok s) :
    (standard.assign (knownFields entries)).checked = .ok s := by
  rw [ofEntries] at h
  cases hkeys : (unknownKeys entries).mapM showable with
  | error e => simp [hkeys, bind, Except.bind] at h
  | ok keys => simpa [hkeys, bind, Except.bind] using h

/-- Accepted settings have nothing to be filled. -/
theorem filled_eq_self (h : ofEntries entries = .ok s) : s.filled = s := by
  obtain ⟨owners, categories, deprecations, -, -, hdeprecations, rfl⟩ :=
    checked_eq_ok (checked_of_ofEntries h)
  simp [filled, orDefault, Value.isNull, hdeprecations]

/-! ## Files -/

/-- A file whose mapping is accepted is loaded. -/
theorem load_of_ofEntries (hdocument : documentValue bytes = .ok (.map entries))
    (haccepted : ofEntries entries = .ok s) :
    load path (.file bytes) = (.ok s, remarks entries) := by
  rw [load, decode, hdocument]
  simp only [ofValue, haccepted, filled_eq_self haccepted, orStandard]

/-- What is loaded from a file is the settings of an accepted mapping, with the remarks about it, or
the standard settings, with a warning at the end that says so. -/
theorem load_cases {warnings : List Points} (h : load path (.file bytes) = (.ok s, warnings)) :
    (s = standard ∧ ∃ m, warnings.getLast? = some (fallbackWarning path m)) ∨
      ∃ entries, documentValue bytes = .ok (.map entries) ∧ ofEntries entries = .ok s ∧
        warnings = remarks entries := by
  have hfallback : ∀ (e : Obstacle) (seen : List Points),
      orStandard path (.error e, seen) = (.ok s, warnings) →
        s = standard ∧ ∃ m, warnings.getLast? = some (fallbackWarning path m) := by
    intro e seen hseen
    rw [orStandard] at hseen
    cases hm : e.message? with
    | none => simp [hm] at hseen
    | some m =>
      simp only [hm, Prod.mk.injEq, Except.ok.injEq] at hseen
      exact ⟨hseen.1.symm, m, by rw [← hseen.2, List.getLast?_concat]⟩
  rw [load, decode] at h
  cases hdocument : documentValue bytes with
  | error e =>
    rw [hdocument] at h
    exact Or.inl (hfallback e [] h)
  | ok v =>
    cases v with
    | map entries =>
      cases haccepted : ofEntries entries with
      | error r =>
        simp only [hdocument, ofValue, haccepted] at h
        exact Or.inl (hfallback _ _ h)
      | ok r =>
        simp only [hdocument, ofValue, haccepted, filled_eq_self haccepted, orStandard,
          Prod.mk.injEq, Except.ok.injEq] at h
        exact Or.inr ⟨entries, rfl, h.1 ▸ haccepted, h.2.symm⟩
    | _ =>
      rw [hdocument] at h
      exact Or.inl (hfallback _ _ h)

end UnusedImports.Settings
