import UnusedImports.Proofs.Deprecation.Reading
import UnusedImports.Proofs.Fix.Offsets
import UnusedImports.Proofs.Protocol.Writing
import UnusedImports.Proofs.Settings.Accepted
import UnusedImports.Proofs.Value.Equality

/-!
# Which settings can be used

Settings are usable if both flags are truth values, the category is a text, a checker can be made
from them, and whatever such a checker reports about a unit that is located in its text is admitted
by the protocol (`Settings.Usable`). With fixes a located unit also has commas between the selectors
of its clauses (`Checker.Located`). This comes down to the form of four fields
(`Settings.usable_iff`).

A file is accepted if its lists are lists and its deprecations are some mapping. So the settings of
an accepted file are usable exactly if all values that it gives have the form that their fields
need (`Settings.load_usable_iff`), and an accepted file can give others
(`Settings.looseDeprecations_unusable`). If a file is not accepted, the standard settings take its
place, and they are usable.
-/

set_option autoImplicit false

namespace UnusedImports

/-- What a checker reports about units that are located in their texts is admitted. -/
def Checker.ReportsWell (c : Checker) : Prop :=
  ∀ (t : Tracker) (u : CompilationUnit) (file : Text), c.Located t u →
    Report.errors (Report.items u.content (c.diagnostics (c.resolve t u) file)) = []

/-- A checker whose category is a text reports in the form of the protocol. -/
theorem Checker.reportsWell_of_category {c : Checker}
    (h : c.settings.category.isString = true) : c.ReportsWell := by
  intro t u file hlocated
  rw [Report.errors_items_eq_nil_iff]
  intro d hd
  constructor
  · exact worded_of_mem_diagnostics h hd
  · exact placed_of_mem_diagnostics hlocated hd

namespace Settings

/-- What a field is needed to be. -/
def Field.Fits : Field → Value → Prop
  | quickfix, v => ∃ flag, v = .bool flag
  | quickfixSilent, v => ∃ flag, v = .bool flag
  | category, v => v.isString = true
  | suppressedOwners, v => ∃ items, v = .list items
  | disabledCategories, v => ∃ items, v = .list items
  | deprecations, v => DeprecationTable.Readable v

/-- Flags and category are what they are meant to be, and a checker can be made and reports in the
form of the protocol. -/
structure Usable (s : Settings) : Prop where
  quickfix : Field.quickfix.Fits s.quickfix
  quickfixSilent : Field.quickfixSilent.Fits s.quickfixSilent
  category : Field.category.Fits s.category
  checker : ∃ c, Checker.create s none = .ok c ∧ c.ReportsWell

variable {s : Settings} {entries : List (Value × Value)} {bytes : ByteArray} {path : Text}

/-! ## Usable settings -/

/-- A checker can be made exactly if the deprecations can be read. -/
theorem create_ok_iff :
    (∃ c, Checker.create s none = .ok c) ↔ DeprecationTable.Readable s.deprecations := by
  rw [← DeprecationTable.ofSettings_ok_iff]
  unfold Checker.create
  cases DeprecationTable.ofSettings s.deprecations with
  | error e => simp [bind, Except.bind]
  | ok table => simp [bind, Except.bind, pure, Except.pure]

theorem settings_of_create {c : Checker} {table : Option DeprecationTable}
    (h : Checker.create s table = .ok c) : c.settings = s := by
  unfold Checker.create at h
  cases table with
  | some table =>
    cases h
    rfl
  | none =>
    cases hread : DeprecationTable.ofSettings s.deprecations with
    | error e => simp [hread, bind, Except.bind] at h
    | ok read =>
      simp only [hread, bind, Except.bind, pure, Except.pure, Except.ok.injEq] at h
      rw [← h]

/-- Settings are usable exactly if the flags, the category and the deprecations have the form that
they need. -/
theorem usable_iff :
    s.Usable ↔ Field.quickfix.Fits s.quickfix ∧ Field.quickfixSilent.Fits s.quickfixSilent ∧
      Field.category.Fits s.category ∧ Field.deprecations.Fits s.deprecations := by
  constructor
  · rintro ⟨hquickfix, hsilent, hcategory, c, hc, -⟩
    exact ⟨hquickfix, hsilent, hcategory, create_ok_iff.1 ⟨c, hc⟩⟩
  · rintro ⟨hquickfix, hsilent, hcategory, hdeprecations⟩
    obtain ⟨c, hc⟩ := create_ok_iff.2 hdeprecations
    refine ⟨hquickfix, hsilent, hcategory, c, hc, Checker.reportsWell_of_category ?_⟩
    rw [settings_of_create hc]
    exact hcategory

theorem readable_empty : DeprecationTable.Readable (.map []) :=
  ⟨fun _ => ⟨[], rfl⟩, fun _ he => absurd he List.not_mem_nil⟩

theorem fits_standard (f : Field) : f.Fits (standard.get f) := by
  cases f with
  | quickfix => exact ⟨false, rfl⟩
  | quickfixSilent => exact ⟨false, rfl⟩
  | category => rfl
  | suppressedOwners => exact ⟨[], rfl⟩
  | disabledCategories => exact ⟨[], rfl⟩
  | deprecations => exact readable_empty

theorem usable_standard : standard.Usable :=
  usable_iff.2 ⟨fits_standard .quickfix, fits_standard .quickfixSilent, fits_standard .category,
    fits_standard .deprecations⟩

/-! ## Accepted files -/

/-- The values that a file gives have the form that their fields need. -/
def GivenFit (entries : List (Value × Value)) : Prop :=
  ∀ f v, given? f (knownFields entries) = some v → f.Fits v

/-- Fields have the form that they need exactly if those given have. -/
theorem givenFit_iff :
    GivenFit entries ↔ ∀ f : Field, f.Fits ((standard.assign (knownFields entries)).get f) := by
  apply forall_congr'
  intro f
  rw [get_assign]
  -- a field that is not given keeps its standard value, which fits
  cases given? f (knownFields entries) with
  | none => simpa using fits_standard f
  | some v => simp

/-- The settings of an accepted file are usable exactly if the values that it gives fit. -/
theorem usable_iff_givenFit (h : ofEntries entries = .ok s) : s.Usable ↔ GivenFit entries := by
  obtain ⟨owners, categories, deprecations, howners, hcategories, -, rfl⟩ :=
    checked_eq_ok (checked_of_ofEntries h)
  rw [usable_iff, givenFit_iff]
  -- accepted lists are lists, so only the other four fields are left to compare
  constructor
  · rintro ⟨hquickfix, hsilent, hcategory, hdeprecations⟩ f
    cases f with
    | quickfix => exact hquickfix
    | quickfixSilent => exact hsilent
    | category => exact hcategory
    | suppressedOwners => exact ⟨owners, howners⟩
    | disabledCategories => exact ⟨categories, hcategories⟩
    | deprecations => exact hdeprecations
  · intro hfits
    exact ⟨hfits .quickfix, hfits .quickfixSilent, hfits .category, hfits .deprecations⟩

/-- What is loaded from a file is usable exactly if the file is not accepted, so that the standard
settings take its place with a warning, or all values that it gives have the form that their fields
need. What is reported is admitted for units that are located in their texts, which with fixes also
asks for commas between selectors. -/
theorem load_usable_iff {warnings : List Points}
    (h : load path (.file bytes) = (.ok s, warnings)) :
    (s = standard ∧ s.Usable ∧ ∃ m, warnings.getLast? = some (fallbackWarning path m)) ∨
      ∃ entries, documentValue bytes = .ok (.map entries) ∧ ofEntries entries = .ok s ∧
        (s.Usable ↔ GivenFit entries) := by
  rcases load_cases h with ⟨rfl, hwarning⟩ | ⟨entries, hdocument, haccepted, -⟩
  · exact Or.inl ⟨rfl, usable_standard, hwarning⟩
  · exact Or.inr ⟨entries, hdocument, haccepted, usable_iff_givenFit haccepted⟩

/-! ## A file with a flag, and a file with a deprecation that is no mapping -/

/-- A file that asks for fixes. -/
def flagged : ByteArray :=
  Text.encode "\"quickfix\": true\n".toList

/-- The entries of the file. -/
def flaggedEntries : List (Value × Value) :=
  [(.text "quickfix".toList, .bool true)]

/-- The settings that the file describes. -/
def flaggedSettings : Settings :=
  { standard with quickfix := .bool true }

theorem documentValue_flagged : documentValue flagged = .ok (.map flaggedEntries) :=
  eq_ok_of_toOption (by decide +kernel)

/-- The file that asks for fixes is usable. -/
theorem flagged_usable :
    load "importtrack.yml".toList (.file flagged) = (.ok flaggedSettings, []) ∧
      flaggedSettings.Usable := by
  have hload : load "importtrack.yml".toList (.file flagged) = (.ok flaggedSettings, []) :=
    load_of_ofEntries documentValue_flagged rfl
  refine ⟨hload, ?_⟩
  rcases load_usable_iff hload with ⟨-, husable, -⟩ | ⟨entries, hdocument, -, husable⟩
  · exact husable
  · have heq : entries = flaggedEntries := by
      have hvalue := hdocument.symm.trans documentValue_flagged
      exact Value.map.inj (Except.ok.inj hvalue)
    subst heq
    apply husable.2
    intro f v hv
    cases f with
    | quickfix =>
      cases hv
      exact ⟨true, rfl⟩
    | _ => cases hv

/-- A file that says no more about a qualifier than `true`. -/
def looseDeprecations : ByteArray :=
  Text.encode "\"deprecations\": \x7b\"a\": true\x7d\n".toList

/-- The entries of the file. -/
def looseEntries : List (Value × Value) :=
  [(.text "deprecations".toList, .map [(.text "a".toList, .bool true)])]

/-- The settings that the file describes. -/
def looseSettings : Settings :=
  { standard with deprecations := .map [(.text "a".toList, .bool true)] }

theorem documentValue_looseDeprecations :
    documentValue looseDeprecations = .ok (.map looseEntries) :=
  eq_ok_of_toOption (by decide +kernel)

/-- The file is accepted without a warning, and no checker can be made from its settings. -/
theorem looseDeprecations_unusable :
    load "importtrack.yml".toList (.file looseDeprecations) = (.ok looseSettings, []) ∧
      ∀ c, Checker.create looseSettings none ≠ .ok c := by
  refine ⟨load_of_ofEntries documentValue_looseDeprecations rfl, ?_⟩
  intro c h
  cases h

end Settings

end UnusedImports
