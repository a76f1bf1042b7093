import UnusedImports.Proofs.Settings.Accepted
import UnusedImports.Proofs.Value.Equality
import UnusedImports.Proofs.Yaml.Reading
import Mathlib.Data.List.TakeWhile

/-!
# What becomes of a settings file

A file describes the entries of a mapping (`Describes`). If the lists among them are lists and the
deprecations are a mapping (`Acceptable`), the file is accepted: the values given take the place of
the standard ones (`Overrides`), and each key that names no field has its warning. A file that is
malformed, that describes something else than a mapping, or that describes a mapping which is not
acceptable makes the standard settings hold, with a warning (`FallsBack`).

Some files end the reading instead (`EndsReading`): their bytes are not UTF-8, a scalar does not
denote what its tag says, collections nest too deeply, or a number that has to be shown is too long
(`Unshowable`). `load_outcomes` says which file has which of the three outcomes, and
`strayByte_endsReading` is a file of one byte that ends the reading.
-/

set_option autoImplicit false

namespace UnusedImports.Settings

variable {s : Settings} {f : Field} {r : Rejection} {entries : List (Value × Value)}
  {bytes : ByteArray} {path : Text}

/-! ## Acceptable mappings -/

/-- What a field has to be in a file that is accepted. -/
def Field.Accepts : Field → Value → Prop
  | suppressedOwners, v => ∃ items, v = .list items
  | disabledCategories, v => ∃ items, v = .list items
  | deprecations, v => ∃ entries, v = .map entries
  | _, _ => True

/-- A field is given an acceptable value, or none. -/
def Field.AcceptsGiven (f : Field) (entries : List (Value × Value)) : Prop :=
  ∀ v, given? f (knownFields entries) = some v → f.Accepts v

/-- A mapping that gives acceptable values only. -/
def Acceptable (entries : List (Value × Value)) : Prop :=
  ∀ f : Field, f.AcceptsGiven entries

/-- A field is given a list with an item that contains a number that is too long. -/
def Field.GivenUnwritable (f : Field) (entries : List (Value × Value)) : Prop :=
  ∃ items, given? f (knownFields entries) = some (.list items) ∧
    ∃ v ∈ items, v.isWritable = false

/-- A number that is too long would have to be shown: in a key that names no field, in an owner, or,
where the owners are a list, in a category. -/
def Unshowable (entries : List (Value × Value)) : Prop :=
  (∃ key ∈ unknownKeys entries, key.isWritable = false) ∨
    Field.suppressedOwners.GivenUnwritable entries ∨
    (Field.suppressedOwners.AcceptsGiven entries ∧
      Field.disabledCategories.GivenUnwritable entries)

/-- A given value as the settings keep it: items of lists are kept as the texts that show them. -/
def Field.kept : Field → Value → Value
  | suppressedOwners, .list items => .list (items.map shownItem)
  | disabledCategories, .list items => .list (items.map shownItem)
  | _, v => v

/-- Every field has the value given to it, or else its standard value. -/
def Overrides (entries : List (Value × Value)) (s : Settings) : Prop :=
  ∀ f : Field, s.get f = ((given? f (knownFields entries)).map f.kept).getD (standard.get f)

/-! ## Given values and assigned values -/

theorem accepts_standard (f : Field) : f.Accepts (standard.get f) := by
  cases f with
  | suppressedOwners => exact ⟨[], rfl⟩
  | disabledCategories => exact ⟨[], rfl⟩
  | deprecations => exact ⟨[], rfl⟩
  | _ => trivial

theorem acceptsGiven_iff :
    f.AcceptsGiven entries ↔ f.Accepts ((standard.assign (knownFields entries)).get f) := by
  rw [get_assign, Field.AcceptsGiven]
  -- a field that is not given keeps its standard value, which is acceptable
  cases given? f (knownFields entries) with
  | none => simpa using accepts_standard f
  | some v => simp

/-- Three fields have to be of some form. -/
theorem acceptable_iff :
    Acceptable entries ↔
      (∃ items, (standard.assign (knownFields entries)).suppressedOwners = .list items) ∧
        (∃ items, (standard.assign (knownFields entries)).disabledCategories = .list items) ∧
        ∃ table, (standard.assign (knownFields entries)).deprecations = .map table := by
  constructor
  · intro haccepts
    exact ⟨acceptsGiven_iff.1 (haccepts .suppressedOwners),
      acceptsGiven_iff.1 (haccepts .disabledCategories),
      acceptsGiven_iff.1 (haccepts .deprecations)⟩
  · rintro ⟨howners, hcategories, hdeprecations⟩ f
    apply acceptsGiven_iff.2
    cases f with
    | suppressedOwners => exact howners
    | disabledCategories => exact hcategories
    | deprecations => exact hdeprecations
    | _ => trivial

/-- A value is a list with an item that cannot be shown. -/
def ListsUnwritable (v : Value) : Prop :=
  ∃ items, v = .list items ∧ ∃ w ∈ items, w.isWritable = false

/-- A list of the standard settings has no items. -/
theorem givenUnwritable_iff (hstandard : standard.get f = .list []) :
    f.GivenUnwritable entries ↔
      ListsUnwritable ((standard.assign (knownFields entries)).get f) := by
  rw [get_assign, Field.GivenUnwritable, ListsUnwritable]
  cases given? f (knownFields entries) with
  | none => simp [hstandard]
  | some v => simp

theorem unshowable_iff :
    Unshowable entries ↔ (∃ key ∈ unknownKeys entries, key.isWritable = false) ∨
      ListsUnwritable (standard.assign (knownFields entries)).suppressedOwners ∨
      ((∃ items, (standard.assign (knownFields entries)).suppressedOwners = .list items) ∧
        ListsUnwritable (standard.assign (knownFields entries)).disabledCategories) := by
  rw [Unshowable, givenUnwritable_iff rfl, givenUnwritable_iff rfl, acceptsGiven_iff]
  rfl

theorem kept_standard (f : Field) : f.kept (standard.get f) = standard.get f := by
  cases f <;> rfl

theorem kept_assign (f : Field) :
    ((given? f (knownFields entries)).map f.kept).getD (standard.get f) =
      f.kept ((standard.assign (knownFields entries)).get f) := by
  rw [get_assign]
  cases given? f (knownFields entries) with
  | none => exact (kept_standard f).symm
  | some v => rfl

/-! ## Steps of the check -/

/-- A step of the check has one of three outcomes: it passes if what it accepts is there, it stops
where something cannot be shown, and it rejects all else with a message. -/
inductive Judged {α : Type} (x : Except Rejection α) (accepts stops : Prop) : Prop where
  | passed (a : α) (h : x = .ok a) (haccepts : accepts) (hstops : ¬ stops)
  | stopped (v : Value) (h : x = .error (.unwritable v)) (hstops : stops)
  | rejected (r : Rejection) (m : Text) (h : x = .error r) (hm : r.message? = some m)
      (haccepts : ¬ accepts) (hstops : ¬ stops)

namespace Judged

variable {α β : Type} {x : Except Rejection α} {accepts accepts' stops stops' : Prop}

theorem congr (h : Judged x accepts stops) (haccepts : accepts ↔ accepts')
    (hstops : stops ↔ stops') : Judged x accepts' stops' := by
  rw [← haccepts, ← hstops]
  exact h

theorem ok (a : α) : Judged (.ok a) True False :=
  .passed a rfl trivial id

/-- One step after the other: the second one is taken only if the first one passes. -/
theorem bind {g : α → Except Rejection β} (hx : Judged x accepts stops)
    (hg : ∀ a, Judged (g a) accepts' stops') :
    Judged (x >>= g) (accepts ∧ accepts') (stops ∨ (accepts ∧ stops')) := by
  cases hx with
  | passed a h haccepts hstops =>
    subst h
    apply (hg a).congr
    · rw [and_iff_right haccepts]
    · rw [or_iff_right hstops, and_iff_right haccepts]
  | stopped v h hstops =>
    subst h
    exact .stopped v rfl (Or.inl hstops)
  | rejected r m h hm haccepts hstops =>
    subst h
    refine .rejected r m rfl hm (fun hboth => haccepts hboth.1) ?_
    rintro (hstop | hboth)
    · exact hstops hstop
    · exact haccepts hboth.1

end Judged

/-- Values are shown one after the other, up to one that cannot be shown. -/
theorem judged_mapM_showable (items : List Value) :
    Judged (items.mapM showable) True (∃ v ∈ items, v.isWritable = false) := by
  induction items with
  | nil => exact (Judged.ok []).congr Iff.rfl (by simp)
  | cons v rest ih =>
    have hfirst : Judged (showable v) True (v.isWritable = false) := by
      rw [showable]
      cases hv : v.isWritable with
      | false => exact .stopped v rfl rfl
      | true => exact .passed v rfl trivial Bool.noConfusion
    rw [List.mapM_cons]
    apply (hfirst.bind fun _ => ih.bind fun _ => .ok _).congr
    · simp
    · simp

theorem judged_shownItems (f : Field) (v : Value) :
    Judged (shownItems f v) (∃ items, v = .list items) (ListsUnwritable v) := by
  cases v with
  | list items =>
    apply ((judged_mapM_showable items).bind fun _ => .ok _).congr
    · simp
    · simp [ListsUnwritable]
  | _ => exact .rejected _ _ rfl rfl (by simp) (by simp [ListsUnwritable])

theorem judged_checkMapping (v : Value) :
    Judged (checkMapping v) (∃ table, v = .map table) False := by
  cases v with
  | map table => exact .passed _ rfl ⟨table, rfl⟩ id
  | _ => exact .rejected _ _ rfl rfl (by simp) id

/-- The check of settings: the categories are looked at only if the owners are a list. -/
theorem judged_checked (s : Settings) :
    Judged s.checked
      ((∃ items, s.suppressedOwners = .list items) ∧
        (∃ items, s.disabledCategories = .list items) ∧ ∃ table, s.deprecations = .map table)
      (ListsUnwritable s.suppressedOwners ∨
        ((∃ items, s.suppressedOwners = .list items) ∧ ListsUnwritable s.disabledCategories)) := by
  apply ((judged_shownItems _ s.suppressedOwners).bind fun _ =>
    (judged_shownItems _ s.disabledCategories).bind fun _ =>
      (judged_checkMapping s.deprecations).bind fun _ => .ok _).congr
  · simp
  · simp

/-- The settings of a mapping are accepted, or rejected with a message, if nothing stops the
check. -/
theorem judged_ofEntries (entries : List (Value × Value)) :
    Judged (ofEntries entries) (Acceptable entries) (Unshowable entries) := by
  rw [acceptable_iff, unshowable_iff]
  apply ((judged_mapM_showable (unknownKeys entries)).bind fun _ => judged_checked _).congr
  · rw [true_and]
  · rw [true_and]

/-- Accepted settings have the values given to them. -/
theorem overrides_of_ofEntries (h : ofEntries entries = .ok s) : Overrides entries s := by
  obtain ⟨owners, categories, deprecations, howners, hcategories, hdeprecations, rfl⟩ :=
    checked_eq_ok (checked_of_ofEntries h)
  intro f
  rw [kept_assign]
  cases f with
  | suppressedOwners => exact (congrArg (Field.kept .suppressedOwners) howners).symm
  | disabledCategories => exact (congrArg (Field.kept .disabledCategories) hcategories).symm
  | _ => rfl

/-! ## Files -/

/-- The bytes of a file are a document of a mapping with these entries. A document that counts as
false stands for the empty mapping. -/
def Describes (bytes : ByteArray) (entries : List (Value × Value)) : Prop :=
  ∃ v, Yaml.read depth bytes = .ok v ∧ (v = .map entries ∨ v.truthy = false ∧ entries = [])

/-- A file ends the reading: its document has a fault other than that it is malformed, or something
in its mapping cannot be shown. -/
def EndsReading (bytes : ByteArray) : Prop :=
  (∃ f, Yaml.read depth bytes = .error f ∧ f ≠ .malformed) ∨
    ∃ entries, Describes bytes entries ∧ Unshowable entries

/-- The standard settings hold, and the last warning says so. -/
def FallsBack (result : Except Obstacle Settings × List Points) : Prop :=
  ∃ seen warning, result = (.ok standard, seen ++ [warning]) ∧
    Points.ofText "; using default configuration".toList <:+ warning

theorem describes_iff : Describes bytes entries ↔ documentValue bytes = .ok (.map entries) := by
  rw [Describes, documentValue]
  cases Yaml.read depth bytes with
  | error f => simp
  | ok v =>
    cases htruthy : v.truthy with
    | true => simp [htruthy]
    | false =>
      -- only the empty mapping counts as false
      have hempty : v = .map entries → entries = [] := by
        rintro rfl
        simpa [Value.truthy] using htruthy
      simp only [htruthy, Bool.false_eq_true, if_false]
      constructor
      · rintro ⟨w, hw, hmap | ⟨-, rfl⟩⟩
        · rw [hempty ((Except.ok.inj hw).trans hmap)]
        · rfl
      · intro hmap
        exact ⟨v, rfl, Or.inr ⟨htruthy, (Value.map.inj (Except.ok.inj hmap)).symm⟩⟩

theorem Describes.unique {others : List (Value × Value)} (h : Describes bytes entries)
    (h' : Describes bytes others) : entries = others := by
  have heq := (describes_iff.1 h).symm.trans (describes_iff.1 h')
  exact Value.map.inj (Except.ok.inj heq)

/-- A file with a mapping ends the reading exactly if something in the mapping cannot be shown. -/
theorem endsReading_iff_unshowable (h : Describes bytes entries) :
    EndsReading bytes ↔ Unshowable entries := by
  constructor
  · rintro (⟨f, hf, -⟩ | ⟨others, hothers, hunshowable⟩)
    · obtain ⟨v, hv, -⟩ := h
      cases hv.symm.trans hf
    · rwa [h.unique hothers]
  · intro hunshowable
    exact Or.inr ⟨entries, h, hunshowable⟩

/-- An obstacle that has words makes the standard settings hold. -/
theorem fallsBack_orStandard {e : Obstacle} {m : Text} (h : e.message? = some m)
    (seen : List Points) : FallsBack (orStandard path (.error e, seen)) := by
  refine ⟨seen, fallbackWarning path m, by simp only [orStandard, h], ?_⟩
  rw [fallbackWarning, Points.ofText, Points.ofText, List.map_append]
  exact List.suffix_append _ _

theorem orStandard_of_message?_eq_none {e : Obstacle} (h : e.message? = none)
    (seen : List Points) : orStandard path (.error e, seen) = (.error e, seen) := by
  simp only [orStandard, h]

/-- Every key that names no field has its remark, if all can be shown. -/
theorem remarks_eq (h : ¬ Unshowable entries) :
    remarks entries = (unknownKeys entries).map unknownKeyRemark := by
  have hwritable : ∀ key ∈ unknownKeys entries, key.isWritable = true := by
    intro key hkey
    rw [← Bool.not_eq_false]
    exact fun hlong => h (Or.inl ⟨key, hkey, hlong⟩)
  rw [remarks, List.takeWhile_eq_self_iff.2 hwritable]

theorem load_of_ofEntries_error (h : Describes bytes entries) (hr : ofEntries entries = .error r) :
    load path (.file bytes) = orStandard path (.error (.rejected r), remarks entries) := by
  rw [load, decode, describes_iff.1 h]
  simp only [ofValue, hr]

/-- The three outcomes of a file with a mapping. -/
theorem load_of_describes (path : Text) (h : Describes bytes entries) :
    (EndsReading bytes ∧ ∃ e seen, load path (.file bytes) = (.error e, seen)) ∨
      (¬ EndsReading bytes ∧ Acceptable entries ∧ ∃ s, Overrides entries s ∧
        load path (.file bytes) = (.ok s, (unknownKeys entries).map unknownKeyRemark)) ∨
      (¬ EndsReading bytes ∧ ¬ Acceptable entries ∧ FallsBack (load path (.file bytes))) := by
  rw [endsReading_iff_unshowable h]
  cases judged_ofEntries entries with
  | passed s hs haccepts hstops =>
    refine Or.inr (Or.inl ⟨hstops, haccepts, s, overrides_of_ofEntries hs, ?_⟩)
    rw [load_of_ofEntries (describes_iff.1 h) hs, remarks_eq hstops]
  | stopped v hv hstops =>
    refine Or.inl ⟨hstops, .rejected (.unwritable v), remarks entries, ?_⟩
    rw [load_of_ofEntries_error h hv, orStandard_of_message?_eq_none rfl]
  | rejected r m hr hm haccepts hstops =>
    refine Or.inr (Or.inr ⟨hstops, haccepts, ?_⟩)
    rw [load_of_ofEntries_error h hr]
    exact fallsBack_orStandard (e := .rejected r) hm _

/-- A file without a mapping ends the reading, or the standard settings hold. -/
theorem load_of_not_describes (path : Text) (h : ∀ entries, ¬ Describes bytes entries) :
    (EndsReading bytes ∧ ∃ e seen, load path (.file bytes) = (.error e, seen)) ∨
      (¬ EndsReading bytes ∧ FallsBack (load path (.file bytes))) := by
  have hends : EndsReading bytes ↔ ∃ f, Yaml.read depth bytes = .error f ∧ f ≠ .malformed := by
    apply or_iff_left
    rintro ⟨entries, hentries, -⟩
    exact h entries hentries
  cases hread : Yaml.read depth bytes with
  | error f =>
    have hload : load path (.file bytes) = orStandard path (.error (.unreadable f), []) := by
      rw [load, decode, documentValue, hread]
    rw [hload]
    -- of all faults of a document, only that it is malformed has words for a warning
    by_cases hf : f = .malformed
    · subst hf
      refine Or.inr ⟨?_, fallsBack_orStandard rfl []⟩
      rw [hends, hread]
      rintro ⟨g, hg, hne⟩
      exact hne (Except.error.inj hg).symm
    · refine Or.inl ⟨hends.2 ⟨f, hread, hf⟩, .unreadable f, [], ?_⟩
      apply orStandard_of_message?_eq_none
      cases f <;> first | rfl | exact absurd rfl hf
  | ok v =>
    have htruthy : v.truthy = true := by
      rw [← Bool.not_eq_false]
      exact fun hfalse => h [] ⟨v, hread, Or.inr ⟨hfalse, rfl⟩⟩
    have hload : load path (.file bytes) =
        orStandard path (.error (.rejected (.notMapping v)), []) := by
      rw [load, decode, documentValue, hread]
      simp only [htruthy, if_true]
      cases v with
      | map entries => exact absurd ⟨.map entries, hread, Or.inl rfl⟩ (h entries)
      | _ => rfl
    refine Or.inr ⟨?_, hload ▸ fallsBack_orStandard rfl []⟩
    rw [hends, hread]
    rintro ⟨f, hf, -⟩
    cases hf

theorem load_of_not_utf8 (path : Text) (hsize : bytes.size ≤ Yaml.Intake.leastBlock)
    (h : Text.decode? bytes = none) :
    load path (.file bytes) = (.error (.unreadable .notUtf8), []) := by
  rw [load, decode, documentValue, Yaml.read_of_not_utf8 hsize h]
  exact orStandard_of_message?_eq_none rfl []

/-- What is loaded from a path. If nothing stands there, the standard settings hold, and if a
directory stands there, they hold with a warning. A file ends the reading; or it is UTF-8 and
describes an acceptable mapping, whose values take the place of the standard ones, with one warning
for each key that names no field; or it does not, and the standard settings hold with a warning. A
file of at most one block that is not UTF-8 ends the reading. -/
theorem load_outcomes (path : Text) :
    load path .nothing = (.ok standard, []) ∧ FallsBack (load path .directory) ∧
      ∀ bytes : ByteArray,
        ((EndsReading bytes ∧ ∃ e seen, load path (.file bytes) = (.error e, seen)) ∨
          (¬ EndsReading bytes ∧ (Text.decode? bytes).isSome = true ∧
            ∃ entries s, Describes bytes entries ∧ Acceptable entries ∧ Overrides entries s ∧
              load path (.file bytes) = (.ok s, (unknownKeys entries).map unknownKeyRemark)) ∨
          (¬ EndsReading bytes ∧ (¬ ∃ entries, Describes bytes entries ∧ Acceptable entries) ∧
            FallsBack (load path (.file bytes)))) ∧
        (Text.decode? bytes = none → bytes.size ≤ Yaml.Intake.leastBlock →
          load path (.file bytes) = (.error (.unreadable .notUtf8), [])) := by
  refine ⟨rfl, fallsBack_orStandard (e := .directory) rfl [], ?_⟩
  intro bytes
  refine ⟨?_, fun h hsize => load_of_not_utf8 path hsize h⟩
  -- a file has at most one mapping, so what holds of that one holds of the file
  by_cases hmapping : ∃ entries, Describes bytes entries
  · obtain ⟨entries, hentries⟩ := hmapping
    obtain ⟨v, hread, -⟩ := id hentries
    rcases load_of_describes path hentries with hend | ⟨hend, haccepts, s, hs, hload⟩ |
      ⟨hend, hrejects, hload⟩
    · exact Or.inl hend
    · exact Or.inr (Or.inl ⟨hend, Yaml.decode?_isSome_of_read hread, entries, s, hentries, haccepts,
        hs, hload⟩)
    · refine Or.inr (Or.inr ⟨hend, ?_, hload⟩)
      rintro ⟨others, hothers, haccepts⟩
      exact hrejects (hentries.unique hothers ▸ haccepts)
  · rw [not_exists] at hmapping
    rcases load_of_not_describes path hmapping with hend | ⟨hend, hload⟩
    · exact Or.inl hend
    · refine Or.inr (Or.inr ⟨hend, ?_, hload⟩)
      rintro ⟨entries, hentries, -⟩
      exact hmapping entries hentries

/-! ## A file that is accepted, and a byte that ends the reading -/

/-- A file with a list of categories and a key that names no field. -/
def annotated : ByteArray :=
  Text.encode "\"disabled_categories\": [true]\n\"x\":\n".toList

/-- The entries of the file. -/
def annotatedEntries : List (Value × Value) :=
  [(.text "disabled_categories".toList, .list [.bool true]), (.text "x".toList, .null)]

theorem describes_annotated : Describes annotated annotatedEntries :=
  describes_iff.2 (eq_ok_of_toOption (by decide +kernel))

theorem acceptable_annotated : Acceptable annotatedEntries :=
  acceptable_iff.2 ⟨⟨_, rfl⟩, ⟨_, rfl⟩, _, rfl⟩

theorem not_endsReading_annotated : ¬ EndsReading annotated := by
  rw [endsReading_iff_unshowable describes_annotated]
  rintro (⟨key, hkey, hlong⟩ | ⟨items, hitems, -⟩ | ⟨-, items, hitems, v, hv, hlong⟩)
  · have hx : key = .text "x".toList := List.mem_singleton.1 hkey
    subst hx
    cases hlong
  · cases hitems
  · cases hitems
    rw [List.mem_singleton.1 hv] at hlong
    cases hlong

/-- The category of the file is kept as a text, the key that names no field has a warning, and the
other fields have their standard values. -/
theorem annotated_loads :
    ∃ s, load "importtrack.yml".toList (.file annotated) =
        (.ok s, [unknownKeyRemark (.text "x".toList)]) ∧
      s.disabledCategories = .list [Value.ofString "True"] ∧
      s.category = Value.ofString "unused-imports" := by
  have houtcomes := ((load_outcomes "importtrack.yml".toList).2.2 annotated).1
  rcases houtcomes with ⟨hend, -⟩ | ⟨-, -, entries, s, hentries, -, hs, hload⟩ | ⟨-, hrejects, -⟩
  · exact absurd hend not_endsReading_annotated
  · rw [hentries.unique describes_annotated] at hs hload
    exact ⟨s, hload, hs .disabledCategories, hs .category⟩
  · exact absurd ⟨annotatedEntries, describes_annotated, acceptable_annotated⟩ hrejects

/-- The only byte of this file begins no character. -/
def strayByte : ByteArray :=
  ⟨#[0xff]⟩

/-- The byte ends the reading: neither are the standard settings loaded nor is there a warning. -/
theorem strayByte_endsReading :
    load "importtrack.yml".toList (.file strayByte) = (.error (.unreadable .notUtf8), []) :=
  load_of_not_utf8 _ (by decide) (by decide)

end UnusedImports.Settings
