import UnusedImports.Proofs.Settings.Loading
import UnusedImports.Proofs.Settings.Owners
import UnusedImports.Proofs.Value.Equality
import UnusedImports.Proofs.Yaml.Order

/-!
# Saved settings are loaded again

Settings are saved as a mapping of all fields, and the writer sorts every mapping by its keys. If
the document is read as the sorted mapping (`Settings.ReadsBack`), the settings that come back are
those that were saved, with sorted mappings and with the items of the lists as the texts that show
them (`Settings.restored`). They are equal to the saved ones exactly if the items were texts, and
they come back from a file as they are (`Settings.load_save`). An item that is a mapping is shown
after its entries have been sorted, so it may not come back as the text that shows it
(`Settings.unsortedOwner_not_shown`).
-/

set_option autoImplicit false

namespace UnusedImports

namespace Value

/-- The value is a text. -/
def isText : Value → Bool
  | .text _ => true
  | .points _ => true
  | _ => false

theorem sorted_of_isText {v : Value} (h : v.isText = true) : v.sorted = v := by
  cases v <;> first | rfl | cases h

/-- Only texts have the keys of texts. -/
theorem isText_of_key? {v : Value} {k : Key} (h : v.key? = some k)
    (hk : (∃ t, k = .text t) ∨ ∃ ps, k = .points ps) : v.isText = true := by
  rcases hk with ⟨t, rfl⟩ | ⟨ps, rfl⟩
  all_goals
    cases v with
    | text => rfl
    | points => rfl
    | float x => cases x <;> cases h
    | stamp s =>
      cases s with
      | date d => cases h
      | moment d c =>
        rw [key?, Stamp.key] at h
        cases hzone : c.zone <;> rw [hzone] at h <;> cases h
    | _ => cases h

end Value

namespace Settings

variable {s : Settings} {path : Text}

/-! ## The mapping of all fields -/

/-- The settings with all mappings in their values sorted. -/
def sorted (s : Settings) : Settings :=
  { quickfix := s.quickfix.sorted
    quickfixSilent := s.quickfixSilent.sorted
    category := s.category.sorted
    suppressedOwners := s.suppressedOwners.sorted
    disabledCategories := s.disabledCategories.sorted
    deprecations := s.deprecations.sorted }

theorem get_sorted (s : Settings) (f : Field) : s.sorted.get f = (s.get f).sorted := by
  cases f <;> rfl

/-- The fields in the order in which they are written. -/
def Field.inOrder : List Field :=
  [category, deprecations, disabledCategories, quickfix, quickfixSilent, suppressedOwners]

/-- The entries of a settings file. -/
def fileEntries (s : Settings) : List (Value × Value) :=
  Field.inOrder.map fun f => (.text f.name, s.get f)

theorem byKey_fields {α : Type} (g : Field → α) :
    Yaml.byKey (Field.all.map fun f => (Value.text f.name, g f)) =
      Field.inOrder.map fun f => (Value.text f.name, g f) := by
  have hfields : Yaml.byKey (Field.all.map fun f => (Value.text f.name, f)) =
      Field.inOrder.map fun f => (Value.text f.name, f) := by
    apply Yaml.byKey_eq_of_perm
    · decide +kernel
    · decide +kernel
    · decide +kernel
    · decide +kernel
  have hmap := Yaml.byKey_map (fun e => g e.2) (Field.all.map fun f => (Value.text f.name, f))
  rw [hfields, List.map_map, List.map_map] at hmap
  exact hmap

/-- A settings file has the fields in the order of their names. -/
theorem write_toValue (s : Settings) :
    Yaml.write s.toValue =
      Yaml.stacked 0 ((Yaml.entryTexts 0 s.fileEntries).map (·.2)) ++ ['\n'] := by
  have hentries : Yaml.byKey (Field.all.map fun f => (Value.text f.name, s.get f)) =
      s.fileEntries := byKey_fields s.get
  rw [← hentries, ← Yaml.byKey_entryTexts]
  rfl

theorem toValue_sorted (s : Settings) : s.toValue.sorted = .map s.sorted.fileEntries := by
  rw [toValue, Value.sorted, Value.sortedEntries_eq_map, List.map_map, fileEntries]
  simp only [get_sorted]
  exact congrArg Value.map (byKey_fields fun f => (s.get f).sorted)

/-- The entries of a file describe the fields that were written. -/
theorem ofEntries_fileEntries (s : Settings) : ofEntries s.fileEntries = s.checked :=
  rfl

theorem remarks_fileEntries (s : Settings) : remarks s.fileEntries = [] :=
  rfl

/-! ## Settings that come back -/

/-- The document of the settings is written, and read as their mapping in the order of keys. -/
structure ReadsBack (s : Settings) : Prop where
  writable : s.toValue.isWritable = true
  read : Yaml.read depth s.encode = .ok s.toValue.sorted

/-- The lists are lists and the deprecations are a mapping. -/
structure IsProper (s : Settings) : Prop where
  owners : ∃ items, s.suppressedOwners = .list items
  categories : ∃ items, s.disabledCategories = .list items
  deprecations : ∃ table, s.deprecations = .map table

/-- All items of the lists are texts. -/
def ListsTexts (s : Settings) : Prop :=
  ∀ items, s.suppressedOwners = .list items ∨ s.disabledCategories = .list items →
    ∀ v ∈ items, v.isText = true

/-- All fields have plain values. -/
def isPlain (s : Settings) : Bool :=
  Field.all.all fun f => (s.get f).isPlain

/-- The settings as they come back from a file: with sorted mappings, and with the items of the
lists as the texts that show them. -/
def restored (s : Settings) : Settings :=
  { s.sorted with
    suppressedOwners := Field.suppressedOwners.kept s.sorted.suppressedOwners
    disabledCategories := Field.disabledCategories.kept s.sorted.disabledCategories }

theorem exists_list_sorted_iff {v : Value} :
    (∃ items, v.sorted = .list items) ↔ ∃ items, v = .list items := by
  cases v <;> simp [Value.sorted]

theorem exists_map_sorted_iff {v : Value} :
    (∃ table, v.sorted = .map table) ↔ ∃ table, v = .map table := by
  cases v <;> simp [Value.sorted]

theorem isProper_sorted_iff : s.sorted.IsProper ↔ s.IsProper := by
  constructor
  · rintro ⟨howners, hcategories, hdeprecations⟩
    exact ⟨exists_list_sorted_iff.1 howners, exists_list_sorted_iff.1 hcategories,
      exists_map_sorted_iff.1 hdeprecations⟩
  · rintro ⟨howners, hcategories, hdeprecations⟩
    exact ⟨exists_list_sorted_iff.2 howners, exists_list_sorted_iff.2 hcategories,
      exists_map_sorted_iff.2 hdeprecations⟩

theorem documentValue_encode (h : s.ReadsBack) :
    documentValue s.encode = .ok (.map s.sorted.fileEntries) := by
  rw [documentValue, h.read, toValue_sorted]
  rfl

/-- Nothing in settings that have been written is too long to be shown. -/
theorem not_listsUnwritable (h : s.ReadsBack) (f : Field) : ¬ ListsUnwritable (s.sorted.get f) := by
  rintro ⟨items, hitems, v, hv, hlong⟩
  have hwritable : (s.get f).isWritable = true := by
    have hfields := Value.areWritableEntries_iff.1 h.writable
    have hmem : f ∈ Field.all := by cases f <;> decide
    exact (hfields _ (List.mem_map_of_mem hmem)).2
  rw [← Value.isWritable_sorted, ← get_sorted, hitems, Value.isWritable, Value.areWritable_iff]
    at hwritable
  rw [hwritable v hv] at hlong
  cases hlong

/-- The check of what is read: it passes or rejects with a message, as nothing is too long. -/
theorem checked_sorted_cases (h : s.ReadsBack) :
    (s.IsProper ∧ s.sorted.checked = .ok s.restored) ∨
      (¬ s.IsProper ∧ ∃ r m, s.sorted.checked = .error r ∧ r.message? = some m) := by
  cases judged_checked s.sorted with
  | passed r hr haccepts =>
    obtain ⟨howners, hcategories, hdeprecations⟩ := haccepts
    refine Or.inl ⟨isProper_sorted_iff.1 ⟨howners, hcategories, hdeprecations⟩, ?_⟩
    obtain ⟨owners, categories, table, howners, hcategories, -, heq⟩ := checked_eq_ok hr
    rw [hr, heq, restored, howners, hcategories]
    rfl
  | stopped v hv hstops =>
    rcases hstops with hstops | ⟨-, hstops⟩
    · exact absurd hstops (not_listsUnwritable h .suppressedOwners)
    · exact absurd hstops (not_listsUnwritable h .disabledCategories)
  | rejected r m hr hm haccepts =>
    refine Or.inr ⟨fun hproper => haccepts ?_, r, m, hr, hm⟩
    obtain ⟨howners, hcategories, hdeprecations⟩ := isProper_sorted_iff.2 hproper
    exact ⟨howners, hcategories, hdeprecations⟩

theorem save_eq {before : Found} (hbefore : before ≠ .directory) (h : s.ReadsBack) :
    s.save before = (.ok (), .file s.encode) := by
  cases before with
  | directory => exact absurd rfl hbefore
  | nothing => simp only [save, h.writable, if_true]
  | file bytes => simp only [save, h.writable, if_true]

theorem load_encode_of_isProper (path : Text) (h : s.ReadsBack) (hproper : s.IsProper) :
    load path (.file s.encode) = (.ok s.restored, []) := by
  rcases checked_sorted_cases h with ⟨-, hchecked⟩ | ⟨hnot, -⟩
  · exact load_of_ofEntries (documentValue_encode h) ((ofEntries_fileEntries _).trans hchecked)
  · exact absurd hproper hnot

theorem load_encode_of_not_isProper (path : Text) (h : s.ReadsBack) (hnot : ¬ s.IsProper) :
    ∃ warning, load path (.file s.encode) = (.ok standard, [warning]) := by
  rcases checked_sorted_cases h with ⟨hproper, -⟩ | ⟨-, r, m, hchecked, hm⟩
  · exact absurd hproper hnot
  · have hload : load path (.file s.encode) = _ :=
      load_of_ofEntries_error (describes_iff.2 (documentValue_encode h))
        ((ofEntries_fileEntries _).trans hchecked)
    have hmessage : (Obstacle.rejected r).message? = some m := hm
    rw [remarks_fileEntries, orStandard, hmessage] at hload
    exact ⟨_, hload⟩

/-! ## What is shown -/

/-- What is shown is a text. -/
theorem isText_shownItem (v : Value) : (shownItem v).isText = true := by
  rw [shownItem, Value.ofPoints]
  cases v.shownPoints.text? <;> rfl

/-- What is shown is kept as it is. -/
theorem sorted_shownItem (v : Value) : (shownItem v).sorted = shownItem v := by
  rw [shownItem, Value.ofPoints]
  cases v.shownPoints.text? <;> rfl

/-- A text shows itself. -/
theorem shownItem_text (t : Text) : shownItem (.text t) = .text t := by
  have hpoints : (Value.text t).shownPoints = .ofText t := rfl
  rw [shownItem, hpoints, Value.ofPoints, Points.text?_ofText]

theorem shownItem_points {ps : Points} (h : ps.text? = none) :
    shownItem (.points ps) = .points ps := by
  have hpoints : (Value.points ps).shownPoints = ps := rfl
  rw [shownItem, hpoints, Value.ofPoints, h]

theorem shownItem_shownItem (v : Value) : shownItem (shownItem v) = shownItem v := by
  have hcases : shownItem v = Value.ofPoints v.shownPoints := rfl
  rw [hcases, Value.ofPoints]
  cases h : v.shownPoints.text? with
  | none => exact shownItem_points h
  | some t => exact shownItem_text t

/-- An item is equal to the text that shows it only if it is a text. -/
theorem same_shownItem_sorted_iff {v : Value} (h : v.isPlain = true) :
    (shownItem v.sorted).same v = true ↔ v.isText = true := by
  constructor
  · intro hsame
    cases hk : v.key? with
    | none =>
      rw [shownItem, same_ofPoints, Value.sameKey, hk] at hsame
      split at hsame <;> simp_all
    | some k =>
      rw [same_shownItem hk, decide_eq_true_eq, shownKey] at hsame
      apply Value.isText_of_key? hk
      split at hsame
      · exact Or.inl ⟨_, hsame.symm⟩
      · exact Or.inr ⟨_, hsame.symm⟩
  · intro htext
    rw [Value.sorted_of_isText htext]
    cases v with
    | text t =>
      rw [shownItem_text]
      exact Value.same_self_of_key h rfl
    | points ps =>
      rw [shownItem_points (Option.isNone_iff_eq_none.1 h)]
      exact Value.same_self_of_key h rfl
    | _ => cases htext

theorem sameItems_map_shownItem_iff {items : List Value} (h : Value.arePlain items = true) :
    Value.sameItems (items.map fun v => shownItem v.sorted) items = true ↔
      ∀ v ∈ items, v.isText = true := by
  induction items with
  | nil => simp [Value.sameItems]
  | cons v rest ih =>
    rw [Value.arePlain, Bool.and_eq_true] at h
    rw [List.map_cons, Value.sameItems, Bool.and_eq_true, same_shownItem_sorted_iff h.1, ih h.2,
      List.forall_mem_cons]

/-- A list is kept as it is only if its items are texts. -/
theorem same_kept_sorted_iff {v : Value} {items : List Value} (f : Field)
    (hf : f = .suppressedOwners ∨ f = .disabledCategories) (hv : v = .list items)
    (hplain : v.isPlain = true) :
    (f.kept v.sorted).same v = true ↔ ∀ w ∈ items, w.isText = true := by
  subst hv
  have hkept : f.kept (Value.list items).sorted =
      .list (items.map fun v => shownItem v.sorted) := by
    rcases hf with rfl | rfl <;>
      rw [Value.sorted, Value.sortedItems_eq_map, Field.kept, List.map_map] <;> rfl
  rw [hkept, Value.same]
  exact sameItems_map_shownItem_iff hplain

/-! ## Settings that have come back -/

theorem ext_get {t : Settings} (h : ∀ f, s.get f = t.get f) : s = t := by
  cases s
  cases t
  simp only [mk.injEq]
  exact ⟨h .quickfix, h .quickfixSilent, h .category, h .suppressedOwners,
    h .disabledCategories, h .deprecations⟩

theorem Field.all_iff {p : Field → Bool} : all.all p = true ↔ ∀ f, p f = true := by
  rw [List.all_eq_true]
  constructor
  · exact fun h f => h f (by cases f <;> decide)
  · exact fun h f _ => h f

theorem get_restored (s : Settings) (f : Field) : s.restored.get f = f.kept (s.get f).sorted := by
  cases f <;> rfl

/-- A value is kept as it is, or it is a list and its items are shown. -/
theorem Field.kept_cases (f : Field) (v : Value) :
    f.kept v = v ∨ ∃ items, v = .list items ∧ f.kept v = .list (items.map shownItem) := by
  cases f with
  | suppressedOwners | disabledCategories =>
    cases v with
    | list items => exact Or.inr ⟨items, rfl, rfl⟩
    | _ => exact Or.inl rfl
  | _ => exact Or.inl rfl

/-- What is shown is shown as it is. -/
theorem Field.kept_list_shownItem (f : Field) (items : List Value) :
    f.kept (.list (items.map shownItem)) = .list (items.map shownItem) := by
  rcases f.kept_cases (.list (items.map shownItem)) with h | ⟨shown, hshown, h⟩
  · exact h
  · rw [h, ← Value.list.inj hshown, List.map_map]
    exact congrArg Value.list (List.map_congr_left fun v _ => shownItem_shownItem v)

theorem sorted_list_shownItem (items : List Value) :
    (Value.list (items.map shownItem)).sorted = .list (items.map shownItem) := by
  rw [Value.sorted, Value.sortedItems_eq_map, List.map_map]
  exact congrArg Value.list (List.map_congr_left fun v _ => sorted_shownItem v)

/-- What has come back comes back as it is. -/
theorem kept_sorted_kept (f : Field) (v : Value) :
    f.kept (f.kept v.sorted).sorted = f.kept v.sorted := by
  rcases f.kept_cases v.sorted with h | ⟨items, -, h⟩
  · rw [h, Value.sorted_sorted, h]
  · rw [h, sorted_list_shownItem, f.kept_list_shownItem]

theorem restored_restored (s : Settings) : s.restored.restored = s.restored :=
  ext_get fun f => by rw [get_restored, get_restored, kept_sorted_kept]

theorem isProper_restored (h : s.IsProper) : s.restored.IsProper := by
  obtain ⟨⟨owners, howners⟩, ⟨categories, hcategories⟩, hdeprecations⟩ := isProper_sorted_iff.2 h
  refine ⟨⟨owners.map shownItem, ?_⟩, ⟨categories.map shownItem, ?_⟩, hdeprecations⟩
  · rw [restored, howners, Field.kept]
  · rw [restored, hcategories, Field.kept]

/-- All fields but the lists come back as what they were. -/
theorem same_get_restored {f : Field} (hplain : s.isPlain = true) (howners : f ≠ .suppressedOwners)
    (hcategories : f ≠ .disabledCategories) : (s.restored.get f).same (s.get f) = true := by
  have hkept : f.kept (s.get f).sorted = (s.get f).sorted := by
    cases f with
    | suppressedOwners => exact absurd rfl howners
    | disabledCategories => exact absurd rfl hcategories
    | _ => rfl
  rw [get_restored, hkept]
  exact Value.same_sorted _ (Field.all_iff.1 hplain f)

/-- The settings that come back are equal to plain ones that were saved exactly if the items of the
lists are texts. -/
theorem same_restored_iff (hproper : s.IsProper) (hplain : s.isPlain = true) :
    s.restored.same s = true ↔ s.ListsTexts := by
  obtain ⟨⟨owners, howners⟩, ⟨categories, hcategories⟩, -⟩ := hproper
  have hplains : ∀ f, (s.get f).isPlain = true := Field.all_iff.1 hplain
  have hsame : s.restored.same s = true ↔
      (∀ v ∈ owners, v.isText = true) ∧ ∀ v ∈ categories, v.isText = true := by
    rw [← same_kept_sorted_iff .suppressedOwners (Or.inl rfl) howners (hplains .suppressedOwners),
      ← same_kept_sorted_iff .disabledCategories (Or.inr rfl) hcategories
        (hplains .disabledCategories), same, Field.all_iff]
    constructor
    · exact fun h => ⟨h .suppressedOwners, h .disabledCategories⟩
    · rintro ⟨howned, hcategorized⟩ f
      cases f with
      | suppressedOwners => exact howned
      | disabledCategories => exact hcategorized
      | _ => exact same_get_restored hplain (by decide) (by decide)
  rw [hsame, ListsTexts, howners, hcategories]
  constructor
  · rintro ⟨howned, hcategorized⟩ items (hitems | hitems)
    · exact Value.list.inj hitems ▸ howned
    · exact Value.list.inj hitems ▸ hcategorized
  · exact fun h => ⟨h owners (Or.inl rfl), h categories (Or.inr rfl)⟩

/-- What is loaded can be saved and comes back: the lists are lists of texts. -/
theorem of_load {found : Found} {warnings : List Points}
    (h : load path found = (.ok s, warnings)) : s.IsProper ∧ s.ListsTexts := by
  have hstandard : standard.IsProper ∧ standard.ListsTexts := by
    refine ⟨⟨⟨[], rfl⟩, ⟨[], rfl⟩, [], rfl⟩, ?_⟩
    rintro items (hitems | hitems) v hv <;> cases hitems <;> cases hv
  cases found with
  | nothing =>
    cases h
    exact hstandard
  | directory =>
    cases h
    exact hstandard
  | file bytes =>
    rcases load_cases h with ⟨rfl, -⟩ | ⟨entries, -, hentries, -⟩
    · exact hstandard
    · obtain ⟨owners, categories, table, -, -, htable, rfl⟩ :=
        checked_eq_ok (checked_of_ofEntries hentries)
      refine ⟨⟨⟨_, rfl⟩, ⟨_, rfl⟩, table, htable⟩, ?_⟩
      rintro items (hitems | hitems) v hv
      all_goals
        cases hitems
        obtain ⟨w, -, rfl⟩ := List.mem_map.1 hv
        exact isText_shownItem w

/-! ## Saving and loading -/

/-- Settings that are saved at a path, whatever stood there, are loaded from it without a warning if
their lists are lists and their deprecations are a mapping. Mappings come back in the order of their
keys and items of the lists as the texts that show them. So all other fields of plain settings are
reproduced, and the settings themselves exactly if the items were texts; what has come back once
comes back as it is. Of other settings nothing comes back: the standard ones hold, with one warning.
Settings that were loaded are reproduced. -/
theorem load_save (path : Text) {before : Found} (hbefore : before ≠ .directory)
    (h : s.ReadsBack) :
    ∃ saved, s.save before = (.ok (), saved) ∧
      (s.IsProper →
        load path saved = (.ok s.restored, []) ∧
          (s.isPlain = true → (s.restored.same s = true ↔ s.ListsTexts) ∧
            ∀ f : Field, f ≠ .suppressedOwners → f ≠ .disabledCategories →
              (s.restored.get f).same (s.get f) = true) ∧
          (s.restored.ReadsBack → ∃ again, s.restored.save saved = (.ok (), again) ∧
            load path again = (.ok s.restored, []))) ∧
      (¬ s.IsProper → ∃ warning, load path saved = (.ok standard, [warning])) ∧
      ∀ source found warnings, load source found = (.ok s, warnings) →
        load path saved = (.ok s.restored, []) ∧
          (s.isPlain = true → s.restored.same s = true) := by
  refine ⟨.file s.encode, save_eq hbefore h, fun hproper => ?_, load_encode_of_not_isProper path h,
    ?_⟩
  · refine ⟨load_encode_of_isProper path h hproper, fun hplain => ?_, fun hagain => ?_⟩
    · exact ⟨same_restored_iff hproper hplain, fun f => same_get_restored hplain⟩
    · refine ⟨.file s.restored.encode, save_eq Found.noConfusion hagain, ?_⟩
      rw [load_encode_of_isProper path hagain (isProper_restored hproper), restored_restored]
  · intro source found warnings hload
    obtain ⟨hproper, htexts⟩ := of_load hload
    exact ⟨load_encode_of_isProper path h hproper,
      fun hplain => (same_restored_iff hproper hplain).2 htexts⟩

/-! ## Settings with one owner -/

/-- The standard settings with one suppressed owner. -/
def withOwner (v : Value) : Settings :=
  { standard with suppressedOwners := .list [v] }

/-- The file of these settings, with the owner as it stands behind its hyphen. -/
def ownerFile (item : Text) : Text :=
  "category: unused-imports\ndeprecations: \x7b\x7d\ndisabled_categories: []\n".toList
    ++ "quickfix: false\nquickfix_silent: false\nsuppressed_owners:\n-".toList ++ item ++ ['\n']

theorem write_withOwner (v : Value) :
    Yaml.write (withOwner v).toValue = ownerFile (Yaml.placed .mark 0 2 v) := by
  rewrite [write_toValue]
  rfl

theorem isProper_withOwner (v : Value) : (withOwner v).IsProper :=
  ⟨⟨[v], rfl⟩, ⟨[], rfl⟩, [], rfl⟩

/-- The settings are read back if the file is read as their fields. -/
theorem readsBack_withOwner {v w : Value} {item : Text} (hwritable : v.isWritable = true)
    (hitem : Yaml.placed .mark 0 2 v = item) (hw : v.sorted = w)
    (hread : Yaml.read depth (ownerFile item).encode = .ok (.map (withOwner w).fileEntries)) :
    (withOwner v).ReadsBack := by
  constructor
  · rw [toValue, Value.isWritable, Value.areWritableEntries_iff]
    intro e he
    obtain ⟨f, -, rfl⟩ := List.mem_map.1 he
    refine ⟨rfl, ?_⟩
    cases f with
    | suppressedOwners => exact Value.areWritable_iff.2 (List.forall_mem_singleton.2 hwritable)
    | _ => rfl
  · rw [encode, write_withOwner, hitem, hread, toValue_sorted, ← hw]
    rfl

theorem readsBack_trueOwner : (withOwner (.bool true)).ReadsBack :=
  readsBack_withOwner rfl rfl rfl (eq_ok_of_toOption (by decide +kernel))

theorem readsBack_shownOwner : (withOwner (Value.ofString "True")).ReadsBack :=
  readsBack_withOwner rfl rfl rfl (eq_ok_of_toOption (by decide +kernel))

/-- A truth value among the owners comes back as its text, which is another owner, and the text
comes back as it is. -/
theorem trueOwner_saved_twice :
    ∃ saved, (withOwner (.bool true)).save .nothing = (.ok (), saved) ∧
      load "importtrack.yml".toList saved = (.ok (withOwner (Value.ofString "True")), []) ∧
      (withOwner (Value.ofString "True")).same (withOwner (.bool true)) = false ∧
      ∃ again, (withOwner (Value.ofString "True")).save saved = (.ok (), again) ∧
        load "importtrack.yml".toList again = (.ok (withOwner (Value.ofString "True")), []) := by
  have hrestored : (withOwner (.bool true)).restored = withOwner (Value.ofString "True") := rfl
  have hlisted : ¬ (withOwner (.bool true)).ListsTexts := fun htexts =>
    Bool.false_ne_true (htexts [.bool true] (Or.inl rfl) (.bool true) (List.mem_singleton_self _))
  have hnothing : Found.nothing ≠ .directory := Found.noConfusion
  obtain ⟨saved, hsaved, hproper, -, -⟩ :=
    load_save "importtrack.yml".toList hnothing readsBack_trueOwner
  obtain ⟨hload, hsame, hagain⟩ := hproper (isProper_withOwner _)
  rw [hrestored] at hload hsame hagain
  exact ⟨saved, hsaved, hload, Bool.eq_false_iff.2 (mt (hsame rfl).1.1 hlisted),
    hagain readsBack_shownOwner⟩

/-! ## An item that is a mapping -/

/-- A mapping of two entries that are not in the order of their keys. -/
def unsortedItem : Value :=
  .map [(Value.ofString "b", .int 1), (Value.ofString "a", .int 2)]

theorem byKey_two {α : Type} (x y : α) :
    Yaml.byKey [(Value.ofString "b", x), (Value.ofString "a", y)] =
      [(Value.ofString "a", y), (Value.ofString "b", x)] := by
  have hba : Yaml.keyLe (Value.ofString "b") (Value.ofString "a") = false := by decide +kernel
  have hcomparable : Yaml.areComparable (Value.ofString "b") (Value.ofString "a") = true := by
    decide +kernel
  simp [Yaml.byKey, hcomparable, hba, List.mergeSort, List.MergeSort.Internal.splitInTwo]

theorem sorted_unsortedItem :
    unsortedItem.sorted = .map [(Value.ofString "a", .int 2), (Value.ofString "b", .int 1)] :=
  congrArg Value.map (byKey_two _ _)

theorem placed_unsortedItem : Yaml.placed .mark 0 2 unsortedItem = " a: 2\n  b: 1".toList := by
  rw [unsortedItem, Yaml.placed, if_neg (by decide), Yaml.stackedEntries, Yaml.byKey_entryTexts,
    byKey_two]
  decide +kernel

theorem readsBack_unsortedItem : (withOwner unsortedItem).ReadsBack :=
  readsBack_withOwner (by decide +kernel) placed_unsortedItem sorted_unsortedItem
    (eq_ok_of_toOption (by decide +kernel))

/-- The owner comes back as the text of the sorted mapping, not as the text that shows it. -/
theorem unsortedOwner_not_shown :
    (withOwner unsortedItem).IsProper ∧ (withOwner unsortedItem).isPlain = true ∧
      (withOwner unsortedItem).ReadsBack ∧
      ∃ saved, (withOwner unsortedItem).save .nothing = (.ok (), saved) ∧
        load "importtrack.yml".toList saved =
          (.ok (withOwner (Value.ofString "\x7b'a': 2, 'b': 1\x7d")), []) ∧
        shownItem unsortedItem = Value.ofString "\x7b'b': 1, 'a': 2\x7d" ∧
        (withOwner (Value.ofString "\x7b'a': 2, 'b': 1\x7d")).same
          (withOwner (shownItem unsortedItem)) = false := by
  have hrestored : (withOwner unsortedItem).restored =
      withOwner (shownItem unsortedItem.sorted) := rfl
  have hshown : shownItem unsortedItem.sorted = Value.ofString "\x7b'a': 2, 'b': 1\x7d" := by
    rw [sorted_unsortedItem]
    decide +kernel
  have hload := load_encode_of_isProper "importtrack.yml".toList readsBack_unsortedItem
    (isProper_withOwner unsortedItem)
  rw [hrestored, hshown] at hload
  exact ⟨isProper_withOwner _, rfl, readsBack_unsortedItem, _,
    save_eq Found.noConfusion readsBack_unsortedItem, hload, by decide +kernel, by decide +kernel⟩

end Settings

end UnusedImports
