import UnusedImports.Proofs.Settings.Accepted
import UnusedImports.Proofs.Value.Equality
import UnusedImports.Sink

/-!
# Which owners settings suppress

Settings keep the owners that a file lists as the texts that show them. So a suppressor that the
settings ask for drops the warnings of an owner that is equal to such a text, whichever scalars the
file lists, and forwards all others, if it does not drop their category
(`load_suppresses_shown_owners`). An owner that is a number or a truth value is never suppressed in
this way, although the file may list it (`listedTrue_forwarded`).
-/

set_option autoImplicit false

namespace UnusedImports.Settings

/-! ## Equality with a shown item -/

theorem same_ofPoints (ps : Points) (v : Value) :
    (Value.ofPoints ps).same v = (Value.ofPoints ps).sameKey v := by
  rw [Value.ofPoints]
  cases ps.text? with
  | none => cases v <;> simp only [Value.same]
  | some t => cases v <;> simp only [Value.same]

/-- The key of the text that shows an item. -/
def shownKey (v : Value) : Key :=
  match v.shownPoints.text? with
  | some t => .text t
  | none => .points v.shownPoints

theorem key?_shownItem (v : Value) : (shownItem v).key? = some (shownKey v) := by
  rw [shownItem, Value.ofPoints, shownKey]
  cases v.shownPoints.text? <;> rfl

/-- A shown item is equal to a value that has its key. -/
theorem same_shownItem {item owner : Value} {k : Key} (hk : owner.key? = some k) :
    (shownItem item).same owner = decide (shownKey item = k) := by
  rw [shownItem, same_ofPoints, Value.sameKey, ← shownItem, key?_shownItem, hk]
  -- a text is a key, whatever its characters
  have htext : shownKey item ≠ .notNumber := by
    rw [shownKey]
    split <;> exact Key.noConfusion
  simp [htext]

theorem mapM_key_shown (items : List Value) :
    (items.map shownItem).mapM Value.key = .ok (items.map shownKey) := by
  induction items with
  | nil => rfl
  | cons v rest ih =>
    simp [Value.key, key?_shownItem, ih, bind, Except.bind, pure, Except.pure]

/-! ## Suppressors of accepted settings -/

/-- The settings disable a category that is equal to one of those they list. -/
def Disables (s : Settings) (category : Value) : Prop :=
  ∃ listed, s.disabledCategories = .list listed ∧ ∃ v ∈ listed, v.same category = true

variable {s : Settings} {entries : List (Value × Value)} {bytes : ByteArray}
  {owners categories : List Value}

/-- The suppressor of shown owners and categories. -/
theorem ofSettings_shown (howners : s.suppressedOwners = .list (owners.map shownItem))
    (hcategories : s.disabledCategories = .list (categories.map shownItem)) :
    Suppressor.ofSettings s = .ok ⟨owners.map shownKey, categories.map shownKey, 0⟩ := by
  have hlisted : ∀ items, Suppressor.listed (.list items) = .ok items := fun _ => rfl
  simp only [Suppressor.ofSettings, howners, hcategories, hlisted, mapM_key_shown, bind,
    Except.bind, pure, Except.pure]

theorem contains_map_shownKey {items : List Value} {v : Value} {k : Key} (hk : v.key? = some k) :
    (items.map shownKey).contains k = items.any fun item => (shownItem item).same v := by
  rw [Bool.eq_iff_iff, List.contains_iff_mem, List.mem_map, List.any_eq_true]
  apply exists_congr
  intro item
  apply and_congr_right
  intro _
  rw [same_shownItem hk, decide_eq_true_eq]

/-- A suppressor of shown owners and categories judges a warning by the texts that show them. -/
theorem suppresses_shown {category owner : Value} {count : Nat}
    (hcategory : category.key?.isSome = true)
    (hdisabled : (categories.any fun item => (shownItem item).same category) = false)
    (howner : owner.key?.isSome = true) (hnull : owner.isNull = false) :
    (Suppressor.mk (owners.map shownKey) (categories.map shownKey) count).suppresses category
      owner = .ok (owners.any fun item => (shownItem item).same owner) := by
  obtain ⟨k, hk⟩ := Option.isSome_iff_exists.1 hcategory
  obtain ⟨l, hl⟩ := Option.isSome_iff_exists.1 howner
  rw [← contains_map_shownKey hl]
  rw [← contains_map_shownKey hk] at hdisabled
  simp only [Suppressor.suppresses, Value.key, hk, hl, bind, Except.bind, hdisabled, hnull]
  rfl

/-- Settings that are loaded suppress exactly the owners that are equal to the text that shows one
of the owners listed. Behind the suppressor, warnings of such owners are dropped and all other ones
are forwarded unchanged, unless their category is disabled. -/
theorem load_suppresses_shown_owners (path : Text)
    (hdocument : documentValue bytes = .ok (.map entries))
    (howners : given? .suppressedOwners (knownFields entries) = some (.list owners))
    (haccepted : ofEntries entries = .ok s) :
    load path (.file bytes) = (.ok s, remarks entries) ∧
      ∃ sup, Suppressor.ofSettings s = .ok sup ∧
        ∀ (k : Collector) (count : Nat) (w : Warning), w.category.key?.isSome = true →
          ¬ s.Disables w.category → w.owner.key?.isSome = true → w.owner.isNull = false →
          ((∃ item ∈ owners, (shownItem item).same w.owner = true) →
            Sink.receive ⟨k, some { sup with dropped := count }⟩ w =
              .ok ⟨k, some { sup with dropped := count + 1 }⟩) ∧
          ((¬ ∃ item ∈ owners, (shownItem item).same w.owner = true) →
            Sink.receive ⟨k, some { sup with dropped := count }⟩ w =
              .ok ⟨k.receive w, some { sup with dropped := count }⟩) := by
  refine ⟨load_of_ofEntries hdocument haccepted, ?_⟩
  -- the owners that are kept are those given, shown as texts
  have hchecked := checked_of_ofEntries haccepted
  obtain ⟨items, categories, deprecations, hitems, -, -, rfl⟩ := checked_eq_ok hchecked
  have hgiven := get_assign standard (knownFields entries) .suppressedOwners
  rw [howners, Option.getD_some] at hgiven
  obtain rfl : items = owners := by
    have heq : Value.list items = .list owners := hitems.symm.trans hgiven
    exact Value.list.inj heq
  refine ⟨_, ofSettings_shown rfl rfl, ?_⟩
  intro k count w hcategory hdisabled howner hnull
  have hnone : (categories.any fun item => (shownItem item).same w.category) = false := by
    rw [Bool.eq_false_iff, ne_eq, List.any_eq_true]
    rintro ⟨item, hitem, hsame⟩
    exact hdisabled ⟨_, rfl, _, List.mem_map_of_mem hitem, hsame⟩
  have hjudged : (Suppressor.mk (items.map shownKey) (categories.map shownKey) count).suppresses
      w.category w.owner = .ok (items.any fun item => (shownItem item).same w.owner) :=
    suppresses_shown hcategory hnone howner hnull
  constructor
  · intro hlisted
    rw [List.any_eq_true.2 hlisted] at hjudged
    simp only [Sink.receive, hjudged]
  · intro hother
    rw [Bool.eq_false_iff.2 fun h => hother (List.any_eq_true.1 h)] at hjudged
    simp only [Sink.receive, hjudged]

/-! ## A listed truth value -/

/-- A file that lists the owner `true`. -/
def listedTrue : ByteArray :=
  Text.encode "\"suppressed_owners\": [true]\n".toList

/-- The entries of the file. -/
def listedTrueEntries : List (Value × Value) :=
  [(.text "suppressed_owners".toList, .list [.bool true])]

/-- The settings that the file describes. -/
def listedTrueSettings : Settings :=
  { standard with suppressedOwners := .list [Value.ofString "True"] }

theorem documentValue_listedTrue : documentValue listedTrue = .ok (.map listedTrueEntries) :=
  eq_ok_of_toOption (by decide +kernel)

theorem ofEntries_listedTrue : ofEntries listedTrueEntries = .ok listedTrueSettings :=
  rfl

theorem listedTrue_disables_nothing (category : Value) :
    ¬ listedTrueSettings.Disables category := by
  rintro ⟨listed, hlisted, v, hv, -⟩
  cases hlisted
  exact List.not_mem_nil hv

/-- A warning about an unused import in the scope of an owner. -/
def warningOf (owner : Value) : Warning :=
  { position := 0
    message := Value.ofString "Unused import"
    category := Value.ofString "unused-imports"
    owner
    origin := Value.ofString "a.x"
    actions := [] }

/-- The file suppresses the owner that is the text of the truth value. -/
theorem listedTrue_suppresses_text :
    ∃ sup, Suppressor.ofSettings listedTrueSettings = .ok sup ∧
      Sink.receive ⟨.unnamed, some { sup with dropped := 0 }⟩
          (warningOf (Value.ofString "True")) =
        .ok ⟨.unnamed, some { sup with dropped := 1 }⟩ := by
  obtain ⟨-, sup, hsup, hreceive⟩ := load_suppresses_shown_owners "importtrack.yml".toList
    documentValue_listedTrue rfl ofEntries_listedTrue
  have hshown : (shownItem (.bool true)).same (Value.ofString "True") = true := by
    rw [same_shownItem rfl]
    rfl
  refine ⟨sup, hsup, (hreceive .unnamed 0 (warningOf (Value.ofString "True")) rfl
    (listedTrue_disables_nothing _) rfl rfl).1 ?_⟩
  exact ⟨.bool true, List.mem_singleton_self _, hshown⟩

/-- The owner that the file lists is not suppressed. -/
theorem listedTrue_forwarded :
    load "importtrack.yml".toList (.file listedTrue) = (.ok listedTrueSettings, []) ∧
      documentValue listedTrue = .ok (.map listedTrueEntries) ∧
      (Value.bool true).same (warningOf (.bool true)).owner = true ∧
      ¬ listedTrueSettings.Disables (warningOf (.bool true)).category ∧
      ∃ sup, Suppressor.ofSettings listedTrueSettings = .ok sup ∧
        Sink.receive ⟨.unnamed, some sup⟩ (warningOf (.bool true)) =
          .ok ⟨Collector.unnamed.receive (warningOf (.bool true)), some sup⟩ := by
  refine ⟨load_of_ofEntries documentValue_listedTrue ofEntries_listedTrue,
    documentValue_listedTrue, by cbv, listedTrue_disables_nothing _, _, rfl, ?_⟩
  rfl

end UnusedImports.Settings
