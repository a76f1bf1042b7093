import UnusedImports.Report

/-!
# What a schema admits

`Schema.Admits` says which values a schema allows, by recursion on the schema and without paths or
messages. Nothing is wrong with a value exactly if it is admitted
(`Schema.violationsAt_eq_nil_iff`), so a report has no errors exactly if all its items are admitted
(`Report.errors_eq_nil_iff`).

An object that has exactly the fields of its schema is admitted if the value of each field is
(`Schema.admits_object_iff`).
-/

set_option autoImplicit false

namespace UnusedImports

/-- The value is a text. -/
def Value.isString : Value → Bool
  | .text _ => true
  | .points _ => true
  | _ => false

/-- A statement about the items of a list does not depend on their places. -/
theorem forall_mem_zipIdx_iff {α : Type} {l : List α} {P : α → Prop} :
    (∀ a i, (a, i) ∈ l.zipIdx → P a) ↔ ∀ a ∈ l, P a := by
  constructor
  · intro h a ha
    obtain ⟨i, hi⟩ := List.mem_iff_getElem?.1 ha
    exact h a i (List.mk_mem_zipIdx_iff_getElem?.2 hi)
  · intro h a i hi
    exact h a (List.fst_mem_of_mem_zipIdx hi)

namespace Schema

variable {fields : List (Text × Bool × Schema)} {path : List Step} {v : Value}

mutual

/-- The values that a schema admits. -/
def Admits : Schema → Value → Prop
  | .text, v => v.isString = true
  | .textOrNull, v => v.isString = true ∨ v = .null
  | .integer minimum, v => ∃ n, integral? v = some n ∧ minimum ≤ n
  | .array items, v => ∃ vs, v = .list vs ∧ ∀ w ∈ vs, items.Admits w
  | .object fields, v =>
    ∃ entries, v = .map entries ∧ AdmitsFields fields v ∧
      ∀ e ∈ entries, e.1.shown ∈ fieldNames fields

/-- Every field has a value that its schema admits, or may be missing and is. -/
def AdmitsFields : List (Text × Bool × Schema) → Value → Prop
  | [], _ => True
  | (name, needed, s) :: fields, v =>
    (match v.field? name with
      | some w => s.Admits w
      | none => needed = false) ∧
      AdmitsFields fields v

end

/-! ## Faults -/

theorem kindFaults_eq_nil_iff {s : Schema} :
    kindFaults s path v = [] ↔ s.kindFits v = true := by
  rw [kindFaults]
  split <;> simp_all

theorem kindFits_text_iff : kindFits .text v = true ↔ v.isString = true := by
  cases v <;> simp [kindFits, Value.isString]

theorem kindFits_textOrNull_iff :
    kindFits .textOrNull v = true ↔ v.isString = true ∨ v = .null := by
  cases v <;> simp [kindFits, Value.isString]

theorem integerFaults_eq_nil_iff {minimum : Int} :
    kindFaults (.integer minimum) path v ++ minimumFaults minimum path v = [] ↔
      ∃ n, integral? v = some n ∧ minimum ≤ n := by
  rw [List.append_eq_nil_iff, kindFaults_eq_nil_iff, kindFits, minimumFaults]
  cases integral? v with
  | none => simp
  | some n =>
    by_cases hn : n < minimum
    · simp [hn]
    · simpa [hn] using Int.not_lt.1 hn

theorem missingFaults_cons (f : Text × Bool × Schema) :
    missingFaults (f :: fields) path v =
      (if f.2.1 && (v.field? f.1).isNone then [⟨path, .missing f.1⟩] else []) ++
        missingFaults fields path v := by
  rw [missingFaults, List.filter_cons]
  split <;> rfl

theorem unexpectedFaults_eq_nil_iff {entries : List (Value × Value)} :
    unexpectedFaults fields path entries = [] ↔
      ∀ e ∈ entries, e.1.shown ∈ fieldNames fields := by
  have hnames : unexpectedNames fields entries = [] ↔
      ∀ e ∈ entries, e.1.shown ∈ fieldNames fields := by
    rw [unexpectedNames, ← List.length_eq_zero_iff, List.length_mergeSort,
      List.length_eq_zero_iff, List.filter_eq_nil_iff, List.forall_mem_map]
    simp
  rw [← hnames, unexpectedFaults]
  split <;> simp_all

mutual

/-- Nothing is wrong with a value exactly if it is admitted. -/
theorem violationsAt_eq_nil_iff : (s : Schema) → (path : List Step) → (v : Value) →
    (s.violationsAt path v = [] ↔ s.Admits v)
  | .text, path, v => by
    rw [violationsAt, Admits, kindFaults_eq_nil_iff, kindFits_text_iff]
  | .textOrNull, path, v => by
    rw [violationsAt, Admits, kindFaults_eq_nil_iff, kindFits_textOrNull_iff]
  | .integer minimum, path, v => by
    rw [violationsAt, Admits, integerFaults_eq_nil_iff]
  | .array items, path, v => by
    rw [Admits]
    cases v with
    | list vs =>
      have hitems : ∀ (w : Value) (i : Nat),
          items.violationsAt (path ++ [.item i]) w = [] ↔ items.Admits w := by
        intro w i
        exact violationsAt_eq_nil_iff items (path ++ [.item i]) w
      simp only [violationsAt, List.flatMap_eq_nil_iff, Prod.forall, hitems,
        forall_mem_zipIdx_iff]
      simp only [Value.list.injEq, exists_eq_left']
    | _ => simp [violationsAt, kindFaults_eq_nil_iff, kindFits]
  | .object fields, path, v => by
    rw [Admits]
    cases v with
    | map entries =>
      rw [violationsAt, List.append_eq_nil_iff, fieldFaults_eq_nil_iff fields path (.map entries),
        unexpectedFaults_eq_nil_iff]
      simp
    | _ => simp [violationsAt, kindFaults_eq_nil_iff, kindFits]

/-- Nothing is wrong with the fields of a value, and none is missing, exactly if they are
admitted. -/
theorem fieldFaults_eq_nil_iff : (fields : List (Text × Bool × Schema)) → (path : List Step) →
    (v : Value) → (fieldViolations fields path v ++ missingFaults fields path v = [] ↔
      AdmitsFields fields v)
  | [], path, v => by
    simp [fieldViolations, missingFaults, AdmitsFields]
  | (name, needed, s) :: fields, path, v => by
    have hrest := fieldFaults_eq_nil_iff fields path v
    rw [AdmitsFields, ← hrest, fieldViolations, missingFaults_cons]
    simp only [List.append_eq_nil_iff]
    cases hv : v.field? name with
    | none => cases needed <;> simp
    | some w =>
      have hw := violationsAt_eq_nil_iff s (path ++ [.field name]) w
      simp [hw, and_assoc]

end

/-- A schema has no complaint about a value exactly if it admits the value. -/
theorem complaint?_eq_none_iff {s : Schema} : s.complaint? v = none ↔ s.Admits v := by
  rw [← violationsAt_eq_nil_iff s [] v, complaint?, Option.map_eq_none_iff, violations]
  cases s.violationsAt [] v with
  | nil => simp [chosen?]
  | cons w ws => simp [chosen?]

/-! ## Objects with the fields of their schema -/

/-- A field of an object, with its schema and its value. -/
structure Row where
  name : String
  needed : Bool
  schema : Schema
  value : Value

/-- The field in a schema. -/
def Row.rule (r : Row) : Text × Bool × Schema :=
  (r.name.toList, r.needed, r.schema)

/-- The field in an object. -/
def Row.entry (r : Row) : String × Value :=
  (r.name, r.value)

/-- The value of a field of an object whose fields have different names. -/
theorem field?_object {rows : List Row} (hnames : (rows.map Row.name).Nodup) {r : Row}
    (hr : r ∈ rows) : (Value.object (rows.map Row.entry)).field? r.name.toList = some r.value := by
  induction rows with
  | nil => exact absurd hr List.not_mem_nil
  | cons head rest ih =>
    rw [List.map_cons, List.nodup_cons] at hnames
    rcases List.mem_cons.1 hr with rfl | hr
    · simp [Value.object, Value.field?, Value.lookup?, Value.ofString, Row.entry]
    · have hne : head.name.toList ≠ r.name.toList := by
        intro heq
        rw [String.toList_inj] at heq
        exact hnames.1 (heq ▸ List.mem_map_of_mem hr)
      have hrest := ih hnames.2 hr
      simp only [Value.object, Value.field?, List.map_cons] at hrest ⊢
      rw [Row.entry, Value.ofString, Value.lookup?, if_neg hne]
      exact hrest

theorem admitsFields_iff {rules : List (Text × Bool × Schema)} :
    AdmitsFields rules v ↔ ∀ f ∈ rules,
      match v.field? f.1 with
        | some w => f.2.2.Admits w
        | none => f.2.1 = false := by
  induction rules with
  | nil => simp [AdmitsFields]
  | cons f rest ih => rw [AdmitsFields, ih, List.forall_mem_cons]

/-- An object with exactly the fields of a schema is admitted if their values are. -/
theorem admits_object_iff {rows : List Row} (hnames : (rows.map Row.name).Nodup) :
    Admits (.object (rows.map Row.rule)) (.object (rows.map Row.entry)) ↔
      ∀ r ∈ rows, r.schema.Admits r.value := by
  have hknown : ∀ e ∈ (rows.map Row.entry).map fun f => (Value.ofString f.1, f.2),
      e.1.shown ∈ fieldNames (rows.map Row.rule) := by
    simp only [List.forall_mem_map]
    intro r hr
    exact List.mem_map_of_mem (f := Prod.fst) (List.mem_map_of_mem hr)
  rw [Admits, Value.object]
  simp only [Value.map.injEq, exists_eq_left', and_iff_left hknown]
  rw [← Value.object, admitsFields_iff, List.forall_mem_map]
  apply forall_congr'
  intro r
  apply forall_congr'
  intro hr
  -- each field is found under its own name, so none is missing
  rw [Row.rule, field?_object hnames hr]

end Schema

/-- A report has no errors exactly if all its items are diagnostics of the protocol. -/
theorem Report.errors_eq_nil_iff {items : List Value} :
    errors items = [] ↔ ∀ v ∈ items, diagnosticSchema.Admits v := by
  simp only [errors, List.filterMap_eq_nil_iff, Prod.forall, Option.map_eq_none_iff,
    Schema.complaint?_eq_none_iff, forall_mem_zipIdx_iff]

end UnusedImports
