import UnusedImports.Proofs.Protocol.Conformance

/-!
# Diagnostics that the protocol admits

The protocol admits a diagnostic exactly if its file, its message, its category and its origin are
texts (`Diagnostic.Worded`) and none of its offsets is negative (`Diagnostic.Placed`), neither the
place of the warning nor an end of an edit. Lines and columns need no condition of their own: those
of an offset that is not negative are not too small either (`Report.admits_range`).
-/

set_option autoImplicit false

namespace UnusedImports

/-- Neither end of the edit is negative. -/
def Edit.Placed (e : Edit) : Prop :=
  0 ≤ e.start ∧ 0 ≤ e.stop

namespace Diagnostic

/-- What the diagnostic says is said in texts. -/
structure Worded (d : Diagnostic) : Prop where
  file : d.file.isString = true
  message : d.message.isString = true
  category : d.category.isString = true
  origin : d.origin.isString = true

/-- No offset of the diagnostic is negative. -/
structure Placed (d : Diagnostic) : Prop where
  position : 0 ≤ d.position
  edits : ∀ a ∈ d.actions, a.edit.Placed

end Diagnostic

namespace Report

open Schema

variable {t : Text}

theorem column_nonneg {offset : Int} (h : 0 ≤ offset) : 0 ≤ (t.position offset).column := by
  have hreach : t.reach (min offset t.length) = (min offset t.length).toNat := by
    rw [Text.reach, if_neg (by omega)]
    omega
  have hlength : (t.before (min offset t.length)).length = (min offset t.length).toNat := by
    rw [Text.before, hreach, List.length_take]
    omega
  simp only [Text.position, hlength]
  omega

theorem admits_text {v : Text} : Schema.text.Admits (.text v) := by
  rw [Admits]
  rfl

theorem admits_integer_iff {minimum n : Int} :
    (Schema.integer minimum).Admits (.int n) ↔ minimum ≤ n := by
  simp [Admits, integral?]

/-- An owner is admitted, whatever it is, since it is spelled as it is shown. -/
theorem admits_owner (owner : Value) : Schema.textOrNull.Admits (spelledOwner owner) := by
  rw [Admits, spelledOwner]
  split
  · exact Or.inr rfl
  · rw [Value.ofPoints]
    split <;> exact Or.inl rfl

/-! ## Ranges, actions and diagnostics -/

/-- The fields of a range. -/
def rangeRows (r : Range) : List Row :=
  [⟨"startLine", true, .integer 1, .int r.start.line⟩,
    ⟨"startCol", true, .integer 0, .int r.start.column⟩,
    ⟨"endLine", true, .integer 1, .int r.stop.line⟩,
    ⟨"endCol", true, .integer 0, .int r.stop.column⟩]

/-- The fields of an action on the text `t`. -/
def actionRows (t : Text) (a : CodeAction) : List Row :=
  [⟨"title", true, .text, .text a.title⟩, ⟨"description", true, .text, .text a.description⟩,
    ⟨"start", true, .integer 0, .int a.edit.start⟩, ⟨"end", true, .integer 0, .int a.edit.stop⟩,
    ⟨"replacement", true, .text, .text a.edit.replacement⟩,
    ⟨"range", true, rangeSchema, (t.range a.edit.start a.edit.stop).toValue⟩]

/-- The fields of a diagnostic about the text `t`. -/
def diagnosticRows (t : Text) (d : Diagnostic) : List Row :=
  [⟨"file", true, .text, d.file⟩, ⟨"position", true, .integer 0, .int d.position⟩,
    ⟨"range", true, rangeSchema, (t.range d.position d.position).toValue⟩,
    ⟨"message", true, .text, d.message⟩, ⟨"category", true, .text, d.category⟩,
    ⟨"owner", false, .textOrNull, spelledOwner d.owner⟩, ⟨"origin", true, .text, d.origin⟩,
    ⟨"actions", true, .array actionSchema, .list (d.actions.map (CodeAction.toValue t))⟩]

/-- A range of offsets that are not negative is admitted. -/
theorem admits_range {start stop : Int} (hstart : 0 ≤ start) (hstop : 0 ≤ stop) :
    rangeSchema.Admits (t.range start stop).toValue := by
  have hnames : ((rangeRows (t.range start stop)).map Row.name).Nodup := by
    simp [rangeRows]
  have hline : ∀ offset, 1 ≤ ((t.position offset).line : Int) := by
    intro offset
    simp only [Text.position]
    omega
  refine (admits_object_iff hnames).2 ?_
  simp only [rangeRows, List.forall_mem_cons, admits_integer_iff]
  exact ⟨hline start, column_nonneg hstart, hline stop, column_nonneg hstop,
    fun r hr => absurd hr List.not_mem_nil⟩

theorem admits_action_iff {a : CodeAction} :
    actionSchema.Admits (a.toValue t) ↔ a.edit.Placed := by
  have hnames : ((actionRows t a).map Row.name).Nodup := by
    simp [actionRows]
  refine (admits_object_iff hnames).trans ?_
  simp only [actionRows, List.forall_mem_cons, admits_integer_iff, admits_text, true_and]
  constructor
  · intro h
    exact ⟨h.1, h.2.1⟩
  · intro h
    exact ⟨h.1, h.2, admits_range h.1 h.2, fun r hr => absurd hr List.not_mem_nil⟩

/-- The protocol admits a diagnostic exactly if it is said in texts and has no negative offset. -/
theorem admits_diagnostic_iff {d : Diagnostic} :
    diagnosticSchema.Admits (d.toValue t) ↔ d.Worded ∧ d.Placed := by
  have hnames : ((diagnosticRows t d).map Row.name).Nodup := by
    simp [diagnosticRows]
  have hactions : (Schema.array actionSchema).Admits
      (.list (d.actions.map (CodeAction.toValue t))) ↔ ∀ a ∈ d.actions, a.edit.Placed := by
    rw [Admits]
    simp only [Value.list.injEq, exists_eq_left', List.forall_mem_map, admits_action_iff]
  have hstring : ∀ v, Schema.text.Admits v ↔ v.isString = true := fun v => by rw [Admits]
  refine (admits_object_iff hnames).trans ?_
  simp only [diagnosticRows, List.forall_mem_cons, admits_integer_iff, hstring, hactions,
    admits_owner, true_and]
  constructor
  · rintro ⟨hfile, hposition, -, hmessage, hcategory, horigin, hedits, -⟩
    exact ⟨⟨hfile, hmessage, hcategory, horigin⟩, hposition, hedits⟩
  · rintro ⟨hworded, hplaced⟩
    exact ⟨hworded.file, hplaced.position, admits_range hplaced.position hplaced.position,
      hworded.message, hworded.category, hworded.origin, hplaced.edits,
      fun r hr => absurd hr List.not_mem_nil⟩

/-- The report of some diagnostics has no errors exactly if the protocol admits each of them. -/
theorem errors_items_eq_nil_iff {ds : List Diagnostic} :
    errors (items t ds) = [] ↔ ∀ d ∈ ds, d.Worded ∧ d.Placed := by
  rw [errors_eq_nil_iff, items, List.forall_mem_map]
  exact forall_congr' fun d => forall_congr' fun _ => admits_diagnostic_iff

end Report

end UnusedImports
