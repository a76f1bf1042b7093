import UnusedImports.Proofs.Protocol.Diagnostics
import UnusedImports.Proofs.Text.Position

/-!
# Ranges stand for offsets

The range that a protocol object shows for an edit is read back by `Report.offsets?`, which needs
only the text: if the edit lies in the text, its offsets come out again
(`Report.offsets?_range`). So lines and columns are as good as offsets inside a text, and they have
the same order (`Report.positions_encode_offsets`).
-/

set_option autoImplicit false

namespace UnusedImports

namespace Report

open Schema

/-- The integer that a field of an object holds. -/
def intField? (v : Value) (name : String) : Option Int :=
  match v.field? name.toList with
  | some (.int n) => some n
  | _ => none

/-- The offsets between which a range object lies in the text `t`. -/
def offsets? (t : Text) (v : Value) : Option (Int × Int) := do
  let startLine ← intField? v "startLine"
  let startColumn ← intField? v "startCol"
  let endLine ← intField? v "endLine"
  let endColumn ← intField? v "endCol"
  return (t.offsetOf ⟨startLine.toNat, startColumn⟩, t.offsetOf ⟨endLine.toNat, endColumn⟩)

/-- The range object of the action at a place of a diagnostic object. -/
def actionRange? (v : Value) (place : Nat) : Option Value :=
  match v.field? "actions".toList with
  | some (.list items) => (items[place]?).bind fun item => item.field? "range".toList
  | _ => none

variable {t : Text}

/-- Each field of a range object holds the number of its name. -/
theorem intField?_range {r : Range} {name : String} {n : Int}
    (h : ⟨name, true, .integer 1, .int n⟩ ∈ rangeRows r ∨
      ⟨name, true, .integer 0, .int n⟩ ∈ rangeRows r) : intField? r.toValue name = some n := by
  have hnames : ((rangeRows r).map Row.name).Nodup := by
    simp [rangeRows]
  have hfield : r.toValue.field? name.toList = some (.int n) := by
    rcases h with h | h
    · exact field?_object hnames h
    · exact field?_object hnames h
  rw [intField?, hfield]

/-- The range object of two offsets in the text is read back. -/
theorem offsets?_range {e : Edit} (h : e.Within t.length) :
    offsets? t (t.range e.start e.stop).toValue = some (e.start, e.stop) := by
  obtain ⟨hnonneg, hle, hlength⟩ := h
  have hstart := Text.offsetOf_position hnonneg (Int.le_trans hle hlength)
  have hstop := Text.offsetOf_position (Int.le_trans hnonneg hle) hlength
  rw [offsets?, intField?_range (n := (t.position e.start).line) (by simp [rangeRows, Text.range]),
    intField?_range (n := (t.position e.start).column) (by simp [rangeRows, Text.range]),
    intField?_range (n := (t.position e.stop).line) (by simp [rangeRows, Text.range]),
    intField?_range (n := (t.position e.stop).column) (by simp [rangeRows, Text.range])]
  simp only [Option.bind_eq_bind, Option.bind_some, Int.toNat_natCast, hstart, hstop]
  rfl

/-- A diagnostic object shows the range of each of its edits. -/
theorem actionRange?_diagnostic {d : Diagnostic} {place : Nat} {a : CodeAction}
    (h : d.actions[place]? = some a) :
    actionRange? (d.toValue t) place = some (t.range a.edit.start a.edit.stop).toValue := by
  have hactions : (d.toValue t).field? "actions".toList =
      some (.list (d.actions.map (CodeAction.toValue t))) := by
    have hnames : ((diagnosticRows t d).map Row.name).Nodup := by
      simp [diagnosticRows]
    have hmem : ⟨"actions", true, .array actionSchema,
        .list (d.actions.map (CodeAction.toValue t))⟩ ∈ diagnosticRows t d := by
      simp [diagnosticRows]
    exact field?_object hnames hmem
  have hrange : (a.toValue t).field? "range".toList =
      some (t.range a.edit.start a.edit.stop).toValue := by
    have hnames : ((actionRows t a).map Row.name).Nodup := by
      simp [actionRows]
    have hmem : ⟨"range", true, rangeSchema, (t.range a.edit.start a.edit.stop).toValue⟩ ∈
        actionRows t a := by
      simp [actionRows]
    exact field?_object hnames hmem
  rw [actionRange?, hactions]
  simp only [List.getElem?_map, h, Option.map_some, Option.bind_some, hrange]

/-- Lines and columns are faithful to offsets: the line of an offset is one of the lines of the
text, the column lies in it, and where the line starts the offset is as many characters away as the
column says; later offsets have later places, and all offsets beyond the end have the place of the
end. So the range that a diagnostic object shows for an edit in the text determines the edit's
offsets. -/
theorem positions_encode_offsets (t : Text) :
    (∀ a : Int, 0 ≤ a → a ≤ t.length →
      (1 ≤ (t.position a).line ∧ (t.position a).line ≤ 1 + t.count '\n') ∧
      (0 ≤ (t.position a).column ∧ ∃ row, t.rows[(t.position a).line - 1]? = some row ∧
        (t.position a).column ≤ row.length) ∧
      t.lineStart (t.position a).line + (t.position a).column = a) ∧
    (∀ a b : Int, 0 ≤ a → a < b → b ≤ t.length → (t.position a).Before (t.position b)) ∧
    (∀ a : Int, t.length ≤ a → t.position a = t.position t.length) ∧
    ∀ (d : Diagnostic) (place : Nat) (action : CodeAction), d.actions[place]? = some action →
      action.edit.Within t.length →
        (actionRange? (d.toValue t) place).bind (offsets? t) =
          some (action.edit.start, action.edit.stop) := by
  refine ⟨?_, ?_, ?_, ?_⟩
  · intro a hnonneg hle
    have hline := Text.line_position_le hnonneg hle
    refine ⟨⟨?_, ?_⟩, ⟨column_nonneg hnonneg, Text.column_le_length hnonneg hle⟩, ?_⟩
    · exact Nat.le_add_left 1 _
    · rwa [Nat.add_comm]
    · exact Text.offsetOf_position hnonneg hle
  · intro a b hnonneg hlt hle
    exact Text.before_position hnonneg hlt hle
  · intro a hle
    exact Text.position_of_length_le hle
  · intro d place action haction hin
    rw [actionRange?_diagnostic haction, Option.bind_some, offsets?_range hin]

/-! ## An edit across two lines -/

/-- A text of two lines. -/
def twoLines : Text :=
  "ab\ncd\n".toList

/-- An edit from the first line into the second one. -/
def acrossLines : CodeAction :=
  { title := "unused import".toList
    description := "remove import".toList
    edit := ⟨1, 4, []⟩ }

/-- A diagnostic that proposes the edit. -/
def acrossDiagnostic : Diagnostic :=
  { position := 1
    message := Value.ofString "Unused import"
    category := Value.ofString "unused-imports"
    owner := .null
    origin := Value.ofString "a.x"
    actions := [acrossLines]
    file := Value.ofString "A.scala" }

/-- The offset four is in the second line, the line feed in front of it belongs to the first line,
all offsets beyond the end are in the third line, and the edit is read back from its range. -/
theorem acrossLines_range :
    (0 ≤ (4 : Int) ∧ (4 : Int) ≤ twoLines.length ∧ twoLines.position 4 = ⟨2, 1⟩ ∧
      twoLines.lineStart (twoLines.position 4).line + (twoLines.position 4).column = 4) ∧
    (twoLines.position 2).Before (twoLines.position 3) ∧
    (twoLines.position 100 = twoLines.position twoLines.length ∧
      twoLines.position twoLines.length = ⟨3, 0⟩) ∧
    acrossLines.edit.Within twoLines.length ∧
    (actionRange? (acrossDiagnostic.toValue twoLines) 0).bind (offsets? twoLines) =
      some (1, 4) := by
  obtain ⟨hplace, hbefore, hbeyond, hrange⟩ := positions_encode_offsets twoLines
  have hin : acrossLines.edit.Within twoLines.length := by decide
  refine ⟨⟨by decide, by decide, by decide, (hplace 4 (by decide) (by decide)).2.2⟩, ?_,
    ⟨?_, by decide⟩, hin, ?_⟩
  · exact hbefore 2 3 (by decide) (by decide) (by decide)
  · exact hbeyond 100 (by decide)
  · exact hrange acrossDiagnostic 0 acrossLines rfl hin

end Report

end UnusedImports
