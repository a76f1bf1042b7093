import UnusedImports.Proofs.Number.Integer
import UnusedImports.Proofs.Protocol.Messages
import UnusedImports.Proofs.Value.Writing

/-!
# The format of protocol objects

`Report.IsDiagnostic` describes the objects of the protocol field by field, with ranges
(`Report.IsRange`) and actions (`Report.IsAction`) inside them. It knows nothing of schemas; an
integral number is one whose rational value is an integer, however it is written.

A value in the notation of the protocol (`Value.IsJson`) is admitted by the schema of diagnostics
exactly if it has this format (`Report.admits_iff_isDiagnostic`). So checking a list of such values
gives exactly one message for each value of another format, under the number of its place
(`Report.errors_number_other_formats`). Values whose numbers are short enough to be written are
always checked (`Report.validate_eq_ok`).
-/

set_option autoImplicit false

namespace UnusedImports

namespace Value

/-! ## Values in the notation of the protocol -/

/-- The value can be written in the notation of the protocol: the keys of its mappings are texts,
and it has no bytes, stamps, sets or pairs in it. Code points that all are characters are a
text. -/
inductive IsJson : Value → Prop where
  | null : IsJson .null
  | bool (b : Bool) : IsJson (.bool b)
  | int (n : Int) : IsJson (.int n)
  | float (x : Binary64) : IsJson (.float x)
  | text (t : Text) : IsJson (.text t)
  | points (ps : Points) : ps.text? = none → IsJson (.points ps)
  | list (items : List Value) : (∀ v ∈ items, IsJson v) → IsJson (.list items)
  | map (entries : List (Value × Value)) :
      (∀ e ∈ entries, e.1.isString = true) → (∀ e ∈ entries, IsJson e.1) →
      (∀ e ∈ entries, IsJson e.2) → IsJson (.map entries)

variable {v w : Value} {names : List String} {name : String}

/-- What a mapping holds is written in the notation that it is written in itself. -/
theorem IsJson.field {key : Text} (hv : v.IsJson) (h : v.field? key = some w) : w.IsJson := by
  cases hv with
  | map entries _ _ hvalues => exact hvalues _ (mem_of_lookup?_eq_some h)
  | _ => cases h

/-! ## Shapes of values -/

/-- The rational number that a number is; a truth value is not a number. -/
def rational? : Value → Option ℚ
  | .int n => some n
  | .float x => x.rational?
  | _ => none

/-- The value is a number that is integral and not less than `minimum`. -/
def IsWhole (minimum : Int) (v : Value) : Prop :=
  ∃ n : Int, v.rational? = some (n : ℚ) ∧ minimum ≤ n

/-- The value is a mapping that has no other keys than the names given. -/
def IsObjectOf (names : List String) (v : Value) : Prop :=
  ∃ entries, v = .map entries ∧ ∀ e ∈ entries, ∃ name ∈ names, e.1 = ofString name

/-- The value is a mapping with a key, under which a value with the property stands. -/
def Holds (name : String) (P : Value → Prop) (v : Value) : Prop :=
  ∃ w, v.field? name.toList = some w ∧ P w

end Value

namespace Report

open Schema Value

variable {v w : Value} {names : List String} {name : String}

/-! ## The format -/

/-- A range: lines count from one and columns from zero. -/
structure IsRange (v : Value) : Prop where
  fields : v.IsObjectOf ["startLine", "startCol", "endLine", "endCol"]
  startLine : v.Holds "startLine" (IsWhole 1)
  startCol : v.Holds "startCol" (IsWhole 0)
  endLine : v.Holds "endLine" (IsWhole 1)
  endCol : v.Holds "endCol" (IsWhole 0)

/-- An action with the stretch that it replaces. -/
structure IsAction (v : Value) : Prop where
  fields : v.IsObjectOf ["title", "description", "start", "end", "replacement", "range"]
  title : v.Holds "title" fun w => w.isString = true
  description : v.Holds "description" fun w => w.isString = true
  start : v.Holds "start" (IsWhole 0)
  stop : v.Holds "end" (IsWhole 0)
  replacement : v.Holds "replacement" fun w => w.isString = true
  range : v.Holds "range" IsRange

/-- A diagnostic. Its owner may be missing, and null if it is there. -/
structure IsDiagnostic (v : Value) : Prop where
  fields : v.IsObjectOf
    ["file", "position", "range", "message", "category", "owner", "origin", "actions"]
  file : v.Holds "file" fun w => w.isString = true
  position : v.Holds "position" (IsWhole 0)
  range : v.Holds "range" IsRange
  message : v.Holds "message" fun w => w.isString = true
  category : v.Holds "category" fun w => w.isString = true
  owner : ∀ w, v.field? "owner".toList = some w → w.isString = true ∨ w = .null
  origin : v.Holds "origin" fun w => w.isString = true
  actions : v.Holds "actions" fun w => ∃ items, w = .list items ∧ ∀ a ∈ items, IsAction a

/-! ## Numbers and keys -/

theorem admits_integer_iff_isWhole {minimum : Int} :
    (Schema.integer minimum).Admits v ↔ v.IsWhole minimum := by
  have hvalue : ∀ n : Int, integral? v = some n ↔ v.rational? = some (n : ℚ) := by
    intro n
    cases v with
    | int m => simp [integral?, Value.rational?]
    | float x => exact Binary64.integer?_eq_some_iff
    | _ => simp [integral?, Value.rational?]
  rw [Admits, IsWhole]
  simp only [hvalue]

/-- Code points that are not all characters show a mark for what cannot be shown. -/
theorem mem_readable_of_text?_eq_none {ps : Points} (h : ps.text? = none) :
    '\ufffd' ∈ ps.readable := by
  induction ps with
  | nil => cases h
  | cons n rest ih =>
    rw [Points.readable, List.map_cons, List.mem_cons]
    cases hn : Points.char? n with
    | none => exact Or.inl rfl
    | some c =>
      apply Or.inr
      apply ih
      rw [Points.text?, List.mapM_cons, hn] at h
      rw [Points.text?]
      cases hrest : rest.mapM Points.char? with
      | none => rfl
      | some t => simp [hrest] at h

/-- A key that shows the name of a field is that name. -/
theorem shown_mem_iff {key : Value} (hstring : key.isString = true) (hkey : key.IsJson)
    (hnames : ∀ name ∈ names, '\ufffd' ∉ name.toList) :
    key.shown ∈ names.map String.toList ↔ ∃ name ∈ names, key = ofString name := by
  rw [List.mem_map]
  apply exists_congr
  intro name
  apply and_congr_right
  intro hname
  cases hkey with
  | text t =>
    rw [Value.shown, ofString, Value.text.injEq]
    exact eq_comm
  | points ps hps =>
    -- the marks in what is shown are in no name
    have hne : name.toList ≠ ps.readable := by
      intro heq
      exact hnames name hname (heq ▸ mem_readable_of_text?_eq_none hps)
    simp [Value.shown, ofString, hne]
  | _ => cases hstring

/-! ## Objects -/

/-- A field of a schema admits what is found under its name. -/
def FieldAdmits (f : Text × Bool × Schema) (v : Value) : Prop :=
  match v.field? f.1 with
  | some w => f.2.2.Admits w
  | none => f.2.1 = false

theorem fieldAdmits_required_iff {s : Schema} {P : Value → Prop} (hv : v.IsJson)
    (h : ∀ w : Value, w.IsJson → (s.Admits w ↔ P w)) :
    FieldAdmits (required name s) v ↔ v.Holds name P := by
  rw [FieldAdmits, required, Holds]
  cases hfield : v.field? name.toList with
  | none => simp
  | some w => simpa using h w (hv.field hfield)

/-- An object schema admits the mappings that have no other fields and whose fields it admits. -/
theorem admits_object_iff_fields (names : List String) {fields : List (Text × Bool × Schema)}
    (hv : v.IsJson)
    (hfields : fieldNames fields = names.map String.toList)
    (hnames : ∀ name ∈ names, '\ufffd' ∉ name.toList) :
    (Schema.object fields).Admits v ↔ v.IsObjectOf names ∧ ∀ f ∈ fields, FieldAdmits f v := by
  rw [Admits, IsObjectOf, hfields]
  constructor
  · rintro ⟨entries, rfl, hadmits, hkeys⟩
    cases hv with
    | map _ hstrings hjson =>
      refine ⟨⟨entries, rfl, ?_⟩, admitsFields_iff.1 hadmits⟩
      intro e he
      exact (shown_mem_iff (hstrings e he) (hjson e he) hnames).1 (hkeys e he)
  · rintro ⟨⟨entries, rfl, hkeys⟩, hadmits⟩
    cases hv with
    | map _ hstrings hjson =>
      refine ⟨entries, rfl, admitsFields_iff.2 hadmits, ?_⟩
      intro e he
      exact (shown_mem_iff (hstrings e he) (hjson e he) hnames).2 (hkeys e he)

theorem admits_text_iff : Schema.text.Admits v ↔ v.isString = true := by
  rw [Admits]

theorem admits_range_iff (hv : v.IsJson) : rangeSchema.Admits v ↔ IsRange v := by
  have hinteger : ∀ minimum w, w.IsJson →
      ((Schema.integer minimum).Admits w ↔ IsWhole minimum w) :=
    fun _ _ _ => admits_integer_iff_isWhole
  rw [rangeSchema, admits_object_iff_fields ["startLine", "startCol", "endLine", "endCol"] hv rfl
    (by decide)]
  simp only [List.forall_mem_cons, fieldAdmits_required_iff hv (hinteger _)]
  constructor
  · rintro ⟨hfields, hstartLine, hstartCol, hendLine, hendCol, -⟩
    exact ⟨hfields, hstartLine, hstartCol, hendLine, hendCol⟩
  · intro h
    exact ⟨h.fields, h.startLine, h.startCol, h.endLine, h.endCol,
      fun f hf => absurd hf List.not_mem_nil⟩

theorem admits_action_iff_isAction (hv : v.IsJson) : actionSchema.Admits v ↔ IsAction v := by
  have hinteger : ∀ w, w.IsJson → ((Schema.integer 0).Admits w ↔ IsWhole 0 w) :=
    fun _ _ => admits_integer_iff_isWhole
  have htext : ∀ w, w.IsJson → (Schema.text.Admits w ↔ w.isString = true) :=
    fun _ _ => admits_text_iff
  have hrange : ∀ w, w.IsJson → (rangeSchema.Admits w ↔ IsRange w) :=
    fun _ hw => admits_range_iff hw
  rw [actionSchema, admits_object_iff_fields
    ["title", "description", "start", "end", "replacement", "range"] hv rfl (by decide)]
  simp only [List.forall_mem_cons, fieldAdmits_required_iff hv hinteger,
    fieldAdmits_required_iff hv htext, fieldAdmits_required_iff hv hrange]
  constructor
  · rintro ⟨hfields, htitle, hdescription, hstart, hstop, hreplacement, hrange, -⟩
    exact ⟨hfields, htitle, hdescription, hstart, hstop, hreplacement, hrange⟩
  · intro h
    exact ⟨h.fields, h.title, h.description, h.start, h.stop, h.replacement, h.range,
      fun f hf => absurd hf List.not_mem_nil⟩

/-- A field that may be missing is admitted if it is. -/
theorem fieldAdmits_owner_iff :
    FieldAdmits ("owner".toList, false, .textOrNull) v ↔
      ∀ w, v.field? "owner".toList = some w → w.isString = true ∨ w = .null := by
  rw [FieldAdmits]
  cases v.field? "owner".toList with
  | none => simp
  | some w => simp [Admits]

/-- The schema of diagnostics admits exactly the values that have the format. -/
theorem admits_iff_isDiagnostic (hv : v.IsJson) : diagnosticSchema.Admits v ↔ IsDiagnostic v := by
  have hinteger : ∀ w, w.IsJson → ((Schema.integer 0).Admits w ↔ IsWhole 0 w) :=
    fun _ _ => admits_integer_iff_isWhole
  have htext : ∀ w, w.IsJson → (Schema.text.Admits w ↔ w.isString = true) :=
    fun _ _ => admits_text_iff
  have hrange : ∀ w, w.IsJson → (rangeSchema.Admits w ↔ IsRange w) :=
    fun _ hw => admits_range_iff hw
  have hactions : ∀ w, w.IsJson → ((Schema.array actionSchema).Admits w ↔
      ∃ items, w = .list items ∧ ∀ a ∈ items, IsAction a) := by
    intro w hw
    rw [Admits]
    apply exists_congr
    intro items
    apply and_congr_right
    rintro rfl
    cases hw with
    | list _ hitems => exact forall₂_congr fun a ha => admits_action_iff_isAction (hitems a ha)
  rw [diagnosticSchema, admits_object_iff_fields
    ["file", "position", "range", "message", "category", "owner", "origin", "actions"] hv rfl
    (by decide)]
  simp only [List.forall_mem_cons, fieldAdmits_required_iff hv hinteger,
    fieldAdmits_required_iff hv htext, fieldAdmits_required_iff hv hrange,
    fieldAdmits_required_iff hv hactions, fieldAdmits_owner_iff]
  constructor
  · rintro ⟨hfields, hfile, hposition, hrange, hmessage, hcategory, howner, horigin, hactions, -⟩
    exact ⟨hfields, hfile, hposition, hrange, hmessage, hcategory, howner, horigin, hactions⟩
  · intro h
    exact ⟨h.fields, h.file, h.position, h.range, h.message, h.category, h.owner, h.origin,
      h.actions, fun f hf => absurd hf List.not_mem_nil⟩

/-- Checking values in the notation of the protocol gives exactly one message for each of them that
has not the format of diagnostics, in their order and under the number of its place. -/
theorem errors_number_other_formats (items : List Value) (hitems : ∀ v ∈ items, v.IsJson) :
    NumbersFaulty items (fun v => ¬ IsDiagnostic v) WordsFault (errors items) := by
  refine (numbersFaulty_errors items).imp ?_ fun v complaint h => h
  intro v hv
  exact not_congr (admits_iff_isDiagnostic (hitems v hv))

/-! ## Spellings of a number -/

theorem isJson_object {fields : List (String × Value)} (h : ∀ f ∈ fields, f.2.IsJson) :
    (Value.object fields).IsJson := by
  apply IsJson.map
  · rw [List.forall_mem_map]
    exact fun f _ => rfl
  · rw [List.forall_mem_map]
    exact fun f _ => IsJson.text _
  · rw [List.forall_mem_map]
    exact h

/-- The number `3.0`. -/
def three : Binary64 :=
  .finite false (3 * Nat.pow 2 51) (-51)

/-- A diagnostic object without an owner and with this position. -/
def placedAt (position : Value) : Value :=
  .object
    [("file", ofString "A.scala"), ("position", position),
      ("range", (Text.range [] 0 0).toValue), ("message", ofString "Unused import"),
      ("category", ofString "unused-imports"), ("origin", ofString "a.x"), ("actions", .list [])]

theorem isJson_placedAt {position : Value} (h : position.IsJson) : (placedAt position).IsJson := by
  have hrange : (Text.range [] 0 0).toValue.IsJson := by
    apply isJson_object
    simp only [List.forall_mem_cons]
    exact ⟨.int _, .int _, .int _, .int _, fun f hf => absurd hf List.not_mem_nil⟩
  apply isJson_object
  simp only [List.forall_mem_cons]
  exact ⟨.text _, h, hrange, .text _, .text _, .text _,
    .list [] fun v hv => absurd hv List.not_mem_nil, fun f hf => absurd hf List.not_mem_nil⟩

/-- The position three may be written as `3.0`, and a truth value is no position. -/
theorem placedAt_numbered :
    (∀ v ∈ [placedAt (.float three), placedAt (.bool true)], v.IsJson) ∧
      IsDiagnostic (placedAt (.float three)) ∧
      ¬ IsDiagnostic (placedAt (.bool true)) ∧
      NumbersFaulty [placedAt (.float three), placedAt (.bool true)]
        (fun v => ¬ IsDiagnostic v) WordsFault
        (errors [placedAt (.float three), placedAt (.bool true)]) := by
  have hfloat : (placedAt (.float three)).IsJson := isJson_placedAt (.float _)
  have hbool : (placedAt (.bool true)).IsJson := isJson_placedAt (.bool true)
  have hitems : ∀ v ∈ [placedAt (.float three), placedAt (.bool true)], v.IsJson := by
    simp only [List.forall_mem_cons]
    exact ⟨hfloat, hbool, fun v hv => absurd hv List.not_mem_nil⟩
  refine ⟨hitems, ?_, ?_, errors_number_other_formats _ hitems⟩
  · exact (admits_iff_isDiagnostic hfloat).1 (complaint?_eq_none_iff.1 (by decide +kernel))
  · rw [← admits_iff_isDiagnostic hbool, ← complaint?_eq_none_iff]
    exact Option.some_ne_none _

end Report

end UnusedImports
