import UnusedImports.Deprecation

/-!
# Which values describe a deprecation table

A table is read from mappings within mappings, where everything that counts as false stands for an
empty mapping. `DeprecationTable.Readable` says of a value that each place where the reading needs
a mapping has one, and `DeprecationTable.ofSettings_ok_iff` that a table is read exactly from such
values. What the symbols themselves say does not matter.
-/

set_option autoImplicit false

namespace UnusedImports

namespace Value

/-- The value is a mapping or counts as false. -/
def IsTable (v : Value) : Prop :=
  v.truthy = true → ∃ entries, v = .map entries

/-- The entries of a mapping; any other value has none. -/
def entries : Value → List (Value × Value)
  | .map entries => entries
  | _ => []

end Value

namespace DeprecationTable

/-- The value has members, whose symbols are mappings or missing. -/
structure ReadableSection (v : Value) : Prop where
  table : v.IsTable
  members : ∀ e ∈ v.entries, e.2.IsTable

/-- The parts of what is said about a qualifier: a symbol, unless it is null, and two sections. -/
structure ReadableParts (parts : List (Value × Value)) : Prop where
  symbol : fieldOr parts "symbol" .null = .null ∨
    ∃ entries, fieldOr parts "symbol" .null = .map entries
  members : ReadableSection (fieldOr parts "members" .null)
  types : ReadableSection (fieldOr parts "types" .null)

/-- A mapping of qualifiers. Parts are looked for under all keys that can be entered. -/
structure Readable (data : Value) : Prop where
  table : data.IsTable
  qualifiers : ∀ e ∈ data.entries,
    e.2.IsTable ∧ (e.1.key?.isSome = true → ReadableParts e.2.entries)

variable {v : Value}

/-! ## Reading without a failure -/

theorem entriesOf_eq_ok (h : v.IsTable) : entriesOf v = .ok v.entries := by
  cases htruthy : v.truthy with
  | true =>
    obtain ⟨entries, rfl⟩ := h htruthy
    rfl
  | false => cases v <;> simp_all [entriesOf, Value.entries]

theorem exists_entriesOf_ok_iff : (∃ entries, entriesOf v = .ok entries) ↔ v.IsTable := by
  constructor
  · rintro ⟨entries, h⟩ htruthy
    cases v with
    | map stored => exact ⟨stored, rfl⟩
    | _ => simp [entriesOf, htruthy] at h
  · intro h
    exact ⟨v.entries, entriesOf_eq_ok h⟩

/-- A reading that starts with the entries of a value needs a mapping and then reads on. -/
theorem exists_entriesOf_bind_ok_iff {β : Type}
    {f : List (Value × Value) → Except NotMapping β} :
    (∃ b, (entriesOf v >>= f) = .ok b) ↔ v.IsTable ∧ ∃ b, f v.entries = .ok b := by
  constructor
  · rintro ⟨b, h⟩
    cases hentries : entriesOf v with
    | error e => simp [hentries, bind, Except.bind] at h
    | ok entries =>
      have htable := exists_entriesOf_ok_iff.1 ⟨entries, hentries⟩
      rw [entriesOf_eq_ok htable] at h
      exact ⟨htable, b, h⟩
  · rintro ⟨htable, b, h⟩
    rw [entriesOf_eq_ok htable]
    exact ⟨b, h⟩

/-- A step after another one: the first has to succeed, and the second does so whatever the first
one leads to. -/
theorem exists_bind_ok_iff {ε α β : Type} {x : Except ε α} {f : α → Except ε β} {P : Prop}
    (hf : ∀ a, (∃ b, f a = .ok b) ↔ P) :
    (∃ b, (x >>= f) = .ok b) ↔ (∃ a, x = .ok a) ∧ P := by
  cases x with
  | error e => simp [bind, Except.bind]
  | ok a => simp [bind, Except.bind, hf]

/-- Entering items one after the other succeeds if each of them can be entered. -/
theorem exists_foldlM_ok_iff {ε α β : Type} {f : β → α → Except ε β} {P : α → Prop}
    (hf : ∀ b a, (∃ c, f b a = .ok c) ↔ P a) (items : List α) (b : β) :
    (∃ c, items.foldlM f b = .ok c) ↔ ∀ a ∈ items, P a := by
  induction items generalizing b with
  | nil => simp [pure, Except.pure]
  | cons a rest ih =>
    rw [List.foldlM_cons, exists_bind_ok_iff (ih ·), hf, List.forall_mem_cons]

/-! ## Tables -/

theorem readMember_ok_iff {qualifier : Key} {isType : Bool} (table : DeprecationTable)
    (e : Value × Value) :
    (∃ read, readMember qualifier isType table e = .ok read) ↔ e.2.IsTable := by
  rw [readMember, exists_entriesOf_bind_ok_iff]
  apply and_iff_left
  cases e.1.key? with
  | none => exact ⟨_, rfl⟩
  | some name => exact ⟨_, rfl⟩

theorem readSection_ok_iff {qualifier : Key} {parts : List (Value × Value)} {isType : Bool}
    (table : DeprecationTable) :
    (∃ read, readSection qualifier parts isType table = .ok read) ↔
      ReadableSection (fieldOr parts (if isType then "types" else "members") .null) := by
  rw [readSection, exists_entriesOf_bind_ok_iff, exists_foldlM_ok_iff readMember_ok_iff]
  constructor
  · rintro ⟨htable, hmembers⟩
    exact ⟨htable, hmembers⟩
  · intro h
    exact ⟨h.table, h.members⟩

theorem readSymbol_ok_iff {qualifier : Value} {k : Key} {parts : List (Value × Value)}
    (table : DeprecationTable) :
    (∃ read, readSymbol qualifier k parts table = .ok read) ↔
      (fieldOr parts "symbol" .null = .null ∨
        ∃ entries, fieldOr parts "symbol" .null = .map entries) := by
  rw [readSymbol]
  cases fieldOr parts "symbol" .null <;> simp

theorem readQualifier_ok_iff (table : DeprecationTable) (e : Value × Value) :
    (∃ read, readQualifier table e = .ok read) ↔
      e.2.IsTable ∧ (e.1.key?.isSome = true → ReadableParts e.2.entries) := by
  rw [readQualifier, exists_entriesOf_bind_ok_iff]
  apply and_congr_right
  intro _
  cases e.1.key? with
  | none => simp [pure, Except.pure]
  | some k =>
    -- the symbol, the terms and the types are entered one after the other
    have htypes : ∀ read, (∃ all, readSection k e.2.entries true read = .ok all) ↔
        ReadableSection (fieldOr e.2.entries "types" .null) := fun read => readSection_ok_iff read
    have hmembers : ∀ read, (∃ all, (readSection k e.2.entries false read >>= fun read =>
        readSection k e.2.entries true read) = .ok all) ↔
          ReadableSection (fieldOr e.2.entries "members" .null) ∧
            ReadableSection (fieldOr e.2.entries "types" .null) := by
      intro read
      rw [exists_bind_ok_iff htypes, readSection_ok_iff]
      rfl
    have hsymbol := exists_bind_ok_iff (x := readSymbol e.1 k e.2.entries table) hmembers
    rw [readSymbol_ok_iff] at hsymbol
    simp only [Option.isSome_some, true_imp_iff]
    refine hsymbol.trans ?_
    constructor
    · rintro ⟨hs, hm, ht⟩
      exact ⟨hs, hm, ht⟩
    · intro h
      exact ⟨h.symbol, h.members, h.types⟩

/-- A table is read exactly from the readable values. -/
theorem ofSettings_ok_iff {data : Value} :
    (∃ table, ofSettings data = .ok table) ↔ Readable data := by
  rw [ofSettings, exists_entriesOf_bind_ok_iff, exists_foldlM_ok_iff readQualifier_ok_iff]
  constructor
  · rintro ⟨htable, hqualifiers⟩
    exact ⟨htable, hqualifiers⟩
  · intro h
    exact ⟨h.table, h.qualifiers⟩

end DeprecationTable

end UnusedImports
