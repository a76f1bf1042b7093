import UnusedImports.Deprecation
import UnusedImports.Proofs.Value.Writing

/-!
# Addenda in writing

What a table says about an import is written if the values of its symbols can be
(`DeprecationTable.writtenAddendum_eq_ok`). The symbols are read from the settings, and a reading
puts no other values into them than those of the settings and its own words
(`DeprecationTable.ensures_readQualifier`). So everything that a table says can be written if the
settings can that it is read from (`DeprecationTable.writtenAddendum_of_ofSettings`).
-/

set_option autoImplicit false

namespace UnusedImports

/-- The values of the symbol that a description shows can be written. -/
structure SymbolInfo.Writable (s : SymbolInfo) : Prop where
  kind : s.kind.isWritable = true
  name : s.name.isWritable = true
  message : s.message.isWritable = true

theorem SymbolInfo.gives_written (s : SymbolInfo) : Gives s.written s.Writable s.describe := by
  -- the steps are nested, so they are put together from the last value to the first
  have hmessage : Gives (s.message.written >>= fun _ => pure s.describe)
      (s.message.isWritable = true ∧ True) s.describe :=
    (Value.gives_written s.message).bind (gives_ok s.describe)
  have hname := (Value.gives_written s.name).bind (f := fun _ => _) hmessage
  refine ((Value.gives_written s.kind).bind (f := fun _ => _) hname).congr ?_
  constructor
  · rintro ⟨hkind, hname, hmessage, -⟩
    exact ⟨hkind, hname, hmessage⟩
  · rintro ⟨hkind, hname, hmessage⟩
    exact ⟨hkind, hname, hmessage, trivial⟩

/-! ## Results of steps -/

section

variable {ε α β γ : Type} {x : Except ε α} {P : α → Prop} {Q : β → Prop}

/-- If the step succeeds its result has the property. -/
def Ensures (x : Except ε α) (P : α → Prop) : Prop :=
  ∀ a, x = .ok a → P a

theorem ensures_ok {a : α} (h : P a) : Ensures (.ok a : Except ε α) P := by
  intro b hb
  cases hb
  exact h

theorem ensures_error (e : ε) : Ensures (.error e) P :=
  nofun

theorem Ensures.bind {f : α → Except ε β} (hx : Ensures x P) (hf : ∀ a, P a → Ensures (f a) Q) :
    Ensures (x >>= f) Q := by
  cases x with
  | error e => exact ensures_error e
  | ok a => exact hf a (hx a rfl)

/-- What every step keeps is kept by all steps one after the other. -/
theorem ensures_foldlM {f : β → γ → Except ε β} {items : List γ}
    (hf : ∀ b, Q b → ∀ c ∈ items, Ensures (f b c) Q) {b : β} (hb : Q b) :
    Ensures (items.foldlM f b) Q := by
  induction items generalizing b with
  | nil => exact ensures_ok hb
  | cons c rest ih =>
    rw [List.foldlM_cons]
    refine (hf b hb c List.mem_cons_self).bind ?_
    intro b' hb'
    apply ih
    · intro b hb d hd
      exact hf b hb d (List.mem_cons_of_mem c hd)
    · exact hb'

end

namespace DeprecationTable

variable {table : DeprecationTable} {P : SymbolInfo → Prop}

/-! ## The symbols of a table -/

/-- All symbols of the table have the property. -/
structure Every (P : SymbolInfo → Prop) (table : DeprecationTable) : Prop where
  symbols : ∀ k s, table.symbols.get? k = some s → P s
  members : ∀ k s, table.members.get? k = some s → P s

theorem every_empty : empty.Every P where
  symbols := by
    intro k s h
    rw [empty, Keyed.get?_empty] at h
    cases h
  members := by
    intro k s h
    rw [empty, Keyed.get?_empty] at h
    cases h

/-- What holds of a stored value and of all values of a store holds of those after storing. -/
theorem forall_get?_put {κ : Type} [DecidableEq κ] {m : Keyed κ SymbolInfo} {k : κ}
    {s : SymbolInfo} (hm : ∀ j r, m.get? j = some r → P r) (hs : P s) :
    ∀ j r, (m.put k s).get? j = some r → P r := by
  intro j r h
  rw [Keyed.get?_put] at h
  split at h
  · cases h
    exact hs
  · exact hm j r h

theorem Every.addQualifier (h : table.Every P) {k : Key} {s : SymbolInfo} (hs : P s) :
    (table.addQualifier k s).Every P :=
  ⟨forall_get?_put h.symbols hs, h.members⟩

theorem Every.addMember (h : table.Every P) {qualifier name isType : Key} {s : SymbolInfo}
    (hs : P s) : (table.addMember qualifier name isType s).Every P :=
  ⟨h.symbols, forall_get?_put h.members hs⟩

theorem Every.deprecatedMember? (h : table.Every P) {qualifier : Text} {s : Selector}
    {m : SymbolInfo} (hm : table.deprecatedMember? qualifier s = some m) : P m := by
  rw [DeprecationTable.deprecatedMember?] at hm
  split at hm
  · cases hm
  · simp only [ifDeprecated, Option.or_eq_some_iff, Option.filter_eq_some_iff] at hm
    rcases hm with ⟨hterm, -⟩ | ⟨-, htype, -⟩
    · exact h.members _ m hterm
    · exact h.members _ m htype

theorem Every.qualifierSymbol? (h : table.Every P) {k : Key} {q : SymbolInfo}
    (hq : ifDeprecated (table.qualifierSymbol? k) = some q) : P q := by
  rw [ifDeprecated, Option.filter_eq_some_iff] at hq
  exact h.symbols k q hq.1

/-- What a table says about an import can be written if its symbols can. -/
theorem writtenAddendum_eq_ok (h : table.Every SymbolInfo.Writable) (c : Clause) (s : Selector) :
    table.writtenAddendum c s = .ok (table.addendum c s) := by
  have hwritten : ∀ (lead : Text) (info : SymbolInfo), info.Writable →
      info.written.map (lead ++ ·) = .ok (lead ++ info.describe) := by
    intro lead info hinfo
    rw [(info.gives_written info.describe).2 ⟨hinfo, rfl⟩]
    rfl
  rw [writtenAddendum, addendum]
  cases hmember : table.deprecatedMember? c.qualifier s with
  | some m => exact hwritten _ m (h.deprecatedMember? hmember)
  | none =>
    dsimp only
    cases hsymbol : ifDeprecated (table.qualifierSymbol? (.text c.qualifier)) with
    | some q => exact hwritten _ q (h.qualifierSymbol? hsymbol)
    | none => rfl

/-! ## Reading writable settings -/

section

variable {v name : Value} {entries : List (Value × Value)} {key : String} {qualifier : Key}
  {isType : Bool}

theorem isWritable_fieldOr {default : Value} (hentries : Value.areWritableEntries entries = true)
    (hdefault : default.isWritable = true) : (fieldOr entries key default).isWritable = true := by
  rw [fieldOr]
  cases hv : Value.lookup? key.toList entries with
  | none => exact hdefault
  | some v => exact Value.isWritable_of_lookup? hentries hv

theorem ensures_entriesOf (hv : v.isWritable = true) :
    Ensures (entriesOf v) fun entries => Value.areWritableEntries entries = true := by
  unfold entriesOf
  split
  case h_1 => exact ensures_ok hv
  case h_2 =>
    split
    · exact ensures_error _
    · exact ensures_ok rfl

theorem writable_symbolOf {kind : String} (hname : name.isWritable = true)
    (hentries : Value.areWritableEntries entries = true) : (symbolOf name kind entries).Writable :=
  ⟨isWritable_fieldOr hentries (Value.isWritable_ofString kind), hname,
    isWritable_fieldOr hentries rfl⟩

theorem ensures_readMember (htable : table.Every SymbolInfo.Writable) {e : Value × Value}
    (he : e.1.isWritable = true ∧ e.2.isWritable = true) :
    Ensures (readMember qualifier isType table e) (Every SymbolInfo.Writable) := by
  refine (ensures_entriesOf he.2).bind ?_
  intro entries hentries
  split
  · exact ensures_ok (htable.addMember (writable_symbolOf he.1 hentries))
  · exact ensures_ok htable

theorem ensures_readSection (hentries : Value.areWritableEntries entries = true)
    (htable : table.Every SymbolInfo.Writable) :
    Ensures (readSection qualifier entries isType table) (Every SymbolInfo.Writable) := by
  refine (ensures_entriesOf (isWritable_fieldOr hentries rfl)).bind ?_
  intro members hmembers
  rw [Value.areWritableEntries_iff] at hmembers
  refine ensures_foldlM ?_ htable
  intro read hread e he
  exact ensures_readMember hread (hmembers e he)

theorem ensures_readSymbol (hname : name.isWritable = true)
    (hentries : Value.areWritableEntries entries = true)
    (htable : table.Every SymbolInfo.Writable) :
    Ensures (readSymbol name qualifier entries table) (Every SymbolInfo.Writable) := by
  have hsymbol : (fieldOr entries "symbol" .null).isWritable = true :=
    isWritable_fieldOr hentries rfl
  rw [readSymbol]
  split
  case h_1 => exact ensures_ok htable
  case h_2 symbol heq =>
    rw [heq] at hsymbol
    exact ensures_ok (htable.addQualifier (writable_symbolOf hname hsymbol))
  case h_3 => exact ensures_error _

/-- Reading a qualifier of writable settings enters symbols that can be written. -/
theorem ensures_readQualifier (htable : table.Every SymbolInfo.Writable) {e : Value × Value}
    (he : e.1.isWritable = true ∧ e.2.isWritable = true) :
    Ensures (readQualifier table e) (Every SymbolInfo.Writable) := by
  refine (ensures_entriesOf he.2).bind ?_
  intro entries hentries
  split
  · -- the symbol of the qualifier, then its terms and its types
    refine (ensures_readSymbol he.1 hentries htable).bind ?_
    intro read hread
    refine (ensures_readSection hentries hread).bind ?_
    intro read hread
    exact ensures_readSection hentries hread
  · exact ensures_ok htable

end

/-- What a table says about an import can be written if the settings that it is read from can. -/
theorem writtenAddendum_of_ofSettings {data : Value} (h : ofSettings data = .ok table)
    (hdata : data.isWritable = true) (c : Clause) (s : Selector) :
    table.writtenAddendum c s = .ok (table.addendum c s) := by
  have hread : Ensures (ofSettings data) (Every SymbolInfo.Writable) := by
    refine (ensures_entriesOf hdata).bind ?_
    intro qualifiers hqualifiers
    rw [Value.areWritableEntries_iff] at hqualifiers
    refine ensures_foldlM ?_ every_empty
    intro read hread e he
    exact ensures_readQualifier hread (hqualifiers e he)
  exact writtenAddendum_eq_ok (hread table h) c s

end DeprecationTable

end UnusedImports
