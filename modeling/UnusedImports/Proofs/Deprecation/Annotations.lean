import UnusedImports.Proofs.Deprecation.Reading
import Mathlib.Algebra.GroupWithZero.Nat
import Mathlib.Data.List.Nodup

/-!
# Annotations read off the settings

A deprecation table is a nested mapping made flat: a symbol for each qualifier that has one, and a
symbol for each name in the two sections of a qualifier. `DeprecationTable.notice` looks a
selector up in the nested mapping itself. If the keys of the mappings differ
(`DeprecationTable.WellKeyed`), nothing is lost on the way and nothing gets in the way of something
else: the table has as many symbols as the mapping names, and what it adds to a warning is what the
mapping says (`DeprecationTable.addendum_mirrors_settings`).
-/

set_option autoImplicit false

namespace UnusedImports

namespace Keyed

variable {κ α : Type} [DecidableEq κ]

/-- Store values one after the other. -/
def putAll (m : Keyed κ α) (entries : List (κ × α)) : Keyed κ α :=
  entries.foldl (fun m e => m.put e.1 e.2) m

theorem putAll_append (m : Keyed κ α) (front back : List (κ × α)) :
    m.putAll (front ++ back) = (m.putAll front).putAll back :=
  List.foldl_append

/-- A value under a new key is stored in a new entry. -/
theorem entries_put_of_not_mem {m : Keyed κ α} {k : κ} (a : α) (h : k ∉ m.keys) :
    (m.put k a).entries = m.entries ++ [(k, a)] := by
  revert h
  unfold keys put
  induction m.entries with
  | nil => simp [putIn]
  | cons e rest ih => grind [putIn]

/-- Values under different new keys are stored in entries of their own. -/
theorem entries_putAll {m : Keyed κ α} {entries : List (κ × α)}
    (h : (m.keys ++ entries.map Prod.fst).Nodup) :
    (m.putAll entries).entries = m.entries ++ entries := by
  induction entries generalizing m with
  | nil => simp [putAll]
  | cons e rest ih =>
    obtain ⟨k, a⟩ := e
    have hnew : k ∉ m.keys := by
      intro hk
      rw [List.map_cons, List.nodup_append] at h
      exact h.2.2 k hk k List.mem_cons_self rfl
    have hkeys : (m.put k a).keys = m.keys ++ [k] := by
      rw [keys_put, if_neg hnew]
    have hput : m.putAll ((k, a) :: rest) = (m.put k a).putAll rest := rfl
    rw [hput, ih, entries_put_of_not_mem a hnew, List.append_assoc, List.singleton_append]
    rw [hkeys, List.append_assoc, List.singleton_append]
    exact h

/-- Of entries with different keys each is found under its key. -/
theorem find?_eq_some_iff {entries : List (κ × α)} (h : (entries.map Prod.fst).Nodup) {k : κ}
    {a : α} : find? k entries = some a ↔ (k, a) ∈ entries := by
  induction entries with
  | nil => simp [find?]
  | cons e rest ih =>
    obtain ⟨j, b⟩ := e
    rw [List.map_cons, List.nodup_cons] at h
    rw [find?, List.mem_cons, ← ih h.2]
    by_cases hj : j = k
    · subst hj
      have hnone : find? j rest ≠ some a := by
        rw [Ne, ih h.2]
        exact fun hmem => h.1 (List.mem_map.2 ⟨_, hmem, rfl⟩)
      simp [hnone, eq_comm]
    · simp [hj, Ne.symm hj]

end Keyed

namespace Value

/-- Only a text has the key of a text. -/
theorem key?_eq_text_iff {v : Value} {t : Text} : v.key? = some (.text t) ↔ v = .text t := by
  cases v with
  | float x => cases x <;> simp [key?]
  | stamp s =>
    cases s with
    | date d => simp [key?, Stamp.key]
    | moment d c =>
      simp only [key?, Stamp.key]
      cases c.zone <;> simp
  | _ => simp [key?]

/-- Entries whose keys can be looked up and differ from each other. -/
structure DistinctKeys (entries : List (Value × Value)) : Prop where
  keyed : ∀ e ∈ entries, e.1.key?.isSome = true
  nodup : (entries.map fun e => e.1.key?).Nodup

/-- What stands under a name in a mapping, and null if nothing does. -/
def part (v : Value) (name : String) : Value :=
  (v.field? name.toList).getD .null

/-- The value stands where a mapping is needed, and neither is one nor counts as false. -/
def Obstructs (v : Value) : Prop :=
  v.truthy = true ∧ ∀ entries, v ≠ .map entries

theorem not_obstructs_iff {v : Value} : ¬ v.Obstructs ↔ v.IsTable := by
  simp only [Obstructs, IsTable, not_and, not_forall, not_not]

theorem isNull_eq_false_iff {v : Value} : v.isNull = false ↔ v ≠ .null := by
  cases v <;> simp [isNull]

/-- Under a text a mapping holds the value of the entry with this key. -/
theorem field?_eq_some_iff {v w : Value} {key : Text} (h : DistinctKeys v.entries) :
    v.field? key = some w ↔ (.text key, w) ∈ v.entries := by
  cases v with
  | map stored =>
    obtain ⟨-, hnodup⟩ := h
    simp only [entries] at hnodup ⊢
    rw [field?]
    induction stored with
    | nil => simp [lookup?]
    | cons e rest ih =>
      obtain ⟨k, u⟩ := e
      rw [List.map_cons, List.nodup_cons] at hnodup
      rw [List.mem_cons, ← ih hnodup.2]
      by_cases hk : k = .text key
      · subst hk
        have hnone : lookup? key rest ≠ some w := by
          rw [Ne, ih hnodup.2]
          exact fun hmem => hnodup.1 (List.mem_map.2 ⟨_, hmem, rfl⟩)
        simp [lookup?, hnone, eq_comm]
      · have hskip : lookup? key ((k, u) :: rest) = lookup? key rest := by
          cases k with
          | text t =>
            rw [lookup?, if_neg]
            rintro rfl
            exact hk rfl
          | _ => rfl
        have hne : (Value.text key, w) ≠ (k, u) := fun heq => hk (congrArg Prod.fst heq).symm
        simp [hskip, hne]
  | _ => simp [field?, entries]

end Value

namespace DeprecationTable

/-! ## Looking up in the settings -/

/-- The terms or the types of a qualifier. -/
def sectionOf (v : Value) (isType : Bool) : Value :=
  v.part (if isType then "types" else "members")

/-- In a mapping of qualifiers the keys of the qualifiers differ, and so do those of the members in
each section. -/
structure WellKeyed (data : Value) : Prop where
  qualifiers : Value.DistinctKeys data.entries
  sections : ∀ e ∈ data.entries, ∀ isType, Value.DistinctKeys (sectionOf e.2 isType).entries

/-- Somewhere in a mapping of qualifiers something else stands in the place of a mapping: in the
place of all, of a qualifier, of its symbol, of one of its sections, or of a member. -/
inductive Misplaced (data : Value) : Prop where
  | all (h : data.Obstructs)
  | qualifier (e : Value × Value) (he : e ∈ data.entries) (h : e.2.Obstructs)
  | symbol (e : Value × Value) (he : e ∈ data.entries) (hnull : (e.2.part "symbol").isNull = false)
      (h : ∀ entries, e.2.part "symbol" ≠ .map entries)
  | members (e : Value × Value) (he : e ∈ data.entries) (isType : Bool)
      (h : (sectionOf e.2 isType).Obstructs)
  | member (e : Value × Value) (he : e ∈ data.entries) (isType : Bool) (m : Value × Value)
      (hm : m ∈ (sectionOf e.2 isType).entries) (h : m.2.Obstructs)

/-- The number of symbols that a mapping of qualifiers names: those of qualifiers, and the names in
the sections. -/
def named (data : Value) : Nat :=
  data.entries.countP (fun e => !(e.2.part "symbol").isNull) +
    (data.entries.map fun e =>
      (sectionOf e.2 false).entries.length + (sectionOf e.2 true).entries.length).sum

/-- What is said about a member of a qualifier. -/
def memberAt? (data : Value) (qualifier name : Text) (isType : Bool) : Option Value :=
  (data.field? qualifier).bind fun v => (sectionOf v isType).field? name

/-- What is said about the symbol of a qualifier, unless it is missing or null. -/
def symbolAt? (data : Value) (qualifier : Text) : Option Value :=
  ((data.field? qualifier).map fun v => v.part "symbol").filter fun v => !v.isNull

/-- The words about a symbol of which `v` is said, if it is deprecated: its kind and its name, and
the message if there is one. -/
def wording? (lead kind : String) (name : Text) (v : Value) : Option Text :=
  if ((v.field? "deprecated".toList).getD (.bool true)).truthy then
    let message := v.part "message"
    some (lead.toList ++ ((v.field? "kind".toList).getD (Value.ofString kind)).shown ++ ' ' :: name
      ++ if message.truthy then ": ".toList ++ message.shown else [])
  else none

/-- What the settings say about an import: that it is one of a deprecated term or, if not, of a
deprecated type, or, if not, one from a deprecated qualifier. Wildcards and exclusions name no
member. -/
def notice (data : Value) (qualifier : Text) (s : Selector) : Text :=
  let members :=
    if s.isWildcard || s.isExclusion then []
    else
      [(memberAt? data qualifier s.name false).bind (wording? " of deprecated " "value" s.name),
        (memberAt? data qualifier s.name true).bind (wording? " of deprecated " "class" s.name)]
  let symbol := (symbolAt? data qualifier).bind (wording? " from deprecated " "package" qualifier)
  ((members ++ [symbol]).findSome? id).getD []

variable {data v : Value} {table : DeprecationTable} {qualifier : Key} {isType : Bool}

theorem fieldOr_entries (v : Value) (name : String) (default : Value) :
    fieldOr v.entries name default = (v.field? name.toList).getD default := by
  cases v <;> rfl

theorem readableSection_iff :
    ReadableSection v ↔ ¬ v.Obstructs ∧ ∀ m ∈ v.entries, ¬ m.2.Obstructs := by
  simp only [Value.not_obstructs_iff]
  exact ⟨fun h => ⟨h.table, h.members⟩, fun h => ⟨h.1, h.2⟩⟩

/-- The settings can be read exactly if nothing is misplaced in them. -/
theorem readable_iff (hkeys : WellKeyed data) : Readable data ↔ ¬ Misplaced data := by
  constructor
  · rintro ⟨htable, hqualifiers⟩ hmisplaced
    have hparts : ∀ e ∈ data.entries, ReadableParts e.2.entries :=
      fun e he => (hqualifiers e he).2 (hkeys.qualifiers.keyed e he)
    have hsection : ∀ e ∈ data.entries, ∀ isType, ReadableSection (sectionOf e.2 isType) := by
      intro e he isType
      obtain ⟨-, hmembers, htypes⟩ := hparts e he
      rw [fieldOr_entries] at hmembers htypes
      cases isType with
      | false => exact hmembers
      | true => exact htypes
    cases hmisplaced with
    | all h => exact Value.not_obstructs_iff.2 htable h
    | qualifier e he h => exact Value.not_obstructs_iff.2 (hqualifiers e he).1 h
    | symbol e he hnull h =>
      have hsymbol := (hparts e he).symbol
      rw [fieldOr_entries] at hsymbol
      rcases hsymbol with hsymbol | ⟨entries, hsymbol⟩
      · rw [Value.part, hsymbol] at hnull
        cases hnull
      · exact h entries hsymbol
    | members e he isType h => exact (readableSection_iff.1 (hsection e he isType)).1 h
    | member e he isType m hm h => exact (readableSection_iff.1 (hsection e he isType)).2 m hm h
  · intro hplaced
    have hsection : ∀ e ∈ data.entries, ∀ isType, ReadableSection (sectionOf e.2 isType) := by
      intro e he isType
      rw [readableSection_iff]
      exact ⟨fun h => hplaced (.members e he isType h),
        fun m hm h => hplaced (.member e he isType m hm h)⟩
    refine ⟨Value.not_obstructs_iff.1 fun h => hplaced (.all h), fun e he => ⟨?_, fun _ => ?_⟩⟩
    · exact Value.not_obstructs_iff.1 fun h => hplaced (.qualifier e he h)
    · refine ⟨?_, ?_, ?_⟩
      · rw [fieldOr_entries]
        by_contra hsymbol
        rw [not_or, not_exists] at hsymbol
        refine hplaced (.symbol e he ?_ hsymbol.2)
        rw [Value.isNull_eq_false_iff]
        exact hsymbol.1
      · rw [fieldOr_entries]
        exact hsection e he false
      · rw [fieldOr_entries]
        exact hsection e he true

/-! ## What is entered -/

/-- Enter symbols of qualifiers and of members. -/
def enter (table : DeprecationTable) (symbols : List (Key × SymbolInfo))
    (members : List ((Key × Key × Key) × SymbolInfo)) : DeprecationTable :=
  ⟨table.symbols.putAll symbols, table.members.putAll members⟩

/-- What is entered for a member. -/
def memberEntries (qualifier : Key) (isType : Bool) (m : Value × Value) :
    List ((Key × Key × Key) × SymbolInfo) :=
  m.1.key?.toList.map fun name =>
    ((qualifier, name, flagKey isType), symbolOf m.1 (memberKind isType) m.2.entries)

/-- What is entered for the members in a section of a qualifier. -/
def sectionEntries (qualifier : Key) (isType : Bool) (v : Value) :
    List ((Key × Key × Key) × SymbolInfo) :=
  (sectionOf v isType).entries.flatMap (memberEntries qualifier isType)

/-- What is entered for the symbol of a qualifier. -/
def symbolEntries (e : Value × Value) : List (Key × SymbolInfo) :=
  match e.2.part "symbol" with
  | .map symbol => e.1.key?.toList.map fun qualifier => (qualifier, symbolOf e.1 "package" symbol)
  | _ => []

/-- What is entered for the members of a qualifier. -/
def membersEntries (e : Value × Value) : List ((Key × Key × Key) × SymbolInfo) :=
  e.1.key?.toList.flatMap fun qualifier =>
    sectionEntries qualifier false e.2 ++ sectionEntries qualifier true e.2

theorem enter_enter (table : DeprecationTable) (ss ss' : List (Key × SymbolInfo))
    (ms ms' : List ((Key × Key × Key) × SymbolInfo)) :
    (table.enter ss ms).enter ss' ms' = table.enter (ss ++ ss') (ms ++ ms') := by
  simp only [enter, Keyed.putAll_append]

/-- Steps that enter something enter all of it one after the other. -/
theorem foldlM_enter {α : Type} {f : DeprecationTable → α → Except NotMapping DeprecationTable}
    {ss : α → List (Key × SymbolInfo)} {ms : α → List ((Key × Key × Key) × SymbolInfo)}
    {items : List α} (hf : ∀ a ∈ items, ∀ table, f table a = .ok (table.enter (ss a) (ms a)))
    (table : DeprecationTable) :
    items.foldlM f table = .ok (table.enter (items.flatMap ss) (items.flatMap ms)) := by
  induction items generalizing table with
  | nil => rfl
  | cons a rest ih =>
    rw [List.forall_mem_cons] at hf
    have hrest := ih hf.2 (table.enter (ss a) (ms a))
    rw [enter_enter] at hrest
    rw [List.foldlM_cons, hf.1, List.flatMap_cons, List.flatMap_cons]
    exact hrest

theorem readMember_eq_ok {m : Value × Value} (h : m.2.IsTable) (table : DeprecationTable) :
    readMember qualifier isType table m =
      .ok (table.enter [] (memberEntries qualifier isType m)) := by
  rw [readMember, entriesOf_eq_ok h, memberEntries]
  cases m.1.key? <;> rfl

theorem readSection_eq_ok (h : ReadableSection (sectionOf v isType)) (table : DeprecationTable) :
    readSection qualifier v.entries isType table =
      .ok (table.enter [] (sectionEntries qualifier isType v)) := by
  have hsection : fieldOr v.entries (if isType then "types" else "members") .null =
      sectionOf v isType := fieldOr_entries v _ _
  have hmembers : (sectionOf v isType).entries.foldlM (readMember qualifier isType) table =
      .ok (table.enter ((sectionOf v isType).entries.flatMap fun _ => [])
        (sectionEntries qualifier isType v)) :=
    foldlM_enter (fun m hm => readMember_eq_ok (h.members m hm)) table
  have hnone :
      ((sectionOf v isType).entries.flatMap fun _ => ([] : List (Key × SymbolInfo))) = [] :=
    List.flatMap_eq_nil_iff.2 fun _ _ => rfl
  rw [hnone] at hmembers
  rw [readSection, hsection, entriesOf_eq_ok h.table]
  exact hmembers

theorem readSymbol_eq_ok {e : Value × Value} (hkey : e.1.key? = some qualifier)
    (h : e.2.part "symbol" = .null ∨ ∃ entries, e.2.part "symbol" = .map entries)
    (table : DeprecationTable) :
    readSymbol e.1 qualifier e.2.entries table = .ok (table.enter (symbolEntries e) []) := by
  have hsymbol : fieldOr e.2.entries "symbol" .null = e.2.part "symbol" := fieldOr_entries _ _ _
  rw [readSymbol, hsymbol, symbolEntries, hkey]
  rcases h with h | ⟨entries, h⟩
  · rw [h]
    rfl
  · rw [h]
    rfl

theorem readQualifier_eq_ok {e : Value × Value} (htable : e.2.IsTable)
    (hkey : e.1.key?.isSome = true) (h : ReadableParts e.2.entries) (table : DeprecationTable) :
    readQualifier table e = .ok (table.enter (symbolEntries e) (membersEntries e)) := by
  obtain ⟨qualifier, hqualifier⟩ := Option.isSome_iff_exists.1 hkey
  obtain ⟨hsymbol, hmembers, htypes⟩ := h
  rw [fieldOr_entries] at hsymbol hmembers htypes
  have hterms : ReadableSection (sectionOf e.2 false) := hmembers
  have htypes : ReadableSection (sectionOf e.2 true) := htypes
  rw [readQualifier, entriesOf_eq_ok htable, hqualifier]
  simp only [bind, Except.bind, readSymbol_eq_ok hqualifier hsymbol, readSection_eq_ok hterms,
    readSection_eq_ok htypes, enter_enter, membersEntries, hqualifier]
  simp

/-- The table of readable settings holds all that is said in them. -/
theorem ofSettings_eq_ok (hkeys : WellKeyed data) (h : Readable data) :
    ofSettings data = .ok (empty.enter (data.entries.flatMap symbolEntries)
      (data.entries.flatMap membersEntries)) := by
  rw [ofSettings, entriesOf_eq_ok h.table]
  refine foldlM_enter (fun e he table => ?_) empty
  obtain ⟨htable, hparts⟩ := h.qualifiers e he
  have hkey := hkeys.qualifiers.keyed e he
  exact readQualifier_eq_ok htable hkey (hparts hkey) table

/-! ## Keys of what is entered -/

/-- What is entered for entries with different keys has different keys, if this holds for each
entry and if the keys entered for an entry tell its key. -/
theorem nodup_flatMap_of_key {κ : Type} {entries : List (Value × Value)}
    {f : Value × Value → List κ} {g : κ → Key} (hkeys : Value.DistinctKeys entries)
    (hnodup : ∀ e ∈ entries, (f e).Nodup) (hkey : ∀ e, ∀ k ∈ f e, e.1.key? = some (g k)) :
    (entries.flatMap f).Nodup := by
  rw [List.nodup_flatMap]
  refine ⟨hnodup, ?_⟩
  have hpairs := List.pairwise_map.1 hkeys.nodup
  refine hpairs.imp fun {a b} hne => ?_
  intro k ha hb
  exact hne ((hkey a k ha).trans (hkey b k hb).symm)

theorem mem_memberEntries {m : Value × Value} {k : Key × Key × Key} {s : SymbolInfo} :
    (k, s) ∈ memberEntries qualifier isType m ↔
      ∃ name, m.1.key? = some name ∧ k = (qualifier, name, flagKey isType) ∧
        s = symbolOf m.1 (memberKind isType) m.2.entries := by
  rw [memberEntries]
  cases m.1.key? <;> simp

theorem mem_sectionEntries {k : Key × Key × Key} {s : SymbolInfo} :
    (k, s) ∈ sectionEntries qualifier isType v ↔
      ∃ m ∈ (sectionOf v isType).entries, ∃ name, m.1.key? = some name ∧
        k = (qualifier, name, flagKey isType) ∧
        s = symbolOf m.1 (memberKind isType) m.2.entries := by
  simp only [sectionEntries, List.mem_flatMap, mem_memberEntries]

theorem mem_membersEntries {e : Value × Value} {k : Key × Key × Key} {s : SymbolInfo} :
    (k, s) ∈ membersEntries e ↔
      ∃ qualifier isType, e.1.key? = some qualifier ∧
        (k, s) ∈ sectionEntries qualifier isType e.2 := by
  rw [membersEntries]
  cases e.1.key? <;> simp

theorem mem_symbolEntries {e : Value × Value} {k : Key} {s : SymbolInfo} :
    (k, s) ∈ symbolEntries e ↔ e.1.key? = some k ∧
      ∃ entries, e.2.part "symbol" = .map entries ∧ s = symbolOf e.1 "package" entries := by
  rw [symbolEntries]
  cases e.2.part "symbol" <;> cases e.1.key? <;> simp [eq_comm]

theorem flagKey_injective : Function.Injective flagKey := by
  intro a b h
  cases a <;> cases b <;> first | rfl | cases h

theorem nodup_symbolEntries (hkeys : WellKeyed data) :
    ((data.entries.flatMap symbolEntries).map Prod.fst).Nodup := by
  rw [List.map_flatMap]
  refine nodup_flatMap_of_key (g := id) hkeys.qualifiers (fun e _ => ?_) fun e k hk => ?_
  · rw [symbolEntries]
    cases e.2.part "symbol" <;> cases e.1.key? <;> simp
  · obtain ⟨⟨k, s⟩, hmem, rfl⟩ := List.mem_map.1 hk
    exact (mem_symbolEntries.1 hmem).1

theorem nodup_sectionEntries (hkeys : Value.DistinctKeys (sectionOf v isType).entries) :
    ((sectionEntries qualifier isType v).map Prod.fst).Nodup := by
  rw [sectionEntries, List.map_flatMap]
  refine nodup_flatMap_of_key (g := fun k => k.2.1) hkeys (fun m _ => ?_) fun m k hk => ?_
  · rw [memberEntries]
    cases m.1.key? <;> simp
  · obtain ⟨⟨k, s⟩, hmem, rfl⟩ := List.mem_map.1 hk
    obtain ⟨name, hname, rfl, -⟩ := mem_memberEntries.1 hmem
    exact hname

theorem nodup_membersEntries (hkeys : WellKeyed data) :
    ((data.entries.flatMap membersEntries).map Prod.fst).Nodup := by
  rw [List.map_flatMap]
  refine nodup_flatMap_of_key (g := Prod.fst) hkeys.qualifiers (fun e he => ?_) fun e k hk => ?_
  · rw [membersEntries]
    cases e.1.key? with
    | none => exact List.nodup_nil
    | some qualifier =>
      rw [Option.toList_some, List.flatMap_singleton, List.map_append]
      refine List.nodup_append.2 ⟨nodup_sectionEntries (hkeys.sections e he false),
        nodup_sectionEntries (hkeys.sections e he true), ?_⟩
      -- the keys of terms and of types differ in the flag
      intro k hk l hl
      obtain ⟨⟨k, s⟩, hterm, rfl⟩ := List.mem_map.1 hk
      obtain ⟨⟨l, r⟩, htype, rfl⟩ := List.mem_map.1 hl
      obtain ⟨-, -, -, -, rfl, -⟩ := mem_sectionEntries.1 hterm
      obtain ⟨-, -, -, -, rfl, -⟩ := mem_sectionEntries.1 htype
      intro heq
      have hflag : flagKey false = flagKey true := congrArg (fun k => k.2.2) heq
      exact absurd (flagKey_injective hflag) Bool.false_ne_true
  · obtain ⟨⟨k, s⟩, hmem, rfl⟩ := List.mem_map.1 hk
    obtain ⟨qualifier, isType, hqualifier, hsection⟩ := mem_membersEntries.1 hmem
    obtain ⟨-, -, -, -, rfl, -⟩ := mem_sectionEntries.1 hsection
    exact hqualifier

/-- The entries of the table of readable settings. -/
theorem entries_ofSettings (hkeys : WellKeyed data) (h : ofSettings data = .ok table) :
    table.symbols.entries = data.entries.flatMap symbolEntries ∧
      table.members.entries = data.entries.flatMap membersEntries := by
  rw [ofSettings_eq_ok hkeys (ofSettings_ok_iff.1 ⟨table, h⟩)] at h
  obtain rfl := Except.ok.inj h
  exact ⟨Keyed.entries_putAll (nodup_symbolEntries hkeys),
    Keyed.entries_putAll (nodup_membersEntries hkeys)⟩

/-! ## The size of the table -/

/-- Lists of at most one item are put together to as many items as there are lists of one. -/
theorem length_flatMap_eq_countP {α β : Type} {f : α → List β} {p : α → Bool} {items : List α}
    (h : ∀ a ∈ items, (f a).length = if p a then 1 else 0) :
    (items.flatMap f).length = items.countP p := by
  induction items with
  | nil => rfl
  | cons a rest ih =>
    rw [List.forall_mem_cons] at h
    rw [List.flatMap_cons, List.length_append, h.1, ih h.2, List.countP_cons, Nat.add_comm]

theorem length_symbolEntries {e : Value × Value} (hkey : e.1.key?.isSome = true)
    (h : e.2.part "symbol" = .null ∨ ∃ entries, e.2.part "symbol" = .map entries) :
    (symbolEntries e).length = if !(e.2.part "symbol").isNull then 1 else 0 := by
  obtain ⟨qualifier, hqualifier⟩ := Option.isSome_iff_exists.1 hkey
  rw [symbolEntries, hqualifier]
  rcases h with h | ⟨entries, h⟩
  · rw [h]
    rfl
  · rw [h]
    rfl

theorem length_sectionEntries (hkeys : Value.DistinctKeys (sectionOf v isType).entries) :
    (sectionEntries qualifier isType v).length = (sectionOf v isType).entries.length := by
  rw [sectionEntries, length_flatMap_eq_countP (p := fun _ => true), List.countP_true]
  intro m hm
  obtain ⟨name, hname⟩ := Option.isSome_iff_exists.1 (hkeys.keyed m hm)
  rw [memberEntries, hname]
  rfl

theorem length_membersEntries (hkeys : WellKeyed data) {e : Value × Value}
    (he : e ∈ data.entries) :
    (membersEntries e).length =
      (sectionOf e.2 false).entries.length + (sectionOf e.2 true).entries.length := by
  obtain ⟨qualifier, hqualifier⟩ := Option.isSome_iff_exists.1 (hkeys.qualifiers.keyed e he)
  rw [membersEntries, hqualifier, Option.toList_some, List.flatMap_singleton, List.length_append,
    length_sectionEntries (hkeys.sections e he false),
    length_sectionEntries (hkeys.sections e he true)]

/-- The table has as many symbols as the settings name. -/
theorem size_eq_named (hkeys : WellKeyed data) (h : ofSettings data = .ok table) :
    table.size = named data := by
  obtain ⟨hsymbols, hmembers⟩ := entries_ofSettings hkeys h
  have hreadable := ofSettings_ok_iff.1 ⟨table, h⟩
  have hcount : (data.entries.flatMap symbolEntries).length =
      data.entries.countP fun e => !(e.2.part "symbol").isNull := by
    apply length_flatMap_eq_countP
    intro e he
    have hkey := hkeys.qualifiers.keyed e he
    have hsymbol := ((hreadable.qualifiers e he).2 hkey).symbol
    rw [fieldOr_entries] at hsymbol
    exact length_symbolEntries hkey hsymbol
  have hsum : (data.entries.flatMap membersEntries).length = (data.entries.map fun e =>
      (sectionOf e.2 false).entries.length + (sectionOf e.2 true).entries.length).sum := by
    rw [List.length_flatMap]
    exact congrArg List.sum (List.map_congr_left fun e he => length_membersEntries hkeys he)
  rw [size, Keyed.size, Keyed.size, hsymbols, hmembers, hcount, hsum, named]

/-! ## Looking up in the table -/

theorem member?_eq_memberAt? (hkeys : WellKeyed data) (h : ofSettings data = .ok table)
    (qualifier name : Text) (isType : Bool) :
    table.member? (.text qualifier) (.text name) (flagKey isType) =
      (memberAt? data qualifier name isType).map fun v =>
        symbolOf (.text name) (memberKind isType) v.entries := by
  apply Option.ext
  intro s
  rw [member?, Keyed.get?, (entries_ofSettings hkeys h).2,
    Keyed.find?_eq_some_iff (nodup_membersEntries hkeys), Option.map_eq_some_iff]
  simp only [memberAt?, Option.bind_eq_some_iff, Value.field?_eq_some_iff hkeys.qualifiers,
    List.mem_flatMap, mem_membersEntries, mem_sectionEntries]
  constructor
  · rintro ⟨e, he, k, flag, hk, m, hm, n, hn, hkey, rfl⟩
    simp only [Prod.mk.injEq] at hkey
    obtain ⟨rfl, rfl, hflag⟩ := hkey
    obtain rfl := flagKey_injective hflag
    rw [Value.key?_eq_text_iff] at hk hn
    refine ⟨m.2, ⟨e.2, hk ▸ he, ?_⟩, hn ▸ rfl⟩
    rw [Value.field?_eq_some_iff (hkeys.sections e he isType), ← hn]
    exact hm
  · rintro ⟨v, ⟨w, hw, hv⟩, rfl⟩
    rw [Value.field?_eq_some_iff (hkeys.sections _ hw isType)] at hv
    exact ⟨_, hw, _, _, rfl, _, hv, _, rfl, rfl, rfl⟩

theorem qualifierSymbol?_eq_symbolAt? (hkeys : WellKeyed data) (h : ofSettings data = .ok table)
    (qualifier : Text) :
    table.qualifierSymbol? (.text qualifier) =
      (symbolAt? data qualifier).map fun v => symbolOf (.text qualifier) "package" v.entries := by
  have hreadable := ofSettings_ok_iff.1 ⟨table, h⟩
  apply Option.ext
  intro s
  rw [qualifierSymbol?, Keyed.get?, (entries_ofSettings hkeys h).1,
    Keyed.find?_eq_some_iff (nodup_symbolEntries hkeys), Option.map_eq_some_iff]
  simp only [symbolAt?, Option.filter_eq_some_iff, Option.map_eq_some_iff,
    Value.field?_eq_some_iff hkeys.qualifiers, List.mem_flatMap, mem_symbolEntries]
  constructor
  · rintro ⟨e, he, hk, entries, hsymbol, rfl⟩
    rw [Value.key?_eq_text_iff] at hk
    exact ⟨.map entries, ⟨⟨e.2, hk ▸ he, hsymbol⟩, rfl⟩, hk ▸ rfl⟩
  · rintro ⟨v, ⟨⟨w, hw, rfl⟩, hnull⟩, rfl⟩
    have hsymbol := ((hreadable.qualifiers _ hw).2 rfl).symbol
    rw [fieldOr_entries] at hsymbol
    rcases hsymbol with hsymbol | ⟨entries, hsymbol⟩
    · rw [Value.part, hsymbol] at hnull
      cases hnull
    · exact ⟨_, hw, rfl, entries, hsymbol, by rw [Value.part, hsymbol]; rfl⟩

/-! ## Annotations -/

/-- The words about a symbol are its description behind the lead. -/
theorem wording?_eq (lead kind : String) (name : Text) (v : Value) :
    wording? lead kind name v =
      (ifDeprecated (some (symbolOf (.text name) kind v.entries))).map fun s =>
        lead.toList ++ s.describe := by
  rw [wording?, ifDeprecated, Option.filter_some, symbolOf, fieldOr_entries, fieldOr_entries,
    fieldOr_entries, ← Value.part]
  generalize (v.field? "deprecated".toList).getD (.bool true) = deprecated
  generalize (v.field? "kind".toList).getD (Value.ofString kind) = kind
  generalize v.part "message" = message
  cases deprecated.truthy with
  | false => rfl
  | true =>
    rw [if_pos rfl, if_pos rfl, Option.map_some, SymbolInfo.describe, SymbolInfo.text]
    dsimp only
    have hname : (Value.text name).shown = name := rfl
    rw [hname]
    cases message.truthy with
    | false =>
      rw [if_neg Bool.false_ne_true, if_neg Bool.false_ne_true, List.append_nil, List.append_assoc]
    | true => simp only [if_true, List.append_assoc, List.cons_append]

/-- The words about what is looked up in the settings describe what is looked up in the table. -/
theorem bind_wording?_eq (lead kind : String) (name : Text) (v : Option Value) :
    v.bind (wording? lead kind name) =
      (ifDeprecated (v.map fun v => symbolOf (.text name) kind v.entries)).map fun s =>
        lead.toList ++ s.describe := by
  cases v with
  | none => rfl
  | some v => exact wording?_eq lead kind name v

theorem addendum_eq_notice (hkeys : WellKeyed data) (h : ofSettings data = .ok table)
    (c : Clause) (s : Selector) : table.addendum c s = notice data c.qualifier s := by
  rw [addendum, deprecatedMember?, member?_eq_memberAt? hkeys h, member?_eq_memberAt? hkeys h,
    qualifierSymbol?_eq_symbolAt? hkeys h, Bool.or_comm]
  simp only [notice, bind_wording?_eq]
  have hterm : memberKind false = "value" := rfl
  have htype : memberKind true = "class" := rfl
  rw [hterm, htype]
  generalize ifDeprecated ((memberAt? data c.qualifier s.name false).map _) = term
  generalize ifDeprecated ((memberAt? data c.qualifier s.name true).map _) = type
  generalize ifDeprecated ((symbolAt? data c.qualifier).map _) = symbol
  cases s.isWildcard || s.isExclusion with
  | true => cases symbol <;> rfl
  | false =>
    rw [if_neg Bool.false_ne_true, if_neg Bool.false_ne_true]
    cases term with
    | some term => rfl
    | none =>
      cases type with
      | some type => rfl
      | none => cases symbol <;> rfl

/-- A table is read from a mapping with different keys unless something is misplaced in it. Then it
has a symbol for each one that the mapping names, and for every import it adds to a warning what
the mapping says about the import. -/
theorem addendum_mirrors_settings (hkeys : WellKeyed data) :
    ((∃ e, ofSettings data = .error e) ↔ Misplaced data) ∧
      ∀ table, ofSettings data = .ok table →
        table.size = named data ∧
          ∀ (c : Clause) (s : Selector), table.addendum c s = notice data c.qualifier s := by
  constructor
  · have hread := ofSettings_ok_iff.trans (readable_iff hkeys)
    cases hdata : ofSettings data with
    | ok table =>
      rw [hdata] at hread
      have hplaced := hread.1 ⟨table, rfl⟩
      simp [hplaced]
    | error e =>
      rw [hdata] at hread
      have hmisplaced : Misplaced data := by
        by_contra hplaced
        obtain ⟨table, h⟩ := hread.2 hplaced
        cases h
      simp [hmisplaced]
  · intro table h
    exact ⟨size_eq_named hkeys h, addendum_eq_notice hkeys h⟩

/-- A deprecated qualifier, of which one name is a term that is not deprecated and a type that
is. -/
def sortingSettings : Value :=
  .map [(.ofString "scala.util", .map [
    (.ofString "symbol", .map [(.ofString "kind", .ofString "object")]),
    (.ofString "members", .map [
      (.ofString "Sorting", .map [(.ofString "deprecated", .bool false)])]),
    (.ofString "types", .map [
      (.ofString "Sorting", .map [(.ofString "message", .ofString "gone")])])])]

theorem wellKeyed_sortingSettings : WellKeyed sortingSettings where
  qualifiers := ⟨by decide, by decide⟩
  sections := by
    intro e he isType
    obtain rfl := List.mem_singleton.1 he
    cases isType with
    | false => exact ⟨by decide, by decide⟩
    | true => exact ⟨by decide, by decide⟩

/-- Of the three symbols the type is named in a warning about the name, and the qualifier in one
about a wildcard. -/
theorem sortingSettings_addenda :
    WellKeyed sortingSettings ∧ ∃ table, ofSettings sortingSettings = .ok table ∧
      table.size = 3 ∧
      ∀ (id : Int) (selectors : List Selector) (span : Option Span) (place : Int),
        table.addendum ⟨id, "scala.util".toList, selectors, span⟩
            ⟨"Sorting".toList, place, none, false⟩ =
          " of deprecated class Sorting: gone".toList ∧
        table.addendum ⟨id, "scala.util".toList, selectors, span⟩ ⟨"_".toList, place, none, true⟩ =
          " from deprecated object scala.util".toList := by
  obtain ⟨-, hmirrors⟩ := addendum_mirrors_settings wellKeyed_sortingSettings
  obtain ⟨hsize, haddendum⟩ := hmirrors _ rfl
  refine ⟨wellKeyed_sortingSettings, _, rfl, hsize, fun id selectors span place => ⟨?_, ?_⟩⟩
  · rw [haddendum]
    rfl
  · rw [haddendum]
    rfl

end DeprecationTable

end UnusedImports
