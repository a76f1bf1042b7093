import UnusedImports.Proofs.Yaml.Pages
import UnusedImports.Proofs.Yaml.Tokens
import UnusedImports.Yaml

/-!
# A document is read to its end

The readers of the parts of a document take sound tokens only (`Reader.Takes`, `reads_node`), and
nothing may stand behind the content. So a document that has a value has no token that stands for a
failure (`Document.sound_of_ofTokens`), and its bytes are UTF-8 (`decode?_isSome_of_read`).

Bytes that are not UTF-8 have no value. If they fill at most one block, that is what is wrong with
them, whatever else they contain (`read_of_not_utf8`).
-/

set_option autoImplicit false

namespace UnusedImports.Yaml

namespace Document

variable {α β : Type} {r mid next : Reader} {steps : Nat}

/-! ## Taking tokens -/

/-- From the beginning of some tokens to the rest of them, all tokens are sound. -/
inductive Taken : List Token → List Token → Prop where
  | refl (tokens : List Token) : Taken tokens tokens
  | cons {t : Token} {tokens rest : List Token} (ht : t.IsSound) (h : Taken tokens rest) :
      Taken (t :: tokens) rest

namespace Taken

variable {tokens more rest : List Token}

theorem trans (h : Taken tokens more) (h' : Taken more rest) : Taken tokens rest := by
  induction h with
  | refl => exact h'
  | cons ht _ ih => exact cons ht (ih h')

/-- If no token is left, all are sound. -/
theorem sound (h : Taken tokens []) : ∀ t ∈ tokens, t.IsSound := by
  generalize hrest : ([] : List Token) = rest at h
  induction h with
  | refl =>
    subst hrest
    exact List.forall_mem_nil _
  | cons ht _ ih => exact List.forall_mem_cons.2 ⟨ht, ih hrest⟩

end Taken

theorem unexpected_ne_ok (r : Reader) {a : α} : unexpected r ≠ .ok a := by
  rw [unexpected]
  intro h
  split at h <;> cases h

/-- On the way from one reader to another, sound tokens were taken. -/
def Reader.Takes (r next : Reader) : Prop :=
  Taken r.tokens next.tokens

namespace Reader.Takes

theorem of_tokens_eq (h : next.tokens = r.tokens) : r.Takes next := by
  rw [Takes, h]
  exact .refl _

theorem refl (r : Reader) : r.Takes r :=
  of_tokens_eq rfl

theorem trans (h : r.Takes mid) (h' : mid.Takes next) : r.Takes next :=
  Taken.trans h h'

/-- One sound token is taken. -/
theorem one {t : Token} (h : r.tokens = t :: next.tokens) (ht : t.IsSound) : r.Takes next := by
  rw [Takes, h]
  exact .cons ht (.refl _)

theorem advance {t : Token} {rest : List Token} (h : r.tokens = t :: rest) (ht : t.IsSound) :
    r.Takes r.advance := by
  apply one _ ht
  rw [Reader.advance, h]
  rfl

/-- The token `t` is taken, if it is the next one. -/
theorem of_sees {t : Token} (ht : t.IsSound) (h : r.sees (· = t) = true) :
    r.Takes r.advance := by
  rw [sees] at h
  cases htokens : r.tokens with
  | nil => simp [htokens] at h
  | cons u rest =>
    rw [htokens] at h
    have hu : u = t := of_decide_eq_true h
    exact advance htokens (hu ▸ ht)

theorem of_take {t : Token} (ht : t.IsSound) (h : r.take t = .ok next) : r.Takes next := by
  rw [take] at h
  split at h
  · rename_i hsees
    cases h
    exact of_sees ht hsees
  · exact absurd h (unexpected_ne_ok r)

end Reader.Takes

/-- A reader that succeeds takes sound tokens. -/
def Reader.Reads (r : Reader) (x : Except Failure (α × Reader)) : Prop :=
  ∀ a next, x = .ok (a, next) → r.Takes next

namespace Reader.Reads

variable {x y : Except Failure (α × Reader)}

theorem error {f : Failure} : r.Reads (.error f : Except Failure (α × Reader)) := by
  intro a next h
  cases h

theorem ok {a : α} (h : r.Takes next) : r.Reads (.ok (a, next)) := by
  intro _ _ hok
  cases hok
  exact h

theorem ite {p : Prop} [Decidable p] (hx : p → r.Reads x) (hy : r.Reads y) :
    r.Reads (if p then x else y) := by
  split
  · rename_i hp
    exact hx hp
  · exact hy

/-- What is read behind tokens that were taken. -/
theorem after (hmid : r.Takes mid) (h : mid.Reads x) : r.Reads x := by
  intro a next hok
  exact hmid.trans (h a next hok)

/-- One reader behind the other. -/
theorem bind {g : α × Reader → Except Failure (β × Reader)} (hx : r.Reads x)
    (hg : ∀ a (mid : Reader), mid.Reads (g (a, mid))) : r.Reads (x >>= g) := by
  cases x with
  | error f => exact error
  | ok read => exact after (hx read.1 read.2 rfl) (hg read.1 read.2)

/-- What is made of the parts read takes their tokens. -/
theorem map (hx : r.Reads x) (f : α → β) :
    r.Reads (do
      let (a, r) ← x
      return (f a, r)) := by
  apply hx.bind
  intro a mid
  exact ok (.refl mid)

/-- A reader behind something that takes no token by itself. -/
theorem check {x : Except Failure α} {g : α → Except Failure (β × Reader)}
    (hg : ∀ a, x = .ok a → r.Reads (g a)) : r.Reads (x >>= g) := by
  cases x with
  | error f => exact error
  | ok a => exact hg a rfl

end Reader.Reads

open Reader

/-! ## Parts of nodes -/

/-- The anchor and the tag in front of a node. -/
theorem reads_properties (r : Reader) : r.Reads (properties r) := by
  rw [properties]
  split
  · rename_i htokens
    apply Reads.ok
    rw [Takes, htokens]
    exact .cons trivial (.cons trivial (.refl _))
  · rename_i htokens
    apply Reads.ok
    rw [Takes, htokens]
    exact .cons trivial (.cons trivial (.refl _))
  · -- the token behind a single property is only looked at
    rename_i htokens
    apply Reads.check
    intro _ _
    exact .ok (.one htokens trivial)
  · rename_i htokens
    apply Reads.check
    intro _ _
    exact .ok (.one htokens trivial)
  · exact .ok (.refl r)

theorem reads_bare (p : Properties) (given : Option Tag) (r : Reader) :
    r.Reads (bare p given r) := by
  rw [bare]
  apply Reads.ite
  · intro _
    exact .ok (.of_tokens_eq rfl)
  · intro a next h
    exact absurd h (unexpected_ne_ok r)

theorem reads_openCollection (r : Reader) (anchor : Option Text) (tag : Tag) (first : Content) :
    r.Reads (r.openCollection anchor tag first) := by
  rw [openCollection]
  apply Reads.check
  intro inner hinner
  apply Reads.ok
  apply Takes.of_tokens_eq
  rw [enter] at hinner
  split at hinner
  · cases hinner
  · cases hinner
    rfl

/-- A collection takes the tokens of its parts. -/
theorem reads_collection {parts : Reader → Except Failure (List α × Reader)}
    (hparts : ∀ r : Reader, r.Reads (parts r)) (r : Reader) (anchor : Option Text) (tag : Tag)
    (first : Content) (content : List α → Content) :
    r.Reads (do
      let (id, r) ← r.openCollection anchor tag first
      let (found, r) ← parts r
      return r.closeCollection id (content found)) := by
  apply (reads_openCollection r anchor tag first).bind
  intro id r
  apply (hparts r).bind
  intro found r
  exact .ok (.of_tokens_eq rfl)

/-! ## The readers -/

/-- All readers with a number of steps take sound tokens. -/
structure Reading (steps : Nat) : Prop where
  nodeUnless (inBlock indentless : Bool) (stop : Token → Bool) (r : Reader) :
    r.Reads (nodeUnless steps inBlock indentless stop r)
  node (inBlock indentless : Bool) (r : Reader) : r.Reads (node steps inBlock indentless r)
  blockItems (indentless : Bool) (r : Reader) : r.Reads (blockItems steps indentless r)
  blockEntries (r : Reader) : r.Reads (blockEntries steps r)
  blockValue (r : Reader) : r.Reads (blockValue steps r)
  flowItems (isFirst : Bool) (r : Reader) : r.Reads (flowItems steps isFirst r)
  flowPair (r : Reader) : r.Reads (flowPair steps r)
  flowEntries (isFirst : Bool) (r : Reader) : r.Reads (flowEntries steps isFirst r)

section Step

variable (ih : Reading steps)
include ih

theorem reads_nodeUnless (inBlock indentless : Bool) (stop : Token → Bool) (r : Reader) :
    r.Reads (nodeUnless (steps + 1) inBlock indentless stop r) := by
  rw [nodeUnless]
  exact .ite (fun _ => .ok (.of_tokens_eq rfl)) (ih.node inBlock indentless r)

/-- The token `t`, and the node behind it. -/
theorem reads_markedNode (t : Token) (ht : t.IsSound) (inBlock indentless : Bool)
    (stop : Token → Bool) (r : Reader) (h : r.sees (· = t) = true) :
    r.Reads (nodeUnless steps inBlock indentless stop r.advance) :=
  .after (.of_sees ht h) (ih.nodeUnless inBlock indentless stop r.advance)

theorem reads_node (inBlock indentless : Bool) (r : Reader) :
    r.Reads (node (steps + 1) inBlock indentless r) := by
  rw [node]
  split
  · rename_i a rest htokens
    apply Reads.check
    intro id _
    exact .ok (.advance htokens trivial)
  · apply (reads_properties r).bind
    intro p r
    -- what is checked behind the anchor and the tag takes no token
    apply Reads.check
    intro given _
    apply Reads.check
    intro _ _
    apply Reads.check
    intro _ _
    split
    · rename_i htokens
      exact .ok (.trans (.advance htokens trivial) (.of_tokens_eq rfl))
    · rename_i rest htokens
      exact .after (.advance htokens trivial) (reads_collection (ih.flowItems true) _ _ _ _ _)
    · rename_i rest htokens
      exact .after (.advance htokens trivial) (reads_collection (ih.flowEntries true) _ _ _ _ _)
    · apply Reads.ite
      · intro _
        exact reads_collection (ih.blockItems true) _ _ _ _ _
      · exact reads_bare p given r
    · rename_i rest htokens
      apply Reads.ite
      · intro _
        exact .after (.advance htokens trivial) (reads_collection (ih.blockItems false) _ _ _ _ _)
      · exact reads_bare p given r
    · rename_i rest htokens
      apply Reads.ite
      · intro _
        exact .after (.advance htokens trivial) (reads_collection ih.blockEntries _ _ _ _ _)
      · exact reads_bare p given r
    · exact reads_bare p given r

theorem reads_blockItems (indentless : Bool) (r : Reader) :
    r.Reads (blockItems (steps + 1) indentless r) := by
  rw [blockItems]
  apply Reads.ite
  · intro hsees
    apply (reads_markedNode ih .blockEntry trivial _ _ _ r hsees).bind
    intro item r
    exact (ih.blockItems indentless r).map (item :: ·)
  · -- a sequence without an indentation of its own leaves the token that ends it
    apply Reads.ite
    · intro _
      apply Reads.check
      intro _ _
      exact .ok (.refl r)
    · apply Reads.check
      intro next hnext
      exact .ok (.of_take (t := .blockEnd) trivial hnext)

theorem reads_blockEntries (r : Reader) : r.Reads (blockEntries (steps + 1) r) := by
  rw [blockEntries]
  apply Reads.ite
  · intro hsees
    apply (reads_markedNode ih .key trivial _ _ _ r hsees).bind
    intro k r
    apply (ih.blockValue r).bind
    intro v r
    exact (ih.blockEntries r).map ((k, v) :: ·)
  · apply Reads.check
    intro next hnext
    exact .ok (.of_take (t := .blockEnd) trivial hnext)

theorem reads_blockValue (r : Reader) : r.Reads (blockValue (steps + 1) r) := by
  rw [blockValue]
  apply Reads.ite
  · exact reads_markedNode ih .value trivial _ _ _ r
  · apply Reads.check
    intro _ _
    exact .ok (.of_tokens_eq rfl)

omit ih in
/-- A comma stands in front of every part but the first one. -/
theorem reads_comma {rest : Reader → Except Failure (α × Reader)}
    (hrest : ∀ r : Reader, r.Reads (rest r)) (isFirst : Bool) (r : Reader) :
    r.Reads (if isFirst then pure r >>= rest else r.take .flowEntry >>= rest) := by
  apply Reads.ite
  · intro _
    exact hrest r
  · apply Reads.check
    intro mid hmid
    exact .after (.of_take (t := .flowEntry) trivial hmid) (hrest mid)

theorem reads_flowItems (isFirst : Bool) (r : Reader) :
    r.Reads (flowItems (steps + 1) isFirst r) := by
  have hend : ∀ r : Reader, r.sees (· = .flowSequenceEnd) = true → r.Takes r.advance :=
    fun _ => .of_sees trivial
  rw [flowItems]
  apply Reads.ite
  · intro hsees
    exact .ok (hend r hsees)
  · refine reads_comma (fun r => ?_) isFirst r
    -- behind the comma stands an item, or the sequence is over
    apply Reads.ite
    · intro hsees
      exact .ok (hend r hsees)
    · apply Reads.ite
      · intro hsees
        apply Reads.after (.of_sees (t := .key) trivial hsees)
        apply (ih.flowPair _).bind
        intro item r
        exact (ih.flowItems false r).map (item :: ·)
      · apply (ih.node false false r).bind
        intro item r
        exact (ih.flowItems false r).map (item :: ·)

/-- The value of an entry between brackets, if there is a mark for it. -/
theorem reads_flowValue {rest : NodeId × Reader → Except Failure (α × Reader)}
    (hrest : ∀ (v : NodeId) (r : Reader), r.Reads (rest (v, r))) {hasMark : Bool} {r : Reader}
    (hmark : hasMark = true → r.sees (· = .value) = true) (stop : Token → Bool) :
    r.Reads (do
      r.look
      if hasMark then nodeUnless steps false false stop r.advance >>= rest
        else pure r.placeEmpty >>= rest) := by
  apply Reads.check
  intro _ _
  apply Reads.ite
  · intro hsees
    exact (reads_markedNode ih .value trivial _ _ _ r (hmark hsees)).bind hrest
  · exact .after (.of_tokens_eq rfl) (hrest _ _)

theorem reads_flowPair (r : Reader) : r.Reads (flowPair (steps + 1) r) := by
  rw [flowPair]
  apply (reads_openCollection r _ _ _).bind
  intro id r
  apply (ih.nodeUnless _ _ _ r).bind
  intro k r
  refine reads_flowValue ih (fun v r => ?_) (fun h => h) _
  exact .ok (.of_tokens_eq rfl)

theorem reads_flowEntries (isFirst : Bool) (r : Reader) :
    r.Reads (flowEntries (steps + 1) isFirst r) := by
  have hend : ∀ r : Reader, r.sees (· = .flowMappingEnd) = true → r.Takes r.advance :=
    fun _ => .of_sees trivial
  rw [flowEntries]
  apply Reads.ite
  · intro hsees
    exact .ok (hend r hsees)
  · refine reads_comma (fun r => ?_) isFirst r
    apply Reads.ite
    · intro hsees
      exact .ok (hend r hsees)
    · -- only behind a mark for its key has an entry a value
      apply Reads.ite
      · intro hsees
        apply (reads_markedNode ih .key trivial _ _ _ r hsees).bind
        intro k r
        refine reads_flowValue ih (fun v r => ?_) (fun h => h) _
        exact (ih.flowEntries false r).map ((k, v) :: ·)
      · apply (ih.node false false r).bind
        intro k r
        refine reads_flowValue ih (fun v r => ?_) (fun h => absurd h Bool.false_ne_true) _
        exact (ih.flowEntries false r).map ((k, v) :: ·)

end Step

/-- The readers take sound tokens only, whatever the number of steps. -/
theorem reading (steps : Nat) : Reading steps := by
  induction steps with
  | zero => constructor <;> intros <;> exact .error
  | succ steps ih =>
    exact
      { nodeUnless := reads_nodeUnless ih
        node := reads_node ih
        blockItems := reads_blockItems ih
        blockEntries := reads_blockEntries ih
        blockValue := reads_blockValue ih
        flowItems := reads_flowItems ih
        flowPair := reads_flowPair ih
        flowEntries := reads_flowEntries ih }

/-! ## Whole documents -/

variable {tokens rest : List Token} {hasVersion : Bool} {handles found : List (Text × Text)}

/-- Directives are sound tokens. -/
theorem taken_directives (h : directives hasVersion handles tokens = .ok (found, rest)) :
    Taken tokens rest := by
  fun_induction directives hasVersion handles tokens with
  | case1 => cases h
  | case2 _ _ _ _ _ ih => exact .cons trivial (ih h)
  | case3 => cases h
  | case4 _ _ _ _ _ _ ih => exact .cons trivial (ih h)
  | case5 _ _ _ ih => exact .cons trivial (ih h)
  | case6 =>
    cases h
    exact .refl _

/-- The content of a document, with what announces it. -/
theorem reads_content (tokens : List Token) :
    (Reader.start [] tokens).Reads (content tokens) := by
  rw [content]
  apply Reads.ite
  · intro _
    apply Reads.check
    intro read hread
    have hdirectives : (Reader.start [] tokens).Takes (Reader.start read.1 read.2) :=
      taken_directives hread
    apply Reads.after hdirectives
    apply Reads.check
    intro r hr
    apply Reads.after (.of_take (t := .documentStart) trivial hr)
    apply Reads.ite
    · intro _
      exact .ok (.of_tokens_eq rfl)
    · exact (reading _).nodeUnless _ _ _ r
  · exact (reading _).node _ _ _

theorem taken_marks (tokens : List Token) :
    Taken tokens (tokens.dropWhile (· = .documentEnd)) := by
  induction tokens with
  | nil => exact .refl []
  | cons t rest ih =>
    by_cases ht : t = .documentEnd
    · rw [List.dropWhile_cons_of_pos (by simpa using ht)]
      exact .cons (ht ▸ trivial) ih
    · rw [List.dropWhile_cons_of_neg (by simpa using ht)]
      exact .refl _

/-- Behind the content only marks may stand. -/
theorem taken_of_checkEnd (h : checkEnd tokens = .ok ()) : Taken tokens [] := by
  rw [checkEnd] at h
  split at h
  · rename_i hnil
    exact hnil ▸ taken_marks tokens
  · cases hread : directives false [] (tokens.dropWhile (· = .documentEnd)) with
    | error f => simp [hread, bind, Except.bind] at h
    | ok read =>
      rw [hread] at h
      exact absurd h (unexpected_ne_ok _)

/-- A document that has a graph has sound tokens only. -/
theorem sound_of_ofTokens {d : Option Document} (h : ofTokens tokens = .ok d) :
    ∀ t ∈ tokens, t.IsSound := by
  rw [ofTokens] at h
  split at h
  · rename_i hempty
    rw [List.isEmpty_iff.1 hempty]
    exact List.forall_mem_nil _
  · cases hcontent : content tokens with
    | error f => simp [hcontent, bind, Except.bind] at h
    | ok read =>
      obtain ⟨root, r⟩ := read
      cases hend : checkEnd r.tokens with
      | error f => simp [hcontent, hend, bind, Except.bind] at h
      | ok _ =>
        have hread : Taken tokens r.tokens := reads_content tokens root r hcontent
        exact (hread.trans (taken_of_checkEnd hend)).sound

end Document

/-! ## Values of bytes -/

variable {depth : Depth} {bytes : ByteArray}

/-- Bytes that have a value are UTF-8. -/
theorem decode?_isSome_of_read {v : Value} (h : read depth bytes = .ok v) :
    (Text.decode? bytes).isSome = true := by
  rw [read] at h
  cases hdocument : Document.ofTokens (Token.ofSource (.ofBytes bytes.toList)) with
  | error f => simp [hdocument, bind, Except.bind] at h
  | ok d =>
    have hsound := Document.sound_of_ofTokens hdocument
    have hbarrier : (Source.ofBytes bytes.toList).barrier = none := by
      rw [← Option.not_isSome_iff_eq_none]
      intro hsome
      obtain ⟨t, ht, hunsound⟩ := Token.exists_unsound_of_barrier hsome
      exact hunsound (hsound t ht)
    obtain ⟨t, ht⟩ := Source.exists_octets_of_ofBytes hbarrier
    exact Text.decode?_isSome_of_octets ht

/-- Bytes that are not UTF-8 and fill at most one block are refused as such, whatever else they
contain. -/
theorem read_of_not_utf8 (hsize : bytes.size ≤ Intake.leastBlock)
    (h : Text.decode? bytes = none) : read depth bytes = .error .notUtf8 := by
  have hlength : bytes.toList.length ≤ Intake.leastBlock := by
    rw [Text.toList_eq]
    exact hsize
  have hbytes : ∀ t : Text, bytes.toList ≠ Text.octets t := by
    intro t ht
    have hsome := Text.decode?_isSome_of_octets ht
    rw [h] at hsome
    cases hsome
  rw [read, Source.ofBytes_of_not_utf8 hlength hbytes, Token.ofSource_nil]
  rfl

end UnusedImports.Yaml
