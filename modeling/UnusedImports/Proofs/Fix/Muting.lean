import UnusedImports.Proofs.Fix.Collision

/-!
# Which edits of a statement get through

The warnings of some clauses may be dropped on their way, and the edits that they carry with them.
Such clauses are muted. `Fix.Forwards` says which edits get through, and it composes as
`Fix.Yields` does. Of a statement that is deleted as a whole the deletion gets through unless its
last clause is muted; of any other one the edits of the clauses that are not muted do
(`Fix.forwardedEdits`, `forwards_mendClauses`).

These are the edits for a usage in which all selectors of the muted clauses are used
(`forwardedEdits_perm`), with one exception: a muted clause is cut off if it and all clauses behind
it go, and the last of them is not muted (`Fix.CutsOff`).
-/

set_option autoImplicit false

namespace UnusedImports

/-- All names of the clause `c` stand in front of all names of the clause `d`. -/
def Clause.NamesBefore (c d : Clause) : Prop :=
  ∀ r ∈ c.selectors, ∀ s ∈ d.selectors, r.namePos < s.namePos

namespace Fix

variable {t : Text} {used used' : Usage} {muted : Clause → Bool} {es : List Entry}
  {fs : List Finding} {cs : List Clause}

/-! ## Proposals that get through -/

/-- The proposals for findings in clauses that are not muted. -/
def audible (muted : Clause → Bool) (ps : List Proposal) : List Proposal :=
  ps.filter fun p => !muted p.finding.entry.clause

/-- No attempt fails, and the edits of the proposals that get through are `es` in some order. -/
def Forwards (muted : Clause → Bool) (as : List Attempt) (es : List Edit) : Prop :=
  ∃ ps : List Proposal, as = ps.map Except.ok ∧ (Proposal.edits (audible muted ps)).Perm es

namespace Forwards

theorem nil : Forwards muted [] [] :=
  ⟨[], rfl, List.Perm.refl _⟩

theorem append {as bs : List Attempt} {es ds : List Edit} (h : Forwards muted as es)
    (h' : Forwards muted bs ds) : Forwards muted (as ++ bs) (es ++ ds) := by
  obtain ⟨ps, rfl, hes⟩ := h
  obtain ⟨qs, rfl, hds⟩ := h'
  refine ⟨ps ++ qs, by rw [List.map_append], ?_⟩
  rw [audible, List.filter_append, Proposal.edits_append]
  exact hes.append hds

theorem flatMap {α : Type} {as : α → List Attempt} {es : α → List Edit} (l : List α)
    (h : ∀ a ∈ l, Forwards muted (as a) (es a)) :
    Forwards muted (l.flatMap as) (l.flatMap es) := by
  induction l with
  | nil => exact nil
  | cons a rest ih =>
    rw [List.flatMap_cons, List.flatMap_cons]
    exact (h a List.mem_cons_self).append (ih fun b hb => h b (List.mem_cons_of_mem a hb))

end Forwards

/-- Of the findings of one clause all get through or none. -/
theorem Yields.forwards {as : List Attempt} {es : List Edit} {c : Clause} (h : Yields as fs es)
    (hfs : ∀ f ∈ fs, f.entry.clause = c) : Forwards muted as (if muted c then [] else es) := by
  obtain ⟨ps, has, rfl, hes⟩ := h
  refine ⟨ps, has, ?_⟩
  have hps : ∀ p ∈ ps, p.finding.entry.clause = c := fun p hp => hfs _ (List.mem_map_of_mem hp)
  cases hmuted : muted c with
  | true =>
    have hnone : audible muted ps = [] := by
      rw [audible, List.filter_eq_nil_iff]
      intro p hp
      simp [hps p hp, hmuted]
    rw [hnone, if_pos rfl]
    exact List.Perm.refl _
  | false =>
    have hall : audible muted ps = ps := by
      rw [audible, List.filter_eq_self]
      intro p hp
      simp [hps p hp, hmuted]
    rw [hall, if_neg Bool.false_ne_true]
    exact hes

/-- Actions that are carried by the last finding get through with it. -/
theorem forwards_carriedByLast {f : Finding} (actions : List CodeAction)
    (hlast : fs.getLast? = some f) :
    Forwards muted (carriedByLast (.ok actions) fs)
      (if muted f.entry.clause then [] else actions.map CodeAction.edit) := by
  induction fs with
  | nil => cases hlast
  | cons g rest ih =>
    cases rest with
    | nil =>
      obtain rfl : g = f := by simpa using hlast
      refine ⟨[⟨g, actions⟩], rfl, ?_⟩
      cases hmuted : muted g.entry.clause <;> simp [audible, hmuted, Proposal.edits]
    | cons k rest =>
      rw [List.getLast?_cons_cons] at hlast
      obtain ⟨ps, hps, hedits⟩ := ih hlast
      refine ⟨⟨g, []⟩ :: ps, by rw [carriedByLast, hps, List.map_cons], ?_⟩
      -- the first proposal has no edits, whether it gets through or not
      have hfirst : Proposal.edits (audible muted (⟨g, []⟩ :: ps)) =
          Proposal.edits (audible muted ps) := by
        cases hmuted : muted g.entry.clause <;> simp [audible, hmuted, Proposal.edits]
      rw [hfirst]
      exact hedits

/-! ## Statements -/

/-- The edits of a statement that get through. -/
def forwardedEdits (t : Text) (used : Usage) (muted : Clause → Bool) (cs : List Clause) :
    List Edit :=
  if cs.all used.isDead then
    if cs.getLast?.any muted then [] else statementEdits t used cs
  else ((clausePruning t used).mute fun p => muted p.1).inTurn (finalEdits t used cs) cs.zipIdx

/-- If the last clause goes and the names of the clauses stand in order, the last finding is one of
the last clause. -/
theorem exists_last_finding (hcovers : used.Covers es fs)
    (hnames : (es.map Entry.clause).Pairwise Clause.NamesBefore) {e : Entry}
    (hlast : es.getLast? = some e) (hdead : used.isDead e.clause = true) :
    ∃ f, (Finding.inOrder fs).getLast? = some f ∧ f.entry = e := by
  obtain ⟨front, rfl⟩ : ∃ front, es = front ++ [e] := List.getLast?_eq_some_iff.1 hlast
  have hmem : ∀ f, f ∈ Finding.inOrder fs ↔ f ∈ (front ++ [e]).flatMap used.findings := fun f =>
    ((Finding.inOrder_perm fs).trans hcovers.perm).mem_iff
  obtain ⟨g, hg⟩ := List.exists_mem_of_ne_nil _ (Usage.findings_ne_nil_of_isDead hdead)
  have hgmem : g ∈ Finding.inOrder fs :=
    (hmem g).2 (List.mem_flatMap.2 ⟨e, by simp, hg⟩)
  obtain ⟨f, hf⟩ : ∃ f, (Finding.inOrder fs).getLast? = some f :=
    ⟨_, List.getLast?_eq_some_getLast (List.ne_nil_of_mem hgmem)⟩
  refine ⟨f, hf, ?_⟩
  have hle : g.selector.namePos ≤ f.selector.namePos := by
    obtain ⟨init, hinit⟩ := List.getLast?_eq_some_iff.1 hf
    have hsorted := Sorting.pairwise_key_mergeSort (fun f : Finding => f.selector.namePos) fs
    rw [← Finding.inOrder, hinit, List.pairwise_append] at hsorted
    rw [hinit] at hgmem
    rcases List.mem_append.1 hgmem with hg | hg
    · exact hsorted.2.2 g hg f (List.mem_singleton.2 rfl)
    · rw [List.mem_singleton.1 hg]
  -- the names of any other clause stand in front of those of the last one
  obtain ⟨d, hd, hfd⟩ := List.mem_flatMap.1 ((hmem f).1 (List.mem_of_getLast? hf))
  obtain ⟨hfmem, hfe⟩ := Usage.mem_findings.1 hfd
  obtain ⟨hgsel, -⟩ := Usage.mem_findings.1 hg
  rw [hfe]
  rcases List.mem_append.1 hd with hd | hd
  · rw [List.map_append, List.pairwise_append] at hnames
    have hlt := hnames.2.2 d.clause (List.mem_map_of_mem hd) e.clause (by simp)
      f.selector (List.mem_filter.1 hfmem).1 g.selector (List.mem_filter.1 hgsel).1
    omega
  · exact List.mem_singleton.1 hd

/-- What gets through when the clauses are mended from a place on. -/
theorem forwards_flatMap_mendClause (hcovers : used.Covers es fs) (hids : (clauseIds es).Nodup)
    (hsel : ∀ e ∈ es, e.clause.selectors.Nodup)
    (hlive : (es.map Entry.clause).all used.isDead = false) (front rest : List Entry)
    (hes : es = front ++ rest) :
    Forwards muted
      (((rest.map Entry.clause).zipIdx front.length).flatMap fun (c, place) =>
        mendClause t (es.map Entry.clause) (deadOf used (es.map Entry.clause)) fs c place)
      (((clausePruning t used).mute fun p => muted p.1).inTurn
        (finalEdits t used (es.map Entry.clause))
        ((rest.map Entry.clause).zipIdx front.length)) := by
  -- the front grows, because a clause is mended at its place in the whole statement
  induction rest generalizing front with
  | nil => exact Forwards.nil
  | cons e rest ih =>
    have hrest := ih (front ++ [e]) (by rw [hes, List.append_assoc, List.singleton_append])
    rw [List.length_append, List.length_singleton] at hrest
    have hclause := yields_mendClause (t := t) hcovers hids hsel hlive hes
    have hfindings : ∀ f ∈ Finding.inOrder (used.findings e), f.entry.clause = e.clause := by
      intro f hf
      rw [(Usage.mem_findings.1 ((Finding.inOrder_perm _).mem_iff.1 hf)).2]
    rw [List.map_cons, List.zipIdx_cons, List.flatMap_cons, Pruning.inTurn_cons, Pruning.turn_mute]
    exact (hclause.forwards hfindings).append hrest

/-- What gets through when the clauses of a statement are mended. -/
theorem forwards_mendClauses (hcovers : used.Covers es fs) (hids : (clauseIds es).Nodup)
    (hsel : ∀ e ∈ es, e.clause.selectors.Nodup) (hes : es ≠ [])
    (hnames : (es.map Entry.clause).Pairwise Clause.NamesBefore) :
    Forwards muted (mendClauses t (es.map Entry.clause) fs)
      (forwardedEdits t used muted (es.map Entry.clause)) := by
  rw [mendClauses, forwardedEdits, deadIds_eq hcovers hids hsel]
  by_cases hall : (es.map Entry.clause).all used.isDead = true
  · -- nothing stays, and the deletion of the statement comes with the last finding
    obtain ⟨e, hlast⟩ : ∃ e, es.getLast? = some e := ⟨_, List.getLast?_eq_some_getLast hes⟩
    have hedead : used.isDead e.clause = true :=
      List.all_eq_true.1 hall _ (List.mem_map_of_mem (List.mem_of_getLast? hlast))
    obtain ⟨f, hf, rfl⟩ := exists_last_finding hcovers hnames hlast hedead
    simp only [length_deadOf_eq_iff.2 hall, if_true, hall, statementEdits, List.getLast?_map, hlast,
      Option.map_some, Option.any_some]
    obtain ⟨d, rest, rfl⟩ := List.exists_cons_of_ne_nil hes
    rw [removeStatement]
    simp only [List.map_cons, Span.extent]
    exact forwards_carriedByLast _ hf
  · have hlive : (es.map Entry.clause).all used.isDead = false := by simpa using hall
    simp only [mt length_deadOf_eq_iff.1 hall, if_false, hall, Bool.false_eq_true]
    have hforwards : Forwards muted _ _ :=
      forwards_flatMap_mendClause (t := t) hcovers hids hsel hlive [] es rfl
    rwa [List.length_nil] at hforwards

/-! ## Muted clauses count as used -/

/-- A muted clause is cut off: it and all clauses behind it go, and the last of them is not
muted. -/
def CutsOff (used : Usage) (muted : Clause → Bool) (cs : List Clause) : Prop :=
  ∃ front c back last, cs = front ++ c :: back ∧ muted c = true ∧
    (∀ d ∈ c :: back, used.isDead d = true) ∧ cs.getLast? = some last ∧ muted last = false

/-- The clauses of a statement that stay because warnings are dropped: the muted ones, and all
clauses of a statement that would go as a whole if its last clause were not muted. -/
def spared (used : Usage) (muted : Clause → Bool) (cs : List Clause) : List Clause :=
  if cs.all used.isDead && cs.getLast?.any muted then cs else cs.filter muted

theorem mem_of_mem_spared {c : Clause} (h : c ∈ spared used muted cs) : c ∈ cs := by
  rw [spared] at h
  split at h
  · exact h
  · exact (List.mem_filter.1 h).1

theorem mem_spared_of_muted {c : Clause} (hc : c ∈ cs) (hmuted : muted c = true) :
    c ∈ spared used muted cs := by
  rw [spared]
  split
  · exact hc
  · exact List.mem_filter.2 ⟨hc, hmuted⟩

/-- Leaving muted clauses alone is pruning with a usage in which they are used. -/
theorem clausePruning_agrees {p : Clause × Nat}
    (hmuted : muted p.1 = true → used'.unused p.1 = [])
    (hsame : muted p.1 = false → used' p.1.id = used p.1.id) :
    Pruning.Agrees (clausePruning t used') ((clausePruning t used).mute fun q => muted q.1) id
      p := by
  constructor
  · cases hm : muted p.1 with
    | true =>
      simp [clausePruning, Pruning.mute, hm, Usage.isDead_of_unused_eq_nil (hmuted hm)]
    | false =>
      simp [clausePruning, Pruning.mute, hm, Usage.isDead_congr (hsame hm)]
  · cases hm : muted p.1 with
    | true => simp [clausePruning, Pruning.mute, hm, clauseEdits, hmuted hm]
    | false =>
      have hpruning : selectorPruning t used' p.1 = selectorPruning t used p.1 := by
        rw [selectorPruning, selectorPruning, Usage.isUnused_congr (hsame hm)]
      simp [clausePruning, Pruning.mute, hm, clauseEdits, Usage.unused_congr (hsame hm),
        Usage.kept_congr (hsame hm), hpruning]
  · exact fun _ => rfl
  · exact fun _ => rfl
  · exact fun _ => rfl

/-- If a statement would go as a whole and its last clause is not muted, no clause is muted unless
it is cut off. -/
theorem muted_eq_false (hcut : ¬ CutsOff used muted cs) (hall : cs.all used.isDead = true)
    (hlast : cs.getLast?.any muted = false) : ∀ c ∈ cs, muted c = false := by
  intro c hc
  by_contra hmuted
  obtain ⟨front, back, rfl⟩ := List.append_of_mem hc
  obtain ⟨last, hlast'⟩ : ∃ last, (front ++ c :: back).getLast? = some last :=
    ⟨_, List.getLast?_eq_some_getLast (by simp)⟩
  rw [hlast', Option.any_some] at hlast
  refine hcut ⟨front, c, back, last, rfl, by simpa using hmuted, fun d hd => ?_, hlast', hlast⟩
  exact List.all_eq_true.1 hall d (List.mem_append_right front hd)

/-- If no muted clause is cut off, and behind a clause there are only clauses that go and are not
muted, then the clause stays of its own accord if it stays at all. -/
theorem isDead_eq_false_of_not_cutsOff (hcut : ¬ CutsOff used muted cs) {front back : List Clause}
    {c : Clause} (hcs : cs = front ++ c :: back) (hback : back ≠ [])
    (hstays : muted c = true ∨ used.isDead c = false)
    (htail : ∀ d ∈ back, muted d = false ∧ used.isDead d = true) : used.isDead c = false := by
  rcases hstays with hmuted | halive
  · by_contra hdead
    obtain ⟨last, hlast⟩ : ∃ last, back.getLast? = some last :=
      ⟨_, List.getLast?_eq_some_getLast hback⟩
    refine hcut ⟨front, c, back, last, hcs, hmuted, ?_, ?_, ?_⟩
    · intro d hd
      rcases List.mem_cons.1 hd with rfl | hd
      · simpa using hdead
      · exact (htail d hd).2
    · rw [hcs, List.getLast?_append, List.getLast?_cons, hlast]
      rfl
    · exact (htail last (List.mem_of_getLast? hlast)).1
  · exact halive

/-- If something stays of a statement, then also if the muted clauses are used. -/
theorem all_isDead_eq_false (hlive : cs.all used.isDead = false)
    (hmuted : ∀ c ∈ cs, muted c = true → used'.unused c = [])
    (hsame : ∀ c ∈ cs, muted c = false → used' c.id = used c.id) :
    cs.all used'.isDead = false := by
  obtain ⟨c, hc, halive⟩ := List.all_eq_false.1 hlive
  refine List.all_eq_false.2 ⟨c, hc, ?_⟩
  cases hm : muted c with
  | true => simp [Usage.isDead_of_unused_eq_nil (hmuted c hc hm)]
  | false => rwa [Usage.isDead_congr (hsame c hc hm)]

/-- If something stays of a statement and no muted clause is cut off, the edits that get through are
those for a usage in which the muted clauses are used. -/
theorem forwardedEdits_perm_of_live (hids : (cs.map Clause.id).Nodup)
    (hcut : ¬ CutsOff used muted cs) (hlive : cs.all used.isDead = false)
    (hmuted : ∀ c ∈ cs, muted c = true → used'.unused c = [])
    (hsame : ∀ c ∈ cs, muted c = false → used' c.id = used c.id) :
    (forwardedEdits t used muted cs).Perm (statementEdits t used' cs) := by
  have hagrees : ∀ p ∈ cs.zipIdx, Pruning.Agrees (clausePruning t used')
      ((clausePruning t used).mute fun q => muted q.1) id p := by
    intro p hp
    have hmem := List.fst_mem_of_mem_zipIdx hp
    exact clausePruning_agrees (hmuted p.1 hmem) (hsame p.1 hmem)
  rw [forwardedEdits, hlive, if_neg Bool.false_ne_true,
    statementEdits_of_live (all_isDead_eq_false hlive hmuted hsame), Pruning.edits_map hagrees,
    List.map_id]
  refine Pruning.inTurn_perm_edits ?_ fun front kept next tail p hzip hkept htail _ => ?_
  · obtain ⟨p, hp, halive⟩ := List.any_eq_true.1 (any_alive_zipIdx (t := t) hlive)
    exact List.any_eq_true.2 ⟨p, hp, by simp [Pruning.mute, halive]⟩
  · -- the clause in front of the tail has to stay without the muting, for its comma goes
    have htail' : ∀ q ∈ next :: tail, muted q.1 = false ∧ used.isDead q.1 = true := by
      intro q hq
      simpa [clausePruning, Pruning.mute] using htail q hq
    have hclauses : cs = front.map Prod.fst ++ kept.1 :: (next :: tail).map Prod.fst := by
      rw [← List.zipIdx_map_fst 0 cs, hzip, List.map_append, List.map_cons]
    have hdead : used.isDead kept.1 = false := by
      refine isDead_eq_false_of_not_cutsOff hcut hclauses (by simp) ?_ fun d hd => ?_
      · simpa [clausePruning, Pruning.mute, or_comm] using hkept
      · obtain ⟨q, hq, rfl⟩ := List.mem_map.1 hd
        exact htail' q hq
    exact finalEdits_eq hids hzip hdead (fun q hq => (htail' q hq).2) p

/-- If no muted clause is cut off, the edits that get through are those for a usage in which the
clauses that stay are used. -/
theorem forwardedEdits_perm (hids : (cs.map Clause.id).Nodup) (hcut : ¬ CutsOff used muted cs)
    (hspared : ∀ c ∈ spared used muted cs, used'.unused c = [])
    (hsame : ∀ c ∈ cs, c ∉ spared used muted cs → used' c.id = used c.id) :
    (forwardedEdits t used muted cs).Perm (statementEdits t used' cs) := by
  cases hall : cs.all used.isDead with
  | false =>
    have hfilter : spared used muted cs = cs.filter muted := by
      rw [spared, hall, Bool.false_and, if_neg Bool.false_ne_true]
    rw [hfilter] at hspared hsame
    exact forwardedEdits_perm_of_live hids hcut hall
      (fun c hc hm => hspared c (List.mem_filter.2 ⟨hc, hm⟩))
      fun c hc hm => hsame c hc fun hin => by simp [hm] at hin
  | true =>
    rw [forwardedEdits, if_pos hall]
    cases hlast : cs.getLast?.any muted with
    | true =>
      -- nothing gets through, and all clauses stay
      rw [if_pos rfl, statementEdits_eq_nil fun c hc => hspared c ?_]
      rwa [spared, hall, hlast, Bool.and_self, if_pos rfl]
    | false =>
      -- no clause is muted, so none stays
      have hmuted := muted_eq_false hcut hall hlast
      have hsame' : ∀ c ∈ cs, used' c.id = used c.id := by
        intro c hc
        refine hsame c hc fun hmem => ?_
        rw [spared, hlast, Bool.and_false, if_neg Bool.false_ne_true, List.mem_filter,
          hmuted c hc] at hmem
        exact Bool.false_ne_true hmem.2
      have hall' : cs.all used'.isDead = true := by
        rw [List.all_eq_true] at hall ⊢
        intro c hc
        rw [Usage.isDead_congr (hsame' c hc), hall c hc]
      rw [if_neg Bool.false_ne_true, statementEdits, statementEdits, if_pos hall, if_pos hall']

/-- A statement from which nothing goes has no edits that get through. -/
theorem forwardedEdits_eq_nil (h : ∀ c ∈ cs, used.unused c = []) :
    forwardedEdits t used muted cs = [] := by
  rw [forwardedEdits, statementEdits_eq_nil h, ite_self]
  split
  · rfl
  · refine Pruning.inTurn_eq_nil ?_
    rintro ⟨c, place⟩ hc
    have hunused := h c (List.fst_mem_of_mem_zipIdx hc)
    simp [clausePruning, Pruning.mute, Usage.isDead_of_unused_eq_nil hunused, clauseEdits, hunused]

/-! ## One clause -/

/-- If all members but one are left alone, and that one stays, its own edits are all there are. -/
theorem Pruning.inTurn_mute_append_cons {α : Type} {p : Pruning α} {m : α → Bool}
    {final : α → List Edit} {a : α} (ha : p.alive a = true) (hloud : m a = false)
    (front rest : List α) (hmuted : ∀ b ∈ front ++ rest, m b = true) :
    (p.mute m).inTurn final (front ++ a :: rest) = p.own a := by
  induction front with
  | nil =>
    have hrest : (p.mute m).inTurn final rest = [] := by
      refine inTurn_eq_nil fun b hb => ?_
      simp [mute, hmuted b hb]
    rw [List.nil_append, inTurn_cons, turn_mute, hloud, if_neg Bool.false_ne_true,
      turn_of_alive ha, hrest, List.append_nil]
  | cons b front ih =>
    rw [List.cons_append, inTurn_cons, turn_mute, hmuted b List.mem_cons_self, if_pos rfl,
      List.nil_append]
    exact ih fun d hd => hmuted d (List.mem_cons_of_mem b hd)

/-- For a clause of which something stays, mending a statement proposes the edits of the clause. -/
theorem exists_forwards_statement (hcovers : used.Covers es fs) (hids : (clauseIds es).Nodup)
    (hsel : ∀ e ∈ es, e.clause.selectors.Nodup) (hspan : ∀ e ∈ es, e.clause.span.isSome = true)
    {e : Entry} (he : e ∈ es) (hunused : used.unused e.clause ≠ [])
    (halive : used.isDead e.clause = false) :
    ∃ place, Forwards (fun c => c.id ≠ e.clause.id) (statement t (es.map Entry.clause) fs)
      (clauseEdits t used place e.clause) := by
  have hperm := Entry.inOrder_perm es
  have hids' : (clauseIds (Entry.inOrder es)).Nodup := (hperm.map _).nodup_iff.2 hids
  have hcovers' : used.Covers (Entry.inOrder es) fs := hcovers.of_perm hperm.symm
  have hsel' : ∀ d ∈ Entry.inOrder es, d.clause.selectors.Nodup := fun d hd =>
    hsel d (Entry.mem_inOrder.1 hd)
  have hfs : fs ≠ [] := by
    obtain ⟨s, hs⟩ := List.exists_mem_of_ne_nil _ hunused
    have hfound : (⟨s, e⟩ : Finding) ∈ es.flatMap used.findings :=
      List.mem_flatMap.2 ⟨e, he, Usage.mem_findings.2 ⟨hs, rfl⟩⟩
    exact List.ne_nil_of_mem (hcovers.perm.mem_iff.2 hfound)
  have hlive : ((Entry.inOrder es).map Entry.clause).all used.isDead = false :=
    List.all_eq_false.2 ⟨e.clause, List.mem_map_of_mem (Entry.mem_inOrder.2 he), by simp [halive]⟩
  -- the clause stands somewhere in the order of the source, and no other clause has its id
  obtain ⟨front, rest, hsplit⟩ := List.append_of_mem (Entry.mem_inOrder.2 he)
  have hothers : ∀ d ∈ front ++ rest, d.clause.id ≠ e.clause.id := by
    rw [clauseIds, hsplit, List.map_append, List.map_cons, List.nodup_middle, List.nodup_cons,
      ← List.map_append] at hids'
    exact fun d hd heq => hids'.1 (heq ▸ List.mem_map_of_mem hd)
  have hzip : ((Entry.inOrder es).map Entry.clause).zipIdx =
      (front.map Entry.clause).zipIdx ++ (e.clause, front.length) ::
        (rest.map Entry.clause).zipIdx (front.length + 1) := by
    rw [hsplit, List.map_append, List.map_cons, List.zipIdx_append, List.zipIdx_cons,
      List.length_map, Nat.zero_add]
  have hmuted : ∀ p ∈ (front.map Entry.clause).zipIdx ++
      (rest.map Entry.clause).zipIdx (front.length + 1), decide (p.1.id ≠ e.clause.id) = true := by
    intro p hp
    have hclause : p.1 ∈ (front ++ rest).map Entry.clause := by
      rw [List.map_append]
      rcases List.mem_append.1 hp with hp | hp
      · exact List.mem_append_left _ (List.fst_mem_of_mem_zipIdx hp)
      · exact List.mem_append_right _ (List.fst_mem_of_mem_zipIdx hp)
    obtain ⟨d, hd, hdclause⟩ := List.mem_map.1 hclause
    exact decide_eq_true (hdclause ▸ hothers d hd)
  have hforwards : Forwards (fun c => c.id ≠ e.clause.id) _ _ :=
    forwards_flatMap_mendClause (t := t) hcovers' hids' hsel' hlive [] (Entry.inOrder es) rfl
  rw [List.length_nil, hzip, Pruning.inTurn_mute_append_cons (by simp [clausePruning, halive])
    (by simp) _ _ hmuted, ← hzip] at hforwards
  refine ⟨front.length, ?_⟩
  rw [statement_map_clause hfs hspan, mendClauses, deadIds_eq hcovers' hids' hsel']
  simp only [mt length_deadOf_eq_iff.1 (Bool.eq_false_iff.1 hlive), if_false]
  exact hforwards

/-! ## Units -/

/-- What gets through of a unit. -/
theorem forwards_fixAttempts (hcovers : used.Covers es fs) (hids : (clauseIds es).Nodup)
    (hsel : ∀ e ∈ es, e.clause.selectors.Nodup) (hspan : ∀ e ∈ es, e.clause.span.isSome = true)
    (hnames : ∀ i ∈ statementIds fs, (clausesOf es i).Pairwise Clause.NamesBefore) :
    Forwards muted (fixAttempts t es fs) ((statementIds fs).flatMap fun i =>
      forwardedEdits t used muted (clausesOf es i)) := by
  refine Forwards.flatMap _ fun i hi => ?_
  obtain ⟨-, hes, hstatement⟩ := statement_eq_mendClauses (t := t) hcovers hspan hi
  rw [hstatement]
  exact forwards_mendClauses (covers_statement hcovers i) (nodup_clauseIds_statementEntries hids i)
    (fun e he => hsel e (mem_statementEntries.1 he).1) hes (hnames i hi)

end Fix

end UnusedImports
