import UnusedImports.Proofs.Fix.Applicable
import UnusedImports.Proofs.Fix.Muting

/-!
# Fixes behind a suppressor

A suppressor judges each warning by its category and its owner (`Suppressor.drops`). If category
and owners can be looked up, it refuses no warning, and the collector behind it gets the warnings
that are not dropped (`Sink.receiveAll_suppressing`). All warnings of a clause have the owner of its
entry, so a suppressor mutes whole clauses (`Suppressor.mutes`), and the edits that the collector
gets of a resolution with fixes are those that get through (`Checker.edits_reported_perm`).
-/

set_option autoImplicit false

namespace UnusedImports

/-! ## Warnings behind a suppressor -/

namespace Suppressor

/-- Warnings of this category and owner are dropped. -/
def drops (s : Suppressor) (category owner : Value) : Bool :=
  match s.suppresses category owner with
  | .ok b => b
  | .error _ => false

/-- A suppressor can judge warnings whose category and owner have keys. -/
theorem suppresses_eq_ok (s : Suppressor) {category owner : Value}
    (hcategory : category.key?.isSome = true) (howner : owner.key?.isSome = true) :
    s.suppresses category owner = .ok (s.drops category owner) := by
  obtain ⟨k, hk⟩ := Option.isSome_iff_exists.1 hcategory
  obtain ⟨l, hl⟩ := Option.isSome_iff_exists.1 howner
  have hjudged : s.suppresses category owner =
      if s.categories.contains k then .ok true
      else if owner.isNull then .ok false
      else .ok (s.owners.contains l) := by
    simp only [suppresses, Value.key, hk, hl]
    rfl
  obtain ⟨b, hb⟩ : ∃ b, s.suppresses category owner = .ok b := by
    rw [hjudged]
    split
    · exact ⟨_, rfl⟩
    · split <;> exact ⟨_, rfl⟩
  rw [drops, hb]

/-- The warnings of a clause are dropped, judged by the owner of its entry. -/
def mutes (s : Suppressor) (category : Value) (es : List Entry) (c : Clause) : Bool :=
  es.any fun e => e.clause.id = c.id && s.drops category e.owner

/-- The entry of a clause decides whether it is muted. -/
theorem mutes_clause {s : Suppressor} {category : Value} {es : List Entry}
    (hids : (clauseIds es).Nodup) {e : Entry} (he : e ∈ es) :
    s.mutes category es e.clause = s.drops category e.owner := by
  rw [Bool.eq_iff_iff, mutes, List.any_eq_true]
  constructor
  · rintro ⟨f, hf, hdrops⟩
    rw [Bool.and_eq_true, decide_eq_true_eq] at hdrops
    obtain rfl : f = e := List.inj_on_of_nodup_map hids hf he hdrops.1
    exact hdrops.2
  · intro hdrops
    exact ⟨e, he, by simp [hdrops]⟩

end Suppressor

/-- Behind a suppressor that can judge all warnings a collector gets those that are not dropped. -/
theorem Sink.receiveAll_suppressing (s : Suppressor) (k : Collector) (ws : List Warning)
    (hkeys : ∀ w ∈ ws, w.category.key?.isSome = true ∧ w.owner.key?.isSome = true) :
    ((⟨k, some s⟩ : Sink).receiveAll ws).2 = none ∧
      ((⟨k, some s⟩ : Sink).receiveAll ws).1.collector.diagnostics =
        k.diagnostics ++ (ws.filter fun w => !s.drops w.category w.owner).map fun w =>
          { w with file := k.file } := by
  -- the number of dropped warnings grows, but the suppressor judges by its keys only
  induction ws generalizing s k with
  | nil => simp [Sink.receiveAll]
  | cons w rest ih =>
    have hrest := fun v hv => hkeys v (List.mem_cons_of_mem w hv)
    obtain ⟨hcategory, howner⟩ := hkeys w List.mem_cons_self
    have hjudged := s.suppresses_eq_ok hcategory howner
    cases hdrops : s.drops w.category w.owner with
    | true =>
      rw [hdrops] at hjudged
      have h := ih { s with dropped := s.dropped + 1 } k hrest
      rw [List.filter_cons_of_neg (by simp [hdrops]), receiveAll, receive]
      simp only [hjudged]
      exact h
    | false =>
      rw [hdrops] at hjudged
      have h := ih s (k.receive w) hrest
      rw [List.filter_cons_of_pos (by simp [hdrops]), receiveAll, receive]
      simp only [hjudged]
      rw [h.2]
      exact ⟨h.1, by simp [Collector.receive]⟩

namespace Checker

variable {c : Checker} {t : Tracker} {u : CompilationUnit} {s : Suppressor}

/-- A collector for a file after it received the warnings of a resolution through a suppressor, and
the refusal of a warning, if there was one. -/
def reported (c : Checker) (r : Resolution) (file : Text) (s : Suppressor) :
    Sink × Option NotKey :=
  (⟨Collector.ofFile file, some s⟩ : Sink).receiveAll (c.warnings r)

/-- The edits that the collector gets are those of the proposals that are not dropped. -/
theorem edits_reported {r : Resolution} (hcategory : c.settings.category.key?.isSome = true)
    (howners : ∀ p ∈ r.proposals, p.finding.entry.owner.key?.isSome = true) (file : Text)
    (s : Suppressor) :
    (c.reported r file s).2 = none ∧
      Diagnostic.edits (c.reported r file s).1.collector.diagnostics =
        Proposal.edits (r.proposals.filter fun p =>
          !s.drops c.settings.category p.finding.entry.owner) := by
  have hkeys : ∀ w ∈ c.warnings r, w.category.key?.isSome = true ∧ w.owner.key?.isSome = true := by
    intro w hw
    obtain ⟨p, hp, rfl⟩ := List.mem_map.1 hw
    exact ⟨hcategory, howners p hp⟩
  obtain ⟨hrefused, hdiagnostics⟩ :=
    Sink.receiveAll_suppressing s (Collector.ofFile file) (c.warnings r) hkeys
  refine ⟨hrefused, ?_⟩
  rw [reported, hdiagnostics, warnings, List.filter_map]
  simp [Diagnostic.edits, Proposal.edits, warning, Collector.ofFile, List.flatMap_map,
    Function.comp_def]

/-- Behind a suppressor that can judge all warnings the collector gets the edits that get through
the muting of clauses. -/
theorem edits_reported_perm (hforeign : u.isForeign = false)
    (hfix : c.settings.emitFixes.truthy = true)
    (hsel : ∀ e ∈ t.standing u.id, e.clause.selectors.Nodup)
    (hnames : ∀ i ∈ statementIds (byClauseStart (t.findings u.id)),
      (clausesOf (t.standing u.id) i).Pairwise Clause.NamesBefore)
    (hcategory : c.settings.category.key?.isSome = true)
    (howners : ∀ e ∈ t.standing u.id, e.owner.key?.isSome = true) (file : Text)
    (s : Suppressor) :
    (c.resolve t u).failure = none ∧ (c.reported (c.resolve t u) file s).2 = none ∧
      (Diagnostic.edits (c.reported (c.resolve t u) file s).1.collector.diagnostics).Perm
        ((statementIds (byClauseStart (t.findings u.id))).flatMap fun i =>
          Fix.forwardedEdits u.content t.usage
            (s.mutes c.settings.category (t.standing u.id)) (clausesOf (t.standing u.id) i)) := by
  obtain ⟨hfailure, hfindings, -⟩ := resolve_with_fixes hforeign hfix hsel
  have hstanding : ∀ p ∈ (c.resolve t u).proposals, p.finding.entry ∈ t.standing u.id := by
    intro p hp
    have hmem : p.finding ∈ (c.resolve t u).proposals.map Proposal.finding :=
      List.mem_map_of_mem hp
    rw [hfindings, (Fix.unitOrder_perm (covers_standing t u.id)).mem_iff,
      (covers_standing t u.id).perm.mem_iff] at hmem
    obtain ⟨e, he, hf⟩ := List.mem_flatMap.1 hmem
    rwa [(Usage.mem_findings.1 hf).2]
  obtain ⟨hrefused, hedits⟩ :=
    edits_reported hcategory (fun p hp => howners _ (hstanding p hp)) file s
  refine ⟨hfailure, hrefused, ?_⟩
  -- the suppressor drops the proposals of the muted clauses
  have haudible : ((c.resolve t u).proposals.filter fun p =>
        !s.drops c.settings.category p.finding.entry.owner) =
      Fix.audible (s.mutes c.settings.category (t.standing u.id)) (c.resolve t u).proposals := by
    refine List.filter_congr fun p hp => ?_
    rw [Suppressor.mutes_clause (t.nodup_clauseIds_standing u.id) (hstanding p hp)]
  obtain ⟨ps, hps, hperm⟩ := Fix.forwards_fixAttempts (t := u.content) (covers_standing t u.id)
    (t.nodup_clauseIds_standing u.id) hsel (fun e he => Tracker.span_of_mem_standing he) hnames
  rw [hedits, haudible, (c.resolve_eq t hforeign).1, attempts, if_pos hfix, hps,
    Fix.proposals_map_ok]
  exact hperm

end Checker

end UnusedImports
