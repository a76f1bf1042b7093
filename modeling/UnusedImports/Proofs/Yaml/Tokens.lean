import UnusedImports.Yaml.Token

/-!
# What cannot be read is announced by the last token

The steps of the lexer keep the barrier of the document (`Lexer.Keeps`, `Lexer.keeps_next`). So the
tokens of a document that cannot be read to its end are not all sound: one of them is the failure
(`Token.exists_unsound_of_barrier`). If nothing can be read, that failure is the only token
(`Token.ofSource_nil`).
-/

set_option autoImplicit false

namespace UnusedImports.Yaml

/-- A token that stands for a part of the document, and not for a failure. -/
def Token.IsSound : Token → Prop
  | .invalid _ => False
  | _ => True

namespace Lexer

variable {s mid after : Lexer} {x y : Except Failure Lexer} {f : Failure}

/-- A step from the state `s` keeps the barrier, if it succeeds. -/
def Keeps (s : Lexer) (x : Except Failure Lexer) : Prop :=
  ∀ after, x = .ok after → after.barrier = s.barrier

namespace Keeps

theorem error : s.Keeps (.error f) := by
  intro after h
  cases h

theorem ok (h : after.barrier = s.barrier) : s.Keeps (.ok after) := by
  intro _ hok
  cases hok
  exact h

theorem ite {p : Prop} [Decidable p] (hx : s.Keeps x) (hy : s.Keeps y) :
    s.Keeps (if p then x else y) := by
  split
  · exact hx
  · exact hy

/-- A step from another state with the same barrier. -/
theorem of_barrier_eq (hmid : mid.barrier = s.barrier) (h : mid.Keeps x) : s.Keeps x := by
  intro after hok
  rw [h after hok, hmid]

/-- One step after the other. -/
theorem bind {g : Lexer → Except Failure Lexer} (hx : s.Keeps x)
    (hg : ∀ mid : Lexer, mid.Keeps (g mid)) : s.Keeps (x >>= g) := by
  cases x with
  | error f => exact error
  | ok mid => exact (hg mid).of_barrier_eq (hx mid rfl)

/-- A step behind something that is read from the text. -/
theorem read {α : Type} {x : Except Failure α} {g : α → Except Failure Lexer}
    (hg : ∀ a, s.Keeps (g a)) : s.Keeps (x >>= g) := by
  cases x with
  | error f => exact error
  | ok a => exact hg a

end Keeps

/-! ## Possible keys -/

theorem keeps_dropPossibleKey (s : Lexer) : s.Keeps s.dropPossibleKey := by
  rw [dropPossibleKey]
  split
  · exact .ok rfl
  · exact .ite .error (.ok rfl)

theorem keeps_savePossibleKey (s : Lexer) : s.Keeps s.savePossibleKey := by
  rw [savePossibleKey]
  exact .ite (s.keeps_dropPossibleKey.bind fun _ => .ok rfl) (.ok rfl)

theorem dropStaleKeys_eq_ok (h : s.dropStaleKeys = .ok after) :
    after.barrier = s.barrier ∧ after.cursor = s.cursor := by
  rw [dropStaleKeys] at h
  split at h
  · cases h
  · cases h
    exact ⟨rfl, rfl⟩

/-! ## Blocks -/

theorem barrier_unwindTo (column : Int) (s : Lexer) (outer : List Int) :
    (unwindTo column s outer).barrier = s.barrier ∧
      (unwindTo column s outer).cursor = s.cursor := by
  induction outer generalizing s with
  | nil => exact ⟨rfl, rfl⟩
  | cons i outer ih =>
    rw [unwindTo]
    split
    · exact ih _
    · exact ⟨rfl, rfl⟩

theorem barrier_unwind (s : Lexer) (column : Int) : (s.unwind column).barrier = s.barrier := by
  rw [unwind]
  split
  · rfl
  · exact (barrier_unwindTo column s _).1

theorem cursor_unwind (s : Lexer) (column : Int) : (s.unwind column).cursor = s.cursor := by
  rw [unwind]
  split
  · rfl
  · exact (barrier_unwindTo column s _).2

theorem barrier_startBlock (s : Lexer) (column count : Nat) (t : Token) :
    (s.startBlock column count t).barrier = s.barrier := by
  rw [startBlock]
  split <;> rfl

/-- Outside brackets a block may start. -/
theorem barrier_ite_startBlockHere (s : Lexer) (t : Token) :
    (if s.inFlow then s else s.startBlockHere t).barrier = s.barrier := by
  split
  · rfl
  · exact s.barrier_startBlock _ _ t

theorem settle_eq_ok (h : s.settle = .ok after) :
    after.barrier = s.barrier ∧ after.cursor = s.cursor := by
  rw [settle] at h
  cases hdrop : s.dropStaleKeys with
  | error f => simp [hdrop, bind, Except.bind] at h
  | ok mid =>
    obtain ⟨hbarrier, hcursor⟩ := dropStaleKeys_eq_ok hdrop
    simp only [hdrop, bind, Except.bind, pure, Except.pure, Except.ok.injEq] at h
    rw [← h, barrier_unwind, cursor_unwind]
    exact ⟨hbarrier, hcursor⟩

/-! ## Tokens -/

theorem keeps_close (s : Lexer) : s.Keeps s.close :=
  (keeps_dropPossibleKey _).of_barrier_eq (s.barrier_unwind _)

theorem keeps_documentMark (s : Lexer) (t : Token) : s.Keeps (s.documentMark t) :=
  s.keeps_close.bind fun _ => .ok rfl

theorem keeps_directiveLine (s : Lexer) : s.Keeps s.directiveLine :=
  s.keeps_close.bind fun _ => .read fun _ => .ok rfl

theorem keeps_openFlow (s : Lexer) (t : Token) : s.Keeps (s.openFlow t) :=
  s.keeps_savePossibleKey.bind fun _ => .ok rfl

theorem keeps_closeFlow (s : Lexer) (t : Token) : s.Keeps (s.closeFlow t) :=
  s.keeps_dropPossibleKey.bind fun _ => .ok rfl

theorem keeps_flowEntry (s : Lexer) : s.Keeps s.flowEntry :=
  ((s.allowKey true).keeps_dropPossibleKey.of_barrier_eq rfl).bind fun _ => .ok rfl

/-- A mark behind which a key may or may not start. -/
theorem keeps_mark (allowed : Bool) (t : Token) (h : mid.barrier = s.barrier) :
    s.Keeps ((mid.allowKey allowed).dropPossibleKey >>= fun last => .ok (last.single t)) :=
  ((mid.allowKey allowed).keeps_dropPossibleKey.of_barrier_eq h).bind fun _ => .ok rfl

theorem keeps_blockEntry (s : Lexer) : s.Keeps s.blockEntry := by
  rw [blockEntry]
  exact .ite .error (keeps_mark true .blockEntry (s.barrier_ite_startBlockHere _))

theorem keeps_explicitKey (s : Lexer) : s.Keeps s.explicitKey := by
  rw [explicitKey]
  exact .ite .error (keeps_mark _ .key (s.barrier_ite_startBlockHere _))

theorem keeps_valueMark (s : Lexer) : s.Keeps s.valueMark := by
  rw [valueMark]
  split
  · apply Keeps.ok
    split
    · rfl
    · exact barrier_startBlock _ _ _ _
  · exact .ite .error (keeps_mark _ .value (s.barrier_ite_startBlockHere _))

theorem keeps_keyed (s : Lexer) (read : Text → Except Failure (Token × Text)) :
    s.Keeps (s.keyed read) :=
  s.keeps_savePossibleKey.bind fun _ => .read fun _ => .ok rfl

theorem keeps_block (s : Lexer) (isFolded : Bool) : s.Keeps (s.block isFolded) :=
  ((s.allowKey true).keeps_dropPossibleKey.of_barrier_eq rfl).bind fun _ => .read fun _ => .ok rfl

theorem keeps_plain (s : Lexer) : s.Keeps s.plain :=
  s.keeps_savePossibleKey.bind fun _ => .ite .error (.ok rfl)

/-- Whatever token comes next, the barrier stays. -/
theorem keeps_next (s : Lexer) : s.Keeps s.next := by
  rw [next]
  split
  · exact s.keeps_close
  · -- one branch for each kind of token, by the character that it starts with
    refine .ite .error <| .ite s.keeps_directiveLine <| .ite (s.keeps_documentMark _) <|
      .ite (s.keeps_documentMark _) <| .ite (s.keeps_openFlow _) <| .ite (s.keeps_openFlow _) <|
      .ite (s.keeps_closeFlow _) <| .ite (s.keeps_closeFlow _) <| .ite s.keeps_flowEntry <|
      .ite s.keeps_blockEntry <| .ite s.keeps_explicitKey <| .ite s.keeps_valueMark <|
      .ite (s.keeps_keyed _) <| .ite (s.keeps_keyed _) <| .ite (s.keeps_keyed _) <|
      .ite (s.keeps_block _) <| .ite (s.keeps_block _) <| .ite (s.keeps_keyed _) <|
      .ite s.keeps_plain .error

/-! ## All tokens -/

theorem barrier_toNextToken (s : Lexer) : s.toNextToken.barrier = s.barrier := by
  have hmark : s.passMark.barrier = s.barrier := by
    rw [passMark]
    split
    · split <;> rfl
    · rfl
  rw [toNextToken]
  simp only
  split
  · exact hmark
  · exact hmark

theorem exists_unsound_failed (s : Lexer) (f : Failure) : ∃ t ∈ s.failed f, ¬ t.IsSound :=
  ⟨.invalid f, List.mem_append_right _ (List.mem_singleton_self _), id⟩

/-- If there is a barrier, the run ends in a failure. -/
theorem exists_unsound_run (h : s.barrier.isSome) : ∃ t ∈ s.run, ¬ t.IsSound := by
  -- the run stops at the barrier or before it, since nothing is left only behind the barrier
  fun_induction run s with
  | case1 s moved _ f _ => exact s.exists_unsound_failed f
  | case2 s moved _ _ _ => exact s.exists_unsound_failed _
  | case3 s moved _ f _ => exact s.exists_unsound_failed f
  | case4 s moved _ ready _ f _ => exact s.exists_unsound_failed f
  | case5 s moved _ ready _ after _ _ => exact s.exists_unsound_failed _
  | case6 s moved hmoved ready hsettle after hnext _ hempty =>
    obtain ⟨-, hcursor⟩ := settle_eq_ok hsettle
    have hbarrier : moved.barrier.isSome := by rw [barrier_toNextToken, h]
    apply absurd _ hmoved
    rw [isAtBarrier, hbarrier, ← hcursor, hempty]
    rfl
  | case7 s moved _ ready hsettle after hnext _ _ _ ih =>
    apply ih
    obtain ⟨hbarrier, -⟩ := settle_eq_ok hsettle
    rw [ready.keeps_next after hnext, hbarrier, barrier_toNextToken, h]
  | case8 s moved _ ready _ after _ _ _ _ => exact s.exists_unsound_failed _

end Lexer

/-- A document that cannot be read to its end has a token that is not sound. -/
theorem Token.exists_unsound_of_barrier {source : Source} (h : source.barrier.isSome) :
    ∃ t ∈ ofSource source, ¬ t.IsSound :=
  Lexer.exists_unsound_run h

/-- If nothing can be read of a document, the failure is its only token. -/
theorem Token.ofSource_nil (f : Failure) : ofSource ⟨[], some f⟩ = [.invalid f] := by
  rw [ofSource, Lexer.run]
  rfl

end UnusedImports.Yaml
