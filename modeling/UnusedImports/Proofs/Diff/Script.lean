import UnusedImports.Diff
import Mathlib.Data.List.Chain

/-!
# Scripts between two lists of lines

A script from one list to another has the one as its old lines and the other as its new lines
(`oldLines_script`, `newLines_script`), whatever stretches the search finds. No segment of it is
empty, and between two changes there are lines that stay (`proper_script`, `separated_script`).
-/

set_option autoImplicit false

namespace UnusedImports

namespace Segment

/-- The segment has lines. -/
def Proper (s : Segment) : Prop :=
  s.old ≠ [] ∨ s.new ≠ []

/-- One of two neighbouring segments stays. -/
def Separated (s r : Segment) : Prop :=
  s.isChange = false ∨ r.isChange = false

@[simp] theorem oldLines_nil : oldLines [] = [] := rfl

@[simp] theorem newLines_nil : newLines [] = [] := rfl

@[simp] theorem oldLines_cons (s : Segment) (script : List Segment) :
    oldLines (s :: script) = s.old ++ oldLines script := rfl

@[simp] theorem newLines_cons (s : Segment) (script : List Segment) :
    newLines (s :: script) = s.new ++ newLines script := rfl

@[simp] theorem oldLines_append (front back : List Segment) :
    oldLines (front ++ back) = oldLines front ++ oldLines back :=
  List.flatMap_append

@[simp] theorem newLines_append (front back : List Segment) :
    newLines (front ++ back) = newLines front ++ newLines back :=
  List.flatMap_append

/-- A script in which nothing changes has the same old and new lines. -/
theorem oldLines_eq_newLines {script : List Segment} (h : script.any isChange = false) :
    oldLines script = newLines script := by
  induction script with
  | nil => rfl
  | cons s rest ih =>
    rw [List.any_cons, Bool.or_eq_false_iff] at h
    cases s with
    | same ls => rw [oldLines_cons, newLines_cons, ih h.2]; rfl
    | change old new => cases h.1

end Segment

namespace Diff

open Segment

/-! ## Alignments -/

theorem oldLines_changeOf (old new : List Text) : oldLines (changeOf old new) = old := by
  unfold changeOf
  split <;> simp_all [Segment.old]

theorem newLines_changeOf (old new : List Text) : newLines (changeOf old new) = new := by
  unfold changeOf
  split <;> simp_all [Segment.new]

/-- An alignment has the old lines, whatever stretches are found. -/
theorem oldLines_align (start : Nat) (old : List OldLine) (new : List Text) :
    oldLines (align start old new) = plain old := by
  fun_induction align start old new with
  | case1 start old new s _ ihFront ihBack =>
    rw [oldLines_append, oldLines_cons, ihFront, ihBack]
    simp only [Segment.old, plain, ← List.map_append]
    rw [← List.drop_drop, List.take_append_drop, List.take_append_drop]
  | case2 start old new s _ => exact oldLines_changeOf _ _

/-- An alignment has the new lines: a stretch is used only if the lists share it. -/
theorem newLines_align (start : Nat) (old : List OldLine) (new : List Text) :
    newLines (align start old new) = new := by
  fun_induction align start old new with
  | case1 start old new s h ihFront ihBack =>
    have hshared := h.2.2
    rw [newLines_append, newLines_cons, ihFront, ihBack]
    simp only [Segment.new, hshared]
    rw [← List.drop_drop, List.take_append_drop, List.take_append_drop]
  | case2 start old new s _ => exact newLines_changeOf _ _

/-- A change stands alone, if there is one. -/
theorem changeOf_cases (old new : List Text) :
    changeOf old new = [] ∨ changeOf old new = [.change old new] ∧ (old ≠ [] ∨ new ≠ []) := by
  unfold changeOf
  split
  · exact Or.inl rfl
  · rename_i h
    rw [Bool.and_eq_true, List.isEmpty_iff, List.isEmpty_iff, Classical.not_and_iff_not_or_not] at h
    exact Or.inr ⟨rfl, h⟩

theorem proper_align (start : Nat) (old : List OldLine) (new : List Text) :
    ∀ s ∈ align start old new, s.Proper := by
  fun_induction align start old new with
  | case1 start old new s h ihFront ihBack =>
    intro r hr
    rcases List.mem_append.1 hr with hr | hr
    · exact ihFront r hr
    rcases List.mem_cons.1 hr with rfl | hr
    · left
      obtain ⟨hsize, hfits, -⟩ := h
      refine List.ne_nil_of_length_pos ?_
      simp only [Segment.old, plain, List.length_map, List.length_take, List.length_drop]
      omega
    · exact ihBack r hr
  | case2 start old new s _ =>
    intro r hr
    rcases changeOf_cases (plain old) new with hnone | ⟨hsome, hlines⟩
    · rw [hnone] at hr
      exact absurd hr List.not_mem_nil
    · rw [hsome, List.mem_singleton] at hr
      subst hr
      exact hlines

theorem separated_align (start : Nat) (old : List OldLine) (new : List Text) :
    (align start old new).IsChain Separated := by
  fun_induction align start old new with
  | case1 start old new s _ ihFront ihBack =>
    -- the shared stretch separates the two parts
    refine List.isChain_append.2 ⟨ihFront, ?_, fun _ _ r hr => ?_⟩
    · exact ihBack.cons fun _ _ => Or.inl rfl
    · rw [List.head?_cons, Option.mem_some_iff] at hr
      exact Or.inr (hr ▸ rfl)
  | case2 start old new s _ =>
    rcases changeOf_cases (plain old) new with hnone | ⟨hsome, -⟩
    · rw [hnone]
      exact List.IsChain.nil
    · rw [hsome]
      exact List.IsChain.singleton _

/-! ## Joined segments -/

theorem oldLines_joined (script : List Segment) : oldLines (joined script) = oldLines script := by
  fun_induction joined script with
  | case1 => rfl
  | case2 ls rest ms rest' heq ih =>
    rw [heq] at ih
    simp only [oldLines_cons, Segment.old] at ih ⊢
    rw [← ih, List.append_assoc]
  | case3 ls rest _ ih => rw [oldLines_cons, oldLines_cons, ih]
  | case4 old new rest ih => rw [oldLines_cons, oldLines_cons, ih]

theorem newLines_joined (script : List Segment) : newLines (joined script) = newLines script := by
  fun_induction joined script with
  | case1 => rfl
  | case2 ls rest ms rest' heq ih =>
    rw [heq] at ih
    simp only [newLines_cons, Segment.new] at ih ⊢
    rw [← ih, List.append_assoc]
  | case3 ls rest _ ih => rw [newLines_cons, newLines_cons, ih]
  | case4 old new rest ih => rw [newLines_cons, newLines_cons, ih]

/-- Joining makes no segment empty. -/
theorem proper_joined {script : List Segment} (h : ∀ s ∈ script, s.Proper) :
    ∀ s ∈ joined script, s.Proper := by
  fun_induction joined script with
  | case1 => exact h
  | case2 ls rest ms rest' heq ih =>
    have hrest := ih fun s hs => h s (List.mem_cons_of_mem _ hs)
    rw [heq, List.forall_mem_cons] at hrest
    refine List.forall_mem_cons.2 ⟨?_, hrest.2⟩
    have hls : ls ≠ [] := (h _ List.mem_cons_self).elim id id
    exact Or.inl (List.append_ne_nil_of_left_ne_nil hls ms)
  | case3 ls rest _ ih =>
    exact List.forall_mem_cons.2
      ⟨h _ List.mem_cons_self, ih fun s hs => h s (List.mem_cons_of_mem _ hs)⟩
  | case4 old new rest ih =>
    exact List.forall_mem_cons.2
      ⟨h _ List.mem_cons_self, ih fun s hs => h s (List.mem_cons_of_mem _ hs)⟩

/-- Joining does not change whether a script begins with a change. -/
theorem isChange_of_mem_head?_joined {script : List Segment} {s : Segment}
    (hs : s ∈ (joined script).head?) : ∃ r ∈ script.head?, s.isChange = r.isChange := by
  fun_cases joined script with
  | case1 => cases hs
  | case2 ls rest ms rest' heq =>
    rw [joined, heq, List.head?_cons, Option.mem_some_iff] at hs
    exact ⟨.same ls, rfl, hs ▸ rfl⟩
  | case3 ls rest hrest =>
    rw [joined] at hs
    split at hs
    · rename_i heq
      exact absurd heq (hrest _ _)
    · rw [List.head?_cons, Option.mem_some_iff] at hs
      exact ⟨.same ls, rfl, hs ▸ rfl⟩
  | case4 old new rest =>
    rw [joined, List.head?_cons, Option.mem_some_iff] at hs
    exact ⟨.change old new, rfl, hs ▸ rfl⟩

/-- Joining leaves no changes side by side. -/
theorem separated_joined {script : List Segment} (h : script.IsChain Separated) :
    (joined script).IsChain Separated := by
  fun_induction joined script with
  | case1 => exact List.IsChain.nil
  | case2 ls rest ms rest' heq ih =>
    have hrest := ih h.of_cons
    rw [heq] at hrest
    exact hrest.of_cons.cons fun _ _ => Or.inl rfl
  | case3 ls rest _ ih => exact (ih h.of_cons).cons fun _ _ => Or.inl rfl
  | case4 old new rest ih =>
    refine (ih h.of_cons).cons fun s hs => ?_
    obtain ⟨r, hr, hchange⟩ := isChange_of_mem_head?_joined hs
    rcases (List.isChain_cons.1 h).1 r hr with hfalse | hfalse
    · cases hfalse
    · exact Or.inr (hchange.trans hfalse)

/-! ## Scripts -/

theorem plain_map_located (new ls : List Text) : plain (ls.map (located new)) = ls := by
  simp [plain, Function.comp_def, located]

/-- The old lines of a script are the old list. -/
theorem oldLines_script (old new : List Text) : oldLines (script old new) = old := by
  rw [script, oldLines_joined, oldLines_align, plain_map_located]

/-- The new lines of a script are the new list. -/
theorem newLines_script (old new : List Text) : newLines (script old new) = new := by
  rw [script, newLines_joined, newLines_align]

/-- No segment of a script is empty. -/
theorem proper_script (old new : List Text) : ∀ s ∈ script old new, s.Proper :=
  proper_joined (proper_align _ _ _)

/-- No changes of a script stand side by side. -/
theorem separated_script (old new : List Text) : (script old new).IsChain Separated :=
  separated_joined (separated_align _ _ _)

end Diff

end UnusedImports
