import UnusedImports.Fix
import UnusedImports.Proofs.Edit.Splice
import UnusedImports.Proofs.Text.Repair

/-!
# Repairs that stay apart

Two stretches of a text are repaired without regard to each other. The first may take the blanks
behind it and a line break, and the second may take the blanks in front of it, back to the line
break before. If the first one ends with solid text and the second one starts with solid text, the
repairs do not meet, whatever stands between the stretches (`Fix.repair_keeps_apart`): a line break
that the first one takes is the last thing that the second one leaves. So the repaired edits can be
applied together. The same holds for all edits inside the two stretches, because the solid ends keep
them within reach of their stretches.
-/

set_option autoImplicit false

namespace UnusedImports.Fix

open Edit

variable {t : Text}

/-- Edits inside two stretches that turn solid ends to each other are repaired apart. -/
theorem stop_le_start_of_inside {stop₁ start₂ : Int} (hfollows : stop₁ ≤ start₂)
    (hlast : t.solidAt (stop₁ - 1) = true) (hnext : t.solidAt start₂ = true)
    {a₁ b₁ a₂ b₂ : Int} (r₁ r₂ : Text) (hb₁ : 0 ≤ b₁) (hinside₁ : b₁ ≤ stop₁)
    (hinside₂ : start₂ ≤ a₂) (hab₂ : a₂ ≤ b₂) :
    (replace t a₁ b₁ r₁).edit.stop ≤ (replace t a₂ b₂ r₂).edit.start := by
  have hnonneg := (Text.solidAt_iff.1 hnext).1
  have hb₂ : 0 ≤ b₂ := by omega
  have hbounds₁ := Text.repair_bounds (t := t) a₁ hb₁ r₁
  have hbounds₂ := Text.repair_bounds (t := t) a₂ hb₂ r₂
  calc (replace t a₁ b₁ r₁).edit.stop
      ≤ t.reachStop b₁ := hbounds₁.2.2.2
    _ ≤ t.reachStop stop₁ := Text.reachStop_mono hb₁ hinside₁ hlast
    _ ≤ t.reachStart start₂ := Text.reachStop_le_reachStart hlast hnext hfollows
    _ ≤ t.reachStart a₂ := Text.reachStart_mono hinside₂ hnext
    _ ≤ (replace t a₂ b₂ r₂).edit.start := hbounds₂.1

/-- Two stretches stay apart when they are repaired, if the first one ends with solid text and the
second one starts with solid text. The repaired edits are accepted in any order, and what stands
between them stays. Edits inside the first stretch stop before edits inside the second one start. -/
theorem repair_keeps_apart {start₁ stop₁ start₂ stop₂ lo₁ hi₁ lo₂ hi₂ : Int} {r₁ r₂ : Text}
    (hstart : 0 ≤ start₁) (hfirst : start₁ < stop₁) (hfollows : stop₁ ≤ start₂)
    (hsecond : start₂ < stop₂) (hstop : stop₂ ≤ t.length)
    (hlast : t.solidAt (stop₁ - 1) = true) (hnext : t.solidAt start₂ = true)
    (hrepair₁ : t.repair start₁ stop₁ r₁ = (lo₁, hi₁))
    (hrepair₂ : t.repair start₂ stop₂ r₂ = (lo₂, hi₂)) :
    hi₁ ≤ lo₂ ∧
    (∀ edits : List Edit, edits.Perm [⟨lo₁, hi₁, r₁⟩, ⟨lo₂, hi₂, r₂⟩] →
      applyAll t edits = .ok (t.take lo₁.toNat ++ r₁ ++ (t.take lo₂.toNat).drop hi₁.toNat ++ r₂ ++
        t.drop hi₂.toNat)) ∧
    (∀ (a₁ b₁ a₂ b₂ : Int) (s₁ s₂ : Text), start₁ ≤ a₁ → a₁ ≤ b₁ → b₁ ≤ stop₁ →
      start₂ ≤ a₂ → a₂ ≤ b₂ → b₂ ≤ stop₂ →
      (replace t a₁ b₁ s₁).edit.stop ≤ (replace t a₂ b₂ s₂).edit.start) := by
  obtain ⟨rfl, rfl⟩ := Prod.mk.inj hrepair₁
  obtain ⟨rfl, rfl⟩ := Prod.mk.inj hrepair₂
  have hstop₁ : 0 ≤ stop₁ := by omega
  have hstop₂ : 0 ≤ stop₂ := by omega
  have hapart : t.repairStop start₁ stop₁ r₁ ≤ t.repairStart start₂ stop₂ r₂ :=
    stop_le_start_of_inside hfollows hlast hnext r₁ r₂ hstop₁ (Int.le_refl _) (Int.le_refl _)
      (Int.le_of_lt hsecond)
  obtain ⟨hreach₁, hlo₁, hhi₁, -⟩ := Text.repair_bounds (t := t) start₁ hstop₁ r₁
  obtain ⟨-, hlo₂, hhi₂, hreach₂⟩ := Text.repair_bounds (t := t) start₂ hstop₂ r₂
  have hfront : 0 ≤ t.repairStart start₁ stop₁ r₁ := (Text.reachStart_nonneg hstart).trans hreach₁
  have hback : t.repairStop start₂ stop₂ r₂ ≤ t.length :=
    hreach₂.trans (Text.reachStop_le_length hstop)
  -- a repair only widens its stretch, so the edits are not empty and keep their order
  have hwide₁ : t.repairStart start₁ stop₁ r₁ < t.repairStop start₁ stop₁ r₁ := by omega
  have hwide₂ : t.repairStart start₂ stop₂ r₂ < t.repairStop start₂ stop₂ r₂ := by omega
  refine ⟨hapart, ?_, ?_⟩
  · intro edits hperm
    have htiled : Tiled 0 t.length
        [⟨t.repairStart start₁ stop₁ r₁, t.repairStop start₁ stop₁ r₁, r₁⟩,
          ⟨t.repairStart start₂ stop₂ r₂, t.repairStop start₂ stop₂ r₂, r₂⟩] :=
      ⟨hfront, Int.le_of_lt hwide₁, Tiled.singleton hapart (Int.le_of_lt hwide₂) hback⟩
    have hproper : ∀ e ∈ [(⟨t.repairStart start₁ stop₁ r₁, t.repairStop start₁ stop₁ r₁, r₁⟩ : Edit),
        ⟨t.repairStart start₂ stop₂ r₂, t.repairStop start₂ stop₂ r₂, r₂⟩], e.start < e.stop :=
      List.forall_mem_cons.2 ⟨hwide₁, List.forall_mem_singleton.2 hwide₂⟩
    have hinOrder := htiled.inOrder_of_perm hproper hperm
    rw [← hinOrder] at htiled
    rw [htiled.applyAll_eq, hinOrder]
    simp only [spliced, Int.toNat_zero, List.drop_zero, List.append_assoc]
  · intro a₁ b₁ a₂ b₂ s₁ s₂ ha₁ hb₁ hinside₁ hinside₂ hb₂ _
    exact stop_le_start_of_inside hfollows hlast hnext s₁ s₂ (by omega) hinside₁ hinside₂ hb₂

/-- Two imports on lines of their own, with a blank line between them. -/
def neighbourImports : Text :=
  "import a.x \n \n  import b.y\t\nval z\n".toList

/-- Both lines are deleted up to the blank line between them, which stays. -/
theorem neighbourImports_kept_apart :
    (neighbourImports.solidAt (10 - 1) = true ∧ neighbourImports.solidAt 16 = true ∧
      (26 : Int) ≤ neighbourImports.length) ∧
    neighbourImports.repair 0 10 [] = (0, 12) ∧ neighbourImports.repair 16 26 [] = (14, 28) ∧
    (12 : Int) ≤ 14 ∧
    applyAll neighbourImports [⟨14, 28, []⟩, ⟨0, 12, []⟩] = .ok " \nval z\n".toList := by
  have hsolid : neighbourImports.solidAt (10 - 1) = true ∧ neighbourImports.solidAt 16 = true ∧
      (26 : Int) ≤ neighbourImports.length := by decide
  have hrepair₁ : neighbourImports.repair 0 10 [] = (0, 12) := by decide
  have hrepair₂ : neighbourImports.repair 16 26 [] = (14, 28) := by decide
  obtain ⟨hapart, happlied, -⟩ := repair_keeps_apart (by decide) (by decide) (by decide) (by decide)
    hsolid.2.2 hsolid.1 hsolid.2.1 hrepair₁ hrepair₂
  refine ⟨hsolid, hrepair₁, hrepair₂, hapart, ?_⟩
  rw [happlied _ (List.Perm.swap _ _ _)]
  decide

end UnusedImports.Fix
