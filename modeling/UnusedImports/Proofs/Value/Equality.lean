import UnusedImports.Value

/-!
# Equality of open values is decidable

Two values are the same term if their constructors agree and so do their parts
(`Value.agrees_iff`). This is finer than `Value.same`: it tells one from true, and mappings of
different order from each other. With it, what a function yields for a given value is checked by
evaluation (`eq_ok_of_toOption`).
-/

set_option autoImplicit false

namespace UnusedImports

namespace Value

mutual

/-- Two values have the same constructor and the same parts. -/
def agrees : Value → Value → Bool
  | .null, .null => true
  | .bool a, .bool b => a = b
  | .int m, .int n => m = n
  | .float x, .float y => x = y
  | .text t, .text u => t = u
  | .points ps, .points qs => ps = qs
  | .bytes a, .bytes b => a = b
  | .stamp s, .stamp t => s = t
  | .pair a b, .pair c d => agrees a c && agrees b d
  | .list vs, .list ws => agreeItems vs ws
  | .set vs, .set ws => agreeItems vs ws
  | .map es, .map fs => agreeEntries es fs
  | .again c, .again d => c = d
  | _, _ => false

/-- Two lists of values agree place by place. -/
def agreeItems : List Value → List Value → Bool
  | [], [] => true
  | v :: vs, w :: ws => agrees v w && agreeItems vs ws
  | _, _ => false

/-- Two lists of entries agree place by place. -/
def agreeEntries : List (Value × Value) → List (Value × Value) → Bool
  | [], [] => true
  | (k, v) :: es, (l, w) :: fs => agrees k l && agrees v w && agreeEntries es fs
  | _, _ => false

end

mutual

theorem agrees_self : ∀ v : Value, agrees v v = true
  | .null => rfl
  | .bool _ => by simp [agrees]
  | .int _ => by simp [agrees]
  | .float _ => by simp [agrees]
  | .text _ => by simp [agrees]
  | .points _ => by simp [agrees]
  | .bytes _ => by simp [agrees]
  | .stamp _ => by simp [agrees]
  | .pair a b => by simp [agrees, agrees_self a, agrees_self b]
  | .list vs => agreeItems_self vs
  | .set vs => agreeItems_self vs
  | .map es => agreeEntries_self es
  | .again _ => by simp [agrees]

theorem agreeItems_self : ∀ vs : List Value, agreeItems vs vs = true
  | [] => rfl
  | v :: vs => by simp [agreeItems, agrees_self v, agreeItems_self vs]

theorem agreeEntries_self : ∀ es : List (Value × Value), agreeEntries es es = true
  | [] => rfl
  | (k, v) :: es => by simp [agreeEntries, agrees_self k, agrees_self v, agreeEntries_self es]

end

mutual

theorem eq_of_agrees : ∀ v w : Value, agrees v w = true → v = w
  | .null, w, h => by cases w <;> simp_all [agrees]
  | .bool _, w, h => by cases w <;> simp_all [agrees]
  | .int _, w, h => by cases w <;> simp_all [agrees]
  | .float _, w, h => by cases w <;> simp_all [agrees]
  | .text _, w, h => by cases w <;> simp_all [agrees]
  | .points _, w, h => by cases w <;> simp_all [agrees]
  | .bytes _, w, h => by cases w <;> simp_all [agrees]
  | .stamp _, w, h => by cases w <;> simp_all [agrees]
  | .pair a b, w, h => by
    cases w with
    | pair c d =>
      rw [agrees, Bool.and_eq_true] at h
      rw [eq_of_agrees a c h.1, eq_of_agrees b d h.2]
    | _ => simp [agrees] at h
  | .list vs, w, h => by
    cases w with
    | list ws => rw [eq_of_agreeItems vs ws h]
    | _ => simp [agrees] at h
  | .set vs, w, h => by
    cases w with
    | set ws => rw [eq_of_agreeItems vs ws h]
    | _ => simp [agrees] at h
  | .map es, w, h => by
    cases w with
    | map fs => rw [eq_of_agreeEntries es fs h]
    | _ => simp [agrees] at h
  | .again _, w, h => by cases w <;> simp_all [agrees]

theorem eq_of_agreeItems : ∀ vs ws : List Value, agreeItems vs ws = true → vs = ws
  | [], [], _ => rfl
  | v :: vs, w :: ws, h => by
    rw [agreeItems, Bool.and_eq_true] at h
    rw [eq_of_agrees v w h.1, eq_of_agreeItems vs ws h.2]
  | [], _ :: _, h => by simp [agreeItems] at h
  | _ :: _, [], h => by simp [agreeItems] at h

theorem eq_of_agreeEntries :
    ∀ es fs : List (Value × Value), agreeEntries es fs = true → es = fs
  | [], [], _ => rfl
  | (k, v) :: es, (l, w) :: fs, h => by
    rw [agreeEntries, Bool.and_eq_true, Bool.and_eq_true] at h
    rw [eq_of_agrees k l h.1.1, eq_of_agrees v w h.1.2, eq_of_agreeEntries es fs h.2]
  | [], _ :: _, h => by simp [agreeEntries] at h
  | _ :: _, [], h => by simp [agreeEntries] at h

end

theorem agrees_iff {v w : Value} : agrees v w = true ↔ v = w := by
  constructor
  · exact eq_of_agrees v w
  · rintro rfl
    exact agrees_self v

instance : DecidableEq Value :=
  fun _ _ => decidable_of_iff _ agrees_iff

end Value

/-- A result is what it is evaluated to. -/
theorem eq_ok_of_toOption {ε α : Type} {x : Except ε α} {a : α} (h : x.toOption = some a) :
    x = .ok a := by
  cases x with
  | error e => cases h
  | ok b => rw [Option.some.inj h]

end UnusedImports
