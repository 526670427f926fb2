import Mathlib.Algebra.Ring.Basic
import Mathlib.Algebra.CharP.Two
import Mathlib.Tactic.Ring

/-!
Hashing a list of ring elements by evaluating a polynomial: one step at a time,
or as a sum against the powers of the key. The sum is additive in the powers, so
parties which hold additive shares of them hash their shares and add the results.
-/

section

variable {R : Type} [CommRing R]

/-- Every element is added and the result multiplied by the key. -/
def polyHash (h : R) (xs : List R) : R := xs.foldl (fun y x => (y + x) * h) 0

/-- The sum of products, up to the end of the shorter list. -/
def dotFold (xs ys : List R) : R := (xs.zip ys).foldl (fun acc p => acc + p.1 * p.2) 0

/-- The powers of `h` from the `n`-th down to the first. -/
def powersDown (h : R) : Nat → List R
  | 0 => []
  | n + 1 => h ^ (n + 1) :: powersDown h n

private theorem dotFold_from (l : List (R × R)) (a : R) :
    l.foldl (fun acc p => acc + p.1 * p.2) a =
      a + l.foldl (fun acc p => acc + p.1 * p.2) 0 := by
  induction l generalizing a with
  | nil => simp
  | cons p l ih =>
      rw [List.foldl_cons, List.foldl_cons, ih, ih (0 + p.1 * p.2)]
      ring

theorem dotFold_cons (x y : R) (xs ys : List R) :
    dotFold (x :: xs) (y :: ys) = x * y + dotFold xs ys := by
  rw [dotFold, List.zip_cons_cons, List.foldl_cons, dotFold_from, zero_add, dotFold]

private theorem polyHash_from (h : R) (xs : List R) (a : R) :
    xs.foldl (fun y x => (y + x) * h) a =
      a * h ^ xs.length + dotFold xs (powersDown h xs.length) := by
  induction xs generalizing a with
  | nil => simp [dotFold]
  | cons x xs ih =>
      rw [List.foldl_cons, ih, List.length_cons, powersDown, dotFold_cons]
      ring

/-- Hashing step by step is the sum against the powers. -/
theorem polyHash_eq_dotFold (h : R) (xs : List R) :
    polyHash h xs = dotFold xs (powersDown h xs.length) := by
  rw [polyHash, polyHash_from, zero_mul, zero_add]

/-- Shares of the powers, position by position. -/
def SharesOf (h : R) (ys zs : List R) : Prop :=
  ys.length = zs.length ∧ ∀ i y z, ys[i]? = some y → zs[i]? = some z → y + z = h ^ (ys.length - i)

theorem dotFold_shares {h : R} (xs ys zs : List R) (hlen : xs.length = ys.length)
    (hshares : SharesOf h ys zs) :
    dotFold xs ys + dotFold xs zs = polyHash h xs := by
  rw [polyHash_eq_dotFold]
  induction xs generalizing ys zs with
  | nil =>
      simp [dotFold]
  | cons x xs ih =>
      cases ys with
      | nil => cases hlen
      | cons y ys =>
          cases zs with
          | nil => cases hshares.1
          | cons z zs =>
              have hlen' : xs.length = ys.length := Nat.succ.inj hlen
              have htail : SharesOf h ys zs := by
                refine ⟨Nat.succ.inj hshares.1, ?_⟩
                intro i y' z' hy hz
                have hpow := hshares.2 (i + 1) y' z' hy hz
                rwa [List.length_cons, Nat.add_sub_add_right] at hpow
              have hhead : y + z = h ^ (xs.length + 1) := by
                have hpow := hshares.2 0 y z rfl rfl
                rwa [List.length_cons, ← hlen', Nat.sub_zero] at hpow
              rw [List.length_cons, powersDown, dotFold_cons, dotFold_cons, dotFold_cons,
                ← ih ys zs hlen' htail, ← hhead]
              ring

end
