import Mathlib.Algebra.BigOperators.Group.List.Basic
import Mathlib.Data.List.Prime
import Mathlib.NumberTheory.LucasPrimality

/-!
Primes by the test of Lucas: a number is prime if some residue has the order of the full
group, which is checked at the prime factors of that order. The powers are computed by
squaring, so that a check of a number of some hundred bits can be evaluated.
-/

namespace Lucas

/-- `acc * base ^ exp`, reduced, for an exponent of `bits` bits. -/
def powMod (m : Nat) : Nat → Nat → Nat → Nat → Nat
  | 0, _, _, acc => acc
  | bits + 1, base, exp, acc =>
      powMod m bits (base * base % m) (exp / 2) (if exp % 2 = 1 then acc * base % m else acc)

theorem powMod_cast (m bits base exp acc : Nat) (h : exp < 2 ^ bits) :
    (powMod m bits base exp acc : ZMod m) = acc * (base : ZMod m) ^ exp := by
  induction bits generalizing base exp acc with
  | zero =>
      obtain rfl : exp = 0 := by simpa using h
      rw [powMod, pow_zero, mul_one]
  | succ bits ih =>
      have hhalf : exp / 2 < 2 ^ bits := by
        rw [pow_succ] at h
        omega
      have hsquare : ((base * base % m : Nat) : ZMod m) ^ (exp / 2) =
          (base : ZMod m) ^ (2 * (exp / 2)) := by
        rw [ZMod.natCast_mod, Nat.cast_mul, ← pow_two, ← pow_mul]
      rw [powMod, ih _ _ _ hhalf, hsquare]
      by_cases hodd : exp % 2 = 1
      · rw [if_pos hodd, ZMod.natCast_mod, Nat.cast_mul, mul_assoc, ← pow_succ']
        congr 2
        omega
      · rw [if_neg hodd]
        congr 2
        omega

/-- The residue has order `p - 1`, whose prime factors are given. -/
def check (bits p a : Nat) (factors : List Nat) : Bool :=
  decide (1 < p) && decide (p ≤ 2 ^ bits) && decide (factors.prod = p - 1) &&
    powMod p bits a (p - 1) 1 % p == 1 &&
    factors.all fun q => powMod p bits a ((p - 1) / q) 1 % p != 1

theorem powMod_eq_one_iff {p bits a exp : Nat} (hp : 1 < p) (hexp : exp < 2 ^ bits) :
    powMod p bits a exp 1 % p = 1 ↔ (a : ZMod p) ^ exp = 1 := by
  have hone : 1 % p = 1 := Nat.mod_eq_of_lt hp
  have hcast := powMod_cast p bits a exp 1 hexp
  rw [Nat.cast_one, one_mul] at hcast
  have hiff := ZMod.natCast_eq_natCast_iff' (powMod p bits a exp 1) 1 p
  rw [Nat.cast_one, hone] at hiff
  rw [← hcast, hiff]

theorem prime_of_check {p : Nat} (bits a : Nat) (factors : List Nat)
    (hfactors : ∀ q ∈ factors, q.Prime) (h : check bits p a factors = true) : p.Prime := by
  simp only [check, Bool.and_eq_true, decide_eq_true_eq, beq_iff_eq, List.all_eq_true,
    bne_iff_ne, ne_eq] at h
  obtain ⟨⟨⟨⟨hp, hbits⟩, hprod⟩, hfull⟩, hpart⟩ := h
  have hlt : ∀ n, n ≤ p - 1 → n < 2 ^ bits := by omega
  refine lucas_primality p a ((powMod_eq_one_iff hp (hlt _ (le_refl _))).mp hfull) ?_
  intro q hq hdvd
  rw [← hprod] at hdvd
  have hmem : q ∈ factors := by
    obtain ⟨r, hr, hqr⟩ := hq.prime.dvd_prod_iff.mp hdvd
    rwa [(Nat.prime_dvd_prime_iff_eq hq (hfactors r hr)).mp hqr]
  intro hone
  exact hpart q hmem ((powMod_eq_one_iff hp (hlt _ (Nat.div_le_self _ _))).mpr hone)

end Lucas
