import Mathlib.AlgebraicGeometry.EllipticCurve.Affine.Point
import Mathlib.Tactic.NormNum.Prime
import Tlsn.Library.Digits
import Tlsn.Library.Lucas

/-!
The field and the curve of the key exchange. The order of the field is prime, so the curve
has its group.
-/

namespace Tlsn.KeyExchange

/-- The NIST P-256 prime. -/
def modulus : Nat := 0xffffffff00000001000000000000000000000000ffffffffffffffffffffffff

section Primality

open Lucas (prime_of_check)

-- Below the modulus stands a chain of primes, each with the factors of its predecessor.
theorem modulus_prime : modulus.Prime := by
  have h28 : Nat.Prime 204061199 :=
    prime_of_check 64 11 [2, 11, 23, 107, 3769] (by norm_num) (by decide +kernel)
  have h35 : Nat.Prime 34282281433 := by
    refine prime_of_check 64 17 [2, 2, 2, 3, 7, 204061199] ?_ (by decide +kernel)
    simp only [List.forall_mem_cons, h28]
    norm_num
  have h36 : Nat.Prime 66417393611 :=
    prime_of_check 64 6 [2, 5, 53, 173, 197, 3677] (by norm_num) (by decide +kernel)
  have h44 : Nat.Prime 11290956913871 := by
    refine prime_of_check 64 13 [2, 5, 17, 66417393611] ?_ (by decide +kernel)
    simp only [List.forall_mem_cons, h36]
    norm_num
  have h56 : Nat.Prime 46076956964474543 :=
    prime_of_check 64 5 [2, 23, 18169, 78283, 704251] (by norm_num) (by decide +kernel)
  have h150 : Nat.Prime 774023187263532362759620327192479577272145303 := by
    refine prime_of_check 256 3
      [2, 3, 3, 2411, 34282281433, 11290956913871, 46076956964474543] ?_ (by decide +kernel)
    simp only [List.forall_mem_cons, h35, h44, h56]
    norm_num
  have h160 : Nat.Prime 835945042244614951780389953367877943453916927241 := by
    refine prime_of_check 256 11 [2, 2, 2, 3, 3, 3, 5,
      774023187263532362759620327192479577272145303] ?_ (by decide +kernel)
    simp only [List.forall_mem_cons, h150]
    norm_num
  refine prime_of_check 256 6 [2, 3, 5, 5, 17, 257, 641, 1531, 65537, 490463, 6700417,
    835945042244614951780389953367877943453916927241] ?_ (by decide +kernel)
  simp only [List.forall_mem_cons, h160]
  norm_num

end Primality

instance : Fact modulus.Prime := ⟨modulus_prime⟩

/-- An element of the field. -/
abbrev P256 := ZMod modulus

theorem modulus_lt : modulus < 256 ^ 32 := by decide

namespace P256

theorem val_lt_bytes (x : P256) : x.val < 256 ^ 32 := Nat.lt_trans x.val_lt modulus_lt

def toBeBytes (x : P256) : List UInt8 := beBytes 32 x.val

@[simp] theorem length_toBeBytes (x : P256) : x.toBeBytes.length = 32 := length_beBytes _ _

/-- `P256::try_from`, of bytes with the lowest first. -/
def tryFrom (bytes : List UInt8) : Option P256 :=
  if leValue bytes < modulus then some (leValue bytes : P256) else none

theorem tryFrom_reverse_toBeBytes (x : P256) : tryFrom x.toBeBytes.reverse = some x := by
  have hvalue : leValue x.toBeBytes.reverse = x.val := by
    rw [toBeBytes, reverse_beBytes, leValue_leBytes x.val_lt_bytes]
  rw [tryFrom, hvalue, if_pos x.val_lt, ZMod.natCast_zmod_val]

def inverse (x : P256) : Option P256 := if x = 0 then none else some x⁻¹

end P256

/-! ## The curve -/

/-- NIST P-256. -/
def curve : WeierstrassCurve.Affine P256 :=
  ⟨0, 0, 0, -3, 0x5ac635d8aa3a93e7b3ebbd55769886bc651d06b0cc53b0f63bce3c3e27d2604b⟩

abbrev AffinePoint := curve.Point

def generatorX : P256 := 0x6b17d1f2e12c4247f8bce6e563a440f277037d812deb33a0f4a13945d898c296

def generatorY : P256 := 0x4fe342e2fe1a7f9b8ee7eb4a7c0f9e162bce33576b315ececbb6406837bf51f5

theorem nonsingular_generator : curve.Nonsingular generatorX generatorY := by
  rw [WeierstrassCurve.Affine.nonsingular_iff, WeierstrassCurve.Affine.equation_iff]
  simp only [curve]
  exact ⟨by decide +kernel, .inr (by decide +kernel)⟩

def generator : AffinePoint := .some generatorX generatorY nonsingular_generator

/-- A point in the encoding of SEC1. -/
inductive EncodedPoint where
  | identity
  | compact (x : List UInt8)
  | compressed (x : List UInt8) (isOdd : Bool)
  | uncompressed (x y : List UInt8)
deriving DecidableEq

namespace EncodedPoint

def x : EncodedPoint → Option (List UInt8)
  | identity => none
  | compact x => some x
  | compressed x _ => some x
  | uncompressed x _ => some x

def y : EncodedPoint → Option (List UInt8)
  | uncompressed _ y => some y
  | _ => none

/-- `EncodedPoint::from`: a point of this curve is not compressed. -/
def ofPoint : AffinePoint → EncodedPoint
  | .zero => identity
  | .some x y _ => uncompressed x.toBeBytes y.toBeBytes

end EncodedPoint

/-- The x coordinate. -/
def xCoord : AffinePoint → Option P256
  | .zero => none
  | .some x _ _ => some x

theorem ne_zero_of_xCoord {A : AffinePoint} {x : P256} (h : xCoord A = some x) : A ≠ 0 := by
  rintro rfl
  cases h

/-- The chord through points with different x coordinates meets the curve a third time. -/
theorem xCoord_add {x₁ y₁ x₂ y₂ : P256} {h₁ : curve.Nonsingular x₁ y₁}
    {h₂ : curve.Nonsingular x₂ y₂} (hx : x₁ ≠ x₂) :
    xCoord (WeierstrassCurve.Affine.Point.some x₁ y₁ h₁ + .some x₂ y₂ h₂) =
      some (((y₁ - y₂) / (x₁ - x₂)) ^ 2 - x₁ - x₂) := by
  rw [WeierstrassCurve.Affine.Point.add_of_X_ne hx, xCoord,
    WeierstrassCurve.Affine.slope_of_X_ne hx, WeierstrassCurve.Affine.addX]
  congr 1
  simp only [curve]
  ring

theorem add_ne_zero_of_xCoord {A B : AffinePoint} {x₁ x₂ : P256} (hA : xCoord A = some x₁)
    (hB : xCoord B = some x₂) (hx : x₁ ≠ x₂) : A + B ≠ 0 := by
  cases A with
  | zero => cases hA
  | some x y h =>
      cases B with
      | zero => cases hB
      | some x' y' h' =>
          have hxA : x = x₁ := Option.some.inj hA
          have hxB : x' = x₂ := Option.some.inj hB
          rw [← hxA, ← hxB] at hx
          exact ne_zero_of_xCoord (xCoord_add hx)

end Tlsn.KeyExchange
