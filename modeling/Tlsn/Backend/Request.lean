import Mathlib.Algebra.Order.Ring.Rat

/-!
What a request asks for, and what is done with its texts and numbers. A number is a double; where
payments are compared by their value, amounts are exact.
-/

namespace Tlsn.Backend

/-- What is done with a number. -/
class Number (α : Type) where
  /-- `===` -/
  same : α → α → Bool
  /-- The number times `10 ** 6`. -/
  millions : α → α
  /-- `BigInt` throws unless the number is an integer. -/
  bigInt : α → Except String ℤ
  /-- What the bank lists as an amount. -/
  Listed : α → Prop

/-- Exact numbers. The bank lists none which is negative. -/
instance : Number ℚ where
  same x y := x = y
  millions x := x * 10 ^ 6
  bigInt x :=
    if x.den = 1 then .ok x.num
    else .error "The number cannot be converted to a BigInt because it is not an integer"
  Listed x := 0 ≤ x

/-- What a double stands for, unless it is infinite or not a number. -/
def finiteValue (x : Float) : Option ℚ :=
  match x.toModel.unpack with
  | .zero _ => some 0
  | .finite sign mantissa exponent _ =>
      let signed : ℤ := match sign with
        | .negative => -mantissa
        | .positive => mantissa
      some (mkRat (signed * 2 ^ exponent.toNat) (2 ^ (-exponent).toNat))
  | .infinity _ => none
  | .notANumber => none

/-- Doubles. The product is rounded. -/
instance : Number Float where
  same x y := x == y
  millions x := x * 1000000
  bigInt x :=
    match finiteValue x with
    | some q => Number.bigInt q
    | none => .error "The number cannot be converted to a BigInt because it is not an integer"
  Listed _ := True

structure TransactionRequest (α : Type) where
  amount : α
  bankAccountNumber : String
  walletAddress : String
  name : Option String
  sortCode : Option String
  chain : Option String
deriving DecidableEq

/-- What is used of the library for the chains. -/
structure Viem (α : Type) where
  /-- The amount in units of a token with these decimals, unless it is not written as a
  decimal number. -/
  parseUnits : α → Nat → Option ℤ
  /-- Whether a text is an address, its checksum included. -/
  isAddress : String → Bool

/-- An amount without more decimal places than the token has. -/
def Whole (amount : ℚ) (decimals : Nat) : Prop := (amount * 10 ^ decimals).den = 1

instance (amount : ℚ) (decimals : Nat) : Decidable (Whole amount decimals) :=
  inferInstanceAs (Decidable (_ = _))

/-- Such an amount is not rounded. -/
structure Viem.Exact (viem : Viem ℚ) : Prop where
  parseUnits : ∀ {amount : ℚ} {decimals : Nat} {units : ℤ}, Whole amount decimals →
    viem.parseUnits amount decimals = some units → (units : ℚ) = amount * 10 ^ decimals

theorem Viem.Exact.units_div {viem : Viem ℚ} (h : viem.Exact) {amount : ℚ} {decimals : Nat}
    {units : ℤ} (hwhole : Whole amount decimals)
    (hunits : viem.parseUnits amount decimals = some units) :
    (units : ℚ) / 10 ^ decimals = amount := by
  rw [h.parseUnits hwhole hunits]
  exact mul_div_cancel_right₀ amount (pow_ne_zero decimals (by decide))

/-- The variables of the environment. -/
structure Env where
  walletAddress : String

def isHexDigit (c : Char) : Bool :=
  ('a' ≤ c && c ≤ 'f') || ('A' ≤ c && c ≤ 'F') || ('0' ≤ c && c ≤ '9')

/-- `/^0x[a-fA-F0-9]{40}$/` -/
def isWalletAddressValid (walletAddress : String) : Bool :=
  match walletAddress.toList with
  | '0' :: 'x' :: digits => digits.length = 40 && digits.all isHexDigit
  | _ => false

/-- An argument of type `uint256`. -/
def uint256 (n : ℤ) : Except String ℤ :=
  if 0 ≤ n ∧ n < 2 ^ 256 then .ok n
  else .error "Number is not in safe 256-bit unsigned integer range"

theorem same_iff {x y : ℚ} : Number.same x y = true ↔ x = y := decide_eq_true_iff

theorem bigInt_rat_ok_iff {x : ℚ} {n : ℤ} : Number.bigInt x = .ok n ↔ x = n := by
  change (if x.den = 1 then _ else _) = _ ↔ _
  by_cases h : x.den = 1
  · rw [if_pos h, Except.ok.injEq]
    constructor
    · rintro rfl
      exact (Rat.coe_int_num_of_den_eq_one h).symm
    · rintro rfl
      exact Rat.num_intCast n
  · rw [if_neg h]
    constructor
    · intro hok
      cases hok
    · rintro rfl
      exact absurd (Rat.den_intCast n) h

/-- A double is converted to the integer for which it stands. -/
theorem bigInt_float_ok_iff {x : Float} {n : ℤ} :
    Number.bigInt x = .ok n ↔ finiteValue x = some (n : ℚ) := by
  change (match finiteValue x with | some q => Number.bigInt q | none => _) = _ ↔ _
  cases hvalue : finiteValue x with
  | none =>
      constructor
      · intro hok
        cases hok
      · intro hsome
        cases hsome
  | some q =>
      rw [Option.some.injEq]
      exact bigInt_rat_ok_iff

/-- The first product is 4099999.9999999995, and refused; the second is rounded to an integer. -/
example : (finiteValue (4.1 * 1000000)).map Rat.den ≠ some 1 ∧
    finiteValue (0.47000000000000003 * 1000000) = some 470000 := by decide +kernel

theorem uint256_ok_iff {n m : ℤ} : uint256 n = .ok m ↔ (0 ≤ n ∧ n < 2 ^ 256) ∧ n = m := by
  unfold uint256
  by_cases h : 0 ≤ n ∧ n < 2 ^ 256
  · rw [if_pos h, Except.ok.injEq]
    exact ⟨fun hm => ⟨h, hm⟩, fun hm => hm.2⟩
  · rw [if_neg h]
    simp only [reduceCtorEq, false_iff]
    exact fun hm => h hm.1

/-! A library which refuses to round, and does not look at checksums. -/

def sampleViem : Viem ℚ where
  parseUnits := fun amount decimals =>
    if Whole amount decimals then some (amount * 10 ^ decimals).num else none
  isAddress := isWalletAddressValid

theorem sampleViem_exact : sampleViem.Exact where
  parseUnits := fun {amount decimals units} hwhole h => by
    simp only [sampleViem, if_pos hwhole, Option.some.injEq] at h
    rw [← h]
    exact Rat.coe_int_num_of_den_eq_one hwhole

end Tlsn.Backend
