import Tlsn.Library.Bytes
import Tlsn.Library.Codec

/-!
Numbers written as bytes, and the bytes read back.
-/

/-- The number which the bytes are, lowest first. -/
def leValue : List UInt8 → Nat
  | [] => 0
  | byte :: bytes => byte.toNat + 256 * leValue bytes

theorem leValue_leBytes {w n : Nat} (h : n < 256 ^ w) : leValue (Codec.leBytes w n) = n := by
  induction w generalizing n with
  | zero => exact (Nat.lt_one_iff.mp h).symm
  | succ w ih =>
      rw [Nat.pow_succ] at h
      rw [Codec.leBytes, leValue, ih (by omega), UInt8.toNat_ofNat']
      omega

theorem reverse_beBytes (w n : Nat) : (beBytes w n).reverse = Codec.leBytes w n := by
  induction w generalizing n with
  | zero => rfl
  | succ w ih =>
      have hn : n / 256 * 256 ^ 1 + n % 256 = n := by omega
      have hsplit := beBytes_add w 1 (n / 256) (n % 256) (Nat.mod_lt _ (by decide))
      have hlow : beBytes 1 (n % 256) = [UInt8.ofNat n] := by
        rw [show n % 256 = n % 256 ^ 1 from rfl, beBytes_mod]
        simp [beBytes]
      rw [hn] at hsplit
      rw [hsplit, hlow, List.reverse_append, ih, Codec.leBytes, List.reverse_singleton,
        List.singleton_append]

/-- The number which the bytes are, highest first. -/
def beValue (bytes : List UInt8) : Nat := leValue bytes.reverse

theorem beValue_beBytes {w n : Nat} (h : n < 256 ^ w) : beValue (beBytes w n) = n := by
  rw [beValue, reverse_beBytes, leValue_leBytes h]