import Mathlib.Algebra.Field.ZMod
import Mathlib.Data.ZMod.Basic
import Mathlib.RingTheory.AdjoinRoot
import Mathlib.Tactic.ComputeDegree
import Tlsn.MpcTls.Ghash

/-!
The field of GHASH, as polynomials over the field of two elements modulo
`X ^ 128 + X ^ 7 + X ^ 2 + X + 1`. The first bit of a block is the coefficient of
`1`.
-/

namespace Tlsn.MpcTls

open Polynomial

noncomputable def ghashPoly : (ZMod 2)[X] := X ^ 128 + (X ^ 7 + X ^ 2 + X + 1)

theorem ghashPoly_monic : ghashPoly.Monic := by
  have hlow : (X ^ 7 + X ^ 2 + X + 1 : (ZMod 2)[X]).degree < 128 := by compute_degree!
  unfold ghashPoly
  exact monic_X_pow_add hlow

theorem ghashPoly_natDegree : ghashPoly.natDegree = 128 := by
  unfold ghashPoly
  compute_degree!

abbrev Gf2_128 : Type := AdjoinRoot ghashPoly

namespace Gf2_128

theorem dim_eq : (AdjoinRoot.powerBasis' ghashPoly_monic).dim = 16 * 8 := by
  rw [AdjoinRoot.powerBasis'_dim, ghashPoly_natDegree]

/-- The coefficients, in groups of eight. -/
noncomputable def coefficients : Gf2_128 ≃ₗ[ZMod 2] (Fin 16 × Fin 8 → ZMod 2) :=
  ((AdjoinRoot.powerBasis' ghashPoly_monic).basis.reindex
    ((finCongr dim_eq).trans finProdFinEquiv.symm)).equivFun

def ofBool (b : Bool) : ZMod 2 := if b then 1 else 0

theorem ofBool_xor (a b : Bool) : ofBool (a ^^ b) = ofBool a + ofBool b := by
  cases a <;> cases b <;> decide

theorem ofBool_decide (x : ZMod 2) : ofBool (decide (x = 1)) = x := by
  revert x
  decide

theorem decide_ofBool (b : Bool) : decide (ofBool b = 1) = b := by
  revert b
  decide

/-- The byte with the given bits, highest first. -/
def byteOf (f : Fin 8 → Bool) : UInt8 :=
  UInt8.ofBitVec ((BitVec.ofBoolListBE (List.ofFn f)).cast (List.length_ofFn))

theorem getMsbD_byteOf (f : Fin 8 → Bool) (i : Fin 8) :
    (byteOf f).toBitVec.getMsbD i = f i := by
  rw [byteOf, BitVec.getMsbD_cast, BitVec.getMsbD_ofBoolListBE,
    List.getD_eq_getElem?_getD, List.getElem?_eq_getElem (by simp), List.getElem_ofFn,
    Option.getD_some]

/-- The bits of the bytes, highest first. -/
def bits : Block ≃ (Fin 16 × Fin 8 → ZMod 2) where
  toFun b i := ofBool (b[i.1].toBitVec.getMsbD i.2)
  invFun f := Vector.ofFn fun k => byteOf fun l => decide (f (k, l) = 1)
  left_inv b := by
    ext k hk
    apply congrArg
    apply UInt8.toBitVec_inj.mp
    apply BitVec.eq_of_getMsbD_eq
    intro l hl
    simp only [Fin.getElem_fin, Vector.getElem_ofFn]
    rw [getMsbD_byteOf _ ⟨l, hl⟩, decide_ofBool]
  right_inv f := by
    funext i
    simp only [Fin.getElem_fin, Vector.getElem_ofFn]
    rw [getMsbD_byteOf, ofBool_decide]

theorem bits_xor (a b : Block) : bits (Block.xor a b) = bits a + bits b := by
  funext i
  simp only [bits, Equiv.coe_fn_mk, Pi.add_apply, Fin.getElem_fin, Block.getElem_xor,
    UInt8.toBitVec_xor, BitVec.getMsbD_xor, ofBool_xor]

theorem add_self (x : Gf2_128) : x + x = 0 := by
  apply coefficients.injective
  funext i
  rw [map_add, map_zero, Pi.add_apply, Pi.zero_apply]
  generalize coefficients x i = c
  revert c
  decide

end Gf2_128

noncomputable def gf2_128 : BlockField Gf2_128 where
  ofBlock := Gf2_128.bits.trans Gf2_128.coefficients.toEquiv.symm
  ofBlock_xor a b := by
    change Gf2_128.coefficients.symm (Gf2_128.bits (Block.xor a b)) = _
    rw [Gf2_128.bits_xor, map_add]
    rfl
  add_self := Gf2_128.add_self

end Tlsn.MpcTls
