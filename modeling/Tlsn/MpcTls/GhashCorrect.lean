import Tlsn.MpcTls.TagsCorrect

/-!
GHASH on shares. After setup the parties hold additive shares of every power of the
key, in order, and what they compute from any input that fits adds up to GHASH of
the zero-padded input. A record of the maximal length fits.
-/

namespace Tlsn.MpcTls.MpcGhash

/-- Longest plaintext of a TLS record. -/
def maxFragmentLen : Nat := 16384

/-- GHASH of an input which is padded with zeroes to whole blocks. -/
def ghashPadded {F : Type} [CommRing F] (B : BlockField F) (h : F) (input : List UInt8) : Block :=
  B.ofBlock.symm (polyHash h ((blocksOf (padBlocks input)).map B.ofBlock))

theorem blocksOf_padBlocks_self (input : List UInt8) :
    blocksOf (padBlocks input) = blocksOf input := by
  have hpad := blocksOf_padBlocks input []
  rw [List.append_nil] at hpad
  rw [hpad]
  exact List.append_nil _

/-- The input of a record: two paddings and the block with the lengths. -/
theorem divCeil_buildGhashData (aad ciphertext : List UInt8) :
    divCeil (buildGhashData aad ciphertext).length 16 =
      divCeil aad.length 16 + divCeil ciphertext.length 16 + 1 := by
  rw [← length_blocksOf, blocksOf_buildGhashData, ghashBlocks, List.length_append,
    List.length_append, length_blocksOf, length_blocksOf]
  rfl

theorem divCeil_le_of_le {n m : Nat} (h : n ≤ 16 * m) : divCeil n 16 ≤ m := by
  have := divCeil_mul n 16 (by decide)
  omega

/-- A party that was given its share of the key and shares of the odd powers is ready. -/
structure Ready {F : Type} [CommRing F] (B : BlockField F) (key : Block) (conv : Conversion F)
    (shares : List F) : Prop where
  setup : ∃ g, setKey B key.toList new = .ok () g ∧ MpcGhash.setup conv g = .ok () ⟨.ready shares⟩
  length : shares.length = maxPower

variable {F : Type} [CommRing F] {B : BlockField F} {key₁ key₂ : Block} {conv₁ conv₂ : Conversion F}

theorem ghash_on_shares (hconv : CorrectConversion conv₁ conv₂ (B.ofBlock key₁) (B.ofBlock key₂)) :
    ∃ xs ys, Ready B key₁ conv₁ xs ∧ Ready B key₂ conv₂ ys ∧
      (∀ k, 1 ≤ k → k ≤ maxPower → ∃ x y, xs[k - 1]? = some x ∧ ys[k - 1]? = some y ∧
        x + y = B.ofBlock (Block.xor key₁ key₂) ^ k) ∧
      (∀ input : List UInt8, divCeil input.length 16 ≤ maxPower →
        (blocksOf input).length ≤ xs.length ∧ (blocksOf input).length ≤ ys.length ∧
        ∃ a b : Block, compute B ⟨.ready xs⟩ input = .ok a.toList ∧
          compute B ⟨.ready ys⟩ input = .ok b.toList ∧
          Block.xor a b = ghashPadded B (B.ofBlock (Block.xor key₁ key₂)) input) ∧
      ∀ aad ciphertext : List UInt8, aad.length ≤ 16 → ciphertext.length ≤ maxFragmentLen →
        divCeil (buildGhashData aad ciphertext).length 16 ≤ maxPower := by
  obtain ⟨g₁, xs, hkey₁, hsetup₁, -⟩ := prepare_ok B key₁ hconv.leader_length
  obtain ⟨g₂, ys, hkey₂, hsetup₂, -⟩ := prepare_ok B key₂ hconv.follower_length
  have hshared := shared_of_setup B hkey₁ hkey₂ hsetup₁ hsetup₂ hconv
  obtain ⟨xs', ys', hxs, hys, hlenx, hleny, hpowers⟩ := hshared.shares
  cases hxs
  cases hys
  refine ⟨xs, ys, ⟨⟨g₁, hkey₁, hsetup₁⟩, hlenx⟩, ⟨⟨g₂, hkey₂, hsetup₂⟩, hleny⟩, hpowers, ?_, ?_⟩
  · intro input hfits
    rw [length_blocksOf, hlenx, hleny]
    refine ⟨hfits, hfits, ?_⟩
    rw [ghashPadded, blocksOf_padBlocks_self]
    exact hshared.compute hfits
  · intro aad ciphertext haad hciphertext
    have h₁ : divCeil aad.length 16 ≤ 1 := divCeil_le_of_le haad
    have h₂ : divCeil ciphertext.length 16 ≤ 1024 := divCeil_le_of_le hciphertext
    rw [divCeil_buildGhashData]
    have hmax : maxPower = 1026 := rfl
    omega

theorem ghash_on_shares_sample :
    ∃ xs ys, Ready gf2_128 (TagRecord.sampleKey .leader) (TagRecord.sampleConversion .leader) xs ∧
      Ready gf2_128 (TagRecord.sampleKey .follower) (TagRecord.sampleConversion .follower) ys ∧
      ∃ a b : Block, compute gf2_128 ⟨.ready xs⟩ [1, 2, 3] = .ok a.toList ∧
        compute gf2_128 ⟨.ready ys⟩ [1, 2, 3] = .ok b.toList ∧
        Block.xor a b = ghashPadded gf2_128 (gf2_128.ofBlock
          (Block.xor (TagRecord.sampleKey .leader) (TagRecord.sampleKey .follower))) [1, 2, 3] := by
  obtain ⟨xs, ys, hx, hy, -, hcompute, -⟩ := ghash_on_shares TagRecord.sampleConversion_correct
  exact ⟨xs, ys, hx, hy, (hcompute [1, 2, 3] (by decide)).2.2⟩

end Tlsn.MpcTls.MpcGhash
