import Mathlib.Data.List.GetD
import Tlsn.MpcTls.Ghash

/-!
The hashes which two parties compute from their shares add up to GHASH, given that
the conversions between additive and multiplicative shares are correct.
-/

namespace Tlsn.MpcTls

/-! ## GHASH -/

/-- The blocks that are hashed: the additional data and the text, each padded with
zeroes, and their lengths in bits. -/
def ghashBlocks (aad ciphertext : List UInt8) : List Block :=
  MpcGhash.blocksOf aad ++ MpcGhash.blocksOf ciphertext ++
    [Block.ofBytes (beBytes 8 (aad.length * 8) ++ beBytes 8 (ciphertext.length * 8))]

/-- GHASH with the key `h`. -/
def ghashOf {F : Type} [CommRing F] (B : BlockField F) (h : F) (aad ciphertext : List UInt8) :
    Block :=
  B.ofBlock.symm (polyHash h ((ghashBlocks aad ciphertext).map B.ofBlock))

theorem divCeil_mul_add (m n : Nat) : divCeil (16 * m + n) 16 = m + divCeil n 16 := by
  have hmod : (16 * m + n) % 16 = n % 16 := by omega
  have hdiv : (16 * m + n) / 16 = m + n / 16 := by omega
  rw [divCeil, hmod, hdiv, divCeil, Nat.add_assoc]

theorem length_padBlocks (bytes : List UInt8) :
    (padBlocks bytes).length = 16 * divCeil bytes.length 16 := by
  have hle := (divCeil_mul bytes.length 16 (by decide)).1
  rw [padBlocks, List.length_append, List.length_replicate]
  omega

theorem getD_padBlocks (bytes rest : List UInt8) {i : Nat}
    (h : i < 16 * divCeil bytes.length 16) :
    (padBlocks bytes ++ rest).getD i 0 = bytes.getD i 0 := by
  rw [List.getD_append _ _ _ _ (by rw [length_padBlocks]; exact h), padBlocks]
  by_cases hi : i < bytes.length
  · rw [List.getD_append _ _ _ _ hi]
  · rw [List.getD_append_right _ _ _ _ (by omega), List.getD_replicate _ (by
      have hle := (divCeil_mul bytes.length 16 (by decide)).1
      omega), List.getD_eq_default _ _ (by omega)]

namespace MpcGhash

theorem getElem_blockAt (input : List UInt8) (i j : Nat) (h : j < 16) :
    (blockAt input i)[j] = input.getD (16 * i + j) 0 := by
  simp [blockAt, Block.ofBytes, List.getElem?_drop]

theorem blocksOf_padBlocks (bytes rest : List UInt8) :
    blocksOf (padBlocks bytes ++ rest) = blocksOf bytes ++ blocksOf rest := by
  rw [blocksOf, List.length_append, length_padBlocks, divCeil_mul_add, List.range_add,
    List.map_append]
  apply congrArg₂
  · apply List.map_congr_left
    intro i hi
    rw [List.mem_range] at hi
    ext j hj
    rw [getElem_blockAt, getElem_blockAt, getD_padBlocks _ _ (by omega)]
  · rw [List.map_map]
    apply List.map_congr_left
    intro i _
    rw [Function.comp_apply, blockAt, blockAt, Nat.mul_add, ← length_padBlocks, ← List.drop_drop,
      List.drop_left]

end MpcGhash

private theorem beBytes_wrap (n : Nat) : beBytes 8 (wrap n) = beBytes 8 n := beBytes_mod 8 n

/-- What the parties hash is what GHASH hashes. -/
theorem blocksOf_buildGhashData (aad ciphertext : List UInt8) :
    MpcGhash.blocksOf (buildGhashData aad ciphertext) = ghashBlocks aad ciphertext := by
  have hlen : beBytes 16 (wrap (aad.length * 8) * 2 ^ 64 + wrap (ciphertext.length * 8)) =
      beBytes 8 (aad.length * 8) ++ beBytes 8 (ciphertext.length * 8) := by
    rw [← beBytes_wrap (aad.length * 8), ← beBytes_wrap (ciphertext.length * 8)]
    exact beBytes_add 8 8 _ _ (Nat.mod_lt _ (by decide))
  rw [buildGhashData, List.append_assoc, MpcGhash.blocksOf_padBlocks, MpcGhash.blocksOf_padBlocks,
    hlen, ghashBlocks, ← List.append_assoc]
  apply congrArg
  rw [MpcGhash.blocksOf, List.length_append, length_beBytes, length_beBytes]
  rfl

namespace MpcGhash

variable {F : Type} [CommRing F]

/-- What the loop over the powers computes: the share of each power, from the share
of the key and those of the odd powers. -/
structure IsShares (key : F) (odd shares : List F) : Prop where
  first : shares[0]? = some key
  even : ∀ k, 2 ≤ k → k ≤ shares.length → k % 2 = 0 →
    ∃ base, shares[k / 2 - 1]? = some base ∧ shares[k - 1]? = some (base * base)
  odd : ∀ k, 2 ≤ k → k ≤ shares.length → k % 2 = 1 → shares[k - 1]? = odd[(k - 3) / 2]?

private theorem getElem?_snoc {α : Type} {xs : List α} {x : α} {i : Nat} (h : i < xs.length) :
    (xs ++ [x])[i]? = xs[i]? := List.getElem?_append_left h

theorem IsShares.snoc {key x : F} {odd shares : List F} (h : IsShares key odd shares)
    (hpos : 0 < shares.length)
    (heven : (shares.length + 1) % 2 = 0 →
      ∃ base, shares[(shares.length + 1) / 2 - 1]? = some base ∧ x = base * base)
    (hodd : (shares.length + 1) % 2 = 1 → some x = odd[(shares.length - 2) / 2]?) :
    IsShares key odd (shares ++ [x]) := by
  refine ⟨?_, ?_, ?_⟩
  · rw [getElem?_snoc hpos]
    exact h.first
  · intro k hk hle hmod
    rw [List.length_append, List.length_singleton] at hle
    rw [getElem?_snoc (by omega)]
    by_cases hlast : k = shares.length + 1
    · subst hlast
      obtain ⟨base, hbase, hx⟩ := heven hmod
      refine ⟨base, hbase, ?_⟩
      rw [Nat.add_sub_cancel, List.getElem?_concat_length, hx]
    · rw [getElem?_snoc (by omega)]
      exact h.even k hk (by omega) hmod
  · intro k hk hle hmod
    rw [List.length_append, List.length_singleton] at hle
    by_cases hlast : k = shares.length + 1
    · subst hlast
      rw [Nat.add_sub_cancel, List.getElem?_concat_length]
      exact hodd hmod
    · rw [getElem?_snoc (by omega)]
      exact h.odd k hk (by omega) hmod

/-- The loop succeeds when there are shares for all odd powers. -/
theorem computeShares_ok (key : F) (odd : List F) (hodd : odd.length = maxPower / 2 - 1) :
    ∃ shares, computeShares key odd = .ok shares ∧ shares.length = maxPower ∧
      IsShares key odd shares := by
  have hinit : IsShares key odd [key] := by
    refine ⟨rfl, ?_, ?_⟩
    · intro k hk hle
      rw [List.length_singleton] at hle
      omega
    · intro k hk hle
      rw [List.length_singleton] at hle
      omega
  have hloop := Fault.foldlM_ok (ε := Fault GhashError)
    (P := fun (done : List Nat) (acc : List F × Nat) =>
      acc.1.length = done.length + 1 ∧ acc.2 = done.length / 2 ∧ IsShares key odd acc.1)
    (f := computeShare odd) (l := List.range' 2 (maxPower - 1)) (b := ([key], 0))
    ⟨rfl, rfl, hinit⟩ ?_
  · obtain ⟨acc, hrun, hlen, -, hshares⟩ := hloop
    refine ⟨acc.1, ?_, ?_, hshares⟩
    · rw [computeShares, hrun]
      rfl
    · rw [hlen, List.length_range', maxPower]
  · intro done i rest acc hsplit hinv
    obtain ⟨hlen, hidx, hshares⟩ := hinv
    obtain ⟨hi, hbound⟩ : i = done.length + 2 ∧ done.length < maxPower - 1 := by
      have hget : (List.range' 2 (maxPower - 1))[done.length]? = some i := by
        rw [hsplit, List.getElem?_append_right (Nat.le_refl _), Nat.sub_self]
        rfl
      obtain ⟨hlt, hval⟩ := List.getElem?_eq_some_iff.mp hget
      rw [List.length_range'] at hlt
      rw [List.getElem_range'] at hval
      exact ⟨by omega, hlt⟩
    have hpos : 0 < acc.1.length := by omega
    rw [computeShare]
    by_cases hmod : i % 2 = 0
    · obtain ⟨base, hbase⟩ : ∃ base, acc.1[i / 2 - 1]? = some base :=
        ⟨_, List.getElem?_eq_getElem (by omega)⟩
      rw [if_pos hmod, hbase]
      refine ⟨_, rfl, ?_, ?_, ?_⟩
      · simp [hlen]
      · rw [List.length_append, List.length_singleton]
        omega
      · apply hshares.snoc hpos
        · intro _
          rw [show acc.1.length + 1 = i by omega]
          exact ⟨base, hbase, rfl⟩
        · intro hmod'
          omega
    · obtain ⟨share, hshare⟩ : ∃ share, odd[acc.2]? = some share := by
        have hmax : maxPower = 1026 := rfl
        exact ⟨_, List.getElem?_eq_getElem (by omega)⟩
      rw [if_neg hmod, hshare]
      refine ⟨_, rfl, ?_, ?_, ?_⟩
      · simp [hlen]
      · rw [List.length_append, List.length_singleton]
        omega
      · apply hshares.snoc hpos
        · intro hmod'
          omega
        · intro _
          rw [← hshare, show (acc.1.length - 2) / 2 = acc.2 by omega]

theorem getElem?_powers (key acc : F) {n i : Nat} (h : i < n) :
    (powers key acc n)[i]? = some (acc * key ^ i) := by
  induction n generalizing acc i with
  | zero => cases h
  | succ n ih =>
      cases i with
      | zero => simp [powers]
      | succ i =>
          rw [powers, List.getElem?_cons_succ, ih (acc * key) (Nat.lt_of_succ_lt_succ h),
            pow_succ', mul_assoc]

theorem getElem?_stepBy2 {α : Type} (xs : List α) (i : Nat) : (stepBy2 xs)[i]? = xs[2 * i]? := by
  induction xs using stepBy2.induct generalizing i with
  | case1 => simp [stepBy2]
  | case2 x =>
      cases i with
      | zero => rfl
      | succ i => simp [stepBy2, Nat.mul_add]
  | case3 x y xs ih =>
      cases i with
      | zero => rfl
      | succ i =>
          rw [stepBy2, List.getElem?_cons_succ, ih, Nat.mul_add, Nat.mul_one,
            List.getElem?_cons_succ, List.getElem?_cons_succ]

theorem getElem?_oddShares (multKey : F) {i : Nat} (h : i < maxPower / 2 - 1) :
    (oddShares multKey)[i]? = some (multKey ^ (2 * i + 3)) := by
  have hmax : maxPower = 1026 := rfl
  rw [oddShares, getElem?_stepBy2, List.getElem?_drop, getElem?_powers _ _ (by omega), ← pow_succ',
    show 2 + 2 * i + 1 = 2 * i + 3 by omega]

/-- The converters of both parties are correct: the multiplicative shares have the
key as their product, and the additive shares add up to the products of the odd
powers. -/
structure CorrectConversion (leader follower : Conversion F)
    (leaderKey followerKey : F) : Prop where
  mult : leader.multKey * follower.multKey = leaderKey + followerKey
  leader_length : leader.addSharesOdd.length = maxPower / 2 - 1
  follower_length : follower.addSharesOdd.length = maxPower / 2 - 1
  add : ∀ (i : Nat) (p q x y : F), (oddShares leader.multKey)[i]? = some p →
    (oddShares follower.multKey)[i]? = some q → leader.addSharesOdd[i]? = some x →
    follower.addSharesOdd[i]? = some y → x + y = p * q

/-- Both parties are ready and hold additive shares of the powers of `h`. -/
structure Shared (h : F) (leader follower : MpcGhash F) : Prop where
  shares : ∃ xs ys, leader.state = .ready xs ∧ follower.state = .ready ys ∧
    xs.length = maxPower ∧ ys.length = maxPower ∧
    ∀ k, 1 ≤ k → k ≤ maxPower → ∃ x y, xs[k - 1]? = some x ∧ ys[k - 1]? = some y ∧ x + y = h ^ k

/-- The shares of every power add up to it: those of an odd power as converted, those
of an even power because squaring is additive. -/
theorem IsShares.add {B : BlockField F} {k₁ k₂ : F} {odd₁ odd₂ xs ys : List F}
    (hxs : IsShares k₁ odd₁ xs) (hys : IsShares k₂ odd₂ ys) (hx : xs.length = maxPower)
    (hy : ys.length = maxPower)
    (hodd : ∀ i, i < maxPower / 2 - 1 → ∃ x y, odd₁[i]? = some x ∧ odd₂[i]? = some y ∧
      x + y = (k₁ + k₂) ^ (2 * i + 3)) (k : Nat) (hpos : 1 ≤ k) (hle : k ≤ maxPower) :
    ∃ x y, xs[k - 1]? = some x ∧ ys[k - 1]? = some y ∧ x + y = (k₁ + k₂) ^ k := by
  have hmax : maxPower = 1026 := rfl
  induction k using Nat.strong_induction_on with
  | _ k ih =>
      by_cases hone : k = 1
      · subst hone
        exact ⟨k₁, k₂, hxs.first, hys.first, (pow_one _).symm⟩
      · by_cases hmod : k % 2 = 0
        · obtain ⟨x, hx', hxx⟩ := hxs.even k (by omega) (by omega) hmod
          obtain ⟨y, hy', hyy⟩ := hys.even k (by omega) (by omega) hmod
          obtain ⟨x', y', hx'', hy'', hsum⟩ := ih (k / 2) (by omega) (by omega) (by omega)
          rw [hx'] at hx''
          rw [hy'] at hy''
          cases hx''
          cases hy''
          refine ⟨_, _, hxx, hyy, ?_⟩
          rw [← B.add_mul_self, hsum, ← pow_add]
          congr 1
          omega
        · obtain ⟨x, y, hx', hy', hsum⟩ := hodd ((k - 3) / 2) (by omega)
          refine ⟨x, y, ?_, ?_, ?_⟩
          · rw [hxs.odd k (by omega) (by omega) (by omega), hx']
          · rw [hys.odd k (by omega) (by omega) (by omega), hy']
          · rw [hsum]
            congr 1
            omega

/-- Setting the shares of a key and setting up leaves both parties with shares of its
powers. -/
theorem shared_of_setup (B : BlockField F) {key₁ key₂ : Block} {conv₁ conv₂ : Conversion F}
    {g₁ g₂ leader follower : MpcGhash F} (hset₁ : setKey B key₁.toList new = .ok () g₁)
    (hset₂ : setKey B key₂.toList new = .ok () g₂) (hsetup₁ : setup conv₁ g₁ = .ok () leader)
    (hsetup₂ : setup conv₂ g₂ = .ok () follower)
    (hideal : CorrectConversion conv₁ conv₂ (B.ofBlock key₁) (B.ofBlock key₂)) :
    Shared (B.ofBlock (Block.xor key₁ key₂)) leader follower := by
  have hkey : ∀ {key : Block} {g : MpcGhash F}, setKey B key.toList new = .ok () g →
      g = ⟨.setKey (B.ofBlock key)⟩ := by
    intro key g h
    rw [setKey, if_neg (by simp)] at h
    cases h
    rw [Block.ofBytes_toList]
  cases hkey hset₁
  cases hkey hset₂
  obtain ⟨xs, hrun₁, hlen₁, hxs⟩ := computeShares_ok (B.ofBlock key₁) _ hideal.leader_length
  obtain ⟨ys, hrun₂, hlen₂, hys⟩ := computeShares_ok (B.ofBlock key₂) _ hideal.follower_length
  simp only [setup, hrun₁] at hsetup₁
  simp only [setup, hrun₂] at hsetup₂
  cases hsetup₁
  cases hsetup₂
  refine ⟨xs, ys, rfl, rfl, hlen₁, hlen₂, ?_⟩
  rw [B.ofBlock_xor]
  apply hxs.add (B := B) hys hlen₁ hlen₂
  intro i hi
  have hx : i < conv₁.addSharesOdd.length := by rw [hideal.leader_length]; exact hi
  have hy : i < conv₂.addSharesOdd.length := by rw [hideal.follower_length]; exact hi
  refine ⟨_, _, List.getElem?_eq_getElem hx, List.getElem?_eq_getElem hy, ?_⟩
  rw [hideal.add i _ _ _ _ (getElem?_oddShares _ hi) (getElem?_oddShares _ hi)
    (List.getElem?_eq_getElem hx) (List.getElem?_eq_getElem hy), ← mul_pow, hideal.mult]

/-- With shares of all odd powers, preparing succeeds. -/
theorem prepare_ok (B : BlockField F) (key : Block) {conv : Conversion F}
    (hlen : conv.addSharesOdd.length = maxPower / 2 - 1) :
    ∃ g shares, setKey B key.toList new = .ok () g ∧ setup conv g = .ok () ⟨.ready shares⟩ ∧
      prepare B conv key.toList = .ok ⟨compute B ⟨.ready shares⟩⟩ := by
  obtain ⟨shares, hshares, -, -⟩ := computeShares_ok (B.ofBlock key) _ hlen
  have hkey : setKey B key.toList new = .ok () ⟨.setKey (B.ofBlock key)⟩ := by
    rw [setKey, if_neg (by simp), Block.ofBytes_toList]
    rfl
  have hsetup : setup conv ⟨.setKey (B.ofBlock key)⟩ = .ok () ⟨.ready shares⟩ := by
    simp only [setup, hshares]
  exact ⟨_, _, hkey, hsetup, by simp only [prepare, hkey, hsetup]⟩

/-- Two parties which prepared with shares of a key share its powers. -/
theorem shared_of_prepare {B : BlockField F} {key₁ key₂ : Block} {conv₁ conv₂ : Conversion F}
    {ghash₁ ghash₂ : Ghash} (hprepare₁ : prepare B conv₁ key₁.toList = .ok ghash₁)
    (hprepare₂ : prepare B conv₂ key₂.toList = .ok ghash₂)
    (hconv : CorrectConversion conv₁ conv₂ (B.ofBlock key₁) (B.ofBlock key₂)) :
    ∃ leader follower : MpcGhash F, Shared (B.ofBlock (Block.xor key₁ key₂)) leader follower ∧
      ghash₁ = ⟨compute B leader⟩ ∧ ghash₂ = ⟨compute B follower⟩ := by
  obtain ⟨g₁, leader, hkey₁, hsetup₁, hok₁⟩ := prepare_ok B key₁ hconv.leader_length
  obtain ⟨g₂, follower, hkey₂, hsetup₂, hok₂⟩ := prepare_ok B key₂ hconv.follower_length
  rw [hok₁] at hprepare₁
  rw [hok₂] at hprepare₂
  cases hprepare₁
  cases hprepare₂
  exact ⟨⟨.ready leader⟩, ⟨.ready follower⟩, shared_of_setup B hkey₁ hkey₂ hsetup₁ hsetup₂ hconv,
    rfl, rfl⟩

theorem length_blocksOf (input : List UInt8) :
    (blocksOf input).length = divCeil input.length 16 := by
  rw [blocksOf, List.length_map, List.length_range]

/-- The hashes of the two parties add up. -/
theorem Shared.compute {B : BlockField F} {h : F} {leader follower : MpcGhash F}
    (hshared : Shared h leader follower) {input : List UInt8}
    (hlen : divCeil input.length 16 ≤ maxPower) :
    ∃ a b : Block, compute B leader input = .ok a.toList ∧
      compute B follower input = .ok b.toList ∧
      Block.xor a b = B.ofBlock.symm (polyHash h ((blocksOf input).map B.ofBlock)) := by
  obtain ⟨xs, ys, hleader, hfollower, hx, hy, hsum⟩ := hshared.shares
  have hoffset : wrapSub maxPower (divCeil input.length 16) = maxPower - divCeil input.length 16 :=
    wrapSub_of_le hlen (by decide)
  have hblocks : ((blocksOf input).map B.ofBlock).length = divCeil input.length 16 := by
    rw [List.length_map, length_blocksOf]
  have hdrop : ∀ zs : List F, zs.length = maxPower →
      (zs.reverse.drop (maxPower - divCeil input.length 16)).length = divCeil input.length 16 := by
    intro zs hz
    rw [List.length_drop, List.length_reverse, hz]
    omega
  have hget : ∀ (zs : List F), zs.length = maxPower → ∀ i, i < divCeil input.length 16 →
      (zs.reverse.drop (maxPower - divCeil input.length 16))[i]? =
        zs[divCeil input.length 16 - i - 1]? := by
    intro zs hz i hi
    rw [List.getElem?_drop, List.getElem?_reverse (by omega), hz]
    congr 1
    omega
  have hshares : SharesOf h (xs.reverse.drop (maxPower - divCeil input.length 16))
      (ys.reverse.drop (maxPower - divCeil input.length 16)) := by
    refine ⟨by rw [hdrop xs hx, hdrop ys hy], ?_⟩
    intro i x y hxi hyi
    have hi : i < divCeil input.length 16 := by
      rw [← hdrop xs hx]
      exact (List.getElem?_eq_some_iff.mp hxi).1
    obtain ⟨x', y', hx', hy', hadd⟩ := hsum (divCeil input.length 16 - i) (by omega) (by omega)
    rw [hget xs hx i hi, hx'] at hxi
    rw [hget ys hy i hi, hy'] at hyi
    cases hxi
    cases hyi
    rw [hadd, hdrop xs hx]
  have hle : ¬ divCeil input.length 16 > maxPower := by omega
  refine ⟨B.ofBlock.symm (dotFold ((blocksOf input).map B.ofBlock)
      (xs.reverse.drop (maxPower - divCeil input.length 16))),
    B.ofBlock.symm (dotFold ((blocksOf input).map B.ofBlock)
      (ys.reverse.drop (maxPower - divCeil input.length 16))), ?_, ?_, ?_⟩
  · simp only [MpcGhash.compute, hleader, hle, if_false, length_blocksOf, hx, hoffset]
  · simp only [MpcGhash.compute, hfollower, hle, if_false, length_blocksOf, hy, hoffset]
  · rw [← B.symm_add, dotFold_shares _ _ _ (by rw [hblocks, hdrop xs hx]) hshares]

end MpcGhash

end Tlsn.MpcTls
