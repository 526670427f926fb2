import Tlsn.MpcTls.DecryptOps
import Tlsn.MpcTls.TagInputs

/-!
Batches of records on an instance of AES-GCM that is stocked: with so many blocks
of keystream, and so many blocks for tags. A batch either fits, and takes what it
needs of both, or does not succeed.
-/

namespace Tlsn.MpcTls

open Tlsn.Cipher Tlsn.Tls

/-- What is left of an allocation, and where it is in memory. -/
structure Stock where
  layout : Layout
  blocks : Nat
  j0s : List J0
  ghash : Ghash

namespace Stock

def state (stock : Stock) : GcmState :=
  .ready (stock.layout.resources stock.j0s stock.blocks) stock.ghash

/-- What is left of the blocks for tags after `k` records. -/
def tagged (stock : Stock) (k : Nat) : Stock := { stock with j0s := J0.rest stock.j0s k }

/-- What is left when `n` blocks of keystream are. -/
def spent (stock : Stock) (n : Nat) : Stock := { stock with blocks := n }

def encrypted (stock : Stock) (ops : List EncryptOp) : Stock :=
  (stock.tagged ops.length).spent (EncryptOp.remaining stock.blocks ops)

def decrypted (stock : Stock) (ops : List DecryptOp) : Stock :=
  (stock.tagged ops.length).spent (DecryptOp.remaining stock.blocks ops)

/-- The blocks can be assigned what they are to be. -/
structure Sized (stock : Stock) : Prop where
  lt_word : 16 * stock.blocks < wordSize
  j0s : ∀ j0 ∈ stock.j0s, J0.Sized j0

variable {stock : Stock}

theorem Sized.tagged (h : stock.Sized) (k : Nat) : (stock.tagged k).Sized where
  lt_word := h.lt_word
  j0s := fun j0 hj0 => h.j0s j0 (J0.mem_of_mem_rest hj0)

theorem Sized.spent (h : stock.Sized) {n : Nat} (hle : n ≤ stock.blocks) :
    (stock.spent n).Sized where
  lt_word := by
    have := h.lt_word
    simp only [Stock.spent]
    omega
  j0s := h.j0s

theorem Sized.encrypted (h : stock.Sized) (ops : List EncryptOp) : (stock.encrypted ops).Sized :=
  (h.tagged ops.length).spent (EncryptOp.remaining_le ops stock.blocks)

theorem Sized.decrypted (h : stock.Sized) (ops : List DecryptOp) : (stock.decrypted ops).Sized :=
  (h.tagged ops.length).spent (DecryptOp.remaining_le ops stock.blocks)

/-- The stock suffices to encrypt the records. -/
def FitsEncrypt (stock : Stock) (ops : List EncryptOp) : Prop :=
  EncryptOp.FitFrom stock.blocks ops ∧ Resources.TagsFit stock.j0s (ops.map EncryptOp.tagData)

/-- The stock suffices to verify the records. -/
def FitsVerify (stock : Stock) (ops : List DecryptOp) : Prop :=
  Resources.TagsFit stock.j0s (ops.map DecryptOp.tagData)

/-- The stock and the pad suffice to decrypt and verify the records. -/
def FitsDecrypt (stock : Stock) (pad : Option (List UInt8)) (ops : List DecryptOp) : Prop :=
  DecryptOp.FitFrom stock.blocks pad ops ∧ stock.FitsVerify ops

def encryptOuts (stock : Stock) (ops : List EncryptOp) :
    List (PendingEncrypt × Future (List UInt8)) :=
  EncryptOp.layOut stock.layout stock.blocks ops

/-- The task to compute the tags of a batch. -/
def computeTask (stock : Stock) (role : Role) (ops : List EncryptOp) : ComputeTags where
  role := role
  data := List.zipWith (fun j0 (c, d) => ⟨j0, c, TagData.aad d⟩)
    ((J0.taken stock.j0s ops.length).map Prod.snd)
    (((stock.encryptOuts ops).map Prod.snd).zip (ops.map EncryptOp.tagData))
  ghash := stock.ghash

/-- The task to verify the tags of a batch. -/
def verifyTask (stock : Stock) (role : Role) (ops : List DecryptOp) : VerifyTags where
  role := role
  data := List.zipWith (fun j0 ((c, d), t) => ⟨j0, c, TagData.aad d, t⟩)
    ((J0.taken stock.j0s ops.length).map Prod.snd)
    (((ops.map DecryptOp.ciphertext).zip (ops.map DecryptOp.tagData)).zip (ops.map DecryptOp.tag))
  ghash := stock.ghash

def encryptVmOps (stock : Stock) (role : Role) (ops : List EncryptOp) : List VmOp :=
  EncryptOp.opsFrom role stock.layout stock.blocks ops ++
    Resources.j0Ops (J0.taken stock.j0s ops.length) (ops.map EncryptOp.tagData)

def verifyVmOps (stock : Stock) (ops : List DecryptOp) : List VmOp :=
  Resources.j0Ops (J0.taken stock.j0s ops.length) (ops.map DecryptOp.tagData)

end Stock

namespace MpcAesGcm

/-- A ready instance with the stock. -/
structure Stocked (stock : Stock) (gcm : MpcAesGcm) : Prop where
  state : gcm.state = stock.state
  sized : stock.Sized

/-- The instance, as it is when the stock is left. -/
def restock (stock : Stock) (gcm : MpcAesGcm) : MpcAesGcm := { gcm with state := stock.state }

theorem Stocked.restock {gcm : MpcAesGcm} {stock : Stock} (h : stock.Sized) :
    (gcm.restock stock).Stocked stock := ⟨rfl, h⟩

@[simp] theorem restock_role (stock : Stock) (gcm : MpcAesGcm) :
    (gcm.restock stock).role = gcm.role := rfl

@[simp] theorem restock_restock (stock stock' : Stock) (gcm : MpcAesGcm) :
    (gcm.restock stock).restock stock' = gcm.restock stock' := rfl

end MpcAesGcm

section

variable {stock : Stock}

theorem EncryptOp.length_layOut (L : Layout) (n : Nat) (ops : List EncryptOp) :
    (EncryptOp.layOut L n ops).length = ops.length := by
  induction ops generalizing n with
  | nil => rfl
  | cons op ops ih => simp only [EncryptOp.layOut, List.length_cons, ih]

theorem encrypt_eq {ops : List EncryptOp} {s : Vm × MpcAesGcm} (hstock : s.2.Stocked stock)
    (hvalid : ∀ op ∈ ops, op.Valid) (hfits : stock.FitsEncrypt ops) :
    encrypt ops s = .ok ((stock.encryptOuts ops).map Prod.fst, stock.computeTask s.2.role ops)
      (s.1.push (stock.encryptVmOps s.2.role ops), s.2.restock (stock.encrypted ops)) := by
  have hops : encryptOps ops s = .ok (stock.encryptOuts ops)
      (s.1.push (EncryptOp.opsFrom s.2.role stock.layout stock.blocks ops),
        s.2.restock (stock.spent (EncryptOp.remaining stock.blocks ops))) :=
    EncryptOp.encryptOps_eq ops hvalid hfits.1 hstock.state hstock.sized.lt_word
  have hlen : ((stock.encryptOuts ops).map Prod.snd).length =
      (ops.map EncryptOp.tagData).length := by
    rw [List.length_map, List.length_map, Stock.encryptOuts, EncryptOp.length_layOut]
  have htask : Resources.computeTags s.2.role stock.ghash ((stock.encryptOuts ops).map Prod.snd)
      (ops.map EncryptOp.tagData)
      (s.1.push (EncryptOp.opsFrom s.2.role stock.layout stock.blocks ops),
        stock.layout.resources stock.j0s (EncryptOp.remaining stock.blocks ops)) = _ :=
    Resources.computeTags_eq hlen hstock.sized.j0s hfits.2
  have hready : MpcAesGcm.computeTags ((stock.encryptOuts ops).map Prod.snd)
      (ops.map EncryptOp.tagData)
      (s.1.push (EncryptOp.opsFrom s.2.role stock.layout stock.blocks ops),
        s.2.restock (stock.spent (EncryptOp.remaining stock.blocks ops))) = _ :=
    MpcAesGcm.whenReady_ok rfl htask
  rw [encrypt, Fault.run_bind_of_ok hops, Fault.run_bind_of_ok (Fault.adapt_ok_iff.mpr hready)]
  simp only [Vm.push_push, List.length_map]
  rfl

theorem encrypt_fit {ops : List EncryptOp} {s s' : Vm × MpcAesGcm}
    {r : List PendingEncrypt × ComputeTags} (hstock : s.2.Stocked stock)
    (hvalid : ∀ op ∈ ops, op.Valid) (hlen : ∀ op ∈ ops, op.len < wordSize)
    (h : encrypt ops s = .ok r s') : stock.FitsEncrypt ops := by
  obtain ⟨outs, s₁, hops, h⟩ := Fault.run_bind_ok_iff.mp h
  obtain ⟨task, s₂, htask, -⟩ := Fault.run_bind_ok_iff.mp h
  have hword := hstock.sized.lt_word
  have hfits := EncryptOp.encryptOps_fit ops hvalid hlen hstock.state hword hops
  rw [EncryptOp.encryptOps_eq ops hvalid hfits hstock.state hword] at hops
  cases hops
  have hready := Fault.adapt_ok_iff.mp htask
  simp only [MpcAesGcm.computeTags, MpcAesGcm.whenReady] at hready
  split at hready
  · rename_i hcompute
    exact ⟨hfits, (Resources.computeTags_fit hcompute).2⟩
  · cases hready

theorem verifyTags_eq {ops : List DecryptOp} {s : Vm × MpcAesGcm} (hstock : s.2.Stocked stock)
    (hfits : stock.FitsVerify ops) :
    verifyTags ops s = .ok (stock.verifyTask s.2.role ops)
      (s.1.push (stock.verifyVmOps ops), s.2.restock (stock.tagged ops.length)) := by
  have htask : Resources.verifyTags s.2.role stock.ghash (ops.map DecryptOp.tagData)
      (ops.map DecryptOp.ciphertext) (ops.map DecryptOp.tag)
      (s.1, stock.layout.resources stock.j0s stock.blocks) = _ :=
    Resources.verifyTags_eq (by simp) (by simp) hstock.sized.j0s hfits
  rw [verifyTags, Fault.adapt_ok_iff, MpcAesGcm.verifyTags,
    MpcAesGcm.whenReady_ok hstock.state htask]
  simp only [List.length_map]
  rfl

theorem verifyTags_fit {ops : List DecryptOp} {s s' : Vm × MpcAesGcm} {task : VerifyTags}
    (hstock : s.2.Stocked stock) (h : verifyTags ops s = .ok task s') : stock.FitsVerify ops := by
  have hready := Fault.adapt_ok_iff.mp h
  simp only [MpcAesGcm.verifyTags, MpcAesGcm.whenReady, hstock.state, Stock.state] at hready
  split at hready
  · rename_i hverify
    exact (Resources.verifyTags_fit hverify).2.2
  · cases hready

end

/-! ## From one batch to the next -/

namespace EncryptOp

theorem layOut_append (L : Layout) (n : Nat) (ops ops' : List EncryptOp) :
    layOut L n (ops ++ ops') = layOut L n ops ++ layOut L (remaining n ops) ops' := by
  induction ops generalizing n with
  | nil => rfl
  | cons op ops ih => simp only [List.cons_append, layOut, remaining, ih]

theorem remaining_append (n : Nat) (ops ops' : List EncryptOp) :
    remaining n (ops ++ ops') = remaining (remaining n ops) ops' := by
  induction ops generalizing n with
  | nil => rfl
  | cons op ops ih => simp only [List.cons_append, remaining, ih]

theorem fitFrom_append (n : Nat) (ops ops' : List EncryptOp) :
    FitFrom n (ops ++ ops') ↔ FitFrom n ops ∧ FitFrom (remaining n ops) ops' := by
  induction ops generalizing n with
  | nil => simp only [List.nil_append, FitFrom, remaining, true_and]
  | cons op ops ih => simp only [List.cons_append, FitFrom, remaining, ih, and_assoc]

theorem opsFrom_append (role : Role) (L : Layout) (n : Nat) (ops ops' : List EncryptOp) :
    opsFrom role L n (ops ++ ops') =
      opsFrom role L n ops ++ opsFrom role L (remaining n ops) ops' := by
  induction ops generalizing n with
  | nil => rfl
  | cons op ops ih => simp only [List.cons_append, opsFrom, remaining, ih, List.append_assoc]

end EncryptOp

namespace DecryptOp

theorem opsFrom_append (role : Role) (L : Layout) (n : Nat) (pad : Option (List UInt8))
    (ops ops' : List DecryptOp) : opsFrom role L n pad (ops ++ ops') =
      opsFrom role L n pad ops ++ opsFrom role L (remaining n ops) (padRest pad ops) ops' := by
  induction ops generalizing n pad with
  | nil => rfl
  | cons op ops ih =>
      simp only [List.cons_append, opsFrom, remaining, padRest, ih, List.append_assoc]

theorem remaining_append (n : Nat) (ops ops' : List DecryptOp) :
    remaining n (ops ++ ops') = remaining (remaining n ops) ops' := by
  induction ops generalizing n with
  | nil => rfl
  | cons op ops ih => simp only [List.cons_append, remaining, ih]

theorem padRest_append (pad : Option (List UInt8)) (ops ops' : List DecryptOp) :
    padRest pad (ops ++ ops') = padRest (padRest pad ops) ops' := by
  induction ops generalizing pad with
  | nil => rfl
  | cons op ops ih => simp only [List.cons_append, padRest, ih]

end DecryptOp

namespace J0

theorem rest_rest (j0s : List J0) (k k' : Nat) : rest (rest j0s k) k' = rest j0s (k + k') := by
  rw [rest, rest, rest, List.take_take, List.length_take]
  congr 1
  omega

theorem taken_rest (j0s : List J0) (k k' : Nat) :
    taken (rest j0s k) k' = (taken j0s (k + k')).drop k := by
  rw [taken, taken, rest, List.reverse_take, List.drop_take, Nat.add_sub_cancel_left]
  by_cases h : k ≤ j0s.length
  · rw [Nat.sub_sub_self h]
  · have hk : j0s.reverse.drop k = [] := List.drop_eq_nil_of_le (by simp; omega)
    have hk' : j0s.reverse.drop (j0s.length - (j0s.length - k)) = [] :=
      List.drop_eq_nil_of_le (by simp; omega)
    rw [hk, hk']

/-- What is left is taken in the same order. -/
theorem getElem?_reverse_rest {j0s : List J0} {k i : Nat} {j0 : J0} (hle : k ≤ i)
    (h : (rest j0s k).reverse[i - k]? = some j0) : j0s.reverse[i]? = some j0 := by
  have htaken : (taken (rest j0s k) (i - k + 1))[i - k]? = some j0 := by
    rw [taken, List.getElem?_take_of_lt (Nat.lt_succ_self _), h]
  rw [taken_rest, List.getElem?_drop, Nat.add_sub_cancel' hle, taken,
    List.getElem?_take_of_lt (by omega)] at htaken
  exact htaken

end J0

namespace Stock

variable {stock : Stock}

theorem encrypted_append (ops ops' : List EncryptOp) :
    stock.encrypted (ops ++ ops') = (stock.encrypted ops).encrypted ops' := by
  simp only [encrypted, tagged, spent, EncryptOp.remaining_append, J0.rest_rest, List.length_append]

theorem decrypted_append (ops ops' : List DecryptOp) :
    stock.decrypted (ops ++ ops') = (stock.decrypted ops).decrypted ops' := by
  simp only [decrypted, tagged, spent, DecryptOp.remaining_append, J0.rest_rest, List.length_append]

@[simp] theorem encrypted_nil : stock.encrypted [] = stock := by
  simp only [encrypted, tagged, spent, EncryptOp.remaining, List.length_nil, J0.rest_zero]

@[simp] theorem decrypted_nil : stock.decrypted [] = stock := by
  simp only [decrypted, tagged, spent, DecryptOp.remaining, List.length_nil, J0.rest_zero]

end Stock

end Tlsn.MpcTls
