import Tlsn.MpcTls.DecryptOps

/-!
The three ways to decrypt a record agree: with masked keystream, with decoded
keystream, and by the leader alone once it knows the key.
-/

namespace Tlsn.MpcTls

open Tlsn.Cipher Tlsn.Tls

/-! ## The leader's key -/

namespace AesCtr

/-- What masking key and IV adds to the leader's log, from the address `p` on. -/
def leaderOps (key iv : Slice) (keyOtp : Vector UInt8 16) (ivOtp : Vector UInt8 4) (p : Nat) :
    List VmOp :=
  [.mark .isPrivate ⟨p, 16⟩, .assign ⟨p, 16⟩ keyOtp.toList, .commit ⟨p, 16⟩,
    .call .xor [key, ⟨p, 16⟩] ⟨p + 16, 16⟩, .mark .isPrivate ⟨p + 32, 4⟩,
    .assign ⟨p + 32, 4⟩ ivOtp.toList, .commit ⟨p + 32, 4⟩, .call .xor [iv, ⟨p + 32, 4⟩] ⟨p + 36, 4⟩]

variable {key iv : Slice} {keyOtp : Vector UInt8 16} {ivOtp : Vector UInt8 4}

theorem maskKey_leader (hkey : key.len = 16) (hiv : iv.len = 4) (vm : Vm) :
    maskKey .leader key iv keyOtp ivOtp vm =
      .ok (.alloc ⟨vm.next + 16, 16⟩ ⟨vm.next + 36, 4⟩ (some keyOtp.toList) (some ivOtp.toList))
        ⟨vm.next + 40, vm.log ++ leaderOps key iv keyOtp ivOtp vm.next⟩ := by
  have hkeyOtp : keyOtp.toList.length = key.len := by rw [hkey, Vector.length_toList]
  have hivOtp : ivOtp.toList.length = iv.len := by rw [hiv, Vector.length_toList]
  rw [maskKey, Fault.run_bind_of_ok (Fault.adapt_ok_iff.mpr (maskPrivate_eq hkeyOtp vm)),
    Fault.run_bind_of_ok (Fault.adapt_ok_iff.mpr (maskPrivate_eq hivOtp _))]
  simp only [hkey, hiv, List.append_assoc, Nat.add_assoc]
  rfl

theorem alloc_leader (hkey : key.len = 16) (hiv : iv.len = 4) (vm : Vm) :
    alloc keyOtp ivOtp (vm, (new .leader).setKey key iv) =
      .ok () (⟨vm.next + 40, vm.log ++ leaderOps key iv keyOtp ivOtp vm.next⟩,
        ⟨.leader, some key, some iv, .alloc ⟨vm.next + 16, 16⟩ ⟨vm.next + 36, 4⟩
          (some keyOtp.toList) (some ivOtp.toList)⟩) := by
  simp only [alloc, new, setKey, maskKey_leader hkey hiv]

/-- Key and IV are masked with pads of the leader in the two slices. -/
structure Masks (key iv maskedKey maskedIv : Slice) (keyOtp ivOtp : List UInt8) (vm : Vm) :
    Prop where
  key_length : keyOtp.length = key.len
  iv_length : ivOtp.length = iv.len
  key_masked : ∃ pad, VmOp.assign pad keyOtp ∈ vm.log ∧ .call .xor [key, pad] maskedKey ∈ vm.log
  iv_masked : ∃ pad, VmOp.assign pad ivOtp ∈ vm.log ∧ .call .xor [iv, pad] maskedIv ∈ vm.log

theorem masks_of_alloc (keyOtp : Vector UInt8 16) (ivOtp : Vector UInt8 4)
    (hkey : key.len = 16) (hiv : iv.len = 4) (vm : Vm) :
    Masks key iv ⟨vm.next + 16, 16⟩ ⟨vm.next + 36, 4⟩ keyOtp.toList ivOtp.toList
      ⟨vm.next + 40, vm.log ++ leaderOps key iv keyOtp ivOtp vm.next⟩ where
  key_length := by rw [hkey, Vector.length_toList]
  iv_length := by rw [hiv, Vector.length_toList]
  key_masked := ⟨⟨vm.next, 16⟩, by simp [leaderOps], by simp [leaderOps]⟩
  iv_masked := ⟨⟨vm.next + 32, 4⟩, by simp [leaderOps], by simp [leaderOps]⟩

theorem Masks.push {maskedKey maskedIv : Slice} {keyOtp ivOtp : List UInt8} {vm : Vm}
    (h : Masks key iv maskedKey maskedIv keyOtp ivOtp vm) (ops : List VmOp) :
    Masks key iv maskedKey maskedIv keyOtp ivOtp (vm.push ops) := by
  obtain ⟨pad, hassign, hcall⟩ := h.key_masked
  obtain ⟨pad', hassign', hcall'⟩ := h.iv_masked
  exact {
    key_length := h.key_length
    iv_length := h.iv_length
    key_masked := ⟨pad, List.mem_append_left _ hassign, List.mem_append_left _ hcall⟩
    iv_masked := ⟨pad', List.mem_append_left _ hassign', List.mem_append_left _ hcall'⟩ }

/-- Removing the pad gives the value. -/
private theorem unmask {aes : Aes} {mem : Memory} {vm : Vm} {value pad masked : Slice}
    {otp : List UInt8} (hmem : vm.Holds aes mem) (hlen : otp.length = value.len)
    (hassign : VmOp.assign pad otp ∈ vm.log) (hcall : .call .xor [value, pad] masked ∈ vm.log) :
    xorBytes (mem.read masked) otp = mem.read value := by
  have hpad : mem.read pad = otp := hmem _ hassign
  have hmasked : mem.read masked = xorBytes (mem.read value) (mem.read pad) := hmem _ hcall
  rw [hmasked, hpad, xorBytes_cancel _ _ (by rw [Memory.length_read, hlen])]

theorem finishDecode_leader {maskedKey maskedIv : Slice} {keyOtp ivOtp : List UInt8} {aes : Aes}
    {mem : Memory} {vm : Vm} {k v : Option Slice}
    (h : Masks key iv maskedKey maskedIv keyOtp ivOtp vm) (hmem : vm.Holds aes mem) :
    finishDecode mem ⟨.leader, k, v, .decode maskedKey maskedIv (some keyOtp) (some ivOtp)⟩ =
      .ok () ⟨.leader, k, v, .ready (some (mem.read key)) (some (mem.read iv))⟩ := by
  obtain ⟨pad, hassign, hcall⟩ := h.key_masked
  obtain ⟨pad', hassign', hcall'⟩ := h.iv_masked
  simp only [finishDecode, unmask hmem h.key_length hassign hcall,
    unmask hmem h.iv_length hassign' hcall']

end AesCtr

/-- What is documented of the stream cipher: it adds the keystream from a block on,
as long as the counter does not run out; when it does, there is no result. -/
structure LocalAesCtr.Correct (cipher : LocalAesCtr) (aes : Aes) : Prop where
  sound : ∀ (key iv nonce data out : List UInt8) (block : Nat), key.length = 16 → iv.length = 4 →
    nonce.length = 8 →
    cipher.applyKeystream key (iv ++ nonce ++ beBytes 4 0) (16 * block) data = some out →
    out = xorBytes data (ctrKeystream aes key iv nonce block (divCeil data.length 16))
  total : ∀ (key iv nonce data : List UInt8) (block : Nat), key.length = 16 → iv.length = 4 →
    nonce.length = 8 → block + divCeil data.length 16 < 0x100000000 →
    (cipher.applyKeystream key (iv ++ nonce ++ beBytes 4 0) (16 * block) data).isSome = true

/-- A stream cipher which computes the keystream block by block. -/
def LocalAesCtr.ofAes (aes : Aes) : LocalAesCtr where
  applyKeystream key fullIv pos data :=
    if pos / 16 + divCeil data.length 16 < 0x100000000 then
      some (xorBytes data
        (ctrKeystream aes key (fullIv.take 12) [] (pos / 16) (divCeil data.length 16)))
    else none

theorem LocalAesCtr.ofAes_correct (aes : Aes) : (ofAes aes).Correct aes := by
  have hkeystream : ∀ (key iv nonce : List UInt8) (block n : Nat), iv.length = 4 →
      nonce.length = 8 → ctrKeystream aes key ((iv ++ nonce ++ beBytes 4 0).take 12) [] block n =
        ctrKeystream aes key iv nonce block n := by
    intro key iv nonce block n hiv hnonce
    rw [List.take_left' (by rw [List.length_append, hiv, hnonce])]
    simp only [ctrKeystream, List.append_nil]
  have hblock : ∀ block : Nat, 16 * block / 16 = block := fun block => by omega
  constructor
  · intro key iv nonce data out block _ hiv hnonce h
    simp only [ofAes, hblock, hkeystream _ _ _ _ _ hiv hnonce] at h
    split at h
    · exact (Option.some.inj h).symm
    · cases h
  · intro key iv nonce data block _ _ _ hfits
    simp only [ofAes, hblock, hfits, if_true, Option.isSome_some]

namespace DecryptOp

/-- The record, decrypted in a mode. -/
def inMode (mode : DecryptMode) (op : DecryptOp) : DecryptOp := { op with mode := mode }

section

variable {cipher : LocalAesCtr} {aes : Aes} {key iv : List UInt8} {op : DecryptOp}

theorem decrypt_local_eq (cipher : LocalAesCtr) (ctr : AesCtr) (hrole : ctr.role = .leader)
    (hstate : ctr.state = .ready (some key) (some iv)) (hnonce : op.explicitNonce.length = 8) :
    ctr.decrypt cipher op.explicitNonce op.ciphertext =
      match cipher.applyKeystream key (iv ++ op.explicitNonce ++ beBytes 4 0) 32 op.ciphertext with
      | some plaintext => .ok plaintext
      | none => .error .panic := by
  cases hstream : cipher.applyKeystream key (iv ++ (op.explicitNonce ++ beBytes 4 0)) 32
      op.ciphertext <;>
    simp [AesCtr.decrypt, hstate, hrole, hnonce, hstream]

theorem decrypt_local_sound (ctr : AesCtr) (hcipher : cipher.Correct aes)
    (hrole : ctr.role = .leader)
    (hstate : ctr.state = .ready (some key) (some iv)) (hkey : key.length = 16)
    (hiv : iv.length = 4) (hnonce : op.explicitNonce.length = 8) {p : List UInt8}
    (h : ctr.decrypt cipher op.explicitNonce op.ciphertext = .ok p) :
    p = op.plaintext aes key iv := by
  rw [decrypt_local_eq cipher ctr hrole hstate hnonce] at h
  cases hout : cipher.applyKeystream key (iv ++ op.explicitNonce ++ beBytes 4 0) 32
      op.ciphertext with
  | none =>
      rw [hout] at h
      cases h
  | some out =>
      rw [hout] at h
      cases h
      exact hcipher.sound key iv op.explicitNonce op.ciphertext p 2 hkey hiv hnonce hout

theorem decrypt_local_total (ctr : AesCtr) (hcipher : cipher.Correct aes)
    (hrole : ctr.role = .leader)
    (hstate : ctr.state = .ready (some key) (some iv)) (hkey : key.length = 16)
    (hiv : iv.length = 4)
    (hnonce : op.explicitNonce.length = 8) (hblocks : startCtr + op.blockCount < 0x100000000) :
    ctr.decrypt cipher op.explicitNonce op.ciphertext = .ok (op.plaintext aes key iv) := by
  have hsome := hcipher.total key iv op.explicitNonce op.ciphertext startCtr hkey hiv hnonce hblocks
  obtain ⟨out, hout⟩ := Option.isSome_iff_exists.mp hsome
  have h := decrypt_local_eq cipher ctr hrole hstate hnonce
  rw [show (32 : Nat) = 16 * startCtr from rfl, hout] at h
  rw [h, decrypt_local_sound ctr hcipher hrole hstate hkey hiv hnonce h]

end

/-- After any calls against the allocation, a record which fits is decrypted to the
same plaintext in all three ways: the ciphertext added to the keystream of its
nonce, from the counter 2 on. Each way ends in a machine of its own, whose memory
is any that agrees with its log. The leader alone decrypts nothing when the
counter of the stream cipher runs out. -/
theorem decryption_paths_agree {otps : Nat → Vector UInt8 16} {records len : Nat} {mem₀ : Memory}
    {prepare : List UInt8 → Except (Fault GhashError) Ghash} {s s₁ : Vm × MpcAesGcm}
    {gcm : MpcAesGcm} {key iv : Slice} {keyOtp : Vector UInt8 16} {ivOtp : Vector UInt8 4}
    {vm : Vm} {ctr : AesCtr} {cipher : LocalAesCtr} {aes : Aes} (calls : List KeystreamCall)
    (op : DecryptOp) (otp : List UInt8)
    (hkey : s.2.aes.key = some key) (hiv : s.2.aes.iv = some iv) (hkeylen : key.len = 16)
    (hivlen : iv.len = 4) (halloc : MpcAesGcm.alloc otps records len s = .ok () s₁)
    (hctr : AesCtr.alloc keyOtp ivOtp (s₁.1, (AesCtr.new .leader).setKey key iv) = .ok () (vm, ctr))
    (hsetup : MpcAesGcm.setup mem₀ prepare s₁.2 = .ok () gcm) (hcipher : cipher.Correct aes)
    (hnonce : op.explicitNonce.length = 8) (hpos : op.ciphertext ≠ [])
    (hblocks : op.blockCount ≤ (Served.serve calls (vm, gcm)).2.2.blocks.length)
    (hotp : op.ciphertext.length ≤ otp.length) :
    let served := (Served.serve calls (vm, gcm)).2
    let plaintext := fun mem : Memory => op.plaintext aes (mem.read key) (mem.read iv)
    (∃ out s', (op.inMode .isPrivate).decryptOne (served, some otp) = .ok out s' ∧
      ∀ mem, s'.1.1.Holds aes mem → out.tryDecrypt mem = .ok (some (plaintext mem))) ∧
    (∃ out s', (op.inMode .isPublic).decryptOne (served, some otp) = .ok out s' ∧
      ∀ mem, s'.1.1.Holds aes mem → out.tryDecrypt mem = .ok (some (plaintext mem))) ∧
    ∃ s', AesCtr.decodeKey (served.1, ctr) = .ok () s' ∧
      ∀ mem, s'.1.Holds aes mem → ∃ ctr', AesCtr.finishDecode mem s'.2 = .ok () ctr' ∧
        (∀ out t, (op.inMode .isPrivate).decryptOneLocal .leader cipher ctr' served = .ok out t →
          out.tryDecrypt mem = .ok (some (plaintext mem))) ∧
        (startCtr + op.blockCount < 0x100000000 →
          ∃ out t, (op.inMode .isPrivate).decryptOneLocal .leader cipher ctr' served =
            .ok out t) := by
  intro served plaintext
  obtain ⟨L, N, key', iv', hkey', hiv', hlaid, hcalled, hrole⟩ :=
    MpcAesGcm.laid_of_setup halloc hsetup
  rw [hkey] at hkey'
  rw [hiv] at hiv'
  cases hkey'
  cases hiv'
  rw [AesCtr.alloc_leader hkeylen hivlen] at hctr
  cases hctr
  obtain ⟨n, hrun⟩ := Served.serve_run calls (s := (_, gcm)) hlaid
  have hn : n ≤ N := hrun.le
  obtain ⟨j0s, ghash, hstate⟩ := hrun.laid.state
  have hword' := hrun.laid.lt_word
  have hblocks' : op.blockCount ≤ n := by
    have hlength : served.2.blocks.length = n := by
      rw [hrun.laid.blocks_eq]
      exact length_ctrBlocks ..
    exact hlength ▸ hblocks
  have hserved : served.1 = _ := hrun.log
  have hcalled' : L.Called key iv N served.1 := by
    rw [hserved]
    exact (hcalled.of_append rfl).push _
  have hmasks := AesCtr.masks_of_alloc keyOtp ivOtp hkeylen hivlen s₁.1
  refine ⟨?_, ?_, ?_⟩
  · have hfits : (op.inMode .isPrivate).FitsAt n (some otp) := by
      refine ⟨hnonce, hblocks', ?_⟩
      intro otp' heq
      cases heq
      exact hotp
    refine ⟨_, _, decryptOne_eq (s := (served, some otp)) hstate hword' hfits, ?_⟩
    intro mem hmem
    exact tryDecrypt_private (hcalled'.push _) hmem hn rfl hfits
      (fun o ho => List.mem_append_right _ ho)
  · have hfits : (op.inMode .isPublic).FitsAt n (some otp) :=
      ⟨hnonce, hblocks', fun hzero => hpos (List.length_eq_zero_iff.mp hzero)⟩
    refine ⟨_, _, decryptOne_eq (s := (served, some otp)) hstate hword' hfits, ?_⟩
    intro mem hmem
    exact tryDecrypt_public (hcalled'.push _) hmem hn hblocks'
      (fun o ho => List.mem_append_right _ ho)
  · refine ⟨_, rfl, ?_⟩
    intro mem hmem
    have hfinish := AesCtr.finishDecode_leader (k := some key) (v := some iv)
      ((hmasks.push _).push _) (hserved ▸ hmem)
    have hkey' : (mem.read key).length = 16 := by rw [Memory.length_read, hkeylen]
    have hiv' : (mem.read iv).length = 4 := by rw [Memory.length_read, hivlen]
    refine ⟨_, hfinish, ?_, ?_⟩
    · intro out t hout
      obtain ⟨p, s₂, hp, hret⟩ := Fault.run_bind_ok_iff.mp hout
      cases hret
      rw [decrypt_local_sound _ hcipher rfl rfl hkey' hiv' hnonce (Fault.lift_ok_iff.mp hp).1]
      rfl
    · intro hcounter
      have htotal := decrypt_local_total
        ⟨.leader, some key, some iv, .ready (some (mem.read key)) (some (mem.read iv))⟩
        hcipher rfl rfl hkey' hiv' hnonce hcounter
      exact ⟨_, _, Fault.run_bind_of_ok (Fault.lift_of_ok htotal served)⟩

/-- The block itself. -/
def sampleAes : Aes := fun _ block => Vector.ofFn fun i => block.getD i 0

def sampleRecord : DecryptOp where
  seq := 2
  typ := .applicationData
  version := .tlsV1_2
  explicitNonce := [0, 0, 0, 0, 0, 0, 0, 2]
  ciphertext := List.replicate 20 104
  aad := makeTls12Aad 2 .applicationData .tlsV1_2 20
  tag := List.replicate 16 0
  mode := .isPrivate

/-- A record before it. -/
def sampleCalls : List KeystreamCall := [.apply [0, 0, 0, 0, 0, 0, 0, 1] ⟨8, eight_lt_wordSize⟩]

def sampleOtp : List UInt8 := List.replicate 20 0

def samplePrepare : List UInt8 → Except (Fault GhashError) Ghash := fun _ => .ok ⟨fun x => .ok x⟩

/-- The machine with both allocations, and the cipher and the stream cipher in it. -/
def samplePaths : Option ((Vm × MpcAesGcm) × (Vm × AesCtr) × MpcAesGcm) :=
  (Fault.result? (MpcAesGcm.alloc (fun _ => Vector.replicate 16 0) 1 50
      MpcAesGcm.sampleInstance)).bind fun s₁ =>
    (Fault.result? (AesCtr.alloc (Vector.replicate 16 0) (Vector.replicate 4 0)
        (s₁.2.1, (AesCtr.new .leader).setKey ⟨0, 16⟩ ⟨16, 4⟩))).bind fun c =>
      (Fault.result? (MpcAesGcm.setup (fun _ => 0) samplePrepare s₁.2.2)).map fun gcm =>
        (s₁.2, (c.2.1, c.2.2), gcm.2)

def sampleServed (x : (Vm × MpcAesGcm) × (Vm × AesCtr) × MpcAesGcm) : Vm × MpcAesGcm :=
  (Served.serve sampleCalls (x.2.1.1, x.2.2)).2

/-- Nonces and counters, and what the blocks that they are assigned to encipher them to. All
other values are zero. -/
def sampleMemory : Memory := fun a =>
  if a ∈ [315, 379, 443] then 1
  else if a ∈ [291, 295, 303, 319, 347, 351, 363, 383, 411, 415, 427, 447] then 2
  else if a ∈ [307, 367, 431] then 3 else 0

def holdsAfter (mode : DecryptMode) (s : Vm × MpcAesGcm) : Option Bool :=
  (Fault.result? ((sampleRecord.inMode mode).decryptOne (s, some sampleOtp))).map fun r =>
    decide (r.2.1.1.Holds sampleAes sampleMemory)

theorem samplePaths_facts : samplePaths.map (fun x =>
    (decide (sampleRecord.blockCount ≤ (sampleServed x).2.blocks.length),
      holdsAfter .isPrivate (sampleServed x), holdsAfter .isPublic (sampleServed x),
      (Fault.result? (AesCtr.decodeKey ((sampleServed x).1, x.2.1.2))).map fun r =>
        decide (r.2.1.Holds sampleAes sampleMemory))) =
    some (true, some true, some true, some true) := by
  decide +kernel

theorem holds_of_holdsAfter {mode : DecryptMode} {s : Vm × MpcAesGcm} {out : DecryptOutput}
    {s' : DecryptState} (h : holdsAfter mode s = some true)
    (hout : (sampleRecord.inMode mode).decryptOne (s, some sampleOtp) = .ok out s') :
    s'.1.1.Holds sampleAes sampleMemory := by
  rw [holdsAfter, hout] at h
  exact of_decide_eq_true (Option.some.inj h)

/-- One record was served before, and the three ways take it from there. -/
theorem decryption_paths_agree_sample :
    ∃ (s₁ : Vm × MpcAesGcm) (c : Vm × AesCtr) (gcm : MpcAesGcm),
      MpcAesGcm.alloc (fun _ => Vector.replicate 16 0) 1 50 MpcAesGcm.sampleInstance = .ok () s₁ ∧
      AesCtr.alloc (Vector.replicate 16 0) (Vector.replicate 4 0)
        (s₁.1, (AesCtr.new .leader).setKey ⟨0, 16⟩ ⟨16, 4⟩) = .ok () c ∧
      MpcAesGcm.setup (fun _ => 0) samplePrepare s₁.2 = .ok () gcm ∧
      let served := (Served.serve sampleCalls (c.1, gcm)).2
      let plaintext := sampleRecord.plaintext sampleAes (sampleMemory.read ⟨0, 16⟩)
        (sampleMemory.read ⟨16, 4⟩)
      (∃ out s',
        (sampleRecord.inMode .isPrivate).decryptOne (served, some sampleOtp) = .ok out s' ∧
        s'.1.1.Holds sampleAes sampleMemory ∧
        out.tryDecrypt sampleMemory = .ok (some plaintext)) ∧
      (∃ out s',
        (sampleRecord.inMode .isPublic).decryptOne (served, some sampleOtp) = .ok out s' ∧
        s'.1.1.Holds sampleAes sampleMemory ∧
        out.tryDecrypt sampleMemory = .ok (some plaintext)) ∧
      ∃ s' ctr' out t, AesCtr.decodeKey (served.1, c.2) = .ok () s' ∧
        s'.1.Holds sampleAes sampleMemory ∧
        AesCtr.finishDecode sampleMemory s'.2 = .ok () ctr' ∧
        (sampleRecord.inMode .isPrivate).decryptOneLocal .leader (.ofAes sampleAes) ctr' served =
          .ok out t ∧ out.tryDecrypt sampleMemory = .ok (some plaintext) := by
  obtain ⟨x, hx, hfacts⟩ := Option.map_eq_some_iff.mp samplePaths_facts
  rw [samplePaths] at hx
  obtain ⟨s₁, halloc, hx⟩ := Option.bind_eq_some_iff.mp hx
  obtain ⟨c, hctr, hx⟩ := Option.bind_eq_some_iff.mp hx
  obtain ⟨gcm, hsetup, rfl⟩ := Option.map_eq_some_iff.mp hx
  have halloc := Fault.result?_eq_some_iff.mp halloc
  have hctr := Fault.result?_eq_some_iff.mp hctr
  have hsetup := Fault.result?_eq_some_iff.mp hsetup
  simp only [Prod.mk.injEq, decide_eq_true_eq] at hfacts
  obtain ⟨hblocks, hprivate, hpublic, hlocal⟩ := hfacts
  obtain ⟨⟨out₁, t₁, hout₁, hsound₁⟩, ⟨out₂, t₂, hout₂, hsound₂⟩, t₃, hdecode, hlocal'⟩ :=
    decryption_paths_agree sampleCalls sampleRecord sampleOtp rfl rfl rfl rfl halloc hctr hsetup
      (LocalAesCtr.ofAes_correct sampleAes) rfl (by decide) hblocks (by decide)
  have hmem₁ := holds_of_holdsAfter hprivate hout₁
  have hmem₂ := holds_of_holdsAfter hpublic hout₂
  have hmem₃ : t₃.1.Holds sampleAes sampleMemory := by
    obtain ⟨r, hr, hholds⟩ := Option.map_eq_some_iff.mp hlocal
    have hr := (Fault.result?_eq_some_iff.mp hr).symm.trans hdecode
    cases hr
    exact of_decide_eq_true hholds
  obtain ⟨ctr', hfinish, hsound₃, htotal⟩ := hlocal' _ hmem₃
  obtain ⟨out₃, u, hout₃⟩ := htotal (by decide)
  exact ⟨_, _, _, halloc, hctr, hsetup, ⟨out₁, t₁, hout₁, hmem₁, hsound₁ _ hmem₁⟩,
    ⟨out₂, t₂, hout₂, hmem₂, hsound₂ _ hmem₂⟩,
    t₃, ctr', out₃, u, hdecode, hmem₃, hfinish, hout₃, hsound₃ _ _ hout₃⟩

end DecryptOp

end Tlsn.MpcTls
