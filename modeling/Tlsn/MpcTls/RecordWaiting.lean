import Tlsn.MpcTls.Message

/-!
A record layer which is allocated but not set up. Records can be pushed already, and a
flush succeeds only when there is nothing to process: so the same calls can be made
after the layer is set up, with the same outcome.
-/

namespace Tlsn.MpcTls

open Tlsn.Cipher Tlsn.Common Tlsn.Tls

theorem MpcAesGcm.whenReady_not_ok {α : Type} {text : String} {s s' : Vm × MpcAesGcm}
    {x : Role → Ghash → EStateM (Fault AeadError) (Vm × Resources) α} {a : α}
    (h : ∀ r ghash, s.2.state ≠ .ready r ghash) : whenReady text x s ≠ .ok a s' := by
  intro hok
  unfold whenReady at hok
  split at hok
  · next hstate => exact h _ _ hstate
  · cases hok

namespace RecordLayer

/-- Neither set up nor flushed. -/
structure Waiting (layer : RecordLayer) : Prop where
  unready : ∀ r ghash, layer.encrypter.state ≠ .ready r ghash
  online : ∃ otp, layer.state = .online otp [] []

/-- The layer with these ciphers. -/
def equip (encrypter decrypter : MpcAesGcm) (layer : RecordLayer) : RecordLayer :=
  { layer with encrypter := encrypter, decrypter := decrypter }

variable {C D : Type} {scheme : HashCommit C D} {mem : Memory} {peer : PeerShares C D}
  {s s' : Vm × RecordLayer} {isDecrypting : Bool}

theorem encrypt_not_ok {ops : List EncryptOp} {t t' : Vm × MpcAesGcm}
    {r : List PendingEncrypt × ComputeTags} (h : ∀ r ghash, t.2.state ≠ .ready r ghash) :
    encrypt ops t ≠ .ok r t' := by
  intro hok
  obtain ⟨outs, t₁, hops, hrest⟩ := Fault.run_bind_ok_iff.mp hok
  cases ops with
  | nil =>
      cases hops
      obtain ⟨task, t₂, htags, -⟩ := Fault.run_bind_ok_iff.mp hrest
      exact MpcAesGcm.whenReady_not_ok h (Fault.adapt_ok_iff.mp htags)
  | cons op ops =>
      obtain ⟨out, t₂, hone, -⟩ := Fault.run_bind_ok_iff.mp hops
      cases hmode : op.mode with
      | isPrivate =>
          simp only [EncryptOp.encryptOne, hmode] at hone
          obtain ⟨texts, t₃, htexts, -⟩ := Fault.run_bind_ok_iff.mp hone
          exact MpcAesGcm.whenReady_not_ok h (Fault.adapt_ok_iff.mp htexts)
      | isPublic =>
          simp only [EncryptOp.encryptOne, hmode, EncryptOp.encryptPublic] at hone
          cases hplaintext : op.plaintext with
          | none =>
              simp only [hplaintext] at hone
              cases hone
          | some plaintext =>
              simp only [hplaintext] at hone
              obtain ⟨keystream, t₃, htexts, -⟩ := Fault.run_bind_ok_iff.mp hone
              exact MpcAesGcm.whenReady_not_ok h (Fault.adapt_ok_iff.mp htexts)

theorem flush_of_skips {otp : Option (List UInt8)} {sent recv : List Record}
    (hstate : s.2.state = .online otp sent recv) (h : s.2.skipsFlush isDecrypting = true) :
    flush scheme mem peer isDecrypting s = .ok () s := by
  rw [flush, Fault.run_bind_of_ok (startFlush_of_skips hstate h)]
  rfl

theorem Waiting.flush (h : s.2.Waiting)
    (hflush : RecordLayer.flush scheme mem peer isDecrypting s = .ok () s') :
    s.2.skipsFlush isDecrypting = true ∧ s' = s := by
  obtain ⟨otp, hstate⟩ := h.online
  cases hskips : s.2.skipsFlush isDecrypting with
  | true =>
      rw [flush_of_skips hstate hskips] at hflush
      cases hflush
      exact ⟨rfl, rfl⟩
  | false =>
      obtain ⟨task, s₁, hstart, -⟩ := Fault.run_bind_ok_iff.mp hflush
      obtain ⟨-, t, hprepare, -⟩ := (startFlush_ok_iff hstate hskips).mp hstart
      obtain ⟨pending, s₂, hencrypt, -⟩ := Fault.run_bind_ok_iff.mp hprepare
      obtain ⟨u, hops, -⟩ := onEncrypter_ok_iff.mp hencrypt
      exact absurd hops (encrypt_not_ok h.unready)

/-- A call which a waiting layer answers: it does not depend on the ciphers, and neither
they nor the machine change. -/
structure Unequipped (scheme : HashCommit C D) (mem : Memory) (calls : List (LayerCall C D))
    (layer layer' : RecordLayer) : Prop where
  waiting : layer'.Waiting
  encrypter : layer'.encrypter = layer.encrypter
  decrypter : layer'.decrypter = layer.decrypter
  equipped : ∀ (vm : Vm) (encrypter decrypter : MpcAesGcm),
    LayerCall.runAll scheme mem calls (vm, layer.equip encrypter decrypter) =
      .ok () (vm, layer'.equip encrypter decrypter)

theorem Waiting.run {call : LayerCall C D} {vm vm' : Vm} {layer layer' : RecordLayer}
    (h : layer.Waiting) (hrun : call.run scheme mem (vm, layer) = .ok () (vm', layer')) :
    vm' = vm ∧ Unequipped scheme mem [call] layer layer' := by
  cases call with
  | pushEncrypt typ version len plaintext mode =>
      obtain ⟨hpush, hvm⟩ := Fault.onSnd_ok_iff.mp hrun
      obtain ⟨hlen, hmax, hvalid, hlayer⟩ := pushEncrypt_ok_iff.mp hpush
      refine ⟨hvm, ?_⟩
      rw [show layer' = _ from hlayer]
      refine ⟨⟨h.unready, h.online⟩, rfl, rfl, fun vm encrypter decrypter => ?_⟩
      exact LayerCall.runAll_singleton (Fault.onSnd_ok_iff.mpr
        ⟨pushEncrypt_ok_iff.mpr ⟨hlen, hmax, hvalid, rfl⟩, rfl⟩)
  | pushDecrypt typ version explicitNonce ciphertext tag mode =>
      obtain ⟨hpush, hvm⟩ := Fault.onSnd_ok_iff.mp hrun
      obtain ⟨hlen, hmax, hlayer⟩ := pushDecrypt_ok_iff.mp hpush
      refine ⟨hvm, ?_⟩
      rw [show layer' = _ from hlayer]
      refine ⟨⟨h.unready, h.online⟩, rfl, rfl, fun vm encrypter decrypter => ?_⟩
      exact LayerCall.runAll_singleton (Fault.onSnd_ok_iff.mpr
        ⟨pushDecrypt_ok_iff.mpr ⟨hlen, hmax, rfl⟩, rfl⟩)
  | flush peer isDecrypting =>
      have hflush := Waiting.flush (s := (vm, layer)) h hrun
      obtain ⟨hskips, hs⟩ := hflush
      cases hs
      obtain ⟨otp, hstate⟩ := h.online
      refine ⟨rfl, h, rfl, rfl, fun vm encrypter decrypter => ?_⟩
      exact LayerCall.runAll_singleton (flush_of_skips hstate hskips)
  | startTraffic =>
      cases hrun
      exact ⟨rfl, ⟨h.unready, h.online⟩, rfl, rfl, fun vm encrypter decrypter => rfl⟩

theorem Unequipped.nil {layer : RecordLayer} (h : layer.Waiting) :
    Unequipped scheme mem [] layer layer :=
  ⟨h, rfl, rfl, fun _ _ _ => rfl⟩

theorem Unequipped.append {calls calls' : List (LayerCall C D)} {layer layer' layer'' : RecordLayer}
    (h : Unequipped scheme mem calls layer layer')
    (h' : Unequipped scheme mem calls' layer' layer'') :
    Unequipped scheme mem (calls ++ calls') layer layer'' :=
  ⟨h'.waiting, h'.encrypter.trans h.encrypter, h'.decrypter.trans h.decrypter,
    fun vm encrypter decrypter => LayerCall.runAll_append (h.equipped vm encrypter decrypter)
      (h'.equipped vm encrypter decrypter)⟩

/-- Setting up changes only the ciphers, and depends on nothing else. -/
theorem setup_equip {prepareEncrypt prepareDecrypt : List UInt8 → Except (Fault GhashError) Ghash}
    (h : setup mem prepareEncrypt prepareDecrypt s = .ok () s') :
    ∃ encrypter decrypter, s' = (s.1, s.2.equip encrypter decrypter) ∧
      ∀ (vm : Vm) (layer : RecordLayer), layer.encrypter = s.2.encrypter →
        layer.decrypter = s.2.decrypter →
        setup mem prepareEncrypt prepareDecrypt (vm, layer) =
          .ok () (vm, layer.equip encrypter decrypter) := by
  obtain ⟨⟨⟩, s₁, hencrypt, hdecrypt⟩ := Fault.run_bind_ok_iff.mp h
  obtain ⟨⟨vm₁, encrypter⟩, hsetup, rfl⟩ := onEncrypter_ok_iff.mp hencrypt
  obtain ⟨⟨vm₂, decrypter⟩, hsetup', rfl⟩ := onDecrypter_ok_iff.mp hdecrypt
  obtain ⟨hencrypter, hvm₁⟩ := Fault.onSnd_ok_iff.mp hsetup
  obtain ⟨hdecrypter, hvm₂⟩ := Fault.onSnd_ok_iff.mp hsetup'
  simp only at hencrypter hdecrypter hvm₁ hvm₂
  subst hvm₁
  subst hvm₂
  refine ⟨encrypter, decrypter, rfl, ?_⟩
  intro vm layer hlayer hlayer'
  rw [← hlayer] at hencrypter
  rw [← hlayer'] at hdecrypter
  refine Fault.run_bind_ok_iff.mpr ⟨(), (vm, { layer with encrypter := encrypter }), ?_, ?_⟩
  · exact onEncrypter_ok_iff.mpr ⟨(vm, encrypter), Fault.onSnd_ok_iff.mpr ⟨hencrypter, rfl⟩, rfl⟩
  · exact onDecrypter_ok_iff.mpr ⟨(vm, decrypter), Fault.onSnd_ok_iff.mpr ⟨hdecrypter, rfl⟩, rfl⟩

end RecordLayer

theorem MpcAesGcm.alloc_setup {otps : Nat → Vector UInt8 16} {records len : Nat}
    {s s' : Vm × MpcAesGcm} (h : alloc otps records len s = .ok () s') :
    ∃ r ghashKey, s'.2.state = .setup r ghashKey := by
  unfold alloc at h
  split at h
  · split at h
    · cases h
      exact ⟨_, _, rfl⟩
    · cases h
  · cases h

theorem LayerParams.alloc_waiting {p : LayerParams} {vm : Vm} {s : Vm × RecordLayer}
    (h : p.alloc (vm, p.create) = .ok () s) : s.2.Waiting := by
  obtain ⟨⟨⟩, s₁, htake, h₁⟩ := Fault.run_bind_ok_iff.mp h
  cases htake
  obtain ⟨⟨⟩, s₂, hencrypt, h₂⟩ := Fault.run_bind_ok_iff.mp h₁
  obtain ⟨t, hencrypt', rfl⟩ := RecordLayer.onEncrypter_ok_iff.mp hencrypt
  obtain ⟨⟨⟩, s₃, hdecrypt, h₃⟩ := Fault.run_bind_ok_iff.mp h₂
  obtain ⟨u, -, rfl⟩ := RecordLayer.onDecrypter_ok_iff.mp hdecrypt
  obtain ⟨⟨⟩, s₄, hctr, h₄⟩ := Fault.run_bind_ok_iff.mp h₃
  obtain ⟨v, -, rfl⟩ := RecordLayer.onAesCtr_ok_iff.mp hctr
  cases h₄
  obtain ⟨r, ghashKey, hstate⟩ := MpcAesGcm.alloc_setup (Fault.adapt_ok_iff.mp hencrypt')
  refine ⟨?_, _, rfl⟩
  intro r' ghash hready
  rw [show t.2.state = _ from hstate] at hready
  cases hready

end Tlsn.MpcTls
