import Tlsn.MpcTls.RecordCommit

/-!
A record layer that is set up: its keys are set, it is allocated, and the GHASH
keys are there. Its encrypter and decrypter are stocked with what was asked for.
-/

namespace Tlsn.MpcTls

open Tlsn.Cipher Tlsn.Common Tlsn.Tls

/-- The stock has what was allocated, and its blocks are called with the key. -/
structure Stock.Allocated (key iv : Slice) (records len : Nat) (vm : Vm)
    (stock : Stock) : Prop where
  sized : stock.Sized
  blocks : stock.blocks = divCeil len 16
  records : stock.j0s.length = records
  called : stock.layout.Called key iv stock.blocks vm

theorem Stock.Allocated.extends {key iv : Slice} {records len : Nat} {vm vm' : Vm} {stock : Stock}
    (h : stock.Allocated key iv records len vm) (hvm : vm.Extends vm') :
    stock.Allocated key iv records len vm' := by
  obtain ⟨ops, hops⟩ := hvm
  exact ⟨h.sized, h.blocks, h.records, h.called.of_append hops⟩

theorem AesCtr.alloc_extends {keyOtp : Vector UInt8 16} {ivOtp : Vector UInt8 4}
    {s s' : Vm × AesCtr} (h : AesCtr.alloc keyOtp ivOtp s = .ok () s') : s.1.Extends s'.1 := by
  have hlogs : ∀ role key iv, Vm.Logs (AesCtr.maskKey role key iv keyOtp ivOtp) := by
    intro role key iv
    cases role with
    | leader =>
        refine Vm.Logs.bind (Fault.Keeps.adapt (logs_maskPrivate _ _)) fun _ => ?_
        exact Vm.Logs.bind (Fault.Keeps.adapt (logs_maskPrivate _ _)) fun _ => Vm.Logs.pure _
    | follower =>
        refine Vm.Logs.bind (Fault.Keeps.adapt (logs_maskBlind _)) fun _ => ?_
        exact Vm.Logs.bind (Fault.Keeps.adapt (logs_maskBlind _)) fun _ => Vm.Logs.pure _
  unfold AesCtr.alloc at h
  split at h
  · split at h
    · cases h
    · cases h
    · split at h
      · rename_i hmask
        cases h
        exact hlogs _ _ _ _ _ _ hmask
      · cases h
  · cases h

namespace MpcAesGcm

theorem logs_allocJ0s (role : Role) (aes : Aes128) (otps : Nat → Vector UInt8 16) (n : Nat) :
    Vm.Logs (allocJ0s role aes otps n) := by
  induction n generalizing otps with
  | zero => exact Vm.Logs.pure []
  | succ n ih =>
      refine Vm.Logs.bind (Fault.Keeps.adapt aes.logs_allocCtrBlock) fun j0 => ?_
      refine Vm.Logs.bind (Fault.Keeps.adapt (OneTimePadShared.logs_new _ _ _)) fun shared => ?_
      exact Vm.Logs.bind (ih _) fun j0s => Vm.Logs.pure _

theorem logs_allocResources (role : Role) (aes : Aes128) (otps : Nat → Vector UInt8 16)
    (records len : Nat) : Vm.Logs (allocResources role aes otps records len) := by
  have hmark : ∀ input, Vm.Logs (markInput role input) := by
    intro input
    cases role <;> exact Vm.logs_mark _ _
  refine Vm.Logs.bind (Vm.logs_alloc _) fun zero => Vm.Logs.bind (Vm.logs_mark _ _) fun _ => ?_
  refine Vm.Logs.bind (Fault.Keeps.adapt (Vm.logs_assign _ _)) fun _ => ?_
  refine Vm.Logs.bind (Vm.logs_commit _) fun _ => ?_
  refine Vm.Logs.bind (Fault.Keeps.adapt (aes.logs_allocBlock _)) fun ghashKey => ?_
  refine Vm.Logs.bind (Fault.Keeps.adapt (OneTimePadShared.logs_new _ _ _)) fun ghashKey => ?_
  refine Vm.Logs.bind (logs_allocJ0s _ _ _ _) fun j0s => ?_
  refine Vm.Logs.bind (Vm.logs_alloc _) fun input => Vm.Logs.bind (hmark input) fun _ => ?_
  refine Vm.Logs.bind (Fault.Keeps.adapt (aes.logs_allocKeystream _)) fun keystream => ?_
  exact Vm.Logs.bind (Fault.Keeps.adapt (keystream.logs_apply _)) fun output => Vm.Logs.pure _

theorem alloc_ok {otps : Nat → Vector UInt8 16} {records len : Nat} {s s' : Vm × MpcAesGcm}
    {key iv : Slice} (hkey : s.2.aes.key = some key) (hiv : s.2.aes.iv = some iv)
    (hlen : len < wordSize) (h : alloc otps records len s = .ok () s') :
    ∃ (stock : Stock) (ghashKey : OneTimePadShared),
      s'.2.state = .setup (stock.layout.resources stock.j0s stock.blocks) ghashKey ∧
      stock.Allocated key iv records len s'.1 ∧ s'.2.role = s.2.role ∧ s.1.Extends s'.1 := by
  simp only [alloc] at h
  cases hstate : s.2.state with
  | init =>
      rw [hstate] at h
      cases hr : allocResources s.2.role s.2.aes otps records len s.1 with
      | error e vm =>
          rw [hr] at h
          cases h
      | ok r vm =>
          obtain ⟨L, j0s, key', iv', hkey', hiv', hres, hword, hne, hcalled, hcount, hsized⟩ :=
            allocResources_layout hr
          rw [hkey] at hkey'
          rw [hiv] at hiv'
          cases hkey'
          cases hiv'
          rw [hr] at h
          cases h
          exact ⟨⟨L, allocatedBlocks len, j0s, ⟨fun _ => .error .panic⟩⟩, r.2,
            congrArg (GcmState.setup · r.2) hres,
            ⟨⟨hword, hsized⟩, allocatedBlocks_eq hlen hne, hcount, hcalled⟩, rfl,
            logs_allocResources _ _ _ _ _ _ _ _ hr⟩
  | setup r k =>
      rw [hstate] at h
      cases h
  | ready r g =>
      rw [hstate] at h
      cases h
  | error =>
      rw [hstate] at h
      cases h

theorem setup_ok {mem : Memory} {prepare : List UInt8 → Except (Fault GhashError) Ghash}
    {gcm gcm' : MpcAesGcm} {r : Resources} {ghashKey : OneTimePadShared}
    (hstate : gcm.state = .setup r ghashKey) (h : setup mem prepare gcm = .ok () gcm') :
    ∃ ghash, prepare (ghashKey.share mem).toList = .ok ghash ∧
      gcm' = { gcm with state := .ready r ghash } := by
  simp only [setup, hstate] at h
  cases hprepare : prepare (ghashKey.share mem).toList with
  | error e =>
      rw [hprepare] at h
      cases h
  | ok ghash =>
      rw [hprepare] at h
      cases h
      exact ⟨ghash, rfl, rfl⟩

theorem setup_state {mem : Memory} {prepare : List UInt8 → Except (Fault GhashError) Ghash}
    {gcm gcm' : MpcAesGcm} (h : setup mem prepare gcm = .ok () gcm') :
    ∃ r ghashKey ghash, gcm.state = .setup r ghashKey ∧
      prepare (ghashKey.share mem).toList = .ok ghash ∧ gcm'.state = .ready r ghash := by
  cases hstate : gcm.state with
  | setup r ghashKey =>
      obtain ⟨ghash, hprepare, rfl⟩ := setup_ok hstate h
      exact ⟨r, ghashKey, ghash, rfl, hprepare, rfl⟩
  | init =>
      rw [setup, hstate] at h
      cases h
  | ready _ _ =>
      rw [setup, hstate] at h
      cases h
  | error =>
      rw [setup, hstate] at h
      cases h

end MpcAesGcm

/-- What a record layer is set up with. -/
structure LayerParams where
  role : Role
  clientWriteKey : Slice
  clientIv : Slice
  serverWriteKey : Slice
  serverIv : Slice
  pads : RecordLayer.Pads
  sentRecords : Fin wordSize
  recvRecords : Fin wordSize
  sentLen : Fin wordSize
  recvLenOnline : Fin wordSize
  recvLen : Fin wordSize

namespace LayerParams

def create (p : LayerParams) : RecordLayer :=
  (RecordLayer.new p.role (MpcAesGcm.new p.role) (MpcAesGcm.new p.role)).setKeys p.clientWriteKey
    p.clientIv p.serverWriteKey p.serverIv

def alloc (p : LayerParams) : EStateM (Fault MpcTlsError) (Vm × RecordLayer) Unit :=
  RecordLayer.alloc p.pads p.sentRecords p.recvRecords p.sentLen p.recvLenOnline p.recvLen

/-- The leader's pad for what is decrypted online. -/
def recvOtp (p : LayerParams) : Option (List UInt8) :=
  match p.role with
  | .leader => some ((List.range p.recvLenOnline).map p.pads.recvOtp)
  | .follower => none

/-- The layer was allocated, then set up. Other parts may have used the machine in
between. -/
structure Established (p : LayerParams) (mem : Memory) (s : Vm × RecordLayer) : Prop where
  alloc : ∃ vm s₁ ops prepareEncrypt prepareDecrypt, p.alloc (vm, p.create) = .ok () s₁ ∧
    RecordLayer.setup mem prepareEncrypt prepareDecrypt (s₁.1.push ops, s₁.2) = .ok () s

end LayerParams

namespace RecordLayer

/-- A layer which has not processed anything. -/
structure Fresh (p : LayerParams) (layer : RecordLayer) : Prop where
  role : layer.role = p.role
  state : layer.state = .online p.recvOtp [] []
  writeSeq : layer.writeSeq = 0
  readSeq : layer.readSeq = 0
  started : layer.started = false
  sent : layer.sent = 0
  recvOnline : layer.recvOnline = 0
  recv : layer.recv = 0
  maxSent : layer.maxSent = p.sentLen
  maxRecvOnline : layer.maxRecvOnline = p.recvLenOnline
  maxRecv : layer.maxRecv = p.recvLen
  encryptBuffer : layer.encryptBuffer = []
  decryptBuffer : layer.decryptBuffer = []
  encryptedBuffer : layer.encryptedBuffer = []
  decryptedBuffer : layer.decryptedBuffer = []

end RecordLayer

namespace LayerParams

open RecordLayer

theorem Established.stocked {p : LayerParams} {mem : Memory} {s : Vm × RecordLayer}
    (h : p.Established mem s) :
    ∃ e d : Stock, s.2.Stocked e d ∧ s.2.Fresh p ∧
      e.Allocated p.clientWriteKey p.clientIv p.sentRecords p.sentLen s.1 ∧
      d.Allocated p.serverWriteKey p.serverIv p.recvRecords p.recvLenOnline s.1 := by
  obtain ⟨vm, ⟨vm', layer⟩, ops, prepareEncrypt, prepareDecrypt, halloc, hsetup⟩ := h.alloc
  obtain ⟨⟨⟩, s₁, htake, h₁⟩ := Fault.run_bind_ok_iff.mp halloc
  cases htake
  obtain ⟨⟨⟩, s₂, hencrypt, h₂⟩ := Fault.run_bind_ok_iff.mp h₁
  obtain ⟨⟨vm₂, encrypter⟩, hencrypt', hs₂⟩ := onEncrypter_ok_iff.mp hencrypt
  subst hs₂
  obtain ⟨⟨⟩, s₃, hdecrypt, h₃⟩ := Fault.run_bind_ok_iff.mp h₂
  obtain ⟨⟨vm₃, decrypter⟩, hdecrypt', hs₃⟩ := onDecrypter_ok_iff.mp hdecrypt
  subst hs₃
  obtain ⟨⟨⟩, s₄, hctr, h₄⟩ := Fault.run_bind_ok_iff.mp h₃
  obtain ⟨⟨vm₄, ctr⟩, hctr', hs₄⟩ := onAesCtr_ok_iff.mp hctr
  subst hs₄
  cases h₄
  obtain ⟨e, ghashKey, he, hallocated, herole, -⟩ :=
    MpcAesGcm.alloc_ok rfl rfl p.sentLen.isLt (Fault.adapt_ok_iff.mp hencrypt')
  obtain ⟨d, ghashKey', hd, hallocated', hdrole, hvm₃⟩ :=
    MpcAesGcm.alloc_ok rfl rfl p.recvLenOnline.isLt (Fault.adapt_ok_iff.mp hdecrypt')
  have hvm₄ := AesCtr.alloc_extends hctr'
  obtain ⟨⟨⟩, s₅, hsetupE, h₅⟩ := Fault.run_bind_ok_iff.mp hsetup
  obtain ⟨⟨vm₅, encrypter'⟩, hsetupE', hs₅⟩ := onEncrypter_ok_iff.mp hsetupE
  subst hs₅
  obtain ⟨⟨vm₆, decrypter'⟩, hsetupD', hs₆⟩ := onDecrypter_ok_iff.mp h₅
  subst hs₆
  obtain ⟨hencrypter, hvm₅⟩ := Fault.onSnd_ok_iff.mp hsetupE'
  obtain ⟨hdecrypter, hvm₆⟩ := Fault.onSnd_ok_iff.mp hsetupD'
  obtain ⟨ghash, -, hready⟩ := MpcAesGcm.setup_ok he (Fault.adapt_ok_iff.mp hencrypter)
  obtain ⟨ghash', -, hready'⟩ := MpcAesGcm.setup_ok hd (Fault.adapt_ok_iff.mp hdecrypter)
  have hvm : vm₄.Extends vm₆ := by
    rw [show vm₆ = _ from hvm₆, show vm₅ = _ from hvm₅]
    exact Vm.Extends.push vm₄ ops
  have hvm' : vm₃.Extends vm₆ := Vm.Extends.trans _ _ _ hvm₄ hvm
  have hvm'' : vm₂.Extends vm₆ := Vm.Extends.trans _ _ _ hvm₃ hvm'
  have hallocE := hallocated.extends hvm''
  have hallocD := hallocated'.extends hvm'
  have hencrypter' : encrypter' = { encrypter with state := _ } := hready
  have hdecrypter' : decrypter' = { decrypter with state := _ } := hready'
  have hstock : MpcAesGcm.Stocked { e with ghash := ghash } encrypter' := by
    rw [hencrypter']
    exact ⟨rfl, hallocE.sized.lt_word, hallocE.sized.j0s⟩
  have hstock' : MpcAesGcm.Stocked { d with ghash := ghash' } decrypter' := by
    rw [hdecrypter']
    exact ⟨rfl, hallocD.sized.lt_word, hallocD.sized.j0s⟩
  have hrole : encrypter'.role = p.role := by
    rw [hencrypter']
    exact herole
  have hrole' : decrypter'.role = p.role := by
    rw [hdecrypter']
    exact hdrole
  have hmax : ∀ n : Fin wordSize, wrap (0 + n.val) = n := by
    intro n
    rw [Nat.zero_add, wrap_of_lt n.isLt]
  have hotp : (match p.create.role with
      | .leader => some ((List.range p.recvLenOnline).map p.pads.recvOtp)
      | .follower => none) = p.recvOtp := rfl
  exact ⟨{ e with ghash := ghash }, { d with ghash := ghash' }, ⟨hstock, hstock', hrole, hrole'⟩,
    ⟨rfl, congrArg (RecordLayerState.online · [] []) hotp, rfl, rfl, rfl, rfl, rfl, rfl, hmax _,
      hmax _, hmax _, rfl, rfl, rfl, rfl⟩, ⟨⟨hallocE.sized.lt_word, hallocE.sized.j0s⟩,
      hallocE.blocks, hallocE.records, hallocE.called⟩, ⟨hallocD.sized.lt_word, hallocD.sized.j0s⟩,
      hallocD.blocks, hallocD.records, hallocD.called⟩

end LayerParams

end Tlsn.MpcTls
