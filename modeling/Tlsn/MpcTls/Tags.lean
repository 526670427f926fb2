import Tlsn.MpcTls.AesGcm

/-!
Tags of records. Each party computes its share of every tag. To compute tags the
follower sends its shares to the leader; to verify tags the leader commits to its
shares, the follower reveals its own, and the leader opens the commitment, so that
both compare the sums with the tags.
-/

namespace Tlsn.MpcTls

open Tlsn.Cipher

abbrev TagShare := Block

def TagShare.add (a b : TagShare) : List UInt8 := (Block.xor a b).toList

/-- A value that is there once the machine has run. -/
abbrev Future (α : Type) := Memory → α

/-- Hash commitments to tag shares. Committing draws the nonce. -/
structure HashCommit (C D : Type) where
  commit : List TagShare → D × C
  verify : D → C → Bool
  intoInner : D → List TagShare

/-- What the peer sends during the tag tasks. -/
structure PeerShares (C D : Type) where
  computeShares : List TagShare
  verifyShares : List TagShare
  commitment : C
  decommitment : D

/-- A party's share of a tag. -/
def tagShare (ghash : Ghash) (j0Share : Block) (aad ciphertext : List UInt8) :
    Except (Fault AeadError) TagShare := do
  let ghashShare ← Fault.convert (fun e => .tag (.ghash e))
    (ghash.compute (buildGhashData aad ciphertext))
  return Block.xor j0Share (Block.ofBytes ghashShare)

/-! ## Computing tags -/

structure ComputeTagData where
  j0 : OneTimePadShared
  ciphertext : Future (List UInt8)
  aad : List UInt8

structure ComputeTags where
  role : Role
  data : List ComputeTagData
  ghash : Ghash

namespace ComputeTags

def tagShares (mem : Memory) (task : ComputeTags) : Except (Fault AeadError) (List TagShare) :=
  task.data.mapM fun data =>
    tagShare task.ghash (data.j0.share mem) data.aad (data.ciphertext mem)

/-- Only the leader learns the tags. -/
def run (mem : Memory) (followerTagShares : List TagShare) (task : ComputeTags) :
    Except (Fault AeadError) (Option (List (List UInt8))) :=
  if task.data.isEmpty then .ok none
  else do
    let tagShares ← task.tagShares mem
    match task.role with
    | .leader =>
        if followerTagShares.length ≠ tagShares.length then
          throw (.err (.tag (.msg "follower tag shares length mismatch")))
        else return some (List.zipWith TagShare.add tagShares followerTagShares)
    | .follower => return none

end ComputeTags

/-! ## Verifying tags -/

structure VerifyTagData where
  j0 : OneTimePadShared
  ciphertext : List UInt8
  aad : List UInt8
  tag : List UInt8

structure VerifyTags where
  role : Role
  data : List VerifyTagData
  ghash : Ghash

namespace VerifyTags

variable {C D : Type}

def tagShares (mem : Memory) (task : VerifyTags) : Except (Fault AeadError) (List TagShare) :=
  task.data.mapM fun data =>
    tagShare task.ghash (data.j0.share mem) data.aad data.ciphertext

/-- The shares of the peer, as far as the messages are what they should be. -/
def peerTagShares (scheme : HashCommit C D) (peer : PeerShares C D) (role : Role) (count : Nat) :
    Except (Fault AeadError) (List TagShare) :=
  match role with
  | .leader =>
      if peer.verifyShares.length ≠ count then
        .error (.err (.tag (.msg "follower tag shares length mismatch")))
      else .ok peer.verifyShares
  | .follower =>
      if scheme.verify peer.decommitment peer.commitment then
        .ok (scheme.intoInner peer.decommitment)
      else .error (.err (.tag .commitment))

def run (scheme : HashCommit C D) (mem : Memory) (peer : PeerShares C D) (task : VerifyTags) :
    Except (Fault AeadError) Unit :=
  if task.data.isEmpty then .ok ()
  else do
    let tagShares ← task.tagShares mem
    let peerTagShares ← peerTagShares scheme peer task.role tagShares.length
    let expectedTags := List.zipWith TagShare.add tagShares peerTagShares
    if task.data.map VerifyTagData.tag ≠ expectedTags then
      throw (.err (.tag (.msg "failed to verify tags")))
    else return ()

end VerifyTags

/-! ## The inputs of the tasks -/

structure TagData where
  explicitNonce : List UInt8
  aad : List UInt8
deriving DecidableEq

namespace Resources

/-- Takes the last of the blocks that were allocated for tags. -/
def popJ0 : EStateM (Fault AeadError) (Vm × Resources) (CtrBlock × OneTimePadShared) := fun s =>
  match s.2.j0s.getLast? with
  | none => .error .panic s
  | some j0 => .ok j0 (s.1, { s.2 with j0s := s.2.j0s.dropLast })

def assignJ0 (j0 : CtrBlock) (explicitNonce : List UInt8) :
    EStateM (Fault AeadError) (Vm × Resources) Unit := do
  onVm (Vm.assign j0.explicitNonce explicitNonce)
  onVm (Vm.commit j0.explicitNonce)
  onVm (Vm.assign j0.counter (beBytes 4 1))
  onVm (Vm.commit j0.counter)

/-- The shared block of each record, assigned the record's nonce. -/
def takeJ0s : List TagData → EStateM (Fault AeadError) (Vm × Resources) (List OneTimePadShared)
  | [] => return []
  | data :: rest => do
      let explicitNonce ← Fault.lift (nonceOf data.explicitNonce)
      let (j0, shared) ← popJ0
      assignJ0 j0 explicitNonce
      let j0s ← takeJ0s rest
      return shared :: j0s

def computeTags (role : Role) (ghash : Ghash) (ciphertexts : List (Future (List UInt8)))
    (data : List TagData) : EStateM (Fault AeadError) (Vm × Resources) ComputeTags := do
  if ciphertexts.length ≠ data.length then
    throw (.err (.tag (.msg "ciphertext and data length mismatch")))
  else if ciphertexts.length > (← get).2.j0s.length then
    throw (.err (.tag (.msg "ciphertext length exceeds allocated")))
  else
    let j0s ← takeJ0s data
    let tagData := List.zipWith (fun j0 (c, d) => ComputeTagData.mk j0 c (TagData.aad d)) j0s
      (ciphertexts.zip data)
    return ⟨role, tagData, ghash⟩

def verifyTags (role : Role) (ghash : Ghash) (data : List TagData)
    (ciphertexts tags : List (List UInt8)) :
    EStateM (Fault AeadError) (Vm × Resources) VerifyTags := do
  if ciphertexts.length ≠ data.length then
    throw (.err (.tag (.msg "ciphertext and data length mismatch")))
  else if ciphertexts.length ≠ tags.length then
    throw (.err (.tag (.msg "ciphertext and tag length mismatch")))
  else if ciphertexts.length > (← get).2.j0s.length then
    throw (.err (.tag (.msg "ciphertext length exceeds allocated")))
  else
    let j0s ← takeJ0s data
    let tagData := List.zipWith (fun j0 ((c, d), t) => VerifyTagData.mk j0 c (TagData.aad d) t) j0s
      ((ciphertexts.zip data).zip tags)
    return ⟨role, tagData, ghash⟩

end Resources

namespace MpcAesGcm

def computeTags (ciphertexts : List (Future (List UInt8))) (data : List TagData) :
    EStateM (Fault AeadError) (Vm × MpcAesGcm) ComputeTags :=
  whenReady "must be in ready state to compute tags" fun role ghash =>
    Resources.computeTags role ghash ciphertexts data

def verifyTags (data : List TagData) (ciphertexts tags : List (List UInt8)) :
    EStateM (Fault AeadError) (Vm × MpcAesGcm) VerifyTags :=
  whenReady "must be in ready state to verify tags" fun role ghash =>
    Resources.verifyTags role ghash data ciphertexts tags

end MpcAesGcm

end Tlsn.MpcTls
