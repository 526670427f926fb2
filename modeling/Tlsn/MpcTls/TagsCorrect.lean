import Tlsn.MpcTls.GhashField
import Tlsn.MpcTls.GhashShares
import Tlsn.MpcTls.Tags

/-!
What the tag tasks of the two parties compute together. The shares of every record
add up to its tag, so that honest parties get the tags of their records in order,
and agree on whether given tags are right. A leader which does not follow the
protocol is held to the shares it has committed to.
-/

namespace Tlsn.MpcTls

open Tlsn.Cipher

/-! ## Shares of a block -/

theorem OneTimePadShared.new_leader {vm : Vm} {value : Slice} {otp : Block}
    (hlen : value.len = 16) :
    new .leader value otp vm = .ok (.leader otp) ⟨vm.next + 64, vm.log ++
      [.mark .isPrivate ⟨vm.next, 16⟩, .assign ⟨vm.next, 16⟩ otp.toList, .commit ⟨vm.next, 16⟩,
        .call .xor [value, ⟨vm.next, 16⟩] ⟨vm.next + 16, 16⟩, .mark .isBlind ⟨vm.next + 32, 16⟩,
        .commit ⟨vm.next + 32, 16⟩,
        .call .xor [⟨vm.next + 16, 16⟩, ⟨vm.next + 32, 16⟩] ⟨vm.next + 48, 16⟩,
        .decode ⟨vm.next + 48, 16⟩]⟩ := by
  have hotp : otp.toList.length = value.len := by rw [hlen, Vector.length_toList]
  simp [new, bind, EStateM.bind, maskPrivate_eq hotp, maskBlind_eq, hlen, Vm.decode, Vm.push,
    pure, EStateM.pure]

theorem OneTimePadShared.new_follower {vm : Vm} {value : Slice} {otp : Block}
    (hlen : value.len = 16) :
    new .follower value otp vm = .ok (.follower ⟨vm.next + 48, 16⟩ otp) ⟨vm.next + 64, vm.log ++
      [.mark .isBlind ⟨vm.next, 16⟩, .commit ⟨vm.next, 16⟩,
        .call .xor [value, ⟨vm.next, 16⟩] ⟨vm.next + 16, 16⟩,
        .mark .isPrivate ⟨vm.next + 32, 16⟩, .assign ⟨vm.next + 32, 16⟩ otp.toList,
        .commit ⟨vm.next + 32, 16⟩,
        .call .xor [⟨vm.next + 16, 16⟩, ⟨vm.next + 32, 16⟩] ⟨vm.next + 48, 16⟩,
        .decode ⟨vm.next + 48, 16⟩]⟩ := by
  have hotp : otp.toList.length = (16 : Nat) := Vector.length_toList
  simp only [new, bind, EStateM.bind, maskBlind_eq, hlen]
  rw [maskPrivate_eq hotp]
  simp [Vm.decode, Vm.push, pure, EStateM.pure]

/-- The machines of both parties mask the value with both pads, and the follower
removes its own. -/
theorem OneTimePadShared.new_shares {vm₁ vm₂ vm₁' vm₂' : Vm} {value : Slice} {otp₁ otp₂ : Block}
    {leader follower : OneTimePadShared} {aes : Aes} {mem : Memory} (hnext : vm₁.next = vm₂.next)
    (hlen : value.len = 16) (hleader : new .leader value otp₁ vm₁ = .ok leader vm₁')
    (hfollower : new .follower value otp₂ vm₂ = .ok follower vm₂') (hmem₁ : vm₁'.Holds aes mem)
    (hmem₂ : vm₂'.Holds aes mem) :
    Block.xor (leader.share mem) (follower.share mem) = Block.ofBytes (mem.read value) := by
  rw [new_leader hlen] at hleader
  rw [new_follower hlen] at hfollower
  cases hleader
  cases hfollower
  have hotp₁ : mem.read ⟨vm₁.next, 16⟩ = otp₁.toList :=
    hmem₁ (.assign ⟨vm₁.next, 16⟩ otp₁.toList) (by simp)
  have hotp₂ : mem.read ⟨vm₂.next + 32, 16⟩ = otp₂.toList :=
    hmem₂ (.assign ⟨vm₂.next + 32, 16⟩ otp₂.toList) (by simp)
  have hfirst := hmem₂ (.call .xor [value, ⟨vm₂.next, 16⟩] ⟨vm₂.next + 16, 16⟩) (by simp)
  have hsecond := hmem₂
    (.call .xor [⟨vm₂.next + 16, 16⟩, ⟨vm₂.next + 32, 16⟩] ⟨vm₂.next + 48, 16⟩) (by simp)
  simp only [VmOp.Holds, Circuit.eval, List.map_cons, List.map_nil] at hfirst hsecond
  rw [hnext] at hotp₁
  rw [hotp₁] at hfirst
  rw [hfirst, hotp₂] at hsecond
  simp only [share, hsecond]
  rw [Block.ofBytes_xorBytes (by simp [hlen]), Block.ofBytes_xorBytes (by simp [hlen]),
    Block.ofBytes_toList, Block.ofBytes_toList, Block.xor_assoc, Block.xor_self, Block.xor_zero,
    Block.xor_left_comm, Block.xor_self, Block.xor_zero]

/-! ## Tags of a batch -/

/-- A record with the parties' shares of its first block, and a tag for it. -/
structure TagRecord where
  leaderJ0 : OneTimePadShared
  followerJ0 : OneTimePadShared
  aad : List UInt8
  ciphertext : List UInt8
  tag : List UInt8

namespace TagRecord

def j0 (mem : Memory) (r : TagRecord) : Block :=
  Block.xor (r.leaderJ0.share mem) (r.followerJ0.share mem)

def shareOf (r : TagRecord) : Role → OneTimePadShared
  | .leader => r.leaderJ0
  | .follower => r.followerJ0

/-- The machines of both parties have shared the first block, which is at `value`. -/
def SharesJ0 (mem : Memory) (value : Slice) (r : TagRecord) : Prop :=
  ∃ (aes : Aes) (otp₁ otp₂ : Block) (vm₁ vm₂ vm₁' vm₂' : Vm),
    value.len = 16 ∧ vm₁.next = vm₂.next ∧
    OneTimePadShared.new .leader value otp₁ vm₁ = .ok r.leaderJ0 vm₁' ∧
    OneTimePadShared.new .follower value otp₂ vm₂ = .ok r.followerJ0 vm₂' ∧
    vm₁'.Holds aes mem ∧ vm₂'.Holds aes mem

theorem SharesJ0.j0 {mem : Memory} {value : Slice} {r : TagRecord} (h : r.SharesJ0 mem value) :
    r.j0 mem = Block.ofBytes (mem.read value) := by
  obtain ⟨aes, otp₁, otp₂, vm₁, vm₂, vm₁', vm₂', hlen, hnext, hleader, hfollower, h₁, h₂⟩ := h
  exact OneTimePadShared.new_shares hnext hlen hleader hfollower h₁ h₂

/-- The tag of AES-GCM. -/
def expected {F : Type} [CommRing F] (B : BlockField F) (h : F) (mem : Memory) (r : TagRecord) :
    List UInt8 :=
  (Block.xor (r.j0 mem) (ghashOf B h r.aad r.ciphertext)).toList

def computeTags (records : List TagRecord) (role : Role) (ghash : Ghash) : ComputeTags where
  role := role
  data := records.map fun r => ⟨r.shareOf role, fun _ => r.ciphertext, r.aad⟩
  ghash := ghash

def verifyTags (records : List TagRecord) (role : Role) (ghash : Ghash) : VerifyTags where
  role := role
  data := records.map fun r => ⟨r.shareOf role, r.ciphertext, r.aad, r.tag⟩
  ghash := ghash

end TagRecord

section

variable {F : Type} [CommRing F] {B : BlockField F} {h : F} {leader follower : MpcGhash F}
  {mem : Memory}

theorem tagShare_of_compute {ghash : Ghash} {aad ciphertext : List UInt8} {a j0 : Block}
    (hcompute : ghash.compute (buildGhashData aad ciphertext) = .ok a.toList) :
    tagShare ghash j0 aad ciphertext = .ok (Block.xor j0 a) := by
  rw [tagShare, hcompute]
  exact congrArg (fun b => Except.ok (Block.xor j0 b)) (Block.ofBytes_toList a)

/-- The shares of one record add up to its tag. -/
theorem tagShare_add (mem : Memory) (hshared : MpcGhash.Shared h leader follower) (r : TagRecord)
    (hfits : (ghashBlocks r.aad r.ciphertext).length ≤ maxPower) :
    ∃ a b, tagShare ⟨MpcGhash.compute B leader⟩ (r.leaderJ0.share mem) r.aad r.ciphertext = .ok a ∧
      tagShare ⟨MpcGhash.compute B follower⟩ (r.followerJ0.share mem) r.aad r.ciphertext =
        .ok b ∧ TagShare.add a b = r.expected B h mem := by
  rw [← blocksOf_buildGhashData, MpcGhash.length_blocksOf] at hfits
  obtain ⟨a, b, ha, hb, hsum⟩ := hshared.compute (B := B) hfits
  refine ⟨_, _, tagShare_of_compute ha, tagShare_of_compute hb, ?_⟩
  rw [TagShare.add, TagRecord.expected, TagRecord.j0, ghashOf, ← blocksOf_buildGhashData, ← hsum]
  simp only [Block.xor_assoc, Block.xor_left_comm]

/-- The shares of a batch, record by record. -/
theorem tagShares_add (mem : Memory) (hshared : MpcGhash.Shared h leader follower)
    (records : List TagRecord)
    (hfits : ∀ r ∈ records, (ghashBlocks r.aad r.ciphertext).length ≤ maxPower) :
    ∃ xs ys : List TagShare,
      (records.mapM fun r => tagShare ⟨MpcGhash.compute B leader⟩ (r.leaderJ0.share mem) r.aad
        r.ciphertext) = .ok xs ∧
      (records.mapM fun r => tagShare ⟨MpcGhash.compute B follower⟩ (r.followerJ0.share mem) r.aad
        r.ciphertext) = .ok ys ∧
      xs.length = records.length ∧ ys.length = records.length ∧
      List.zipWith TagShare.add xs ys = records.map (TagRecord.expected B h mem) := by
  induction records with
  | nil => exact ⟨[], [], rfl, rfl, rfl, rfl, rfl⟩
  | cons r records ih =>
      obtain ⟨a, b, ha, hb, hadd⟩ := tagShare_add (B := B) mem hshared r
        (hfits r List.mem_cons_self)
      obtain ⟨xs, ys, hxs, hys, hx, hy, hsum⟩ := ih fun r' hr' =>
        hfits r' (List.mem_cons_of_mem _ hr')
      refine ⟨a :: xs, b :: ys, ?_, ?_, ?_, ?_, ?_⟩
      · rw [List.mapM_cons, ha, hxs]
        rfl
      · rw [List.mapM_cons, hb, hys]
        rfl
      · rw [List.length_cons, List.length_cons, hx]
      · rw [List.length_cons, List.length_cons, hy]
      · rw [List.zipWith_cons_cons, List.map_cons, hadd, hsum]

theorem TagShare.add_comm (a b : TagShare) : TagShare.add a b = TagShare.add b a := by
  rw [add, add, Block.xor_comm]

end

namespace TagRecord

theorem computeTags_tagShares (records : List TagRecord) (role : Role) (ghash : Ghash)
    (mem : Memory) : (computeTags records role ghash).tagShares mem =
      records.mapM fun r => tagShare ghash ((r.shareOf role).share mem) r.aad r.ciphertext := by
  rw [ComputeTags.tagShares, computeTags, List.mapM_map]
  rfl

theorem verifyTags_tagShares (records : List TagRecord) (role : Role) (ghash : Ghash)
    (mem : Memory) : (verifyTags records role ghash).tagShares mem =
      records.mapM fun r => tagShare ghash ((r.shareOf role).share mem) r.aad r.ciphertext := by
  rw [VerifyTags.tagShares, verifyTags, List.mapM_map]
  rfl

end TagRecord

theorem ComputeTags.run_leader {mem : Memory} {ghash : Ghash} {records : List TagRecord}
    {xs ys : List TagShare}
    (hxs : (TagRecord.computeTags records .leader ghash).tagShares mem = .ok xs)
    (hlen : ys.length = xs.length) :
    (TagRecord.computeTags records .leader ghash).run mem ys =
      .ok (if records.isEmpty then none else some (List.zipWith TagShare.add xs ys)) := by
  rw [run]
  simp only [hxs]
  cases records with
  | nil => rfl
  | cons r records =>
      simp [TagRecord.computeTags, hlen, bind, Except.bind, pure, Except.pure]

theorem ComputeTags.run_follower {mem : Memory} {ghash : Ghash} {records : List TagRecord}
    {xs ys : List TagShare}
    (hxs : (TagRecord.computeTags records .follower ghash).tagShares mem = .ok xs) :
    (TagRecord.computeTags records .follower ghash).run mem ys = .ok none := by
  rw [run]
  simp only [hxs]
  cases records with
  | nil => rfl
  | cons r records => simp [TagRecord.computeTags, bind, Except.bind, pure, Except.pure]

/-- The comparison decides, once both have the shares. -/
theorem VerifyTags.run_ok_iff {C D : Type} {scheme : HashCommit C D} {mem : Memory}
    {peer : PeerShares C D} {task : VerifyTags} (hne : task.data ≠ []) :
    task.run scheme mem peer = .ok () ↔ ∃ xs ys, task.tagShares mem = .ok xs ∧
      peerTagShares scheme peer task.role xs.length = .ok ys ∧
      task.data.map VerifyTagData.tag = List.zipWith TagShare.add xs ys := by
  have hempty : ¬ task.data.isEmpty = true := by simpa using hne
  rw [run, if_neg hempty]
  simp only [Fault.bind_ok_iff]
  constructor
  · intro h
    obtain ⟨xs, hxs, ys, hys, hrun⟩ := h
    refine ⟨xs, ys, hxs, hys, ?_⟩
    by_contra hne
    rw [if_pos hne] at hrun
    cases hrun
  · intro h
    obtain ⟨xs, ys, hxs, hys, heq⟩ := h
    refine ⟨xs, hxs, ys, hys, ?_⟩
    rw [if_neg (not_not_intro heq)]
    rfl

/-- A commitment opens to what was committed. -/
def HashCommit.Correct {C D : Type} (scheme : HashCommit C D) : Prop :=
  ∀ xs, scheme.verify (scheme.commit xs).1 (scheme.commit xs).2 = true ∧
    scheme.intoInner (scheme.commit xs).1 = xs

/-- A commitment which can be opened to `xs` only. -/
def HashCommit.Binds {C D : Type} (scheme : HashCommit C D) (c : C) (xs : List TagShare) : Prop :=
  ∀ d, scheme.verify d c = true → scheme.intoInner d = xs

/-- GHASH has shares for as many blocks. -/
def TagRecord.Fits (r : TagRecord) : Prop := (ghashBlocks r.aad r.ciphertext).length ≤ maxPower

section

variable {F : Type} [CommRing F] {B : BlockField F} {h : F} {leader follower : MpcGhash F}
  {mem : Memory} {records : List TagRecord}

theorem computeTags_both (hshared : MpcGhash.Shared h leader follower)
    (hfits : ∀ r ∈ records, r.Fits) :
    ∃ shares,
      (TagRecord.computeTags records .follower ⟨MpcGhash.compute B follower⟩).tagShares mem =
        .ok shares ∧
      (TagRecord.computeTags records .leader ⟨MpcGhash.compute B leader⟩).run mem shares =
        .ok (if records.isEmpty then none else some (records.map (TagRecord.expected B h mem))) ∧
      ∀ xs, (TagRecord.computeTags records .follower ⟨MpcGhash.compute B follower⟩).run mem xs =
        .ok none := by
  obtain ⟨xs, ys, hxs, hys, hx, hy, hsum⟩ := tagShares_add (B := B) mem hshared records
    hfits
  have hleader := TagRecord.computeTags_tagShares records .leader ⟨MpcGhash.compute B leader⟩ mem
  have hfollower :=
    TagRecord.computeTags_tagShares records .follower ⟨MpcGhash.compute B follower⟩ mem
  refine ⟨ys, hfollower.trans hys, ?_, ?_⟩
  · rw [ComputeTags.run_leader (hleader.trans hxs) (by omega), hsum]
  · intro zs
    exact ComputeTags.run_follower (hfollower.trans hys)

theorem verifyTags_both {C D : Type} {scheme : HashCommit C D} (hscheme : scheme.Correct)
    (hshared : MpcGhash.Shared h leader follower) (hfits : ∀ r ∈ records, r.Fits) :
    ∃ xs ys,
      (TagRecord.verifyTags records .leader ⟨MpcGhash.compute B leader⟩).tagShares mem = .ok xs ∧
      (TagRecord.verifyTags records .follower ⟨MpcGhash.compute B follower⟩).tagShares mem =
        .ok ys ∧
      ∀ toLeader toFollower : PeerShares C D, toLeader.verifyShares = ys →
        toFollower.commitment = (scheme.commit xs).2 →
        toFollower.decommitment = (scheme.commit xs).1 →
        ((TagRecord.verifyTags records .leader ⟨MpcGhash.compute B leader⟩).run scheme mem
              toLeader = .ok () ∧
            (TagRecord.verifyTags records .follower ⟨MpcGhash.compute B follower⟩).run scheme mem
              toFollower = .ok () ↔
          ∀ r ∈ records, r.tag = r.expected B h mem) := by
  obtain ⟨xs, ys, hxs, hys, hx, hy, hsum⟩ := tagShares_add (B := B) mem hshared records
    hfits
  have hleader := (TagRecord.verifyTags_tagShares records .leader
    ⟨MpcGhash.compute B leader⟩ mem).trans hxs
  have hfollower := (TagRecord.verifyTags_tagShares records .follower
    ⟨MpcGhash.compute B follower⟩ mem).trans hys
  refine ⟨xs, ys, hleader, hfollower, ?_⟩
  intro toLeader toFollower hshares hcommitment hdecommitment
  cases records with
  | nil => simp [TagRecord.verifyTags, VerifyTags.run]
  | cons r records =>
      have hsum' : List.zipWith TagShare.add ys xs =
          (r :: records).map (TagRecord.expected B h mem) := by
        rw [← hsum, List.zipWith_comm_of_comm TagShare.add_comm]
      have hpeer₁ : VerifyTags.peerTagShares scheme toLeader .leader xs.length = .ok ys := by
        have hlen : ¬ ys.length ≠ xs.length := by omega
        rw [VerifyTags.peerTagShares, hshares, if_neg hlen]
      have hpeer₂ : VerifyTags.peerTagShares scheme toFollower .follower ys.length = .ok xs := by
        rw [VerifyTags.peerTagShares, hcommitment, hdecommitment, if_pos (hscheme xs).1,
          (hscheme xs).2]
      have htags : ∀ role ghash, (TagRecord.verifyTags (r :: records) role ghash).data.map
          VerifyTagData.tag = (r :: records).map TagRecord.tag := by
        intro role ghash
        rw [TagRecord.verifyTags, List.map_map]
        rfl
      have hiff : ∀ expected : List (List UInt8),
          expected = (r :: records).map (TagRecord.expected B h mem) →
          ((r :: records).map TagRecord.tag = expected ↔
            ∀ r' ∈ r :: records, r'.tag = r'.expected B h mem) := by
        intro expected hexpected
        rw [hexpected, List.map_inj_left]
      rw [VerifyTags.run_ok_iff (by simp [TagRecord.verifyTags]),
        VerifyTags.run_ok_iff (by simp [TagRecord.verifyTags]), htags, htags, ← hiff _ hsum]
      constructor
      · intro hboth
        obtain ⟨⟨xs', ys', hxs', hys', heq⟩, -⟩ := hboth
        rw [hleader] at hxs'
        cases hxs'
        rw [show (TagRecord.verifyTags (r :: records) .leader _).role = Role.leader from rfl,
          hpeer₁] at hys'
        cases hys'
        exact heq
      · intro heq
        refine ⟨⟨xs, ys, hleader, hpeer₁, heq⟩, ⟨ys, xs, hfollower, hpeer₂, ?_⟩⟩
        rw [heq, hsum, hsum']

end

/-- A follower that accepts has compared every tag with its own share and the one its
peer is bound to. -/
theorem VerifyTags.bound_share {C D : Type} {scheme : HashCommit C D} {mem : Memory} {ghash : Ghash}
    {data : List VerifyTagData} {peer : PeerShares C D} {committed : List TagShare}
    (hbinds : scheme.Binds peer.commitment committed)
    (hrun : run scheme mem peer ⟨.follower, data, ghash⟩ = .ok ()) (i : Nat) (d : VerifyTagData)
    (hd : data[i]? = some d) :
    ∃ share own, committed[i]? = some share ∧
      tagShare ghash (d.j0.share mem) d.aad d.ciphertext = .ok own ∧
      d.tag = TagShare.add share own := by
  have hne : data ≠ [] := by
    intro hnil
    rw [hnil] at hd
    cases hd
  obtain ⟨xs, ys, hxs, hys, heq⟩ := (run_ok_iff hne).mp hrun
  have hcommitted : ys = committed := by
    rw [peerTagShares] at hys
    split at hys
    · rename_i hverify
      cases hys
      exact hbinds _ hverify
    · cases hys
  subst hcommitted
  obtain ⟨own, hi, hown⟩ := (Fault.mapM_ok hxs).2 i d hd
  have htag := congrArg (·[i]?) heq
  simp only [List.getElem?_map, hd, Option.map_some, List.getElem?_zipWith, hi] at htag
  cases hshare : ys[i]? with
  | none =>
      rw [hshare] at htag
      cases htag
  | some share =>
      rw [hshare] at htag
      exact ⟨share, own, rfl, hown, (Option.some.inj htag).trans (TagShare.add_comm ..)⟩

/-- The tag tasks of two parties which hold shares of the GHASH key, whose share
converters are correct. For a batch which GHASH has enough shares for, computing
gives the leader the tag of every record in order, and verifying succeeds on both
sides exactly when every tag is right. And whatever its peer sends, a follower
accepts only tags which are its own shares added to those the peer is bound to. The
first block of a record which the machines have shared is the one in their memory. -/
theorem tags_correct {F : Type} [CommRing F] {B : BlockField F} {C D : Type}
    {scheme : HashCommit C D} {key₁ key₂ : Block} {conv₁ conv₂ : Conversion F}
    {leaderGhash followerGhash : Ghash} (mem : Memory) (records : List TagRecord)
    (hscheme : scheme.Correct) (hleader : MpcGhash.prepare B conv₁ key₁.toList = .ok leaderGhash)
    (hfollower : MpcGhash.prepare B conv₂ key₂.toList = .ok followerGhash)
    (hconv : MpcGhash.CorrectConversion conv₁ conv₂ (B.ofBlock key₁) (B.ofBlock key₂))
    (hfits : ∀ r ∈ records, r.Fits) :
    let expected := TagRecord.expected B (B.ofBlock (Block.xor key₁ key₂)) mem
    (∃ shares,
      (TagRecord.computeTags records .follower followerGhash).tagShares mem = .ok shares ∧
      (TagRecord.computeTags records .leader leaderGhash).run mem shares =
        .ok (if records.isEmpty then none else some (records.map expected)) ∧
      ∀ xs, (TagRecord.computeTags records .follower followerGhash).run mem xs = .ok none) ∧
    (∃ xs ys, (TagRecord.verifyTags records .leader leaderGhash).tagShares mem = .ok xs ∧
      (TagRecord.verifyTags records .follower followerGhash).tagShares mem = .ok ys ∧
      ∀ toLeader toFollower : PeerShares C D, toLeader.verifyShares = ys →
        toFollower.commitment = (scheme.commit xs).2 →
        toFollower.decommitment = (scheme.commit xs).1 →
        ((TagRecord.verifyTags records .leader leaderGhash).run scheme mem toLeader = .ok () ∧
            (TagRecord.verifyTags records .follower followerGhash).run scheme mem toFollower =
              .ok () ↔
          ∀ r ∈ records, r.tag = expected r)) ∧
    (∀ (data : List VerifyTagData) (peer : PeerShares C D) (committed : List TagShare),
      scheme.Binds peer.commitment committed →
      VerifyTags.run scheme mem peer ⟨.follower, data, followerGhash⟩ = .ok () →
      ∀ (i : Nat) (d : VerifyTagData), data[i]? = some d → ∃ share own, committed[i]? = some share ∧
        tagShare followerGhash (d.j0.share mem) d.aad d.ciphertext = .ok own ∧
        d.tag = TagShare.add share own) ∧
    ∀ r ∈ records, ∀ value, r.SharesJ0 mem value →
      expected r = (Block.xor (Block.ofBytes (mem.read value))
        (ghashOf B (B.ofBlock (Block.xor key₁ key₂)) r.aad r.ciphertext)).toList := by
  intro expected
  obtain ⟨leader, follower, hshared, rfl, rfl⟩ :=
    MpcGhash.shared_of_prepare hleader hfollower hconv
  refine ⟨computeTags_both hshared hfits, verifyTags_both hscheme hshared hfits,
    fun data peer committed hbinds hrun => VerifyTags.bound_share hbinds hrun, ?_⟩
  intro r _ value hshares
  simp only [expected, TagRecord.expected, hshares.j0]

namespace TagRecord

/-- Commitments by the shares themselves. -/
def plainCommit : HashCommit (List TagShare) (List TagShare) where
  commit xs := (xs, xs)
  verify d c := decide (d = c)
  intoInner d := d

/-- The key of GHASH is one, and the leader's share is all of it. -/
noncomputable def sampleKey : Role → Block
  | .leader => gf2_128.ofBlock.symm 1
  | .follower => gf2_128.ofBlock.symm 0

noncomputable def sampleConversion : Role → Conversion Gf2_128
  | .leader => ⟨1, List.replicate (maxPower / 2 - 1) 1⟩
  | .follower => ⟨1, List.replicate (maxPower / 2 - 1) 0⟩

theorem sampleConversion_correct : MpcGhash.CorrectConversion (sampleConversion .leader)
    (sampleConversion .follower) (gf2_128.ofBlock (sampleKey .leader))
    (gf2_128.ofBlock (sampleKey .follower)) where
  mult := by
    simp only [sampleConversion, sampleKey, Equiv.apply_symm_apply, mul_one, add_zero]
  leader_length := List.length_replicate
  follower_length := List.length_replicate
  add := by
    intro i p q x y hp hq hx hy
    have hi : i < maxPower / 2 - 1 := by
      have hlt := (List.getElem?_eq_some_iff.mp hx).1
      simpa only [sampleConversion, List.length_replicate] using hlt
    rw [MpcGhash.getElem?_oddShares _ hi] at hp hq
    simp only [sampleConversion, List.getElem?_replicate, hi, if_true] at hx hy
    cases hp
    cases hq
    cases hx
    cases hy
    simp only [sampleConversion, one_pow, mul_one, add_zero]

/-- Blocks of seven at 0 and at 80, and beside each what its sharing puts there. -/
def sampleMemory : Memory := fun a =>
  if a % 80 < 16 then 7 else if a % 80 < 32 then 1 else if a % 80 < 48 then 6
  else if a % 80 < 64 then 2 else 4

/-- A record whose first block is at `ptr`. -/
def sampleRecord (ptr : Nat) (ciphertext : List UInt8) : TagRecord where
  leaderJ0 := .leader (Vector.replicate 16 1)
  followerJ0 := .follower ⟨ptr + 64, 16⟩ (Vector.replicate 16 2)
  aad := [0, 0, 0, 0, 0, 0, 0, 0, 23, 3, 3, 0, ciphertext.length.toUInt8]
  ciphertext := ciphertext
  tag := []

def sampleRecords : List TagRecord :=
  [sampleRecord 0 [104, 101, 108, 108, 111], sampleRecord 80 (List.replicate 17 9)]

theorem sampleRecords_fits : ∀ r ∈ sampleRecords, r.Fits := by
  intro r hr
  simp only [sampleRecords, List.mem_cons, List.not_mem_nil, or_false] at hr
  obtain rfl | rfl := hr <;>
    simp [Fits, ghashBlocks, MpcGhash.length_blocksOf, sampleRecord, maxPower, divCeil]

/-- AES is not called for the sharing. -/
def sampleAes : Aes := fun _ _ => Vector.replicate 16 0

theorem sampleRecord_sharesJ0 {ptr : Nat} (hptr : ptr = 0 ∨ ptr = 80) (ciphertext : List UInt8) :
    (sampleRecord ptr ciphertext).SharesJ0 sampleMemory ⟨ptr, 16⟩ := by
  refine ⟨sampleAes, _, _, ⟨ptr + 16, []⟩, ⟨ptr + 16, []⟩, _, _, rfl, rfl,
    OneTimePadShared.new_leader rfl, OneTimePadShared.new_follower rfl, ?_, ?_⟩ <;>
    · rw [Vm.Holds]
      cases hptr with
      | inl h | inr h =>
          subst h
          decide +kernel

theorem tags_correct_sample :
    ∃ leaderGhash followerGhash shares,
      MpcGhash.prepare gf2_128 (sampleConversion .leader) (sampleKey .leader).toList =
        .ok leaderGhash ∧
      MpcGhash.prepare gf2_128 (sampleConversion .follower) (sampleKey .follower).toList =
        .ok followerGhash ∧
      (computeTags sampleRecords .follower followerGhash).tagShares sampleMemory = .ok shares ∧
      (computeTags sampleRecords .leader leaderGhash).run sampleMemory shares =
        .ok (some (sampleRecords.map fun r => (Block.xor (Block.ofBytes (List.replicate 16 7))
          (ghashOf gf2_128 (gf2_128.ofBlock (Block.xor (sampleKey .leader) (sampleKey .follower)))
            r.aad r.ciphertext)).toList)) := by
  obtain ⟨_, _, -, -, hleader⟩ :=
    MpcGhash.prepare_ok gf2_128 (sampleKey .leader) sampleConversion_correct.leader_length
  obtain ⟨_, _, -, -, hfollower⟩ :=
    MpcGhash.prepare_ok gf2_128 (sampleKey .follower) sampleConversion_correct.follower_length
  have hplain : plainCommit.Correct := fun xs => ⟨decide_eq_true rfl, rfl⟩
  obtain ⟨⟨shares, hshares, hrun, -⟩, -, -, hj0⟩ := tags_correct sampleMemory sampleRecords hplain
    hleader hfollower sampleConversion_correct sampleRecords_fits
  refine ⟨_, _, shares, hleader, hfollower, hshares, hrun.trans ?_⟩
  have hread : ∀ ptr : Nat, ptr = 0 ∨ ptr = 80 →
      sampleMemory.read ⟨ptr, 16⟩ = List.replicate 16 7 := by
    intro ptr hptr
    cases hptr with
    | inl h | inr h =>
        subst h
        decide
  refine congrArg (fun tags => Except.ok (some tags)) (List.map_congr_left ?_)
  intro r hr
  have hmem := hr
  simp only [sampleRecords, List.mem_cons, List.not_mem_nil, or_false] at hr
  obtain rfl | rfl := hr
  · rw [hj0 _ hmem _ (sampleRecord_sharesJ0 (.inl rfl) _), hread 0 (.inl rfl)]
  · rw [hj0 _ hmem _ (sampleRecord_sharesJ0 (.inr rfl) _), hread 80 (.inr rfl)]

/-- A record of one block more than GHASH has shares for. -/
def oversizedRecord : TagRecord :=
  { sampleRecord 0 (List.replicate 16416 0) with aad := [] }

theorem tagShare_oversized {F : Type} [CommRing F] {B : BlockField F} (shares : List F)
    (j0 : Block) :
    tagShare ⟨MpcGhash.compute B ⟨.ready shares⟩⟩ j0 oversizedRecord.aad
      oversizedRecord.ciphertext = .error (.err (.tag (.ghash (.inputLength 1027 16416)))) := by
  have hblocks : divCeil (buildGhashData oversizedRecord.aad oversizedRecord.ciphertext).length 16 =
      1027 := by
    rw [← MpcGhash.length_blocksOf, blocksOf_buildGhashData, ghashBlocks, List.length_append,
      List.length_append, MpcGhash.length_blocksOf, MpcGhash.length_blocksOf, oversizedRecord,
      sampleRecord, List.length_replicate]
    rfl
  simp only [tagShare, MpcGhash.compute, hblocks]
  rfl

theorem computeTags_run_oversized {F : Type} [CommRing F] {B : BlockField F} (shares : List F)
    (role : Role) (mem : Memory) (peer : List TagShare) :
    (computeTags [oversizedRecord] role ⟨MpcGhash.compute B ⟨.ready shares⟩⟩).run mem peer =
      .error (.err (.tag (.ghash (.inputLength 1027 16416)))) := by
  have hshares := computeTags_tagShares [oversizedRecord] role
    ⟨MpcGhash.compute B ⟨.ready shares⟩⟩ mem
  rw [List.mapM_cons, tagShare_oversized] at hshares
  simp only [ComputeTags.run, hshares]
  rfl

/-- Honest parties get no tag for a record which is too long: GHASH refuses it. -/
theorem computeTags_oversized :
    ∃ leaderGhash followerGhash,
      MpcGhash.prepare gf2_128 (sampleConversion .leader) (sampleKey .leader).toList =
        .ok leaderGhash ∧
      MpcGhash.prepare gf2_128 (sampleConversion .follower) (sampleKey .follower).toList =
        .ok followerGhash ∧
      (computeTags [oversizedRecord] .follower followerGhash).run (fun _ => 0) [] =
        .error (.err (.tag (.ghash (.inputLength 1027 16416)))) ∧
      ∀ shares, (computeTags [oversizedRecord] .leader leaderGhash).run (fun _ => 0) shares =
        .error (.err (.tag (.ghash (.inputLength 1027 16416)))) := by
  obtain ⟨_, xs, -, -, hleader⟩ :=
    MpcGhash.prepare_ok gf2_128 (sampleKey .leader) sampleConversion_correct.leader_length
  obtain ⟨_, ys, -, -, hfollower⟩ :=
    MpcGhash.prepare_ok gf2_128 (sampleKey .follower) sampleConversion_correct.follower_length
  exact ⟨_, _, hleader, hfollower, computeTags_run_oversized ys .follower _ _,
    fun _ => computeTags_run_oversized xs .leader _ _⟩

end TagRecord

end Tlsn.MpcTls
