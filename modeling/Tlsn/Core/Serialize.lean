import Tlsn.Core.EncodingProof
import Tlsn.Library.Codec

/-!
Canonical serialization and domain separation. The serializer writes the fields of
a structure one after the other, a length in front of a sequence, and the number
of a variant. It is unwrapped, so that a value it refuses aborts. The hash from
which domain separators are taken is a parameter, given by the name of a type.
-/

namespace Tlsn.Core

/-! ## Lengths -/

theorem uleb128_go_unique {fuel n m : Nat} {s t : List UInt8} (hn : n < 128 ^ fuel)
    (hm : m < 128 ^ fuel) (h : uleb128.go fuel n ++ s = uleb128.go fuel m ++ t) :
    n = m ∧ s = t := by
  induction fuel generalizing n m with
  | zero =>
      simp only [Nat.pow_zero, Nat.lt_one_iff] at hn hm
      subst hn hm
      exact ⟨rfl, h⟩
  | succ fuel ih =>
      rw [Nat.pow_succ] at hn hm
      -- the high bit of a byte tells whether another one follows
      have hhead : ∀ a b : Nat, UInt8.ofNat a = UInt8.ofNat b → a % 256 = b % 256 := by
        intro a b hab
        simpa only [UInt8.toNat_ofNat'] using congrArg UInt8.toNat hab
      simp only [uleb128.go] at h
      split at h
      · split at h
        · obtain ⟨hbyte, hs⟩ := List.cons.inj h
          have := hhead _ _ hbyte
          exact ⟨by omega, hs⟩
        · have := hhead _ _ (List.cons.inj h).1
          omega
      · split at h
        · have := hhead _ _ (List.cons.inj h).1
          omega
        · obtain ⟨hbyte, hrest⟩ := List.cons.inj h
          have hlow := hhead _ _ hbyte
          obtain ⟨hdiv, hs⟩ := ih (by omega) (by omega) hrest
          exact ⟨by omega, hs⟩

/-- The length of a sequence the serializer accepts. -/
def lengthCodec : Codec Nat where
  encode n := if n ≤ maxSequenceLength then some (uleb128 n) else none
  unique ha hb heq := by
    obtain ⟨hn, ⟨⟩⟩ := Option.ite_none_right_eq_some.mp ha
    obtain ⟨hm, ⟨⟩⟩ := Option.ite_none_right_eq_some.mp hb
    have hmax : maxSequenceLength < 128 ^ 5 := by decide
    exact uleb128_go_unique (Nat.lt_of_le_of_lt hn hmax) (Nat.lt_of_le_of_lt hm hmax) heq

class CanonicalSerialize (α : Type) where
  codec : Codec α

def serialize {ε α : Type} [CanonicalSerialize α] (data : α) : Except (Fault ε) (List UInt8) :=
  match CanonicalSerialize.codec.encode data with
  | some bytes => .ok bytes
  | none => .error .panic

theorem serialize_ok_iff {ε α : Type} [CanonicalSerialize α] {data : α} {bytes : List UInt8} :
    (serialize data : Except (Fault ε) _) = .ok bytes ↔
      CanonicalSerialize.codec.encode data = some bytes := by
  unfold serialize
  cases CanonicalSerialize.codec.encode data <;> simp

instance : CanonicalSerialize UInt8 := ⟨.byte⟩

instance : CanonicalSerialize UInt32 :=
  ⟨.via UInt32.toNat (fun _ _ => UInt32.toNat_inj.mp) (.word 4)⟩

instance : CanonicalSerialize UInt64 :=
  ⟨.via UInt64.toNat (fun _ _ => UInt64.toNat_inj.mp) (.word 8)⟩

instance (n : Nat) : CanonicalSerialize (Vector UInt8 n) := ⟨.fixed n⟩

instance : CanonicalSerialize (List UInt8) := ⟨.bytes lengthCodec⟩

instance {α β : Type} [CanonicalSerialize α] [CanonicalSerialize β] : CanonicalSerialize (α × β) :=
  ⟨.pair CanonicalSerialize.codec CanonicalSerialize.codec⟩

open CanonicalSerialize (codec)

/-- A byte sequence is written as the content of a leaf is. -/
theorem encode_bytes (data : List UInt8) : codec.encode data = serializeBytes data := by
  simp only [codec, Codec.bytes, lengthCodec, serializeBytes]
  split
  · rfl
  · rfl

/-! ## The types which are attested to -/

instance : CanonicalSerialize HashAlgId :=
  ⟨.via HashAlgId.id (fun a b h => by cases a; cases b; exact congrArg _ h) codec⟩

instance : CanonicalSerialize Hash :=
  ⟨.via Hash.bytes (fun a b h => by cases a; cases b; cases h; rfl) codec⟩

instance : CanonicalSerialize TypedHash :=
  ⟨.via (fun h => (h.alg, h.value)) (fun a b h => by cases a; cases b; cases h; rfl) codec⟩

instance : CanonicalSerialize TranscriptLength :=
  ⟨.via (fun l => (l.sent, l.received)) (fun a b h => by cases a; cases b; cases h; rfl) codec⟩

instance : CanonicalSerialize EncoderSecret :=
  ⟨.via (fun s => (s.seed, s.delta)) (fun a b h => by cases a; cases b; cases h; rfl) codec⟩

instance : CanonicalSerialize EncodingCommitment :=
  ⟨.via (fun c => (c.root, c.secret)) (fun a b h => by cases a; cases b; cases h; rfl) codec⟩

def Direction.variant : Direction → UInt8
  | .sent => 0
  | .received => 1

instance : CanonicalSerialize Direction :=
  ⟨.via Direction.variant (fun a b h => by cases a <;> cases b <;> first | rfl | cases h) codec⟩

def PosRange.codec : Codec PosRange :=
  .via (fun r => (r.start, r.stop)) (fun a b h => by cases a; cases b; cases h; rfl)
    (.pair (.word 8) (.word 8))

theorem iterRanges_injective : Function.Injective RangeSet.iterRanges := by
  intro s t h
  have hvals : s.vals = t.vals := by
    rw [← RangeSet.flatMap_iterRanges s, ← RangeSet.flatMap_iterRanges t, h]
  apply RangeSet.ext
  intro n
  rw [RangeSet.mem_def, RangeSet.mem_def, hvals]

/-- A set of positions is written as the list of its ranges, each bound a machine word. -/
instance : CanonicalSerialize Idx :=
  ⟨.via RangeSet.iterRanges iterRanges_injective (.list lengthCodec PosRange.codec)⟩

/-! ## Domain separation -/

/-- The hash of a type's name. -/
abbrev Blake3 := String → Vector UInt8 32

class DomainSeparator (α : Type) where
  name : String

/-- The first 16 bytes of the hash of a type's name. -/
def domainOf (blake3 : Blake3) (name : String) : List UInt8 := (blake3 name).toList.take 16

@[simp] theorem length_domainOf (blake3 : Blake3) (name : String) :
    (domainOf blake3 name).length = 16 := by
  simp [domainOf]

/-- The hash of the data with its type's separator in front. -/
def HashAlgorithm.hashSeparated {ε α : Type} [DomainSeparator α] [CanonicalSerialize α]
    (alg : HashAlgorithm) (blake3 : Blake3) (data : α) : Except (Fault ε) Hash :=
  (fun bytes => alg.hash (domainOf blake3 (DomainSeparator.name α) ++ bytes)) <$> serialize data

end Tlsn.Core
