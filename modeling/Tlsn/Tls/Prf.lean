import Tlsn.Library.Fault
import Tlsn.Library.Prf

/-!
The pseudorandom function of the plain client. It fills a buffer chunk by chunk and
moves along the chain `A(i)` as it goes.
-/

namespace Tlsn.Tls

/-- HMAC with SHA-256 as an object which is fed the message piece by piece. -/
structure HmacSha256 where
  Mac : Type
  newFromSlice : List UInt8 → Option Mac
  update : Mac → List UInt8 → Mac
  finalize : Mac → Vector UInt8 32

namespace HmacSha256

/-- Keys of any length are accepted, and the code is that of the pieces put together. -/
structure Lawful (h : HmacSha256) (hash : List UInt8 → Vector UInt8 32) : Prop where
  keyed : ∀ key : List UInt8, ∃ mac, h.newFromSlice key = some mac ∧
    ∀ pieces : List (List UInt8),
      h.finalize (pieces.foldl h.update mac) = Prf.hmac hash key pieces.flatten

end HmacSha256

inductive InvalidKeyLength where
  | invalidKeyLength
deriving DecidableEq

/-- One chunk of the output, and the next member of the chain. -/
def prfChunk (h : HmacSha256) (keyedHmac : h.Mac) (label seed : List UInt8)
    (acc : h.Mac × List UInt8) (chunk : List UInt8) : h.Mac × List UInt8 :=
  let a := (h.finalize acc.1).toList
  let pTerm := h.update (h.update (h.update keyedHmac a) label) seed
  (h.update keyedHmac a, acc.2 ++ (h.finalize pTerm).toList.take chunk.length)

def prf (h : HmacSha256) (out secret label seed : List UInt8) :
    Except InvalidKeyLength (List UInt8) :=
  match h.newFromSlice secret with
  | none => .error .invalidKeyLength
  | some keyedHmac =>
      let currentA := h.update (h.update keyedHmac label) seed
      .ok ((chunks 32 out).foldl (prfChunk h keyedHmac label seed) (currentA, [])).2

namespace HmacSha256.Lawful

variable {h : HmacSha256} {hash : List UInt8 → Vector UInt8 32}

/-- After `k` chunks the object is about to give `A(k + 1)`, and the output so far is
the beginning of the expansion. -/
structure Filled (h : HmacSha256) (keyedHmac : h.Mac) (mac : List UInt8 → Vector UInt8 32)
    (seed : List UInt8) (n k : Nat) (acc : h.Mac × List UInt8) : Prop where
  fed : ∃ pieces : List (List UInt8), acc.1 = pieces.foldl h.update keyedHmac ∧
    pieces.flatten = Prf.chain mac seed k
  output : acc.2 = Prf.pHash mac seed (min (k * 32) n)

theorem prfChunk {keyedHmac : h.Mac} {mac : List UInt8 → Vector UInt8 32} {label seed : List UInt8}
    (hmac : ∀ pieces : List (List UInt8),
      h.finalize (pieces.foldl h.update keyedHmac) = mac pieces.flatten)
    {n k : Nat} {acc : h.Mac × List UInt8} (hk : k * 32 < n)
    (hacc : Filled h keyedHmac mac (label ++ seed) n k acc) {chunk : List UInt8}
    (hchunk : chunk.length = min 32 (n - k * 32)) :
    Filled h keyedHmac mac (label ++ seed) n (k + 1)
      (Tls.prfChunk h keyedHmac label seed acc chunk) := by
  obtain ⟨⟨pieces, hfed, hpieces⟩, houtput⟩ := hacc
  have ha : (h.finalize acc.1).toList = Prf.chain mac (label ++ seed) (k + 1) := by
    rw [hfed, hmac, hpieces]
    rfl
  have hterm := hmac [Prf.chain mac (label ++ seed) (k + 1), label, seed]
  simp only [List.foldl_cons, List.foldl_nil, List.flatten_cons, List.flatten_nil,
    List.append_nil] at hterm
  constructor
  · refine ⟨[Prf.chain mac (label ++ seed) (k + 1)], ?_, by simp⟩
    simp only [Tls.prfChunk, ha]
    rfl
  · simp only [Tls.prfChunk, ha]
    rw [hterm, houtput, hchunk, Nat.min_eq_left (Nat.le_of_lt hk),
      ← Prf.pHash_block mac (label ++ seed) k (Nat.min_le_left _ _)]
    congr 1
    omega

/-- The plain client fills a buffer with the beginning of the expansion. -/
theorem prf (hh : h.Lawful hash) (out secret label seed : List UInt8) :
    Tls.prf h out secret label seed = .ok (Prf.prf hash secret label seed out.length) := by
  obtain ⟨keyedHmac, hnew, hmac⟩ := hh.keyed secret
  have hrounds (k : Nat) (hk : k ≤ divCeil out.length 32) :
      Filled h keyedHmac (Prf.hmac hash secret) (label ++ seed) out.length k
        (((List.range k).map fun i => (out.drop (i * 32)).take 32).foldl
          (Tls.prfChunk h keyedHmac label seed)
          (h.update (h.update keyedHmac label) seed, [])) := by
    induction k with
    | zero =>
        refine ⟨⟨[label, seed], rfl, ?_⟩, ?_⟩
        · simp [Prf.chain]
        · simp [Prf.pHash]
    | succ k ih =>
        have hlt : k * 32 < out.length := by
          have := divCeil_mul out.length 32 (by decide)
          omega
        rw [List.range_succ, List.map_append, List.foldl_append]
        exact prfChunk hmac hlt (ih (by omega)) (length_chunk 32 out k)
  have hall := (hrounds _ (Nat.le_refl _)).output
  rw [Nat.min_eq_right (divCeil_mul out.length 32 (by decide)).1] at hall
  rw [Tls.prf, hnew]
  simp only [chunks]
  rw [hall]
  rfl

end HmacSha256.Lawful

end Tlsn.Tls
