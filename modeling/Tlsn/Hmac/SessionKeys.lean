import Tlsn.Hmac.Prf
import Tlsn.Tls.Prf

/-!
The session keys, derived from the pre-master secret by the pseudorandom function, and
the agreement of the three ways in which that function is written.
-/

namespace Tlsn.Hmac

open CircuitBuilder

/-- `l[start..start + n].try_into().unwrap()`. -/
def arrayAt {σ α : Type} (n start : Nat) (l : List α) : EStateM (Fault Empty) σ (Vector α n) :=
  if h : ((l.drop start).take n).length = n then
    pure ⟨((l.drop start).take n).toArray, h⟩
  else throw .panic

/-- The four keys, and the states after the master secret. -/
abbrev SessionKeys (node : Type → Type) : Type :=
  Vector (node UInt8) 16 × Vector (node UInt8) 16 × Vector (node UInt8) 4 ×
    Vector (node UInt8) 4 × Vector (node UInt32) 8 × Vector (node UInt32) 8

def sessionKeysWith (t : Tracing) (pms clientRandom serverRandom : Vector (t.Node UInt8) 32) :
    EStateM (Fault Empty) t.State (SessionKeys t.Node) := do
  let pmsStates ← partialWith t pms.toList
  let label ← (Prf.ascii "master secret").mapM t.constantU8
  let masterSecret ←
    prfWith t pmsStates.1 pmsStates.2 (clientRandom.toList ++ serverRandom.toList) label 48
  let states ← partialWith t masterSecret
  let label ← (Prf.ascii "key expansion").mapM t.constantU8
  let keyMaterial ←
    prfWith t states.1 states.2 (serverRandom.toList ++ clientRandom.toList) label 40
  let cwk ← arrayAt 16 0 keyMaterial
  let swk ← arrayAt 16 16 keyMaterial
  let civ ← arrayAt 4 32 keyMaterial
  let siv ← arrayAt 4 36 keyMaterial
  return (cwk, swk, civ, siv, states.1, states.2)

def sessionKeysTrace (t : Tracing) (pms clientRandom serverRandom : Vector (t.Node UInt8) 32) :
    EStateM (Fault Empty) t.State (SessionKeys t.Node) :=
  sessionKeysWith t pms clientRandom serverRandom

def sessionKeys (c : Sha256Fns) (pms clientRandom serverRandom : Vector UInt8 32) :
    Except (Fault Empty) (Vector UInt8 16 × Vector UInt8 16 × Vector UInt8 4 × Vector UInt8 4) := do
  let keys ← runPlain (sessionKeysWith (plain c) pms clientRandom serverRandom)
  return (keys.1, keys.2.1, keys.2.2.1, keys.2.2.2.1)

/-- AES-128-GCM has no key for a MAC. -/
def aes128Gcm : Prf.KeyLengths := ⟨0, 16, 4⟩

section

variable (c : Sha256Fns) (pms clientRandom serverRandom : Vector UInt8 32)

def masterSecret : List UInt8 :=
  Prf.masterSecret (Sha256.digest c.sha256Compress) pms.toList clientRandom.toList
    serverRandom.toList

def keyBlock : Prf.KeyBlock :=
  Prf.keyBlock (Sha256.digest c.sha256Compress) aes128Gcm
    (masterSecret c pms clientRandom serverRandom) clientRandom.toList serverRandom.toList

end

@[simp] theorem length_prf (hash : List UInt8 → Vector UInt8 32) (secret label seed : List UInt8)
    (n : Nat) : (Prf.prf hash secret label seed n).length = n :=
  Prf.length_pHash _ _ n

namespace Tracing.Lawful

variable {t : Tracing} {c : Sha256Fns} {s : t.State} {i : t.Inputs}

theorem arrayAt {n start : Nat} {l : List (t.Node UInt8)} {vs : List UInt8}
    (hl : t.ReadsList i s l vs) (h : start + n ≤ vs.length) :
    Traces s (Hmac.arrayAt n start l) fun a s' =>
      t.ReadsList i s' a.toList ((vs.drop start).take n) := by
  have hlen : ((l.drop start).take n).length = n := by
    rw [List.length_take, List.length_drop, hl.length_eq]
    omega
  rw [Hmac.arrayAt, dif_pos hlen]
  exact .pure (List.forall₂_take n (List.forall₂_drop start hl))

/-- From the states after a secret the traced function gives the standard one. -/
theorem prf_keyed (hc : c.Lawful) (ht : t.Lawful c) {outer inner : Vector (t.Node UInt32) 8}
    {secret : List UInt8} (hsecret : secret.length ≤ 64)
    (ho : t.ReadsVec i s outer (c.keyed 0x5c secret))
    (hi : t.ReadsVec i s inner (c.keyed 0x36 secret)) {seed label : List (t.Node UInt8)}
    {m l : List UInt8} (hm : t.ReadsList i s seed m) (hl : t.ReadsList i s label l) (n : Nat) :
    Traces s (Hmac.prfWith t outer inner seed label n) fun output s' =>
      t.ReadsList i s' output (Prf.prf (Sha256.digest c.sha256Compress) secret l m n) := by
  have hprf := ht.prfWith ho hi hm hl n
  rw [Sha256Fns.finalized_keyed hc hsecret] at hprf
  exact hprf

theorem label (ht : t.Lawful c) (i : t.Inputs) (l : List UInt8) :
    Traces s (l.mapM t.constantU8) fun nodes s' => t.ReadsList i s' nodes l := by
  have hmap := Traces.mapM (s := s) (i := i) (f := t.constantU8) (g := id) l
    fun v _ s' => ht.constantU8 s' i v
  rw [List.map_id] at hmap
  exact hmap

/-- The nodes have the values of the key block, and the states those after the master secret. -/
structure Derived (t : Tracing) (c : Sha256Fns) (i : t.Inputs) (block : Prf.KeyBlock)
    (master : List UInt8) (keys : SessionKeys t.Node) (s : t.State) : Prop where
  clientWriteKey : t.ReadsList i s keys.1.toList block.clientWriteKey
  serverWriteKey : t.ReadsList i s keys.2.1.toList block.serverWriteKey
  clientIv : t.ReadsList i s keys.2.2.1.toList block.clientWriteIv
  serverIv : t.ReadsList i s keys.2.2.2.1.toList block.serverWriteIv
  outer : t.ReadsVec i s keys.2.2.2.2.1 (c.keyed 0x5c master)
  inner : t.ReadsVec i s keys.2.2.2.2.2 (c.keyed 0x36 master)

theorem sessionKeysWith (hc : c.Lawful) (ht : t.Lawful c)
    {pms clientRandom serverRandom : Vector (t.Node UInt8) 32} {p cr sr : Vector UInt8 32}
    (hp : t.ReadsVec i s pms p) (hcr : t.ReadsVec i s clientRandom cr)
    (hsr : t.ReadsVec i s serverRandom sr) :
    Traces s (Hmac.sessionKeysWith t pms clientRandom serverRandom)
      (Derived t c i (keyBlock c p cr sr) (masterSecret c p cr sr)) := by
  refine .bind (ht.partialWith hp (by simp)) ?_
  intro pmsStates s₁ h₁ hpms
  refine .bind (ht.label i (Prf.ascii "master secret")) ?_
  intro label s₂ h₂ hlabel
  have h₁₂ := h₁.trans h₂
  have hseed := (hcr.mono h₁₂).append (hsr.mono h₁₂)
  refine .bind (prf_keyed hc ht (by simp) (hpms.1.mono h₂) (hpms.2.mono h₂) hseed hlabel 48) ?_
  intro master s₃ h₃ hmaster
  refine .bind (ht.partialWith hmaster (by simp)) ?_
  intro states s₄ h₄ hstates
  refine .bind (ht.label i (Prf.ascii "key expansion")) ?_
  intro label' s₅ h₅ hlabel'
  have h₁₅ := ((h₁₂.trans h₃).trans h₄).trans h₅
  have hseed' := (hsr.mono h₁₅).append (hcr.mono h₁₅)
  refine .bind (prf_keyed hc ht (by simp) (hstates.1.mono h₅) (hstates.2.mono h₅) hseed'
    hlabel' 40) ?_
  intro material s₆ h₆ hmaterial
  refine .bind (arrayAt hmaterial (by simp)) ?_
  intro cwk s₇ h₇ hcwk
  refine .bind (arrayAt (hmaterial.mono h₇) (by simp)) ?_
  intro swk s₈ h₈ hswk
  refine .bind (arrayAt ((hmaterial.mono h₇).mono h₈) (by simp)) ?_
  intro civ s₉ h₉ hciv
  refine .bind (arrayAt (((hmaterial.mono h₇).mono h₈).mono h₉) (by simp)) ?_
  intro siv s₁₀ h₁₀ hsiv
  have h₅₁₀ := ((((h₅.trans h₆).trans h₇).trans h₈).trans h₉).trans h₁₀
  exact .pure ⟨((hcwk.mono h₈).mono h₉).mono h₁₀, (hswk.mono h₉).mono h₁₀, hciv.mono h₁₀, hsiv,
    hstates.1.mono h₅₁₀, hstates.2.mono h₅₁₀⟩

end Tracing.Lawful

section

variable {c : Sha256Fns}

theorem hmacSha256Partial_eq (c : Sha256Fns) {key : List UInt8} (h : key.length ≤ 64) :
    hmacSha256Partial c key = .ok (c.keyed 0x5c key, c.keyed 0x36 key) := by
  obtain ⟨states, hrun, houter, hinner⟩ := runPlain_of_traces
    ((plain_lawful c).partialWith (s := ()) (i := ()) (plain_readsList.mpr rfl) h)
  exact hrun.trans (congrArg Except.ok
    (Prod.ext (plain_readsVec.mp houter) (plain_readsVec.mp hinner)))

theorem prf_eq (c : Sha256Fns) (outer inner : Sha256.State) (seed label : List UInt8) (n : Nat) :
    prf c outer inner seed label n =
      .ok (Prf.pHash (c.finalized outer inner) (label ++ seed) n) := by
  have hreads (v : Sha256.State) : (plain c).ReadsVec () () v v := plain_readsVec.mpr rfl
  have hreads' (l : List UInt8) : (plain c).ReadsList () () l l := plain_readsList.mpr rfl
  obtain ⟨output, hrun, houtput⟩ := runPlain_of_traces
    ((plain_lawful c).prfWith (hreads outer) (hreads inner) (hreads' seed) (hreads' label) n)
  exact hrun.trans (congrArg Except.ok (plain_readsList.mp houtput))

theorem sessionKeys_eq (hc : c.Lawful) (pms clientRandom serverRandom : Vector UInt8 32) :
    ∃ cwk swk civ siv,
      sessionKeys c pms clientRandom serverRandom = .ok (cwk, swk, civ, siv) ∧
        keyBlock c pms clientRandom serverRandom =
          ⟨[], [], cwk.toList, swk.toList, civ.toList, siv.toList⟩ := by
  have hreads (v : Vector UInt8 32) : (plain c).ReadsVec () () v v := plain_readsVec.mpr rfl
  obtain ⟨keys, hrun, hkeys⟩ := runPlain_of_traces
    (Tracing.Lawful.sessionKeysWith hc (plain_lawful c) (hreads pms) (hreads clientRandom)
      (hreads serverRandom))
  refine ⟨keys.1, keys.2.1, keys.2.2.1, keys.2.2.2.1, ?_, ?_⟩
  · exact Fault.bind_ok_iff.mpr ⟨keys, hrun, rfl⟩
  · have hcwk := plain_readsList.mp hkeys.clientWriteKey
    have hswk := plain_readsList.mp hkeys.serverWriteKey
    have hciv := plain_readsList.mp hkeys.clientIv
    have hsiv := plain_readsList.mp hkeys.serverIv
    exact Prf.KeyBlock.ext rfl rfl hcwk.symm hswk.symm hciv.symm hsiv.symm

end

/-- The function over the states after a key, the one of the plain client and the
standard one agree; a traced circuit computes what the function on values computes;
and the session keys are the parts of the key block. -/
theorem prf_agrees {c : Sha256Fns} (hc : c.Lawful) {t : Tracing} (ht : t.Lawful c)
    {h : Tls.HmacSha256} (hh : h.Lawful (Sha256.digest c.sha256Compress)) (key : List UInt8)
    (hkey : key.length ≤ 64) (label seed : List UInt8) (n : Nat)
    (pms clientRandom serverRandom : Vector UInt8 32) :
    (∃ outer inner, hmacSha256Partial c key = .ok (outer, inner) ∧
      prf c outer inner seed label n =
        .ok (Prf.prf (Sha256.digest c.sha256Compress) key label seed n) ∧
      ∀ out : List UInt8, out.length = n → Tls.prf h out key label seed =
        .ok (Prf.prf (Sha256.digest c.sha256Compress) key label seed n)) ∧
    (∀ (s : t.State) (i : t.Inputs) (nodes : List (t.Node UInt8)), t.ReadsList i s nodes key →
      Traces s (hmacSha256PartialTrace t nodes) fun states s' =>
        ∃ outer inner, hmacSha256Partial c key = .ok (outer, inner) ∧
          t.ReadsVec i s' states.1 outer ∧ t.ReadsVec i s' states.2 inner) ∧
    (∀ (s : t.State) (i : t.Inputs) (outer inner : Vector (t.Node UInt32) 8)
      (seedNodes labelNodes : List (t.Node UInt8)) (v w : Sha256.State),
      t.ReadsVec i s outer v → t.ReadsVec i s inner w → t.ReadsList i s seedNodes seed →
      t.ReadsList i s labelNodes label →
      Traces s (prfTrace t outer inner seedNodes labelNodes n) fun output s' =>
        ∃ bytes, prf c v w seed label n = .ok bytes ∧ t.ReadsList i s' output bytes) ∧
    (∃ cwk swk civ siv,
      sessionKeys c pms clientRandom serverRandom = .ok (cwk, swk, civ, siv) ∧
        keyBlock c pms clientRandom serverRandom =
          ⟨[], [], cwk.toList, swk.toList, civ.toList, siv.toList⟩ ∧
        ∀ (s : t.State) (i : t.Inputs) (p cr sr : Vector (t.Node UInt8) 32),
          t.ReadsVec i s p pms → t.ReadsVec i s cr clientRandom → t.ReadsVec i s sr serverRandom →
          Traces s (sessionKeysTrace t p cr sr) fun keys s' =>
            t.ReadsVec i s' keys.1 cwk ∧ t.ReadsVec i s' keys.2.1 swk ∧
              t.ReadsVec i s' keys.2.2.1 civ ∧ t.ReadsVec i s' keys.2.2.2.1 siv) := by
  refine ⟨?_, ?_, ?_, ?_⟩
  · refine ⟨_, _, hmacSha256Partial_eq c hkey, ?_, ?_⟩
    · rw [prf_eq, Sha256Fns.finalized_keyed hc hkey]
      rfl
    · intro out hout
      rw [hh.prf, hout]
  · intro s i nodes hnodes
    refine (ht.partialWith hnodes hkey).mono ?_
    intro states s' _ hstates
    exact ⟨_, _, hmacSha256Partial_eq c hkey, hstates⟩
  · intro s i outer inner seedNodes labelNodes v w ho hi hseed hlabel
    refine (ht.prfWith ho hi hseed hlabel n).mono ?_
    intro output s' _ houtput
    exact ⟨_, prf_eq c v w seed label n, houtput⟩
  · obtain ⟨cwk, swk, civ, siv, hkeys, hblock⟩ := sessionKeys_eq hc pms clientRandom serverRandom
    refine ⟨cwk, swk, civ, siv, hkeys, hblock, ?_⟩
    intro s i p cr sr hp hcr hsr
    refine (Tracing.Lawful.sessionKeysWith hc ht hp hcr hsr).mono ?_
    intro keys s' _ hderived
    rw [hblock] at hderived
    exact ⟨hderived.clientWriteKey, hderived.serverWriteKey, hderived.clientIv, hderived.serverIv⟩

/-! ## The functions of the standard -/

def standard : Sha256Fns := ⟨Sha256.compress, Sha256.digestFrom Sha256.compress⟩

theorem standard_lawful : standard.Lawful := ⟨fun _ _ _ _ => rfl⟩

/-- A node is the value as a function of the inputs of the circuit. -/
def denoted (c : Sha256Fns) : Tracing where
  State := Unit
  Inputs := List UInt8
  Node := fun α => List UInt8 → α
  eval inputs _ node := some (node inputs)
  constantU8 v := pure fun _ => v
  constantU32 v := pure fun _ => v
  xor x y := pure fun inputs => x inputs ^^^ y inputs
  sha256Compress state block := pure (Vector.ofFn fun k => fun inputs =>
    (c.sha256Compress (state.map (· inputs)) (block.map (· inputs)))[k])
  sha256 state pos msg := pure (Vector.ofFn fun k => fun inputs =>
    (c.sha256 (state.map (· inputs)) pos (msg.map (· inputs)))[k])

theorem denoted_readsList {c : Sha256Fns} {α : Type} {inputs : List UInt8} {s : Unit}
    {nodes : List (List UInt8 → α)} {vs : List α} :
    (denoted c).ReadsList inputs s nodes vs ↔ nodes.map (· inputs) = vs := by
  rw [← List.forall₂_eq_eq_eq, List.forall₂_map_left_iff]
  constructor
  · intro h
    exact h.imp fun _ _ => Option.some_inj.mp
  · intro h
    exact h.imp fun _ _ => Option.some_inj.mpr

theorem denoted_readsVec {c : Sha256Fns} {α : Type} {n : Nat} {inputs : List UInt8} {s : Unit}
    {nodes : Vector (List UInt8 → α) n} {vs : Vector α n} :
    (denoted c).ReadsVec inputs s nodes vs ↔ nodes.map (· inputs) = vs := by
  have hmap : nodes.toList.map (· inputs) = vs.toList ↔ nodes.map (· inputs) = vs := by
    rw [← Vector.toList_map, Vector.toList_inj]
  exact denoted_readsList.trans hmap

theorem denoted_lawful (c : Sha256Fns) : (denoted c).Lawful c where
  constantU8 _ _ _ := .pure rfl
  constantU32 _ _ _ := .pure rfl
  xor s i x y v w hx hy := by
    refine .pure (Option.some_inj.mpr ?_)
    rw [← Option.some_inj.mp hx, ← Option.some_inj.mp hy]
  sha256Compress s i state block v w hs hb := by
    cases denoted_readsVec.mp hs
    cases denoted_readsVec.mp hb
    refine .pure (denoted_readsVec.mpr (Vector.ext ?_))
    intro k hk
    simp
  sha256 s i state pos msg v w hs hm := by
    cases denoted_readsVec.mp hs
    cases denoted_readsList.mp hm
    refine .pure (denoted_readsVec.mpr (Vector.ext ?_))
    intro k hk
    simp

/-- The object keeps its key and what it was fed. -/
def buffered (hash : List UInt8 → Vector UInt8 32) : Tls.HmacSha256 where
  Mac := List UInt8 × List UInt8
  newFromSlice key := some (key, [])
  update mac piece := (mac.1, mac.2 ++ piece)
  finalize mac := Prf.hmac hash mac.1 mac.2

theorem buffered_lawful (hash : List UInt8 → Vector UInt8 32) : (buffered hash).Lawful hash := by
  constructor
  intro key
  refine ⟨(key, []), rfl, ?_⟩
  intro pieces
  have hfold (done : List UInt8) :
      pieces.foldl (fun (mac : List UInt8 × List UInt8) piece => (mac.1, mac.2 ++ piece))
        (key, done) =
      (key, done ++ pieces.flatten) := by
    induction pieces generalizing done with
    | nil => simp
    | cons piece pieces ih =>
        rw [List.foldl_cons, List.flatten_cons, ← List.append_assoc]
        exact ih (done ++ piece)
  exact congrArg (fun mac => Prf.hmac hash mac.1 mac.2) (hfold [])

/-- A master secret from the random values, and 48 bytes of it. -/
theorem prf_agrees_master_secret :
    ∃ outer inner,
      hmacSha256Partial standard (List.replicate 48 0) = .ok (outer, inner) ∧
        prf standard outer inner (List.replicate 64 43) (Prf.ascii "master secret") 48 =
          .ok (Prf.prf (Sha256.digest Sha256.compress) (List.replicate 48 0)
            (Prf.ascii "master secret") (List.replicate 64 43) 48) := by
  obtain ⟨⟨outer, inner, hpartial, hprf, _⟩, _⟩ := prf_agrees standard_lawful
    (denoted_lawful standard) (buffered_lawful _) (List.replicate 48 0)
    (by rw [List.length_replicate]; decide) (Prf.ascii "master secret") (List.replicate 64 43) 48
    (Vector.replicate 32 0) (Vector.replicate 32 42) (Vector.replicate 32 69)
  exact ⟨outer, inner, hpartial, hprf⟩

end Tlsn.Hmac
