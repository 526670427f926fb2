import Mathlib.Data.List.Induction
import Tlsn.Tls.Record

/-!
Fragments of messages and how handshake messages are joined from them. The joiner keeps
what has arrived in a buffer, and takes complete messages off its front.
-/

namespace Tlsn.Tls

def HandshakeType.getU8 : HandshakeType → UInt8
  | .helloRequest => 0x00
  | .clientHello => 0x01
  | .serverHello => 0x02
  | .helloVerifyRequest => 0x03
  | .newSessionTicket => 0x04
  | .endOfEarlyData => 0x05
  | .helloRetryRequest => 0x06
  | .encryptedExtensions => 0x08
  | .certificate => 0x0b
  | .serverKeyExchange => 0x0c
  | .certificateRequest => 0x0d
  | .serverHelloDone => 0x0e
  | .certificateVerify => 0x0f
  | .clientKeyExchange => 0x10
  | .finished => 0x14
  | .certificateURL => 0x15
  | .certificateStatus => 0x16
  | .keyUpdate => 0x18
  | .messageHash => 0xfe
  | .unknown x => x

/-! ## Fragments -/

def maxFragmentLen : Nat := 16384
def packetOverhead : Nat := 1 + 2 + 2
def maxFragmentSize : Nat := maxFragmentLen + packetOverhead

structure MessageFragmenter where
  maxFrag : Nat
deriving DecidableEq

namespace MessageFragmenter

inductive Error where
  | badMaxFragmentSize
deriving DecidableEq

def setMaxFragmentSize (new : Option Nat) (f : MessageFragmenter) :
    Except Error MessageFragmenter :=
  match new with
  | some sz =>
      if 32 ≤ sz ∧ sz ≤ maxFragmentSize then .ok { f with maxFrag := sz - packetOverhead }
      else .error .badMaxFragmentSize
  | none => .ok { f with maxFrag := maxFragmentLen }

def new (maxFragmentSize : Option Nat) : Except Error MessageFragmenter :=
  setMaxFragmentSize maxFragmentSize ⟨0⟩

def fragment (f : MessageFragmenter) (msg : PlainMessage) (out : List PlainMessage) :
    List PlainMessage :=
  if msg.payload.length ≤ f.maxFrag then out ++ [msg]
  else out ++ (chunks f.maxFrag msg.payload).map fun chunk => ⟨msg.typ, msg.version, chunk⟩

def fragmentBorrow (f : MessageFragmenter) (typ : ContentType) (version : ProtocolVersion)
    (payload : List UInt8) (out : List PlainMessage) : List PlainMessage :=
  out ++ (chunks f.maxFrag payload).map fun chunk => ⟨typ, version, chunk⟩

/-- The sizes which are accepted, and what they leave for a payload. -/
theorem new_ok {size : Option Nat} {f : MessageFragmenter} (h : new size = .ok f) :
    27 ≤ f.maxFrag ∧ f.maxFrag ≤ maxFragmentLen ∧
      ∀ sz, size = some sz → f.maxFrag + packetOverhead = sz := by
  cases size with
  | none =>
      cases h
      exact ⟨by decide, Nat.le_refl _, nofun⟩
  | some sz =>
      unfold new setMaxFragmentSize at h
      simp only at h
      by_cases hsz : 32 ≤ sz ∧ sz ≤ maxFragmentSize
      · rw [if_pos hsz] at h
        cases h
        simp only [maxFragmentSize, maxFragmentLen, packetOverhead, Option.some.injEq] at hsz ⊢
        refine ⟨by omega, by omega, ?_⟩
        rintro _ rfl
        omega
      · rw [if_neg hsz] at h
        cases h

/-- The fragments put together are the payload, and none is too large. -/
theorem fragment_eq {f : MessageFragmenter} (hpos : 0 < f.maxFrag) (msg : PlainMessage)
    (out : List PlainMessage) :
    ∃ pieces, f.fragment msg out = out ++ pieces ∧
      (pieces.map PlainMessage.payload).flatten = msg.payload ∧
      ∀ piece ∈ pieces, piece.typ = msg.typ ∧ piece.version = msg.version ∧
        piece.payload.length ≤ f.maxFrag := by
  unfold fragment
  split
  · rename_i hle
    refine ⟨[msg], rfl, by simp, ?_⟩
    intro piece hpiece
    rw [List.mem_singleton.mp hpiece]
    exact ⟨rfl, rfl, hle⟩
  · refine ⟨_, rfl, ?_, ?_⟩
    · rw [List.map_map]
      have hid :
          PlainMessage.payload ∘ (fun chunk => PlainMessage.mk msg.typ msg.version chunk) = id :=
        rfl
      rw [hid, List.map_id, flatten_chunks hpos]
    · intro piece hpiece
      obtain ⟨chunk, hchunk, rfl⟩ := List.mem_map.mp hpiece
      exact ⟨rfl, rfl, length_le_of_mem_chunks hchunk⟩

end MessageFragmenter

/-! ## Handshake messages -/

structure HandshakeMessagePayload (P : Type) where
  typ : HandshakeType
  payload : P
deriving DecidableEq

/-- The formats of the payloads. A payload is read from a whole body; what is read tells
a ServerHello from a HelloRetryRequest. -/
structure HandshakePayloads (P : Type) where
  read : ProtocolVersion → HandshakeType → List UInt8 → Option (HandshakeType × P)
  encode : P → List UInt8

namespace HandshakeMessagePayload

variable {P : Type} (payloads : HandshakePayloads P)

def encode (m : HandshakeMessagePayload P) : List UInt8 :=
  let sub := payloads.encode m.payload
  let typ := if m.typ = .helloRetryRequest then HandshakeType.serverHello else m.typ
  typ.getU8 :: (beBytes 3 sub.length ++ sub)

def readVersion (vers : ProtocolVersion) (r : Reader) :
    Option (HandshakeMessagePayload P × Reader) := do
  let (typ, r) ← r.readU8
  let (len, r) ← r.readU24
  let (sub, r) ← r.take len
  let (typ, payload) ← payloads.read vers (.ofU8 typ) sub
  return (⟨typ, payload⟩, r)

end HandshakeMessagePayload

structure HandshakeMessage (P : Type) where
  version : ProtocolVersion
  payload : HandshakeMessagePayload P
deriving DecidableEq

structure HandshakeJoiner (P : Type) where
  frames : List (HandshakeMessage P)
  buf : List UInt8
deriving DecidableEq

inductive BufferState where
  | messageTooLarge
  | oneMessage
  | needsMoreData
deriving DecidableEq

namespace HandshakeJoiner

def headerSize : Nat := 1 + 3

def maxHandshakeSize : Nat := 0xffff

variable {P : Type}

def new : HandshakeJoiner P := ⟨[], []⟩

def bufContainsMessage (buf : List UInt8) : BufferState :=
  match buf with
  | _ :: a :: b :: c :: rest =>
      let len := (a.toNat * 256 + b.toNat) * 256 + c.toNat
      if maxHandshakeSize < len then .messageTooLarge
      else if len ≤ rest.length then .oneMessage
      else .needsMoreData
  | _ => .needsMoreData

variable (payloads : HandshakePayloads P)

/-- Take a message off the front of the buffer, if it can be read. -/
def deframeOne (version : ProtocolVersion) (j : HandshakeJoiner P) : Option (HandshakeJoiner P) :=
  match HandshakeMessagePayload.readVersion payloads version j.buf with
  | none => none
  | some (payload, rest) =>
      some ⟨j.frames ++ [⟨version, payload⟩], j.buf.drop (j.buf.length - rest.length)⟩

theorem readVersion_eq_some {vers : ProtocolVersion} {s rest : List UInt8}
    {m : HandshakeMessagePayload P} :
    HandshakeMessagePayload.readVersion payloads vers s = some (m, rest) ↔
      ∃ typ a b c body, s = typ :: a :: b :: c :: body ∧
        (a.toNat * 256 + b.toNat) * 256 + c.toNat ≤ body.length ∧
        payloads.read vers (.ofU8 typ)
          (body.take ((a.toNat * 256 + b.toNat) * 256 + c.toNat)) = some (m.typ, m.payload) ∧
        rest = body.drop ((a.toNat * 256 + b.toNat) * 256 + c.toNat) := by
  match s with
  | [] | [_] | [_, _] | [_, _, _] =>
      refine iff_of_false nofun ?_
      rintro ⟨_, _, _, _, _, h, _⟩
      simp at h
  | typ :: a :: b :: c :: body =>
      simp only [HandshakeMessagePayload.readVersion, Reader.readU8, Reader.readU24,
        Option.bind_eq_bind, Option.bind_some, Reader.take]
      by_cases hlen : body.length < (a.toNat * 256 + b.toNat) * 256 + c.toNat
      · rw [if_pos hlen]
        refine iff_of_false (fun h => by cases h) ?_
        rintro ⟨_, _, _, _, _, h, hle, _⟩
        cases h
        omega
      · rw [if_neg hlen]
        simp only [Option.bind_some, Option.bind_eq_some_iff, Option.pure_def, Option.some.injEq,
          Prod.mk.injEq]
        constructor
        · rintro ⟨⟨typ', payload⟩, hread, rfl, rfl⟩
          exact ⟨typ, a, b, c, body, rfl, by omega, hread, rfl⟩
        · rintro ⟨_, _, _, _, _, h, _, hread, rfl⟩
          cases h
          exact ⟨(m.typ, m.payload), hread, rfl, rfl⟩

/-- The message at the front of a buffer. -/
def parse (vers : ProtocolVersion) (s : List UInt8) : Parsed UInt8 (HandshakeMessagePayload P) :=
  match bufContainsMessage s with
  | .messageTooLarge => .bad
  | .needsMoreData => .more
  | .oneMessage =>
      match HandshakeMessagePayload.readVersion payloads vers s with
      | none => .bad
      | some (m, rest) => .item m rest

theorem bufContainsMessage_append {s : List UInt8} (h : bufContainsMessage s ≠ .needsMoreData)
    (t : List UInt8) : bufContainsMessage (s ++ t) = bufContainsMessage s := by
  match s with
  | [] | [_] | [_, _] | [_, _, _] => exact absurd rfl h
  | typ :: a :: b :: c :: body =>
      simp only [bufContainsMessage, List.cons_append] at h ⊢
      split
      · rfl
      · rename_i hsmall
        rw [if_neg hsmall] at h
        by_cases hlen : (a.toNat * 256 + b.toNat) * 256 + c.toNat ≤ body.length
        · rw [if_pos hlen, if_pos (by rw [List.length_append]; omega)]
        · rw [if_neg hlen] at h
          exact absurd rfl h

/-- Whether a complete message can be read does not depend on what follows it. -/
theorem readVersion_append {vers : ProtocolVersion} {s : List UInt8}
    (h : bufContainsMessage s = .oneMessage) (t : List UInt8) :
    HandshakeMessagePayload.readVersion payloads vers (s ++ t) =
      (HandshakeMessagePayload.readVersion payloads vers s).map fun p => (p.1, p.2 ++ t) := by
  match s with
  | [] | [_] | [_, _] | [_, _, _] => cases h
  | typ :: a :: b :: c :: body =>
      have hlen : (a.toNat * 256 + b.toNat) * 256 + c.toNat ≤ body.length := by
        simp only [bufContainsMessage] at h
        split at h
        · cases h
        split at h
        · assumption
        · cases h
      simp only [List.cons_append, HandshakeMessagePayload.readVersion, Reader.readU8,
        Reader.readU24, Option.bind_eq_bind, Option.bind_some, Reader.take]
      rw [if_neg (by rw [List.length_append]; omega), if_neg (by omega),
        List.take_append_of_le_length hlen, List.drop_append_of_le_length hlen]
      simp only [Option.bind_some]
      cases payloads.read vers (.ofU8 typ)
        (body.take ((a.toNat * 256 + b.toNat) * 256 + c.toNat)) with
      | none => rfl
      | some p => rfl

theorem parse_item_iff {vers : ProtocolVersion} {s rest : List UInt8}
    {m : HandshakeMessagePayload P} :
    parse payloads vers s = .item m rest ↔ bufContainsMessage s = .oneMessage ∧
      HandshakeMessagePayload.readVersion payloads vers s = some (m, rest) := by
  unfold parse
  split
  · rename_i hstate
    simp [hstate]
  · rename_i hstate
    simp [hstate]
  · rename_i hstate
    split
    · rename_i hread
      simp [hread]
    · rename_i hread
      simp [hstate, hread]

theorem parse_bad_iff {vers : ProtocolVersion} {s : List UInt8} :
    parse payloads vers s = .bad ↔ bufContainsMessage s = .messageTooLarge ∨
      bufContainsMessage s = .oneMessage ∧
        HandshakeMessagePayload.readVersion payloads vers s = none := by
  unfold parse
  split
  · rename_i hstate
    simp [hstate]
  · rename_i hstate
    simp [hstate]
  · rename_i hstate
    split
    · rename_i hread
      simp [hstate, hread]
    · rename_i hread
      simp [hstate, hread]

/-- The messages of one version in a stream. -/
def messages (vers : ProtocolVersion) : PrefixParser UInt8 (HandshakeMessagePayload P) where
  parse := parse payloads vers
  shorter h := by
    obtain ⟨typ, a, b, c, body, rfl, _, _, rfl⟩ :=
      (readVersion_eq_some payloads).mp ((parse_item_iff payloads).mp h).2
    simp only [List.length_cons, List.length_drop]
    omega
  item_append t h := by
    obtain ⟨hstate, hread⟩ := (parse_item_iff payloads).mp h
    refine (parse_item_iff payloads).mpr ⟨?_, ?_⟩
    · rw [bufContainsMessage_append (by rw [hstate]; nofun), hstate]
    · rw [readVersion_append payloads hstate, hread]
      rfl
  bad_append t h := by
    refine (parse_bad_iff payloads).mpr (((parse_bad_iff payloads).mp h).imp ?_ ?_)
    · intro hstate
      rw [bufContainsMessage_append (by rw [hstate]; nofun), hstate]
    · rintro ⟨hstate, hread⟩
      refine ⟨?_, ?_⟩
      · rw [bufContainsMessage_append (by rw [hstate]; nofun), hstate]
      · rw [readVersion_append payloads hstate, hread]
        rfl

theorem rest_of_readVersion {vers : ProtocolVersion} {s rest : List UInt8}
    {m : HandshakeMessagePayload P}
    (h : HandshakeMessagePayload.readVersion payloads vers s = some (m, rest)) :
    s.drop (s.length - rest.length) = rest := by
  obtain ⟨typ, a, b, c, body, rfl, hle, _, rfl⟩ := (readVersion_eq_some payloads).mp h
  have htaken : (typ :: a :: b :: c :: body).length -
      (body.drop ((a.toNat * 256 + b.toNat) * 256 + c.toNat)).length =
        (a.toNat * 256 + b.toNat) * 256 + c.toNat + 4 := by
    simp only [List.length_cons, List.length_drop]
    omega
  rw [htaken]
  simp only [List.drop_succ_cons]

theorem deframeOne_eq {vers : ProtocolVersion} {j : HandshakeJoiner P} :
    deframeOne payloads vers j =
      (HandshakeMessagePayload.readVersion payloads vers j.buf).map fun p =>
        ⟨j.frames ++ [⟨vers, p.1⟩], p.2⟩ := by
  rw [deframeOne]
  cases hread : HandshakeMessagePayload.readVersion payloads vers j.buf with
  | none => rfl
  | some p =>
      obtain ⟨m, rest⟩ := p
      simp only [rest_of_readVersion payloads hread, Option.map_some]

/-- The loop of `take_message`, from the messages counted so far. -/
def join (vers : ProtocolVersion) (count : Nat) (j : HandshakeJoiner P) :
    Option Nat × HandshakeJoiner P :=
  match bufContainsMessage j.buf with
  | .messageTooLarge => (none, j)
  | .needsMoreData => (some count, j)
  | .oneMessage =>
      match _h : deframeOne payloads vers j with
      | none => (none, j)
      | some j => join vers (count + 1) j
termination_by j.buf.length
decreasing_by
  rw [deframeOne_eq] at _h
  obtain ⟨⟨m, rest⟩, hread, rfl⟩ := Option.map_eq_some_iff.mp _h
  obtain ⟨typ, a, b, c, body, heq, _, _, rfl⟩ := (readVersion_eq_some payloads).mp hread
  rw [heq]
  simp only [List.length_cons, List.length_drop]
  omega

/-- The number of messages queued, unless the message or one before it was corrupt. -/
def takeMessage (msg : PlainMessage) (j : HandshakeJoiner P) : Option Nat × HandshakeJoiner P :=
  let buf := if j.buf.isEmpty then msg.payload else j.buf ++ msg.payload
  join payloads msg.version 0 { j with buf }

/-! ## What the joiner makes of a stream -/

theorem join_eq (vers : ProtocolVersion) (count : Nat) (j : HandshakeJoiner P) :
    join payloads vers count j =
      (if ((messages payloads vers).drain j.buf).bad then none
        else some (count + ((messages payloads vers).drain j.buf).items.length),
       ⟨j.frames ++ ((messages payloads vers).drain j.buf).items.map fun m => ⟨vers, m⟩,
        ((messages payloads vers).drain j.buf).rest⟩) := by
  fun_induction join payloads vers count j with
  | case1 count j hstate =>
      rw [PrefixParser.drain_of_bad ((parse_bad_iff payloads).mpr (.inl hstate))]
      simp
  | case2 count j hstate =>
      have hparse : (messages payloads vers).parse j.buf = .more := by
        simp only [messages, parse, hstate]
      rw [PrefixParser.drain_of_more hparse]
      simp
  | case3 count j hstate hnone =>
      rw [deframeOne_eq, Option.map_eq_none_iff] at hnone
      rw [PrefixParser.drain_of_bad ((parse_bad_iff payloads).mpr (.inr ⟨hstate, hnone⟩))]
      simp
  | case4 count j hstate j' hsome ih =>
      rw [deframeOne_eq] at hsome
      obtain ⟨⟨m, rest⟩, hread, rfl⟩ := Option.map_eq_some_iff.mp hsome
      rw [PrefixParser.drain_of_item ((parse_item_iff payloads).mpr ⟨hstate, hread⟩), ih]
      simp only [List.length_cons, List.map_cons, List.append_assoc, List.singleton_append,
        Nat.add_assoc, Nat.add_comm 1]

theorem takeMessage_eq (msg : PlainMessage) (j : HandshakeJoiner P) :
    takeMessage payloads msg j =
      (if ((messages payloads msg.version).drain (j.buf ++ msg.payload)).bad then none
        else some ((messages payloads msg.version).drain (j.buf ++ msg.payload)).items.length,
       ⟨j.frames ++ ((messages payloads msg.version).drain (j.buf ++ msg.payload)).items.map
          fun m => ⟨msg.version, m⟩,
        ((messages payloads msg.version).drain (j.buf ++ msg.payload)).rest⟩) := by
  have hbuf : (if j.buf.isEmpty then msg.payload else j.buf ++ msg.payload) =
      j.buf ++ msg.payload := by
    split
    · rename_i hempty
      rw [List.isEmpty_iff.mp hempty, List.nil_append]
    · rfl
  rw [takeMessage, hbuf, join_eq, Nat.zero_add]

/-- The outcomes of taking messages one after the other, and the joiner then. -/
def feed (msgs : List PlainMessage) : List (Option Nat) × HandshakeJoiner P :=
  msgs.foldl (fun acc msg =>
    let (count, j) := takeMessage payloads msg acc.2
    (acc.1 ++ [count], j)) ([], new)

theorem feed_concat (msgs : List PlainMessage) (msg : PlainMessage) :
    feed payloads (msgs ++ [msg]) =
      ((feed payloads msgs).1 ++ [(takeMessage payloads msg (feed payloads msgs).2).1],
        (takeMessage payloads msg (feed payloads msgs).2).2) := by
  rw [feed, List.foldl_append]
  rfl

theorem feed_eq {vers : ProtocolVersion} {msgs : List PlainMessage}
    (hvers : ∀ msg ∈ msgs, msg.version = vers) :
    (feed payloads msgs).2 =
      ⟨((messages payloads vers).drain (msgs.map PlainMessage.payload).flatten).items.map
          fun m => ⟨vers, m⟩,
        ((messages payloads vers).drain (msgs.map PlainMessage.payload).flatten).rest⟩ := by
  have hnil : (messages payloads vers).drain [] = ⟨[], [], false⟩ :=
    PrefixParser.drain_of_more (show parse payloads vers [] = .more from rfl)
  induction msgs using List.reverseRecOn with
  | nil =>
      rw [List.map_nil, List.flatten_nil, hnil]
      rfl
  | append_singleton msgs msg ih =>
      rw [feed_concat, ih fun msg hmsg => hvers msg (List.mem_append_left _ hmsg), takeMessage_eq,
        hvers msg (List.mem_append_right _ (List.mem_singleton_self msg))]
      have hdrain := (messages payloads vers).drain_append
        (msgs.map PlainMessage.payload).flatten msg.payload
      rw [List.map_append, List.map_singleton, List.flatten_append, List.flatten_singleton, hdrain,
        List.map_append]

/-- The last call fails exactly when the stream is corrupt. -/
theorem feed_getLast {vers : ProtocolVersion} {msgs : List PlainMessage}
    (hvers : ∀ msg ∈ msgs, msg.version = vers) (hne : msgs ≠ []) :
    (feed payloads msgs).1.getLast? = some none ↔
      ((messages payloads vers).drain (msgs.map PlainMessage.payload).flatten).bad = true := by
  obtain rfl | ⟨msgs, msg, rfl⟩ := msgs.eq_nil_or_concat
  · exact absurd rfl hne
  · have hdrain := (messages payloads vers).drain_append
      (msgs.map PlainMessage.payload).flatten msg.payload
    rw [List.concat_eq_append] at hvers ⊢
    rw [feed_concat, feed_eq payloads fun msg hmsg => hvers msg (List.mem_append_left _ hmsg),
      takeMessage_eq, hvers msg (List.mem_append_right _ (List.mem_singleton_self msg)),
      List.getLast?_concat, List.map_append, List.map_singleton, List.flatten_append,
      List.flatten_singleton, hdrain]
    simp

/-- No call fails before the stream is corrupt. -/
theorem feed_ne_none {vers : ProtocolVersion} {msgs : List PlainMessage}
    (hvers : ∀ msg ∈ msgs, msg.version = vers)
    (hgood : ((messages payloads vers).drain (msgs.map PlainMessage.payload).flatten).bad = false) :
    none ∉ (feed payloads msgs).1 := by
  induction msgs using List.reverseRecOn with
  | nil => exact List.not_mem_nil
  | append_singleton msgs msg ih =>
      have hinit : ∀ msg ∈ msgs, msg.version = vers :=
        fun msg hmsg => hvers msg (List.mem_append_left _ hmsg)
      have hlast := feed_getLast payloads hvers (List.append_ne_nil_of_right_ne_nil _ nofun)
      rw [hgood, feed_concat, List.getLast?_concat] at hlast
      rw [feed_concat, List.mem_append, List.mem_singleton]
      rintro (hmem | hnone)
      · refine ih hinit ?_ hmem
        by_contra hbad
        rw [List.map_append, List.map_singleton, List.flatten_append, List.flatten_singleton,
          PrefixParser.drain_append_of_bad (by simpa using hbad)] at hgood
        cases hgood
      · simp [← hnone] at hlast

/-! ## Joining undoes fragmentation -/

/-- Messages which can be read back, and whose bodies are not too long. -/
def Encodable (vers : ProtocolVersion) (m : HandshakeMessagePayload P) : Prop :=
  HandshakeMessagePayload.readVersion payloads vers (m.encode payloads) = some (m, []) ∧
    (payloads.encode m.payload).length ≤ maxHandshakeSize

/-- A header which announces too long a body, or a complete body which cannot be read. -/
def Corrupt (vers : ProtocolVersion) (s : List UInt8) : Prop :=
  ∃ typ a b c rest, s = typ :: a :: b :: c :: rest ∧
    (maxHandshakeSize < (a.toNat * 256 + b.toNat) * 256 + c.toNat ∨
      (a.toNat * 256 + b.toNat) * 256 + c.toNat ≤ rest.length ∧
        HandshakeMessagePayload.readVersion payloads vers s = none)

variable {payloads}

theorem Corrupt.parse {vers : ProtocolVersion} {s : List UInt8} (h : Corrupt payloads vers s) :
    (messages payloads vers).parse s = .bad := by
  obtain ⟨typ, a, b, c, rest, rfl, h⟩ := h
  refine (parse_bad_iff payloads).mpr ?_
  simp only [bufContainsMessage]
  by_cases hlarge : maxHandshakeSize < (a.toNat * 256 + b.toNat) * 256 + c.toNat
  · rw [if_pos hlarge]
    exact .inl rfl
  · obtain ⟨hle, hread⟩ := h.resolve_left hlarge
    rw [if_neg hlarge, if_pos hle]
    exact .inr ⟨rfl, hread⟩

theorem Encodable.parse {vers : ProtocolVersion} {m : HandshakeMessagePayload P}
    (h : Encodable payloads vers m) (t : List UInt8) :
    (messages payloads vers).parse (m.encode payloads ++ t) = .item m t := by
  obtain ⟨hread, hle⟩ := h
  obtain ⟨typ, a, b, c, body, henc, hbody, _, hrest⟩ := (readVersion_eq_some payloads).mp hread
  have hlen := congrArg List.length henc
  simp only [HandshakeMessagePayload.encode, List.length_cons, List.length_append,
    length_beBytes] at hlen
  have hstate : bufContainsMessage (m.encode payloads) = .oneMessage := by
    rw [henc]
    simp only [bufContainsMessage]
    have hall := List.drop_eq_nil_iff.mp hrest.symm
    rw [if_neg (by omega), if_pos hbody]
  refine (parse_item_iff payloads).mpr ⟨?_, ?_⟩
  · rw [bufContainsMessage_append (by rw [hstate]; nofun), hstate]
  · rw [readVersion_append payloads hstate, hread]
    rfl

theorem drain_encodings {vers : ProtocolVersion} {msgs : List (HandshakeMessagePayload P)}
    (h : ∀ m ∈ msgs, Encodable payloads vers m) (t : List UInt8) :
    (messages payloads vers).drain
        ((msgs.map (HandshakeMessagePayload.encode payloads)).flatten ++ t) =
      { (messages payloads vers).drain t with
        items := msgs ++ ((messages payloads vers).drain t).items } := by
  induction msgs with
  | nil => rfl
  | cons m msgs ih =>
      rw [List.map_cons, List.flatten_cons, List.append_assoc,
        PrefixParser.drain_of_item ((h m List.mem_cons_self).parse _),
        ih fun m hm => h m (List.mem_cons_of_mem _ hm)]
      rfl

variable (payloads) in
/-- Fragments put together are what was fragmented. Handshake messages are joined from any
cutting of their encodings, and nothing comes of what is corrupt. -/
theorem joins_fragments (vers : ProtocolVersion) (msgs : List (HandshakeMessagePayload P))
    (hmsgs : ∀ m ∈ msgs, Encodable payloads vers m) :
    (∀ (size : Option Nat) (f : MessageFragmenter), MessageFragmenter.new size = .ok f →
      ∀ (msg : PlainMessage) (out : List PlainMessage),
        ∃ pieces, f.fragment msg out = out ++ pieces ∧
          (pieces.map PlainMessage.payload).flatten = msg.payload ∧
          ∀ piece ∈ pieces, piece.typ = msg.typ ∧ piece.version = msg.version ∧
            piece.payload.length ≤ f.maxFrag ∧
            ∀ sz, size = some sz → piece.payload.length + packetOverhead ≤ sz) ∧
    (∀ pieces : List PlainMessage, (∀ piece ∈ pieces, piece.version = vers) →
      (pieces.map PlainMessage.payload).flatten =
        (msgs.map (HandshakeMessagePayload.encode payloads)).flatten →
      none ∉ (feed payloads pieces).1 ∧
        (feed payloads pieces).2 = ⟨msgs.map fun m => ⟨vers, m⟩, []⟩) ∧
    (∀ pieces pieces' : List PlainMessage, (∀ piece ∈ pieces, piece.version = vers) →
      (∀ piece ∈ pieces', piece.version = vers) →
      (pieces.map PlainMessage.payload).flatten = (pieces'.map PlainMessage.payload).flatten →
      (feed payloads pieces).2 = (feed payloads pieces').2) ∧
    ∀ (s : List UInt8) (pieces : List PlainMessage), Corrupt payloads vers s →
      (∀ piece ∈ pieces, piece.version = vers) →
      (pieces.map PlainMessage.payload).flatten =
        (msgs.map (HandshakeMessagePayload.encode payloads)).flatten ++ s →
      (feed payloads pieces).1.getLast? = some none ∧
        (feed payloads pieces).2 = ⟨msgs.map fun m => ⟨vers, m⟩, s⟩ := by
  refine ⟨?_, ?_, ?_, ?_⟩
  · intro size f hf msg out
    obtain ⟨hpos, _, hsize⟩ := MessageFragmenter.new_ok hf
    obtain ⟨pieces, hout, hflat, hpieces⟩ :=
      MessageFragmenter.fragment_eq (f := f) (by omega) msg out
    refine ⟨pieces, hout, hflat, ?_⟩
    intro piece hpiece
    obtain ⟨htyp, hvers, hle⟩ := hpieces piece hpiece
    refine ⟨htyp, hvers, hle, ?_⟩
    intro sz hsz
    rw [← hsize sz hsz]
    exact Nat.add_le_add_right hle _
  · intro pieces hvers hflat
    have hnil : (messages payloads vers).drain [] = ⟨[], [], false⟩ :=
      PrefixParser.drain_of_more (show HandshakeJoiner.parse payloads vers [] = .more from rfl)
    have hdrain := drain_encodings hmsgs []
    rw [List.append_nil, hnil, List.append_nil] at hdrain
    refine ⟨feed_ne_none payloads hvers ?_, ?_⟩
    · rw [hflat, hdrain]
    · rw [feed_eq payloads hvers, hflat, hdrain]
  · intro pieces pieces' hvers hvers' hflat
    rw [feed_eq payloads hvers, feed_eq payloads hvers', hflat]
  · intro s pieces hs hvers hflat
    have hdrain := drain_encodings hmsgs s
    rw [PrefixParser.drain_of_bad hs.parse, List.append_nil] at hdrain
    refine ⟨(feed_getLast payloads hvers ?_).mpr ?_, ?_⟩
    · rintro rfl
      obtain ⟨typ, a, b, c, rest, rfl, _⟩ := hs
      simp at hflat
    · rw [hflat, hdrain]
    · rw [feed_eq payloads hvers, hflat, hdrain]

/-- Payloads of which nothing is read. -/
def opaquePayloads : HandshakePayloads (List UInt8) := ⟨fun _ typ body => some (typ, body), id⟩

/-- A HelloRequest and a Finished message, cut in the header of the second one. -/
theorem joins_fragments_finished :
    (feed opaquePayloads [⟨.handshake, .tlsV1_2, [0, 0, 0, 0, 0x14]⟩,
      ⟨.handshake, .tlsV1_2, [0, 0, 2, 7]⟩, ⟨.handshake, .tlsV1_2, [8]⟩]).2 =
      ⟨[⟨.tlsV1_2, ⟨.helloRequest, []⟩⟩, ⟨.tlsV1_2, ⟨.finished, [7, 8]⟩⟩], []⟩ :=
  ((joins_fragments opaquePayloads .tlsV1_2
    [⟨.helloRequest, []⟩, ⟨.finished, [7, 8]⟩] (by unfold Encodable; decide)).2.1
      _ (by decide) (by decide)).2

end HandshakeJoiner

end Tlsn.Tls
