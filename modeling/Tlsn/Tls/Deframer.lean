import Mathlib.Data.List.Induction
import Tlsn.Tls.Record

/-!
The deframer. Bytes are read into a buffer of fixed size, from whose front complete
records are taken; what follows a record is then moved to the front.
-/

namespace Tlsn.Tls

/-- One record off the front of a stream. -/
def OpaqueMessage.parse (s : List UInt8) : Parsed UInt8 OpaqueMessage :=
  match OpaqueMessage.read s with
  | .ok (m, rest) => .item m rest
  | .error .tooShortForHeader => .more
  | .error .tooShortForLength => .more
  | .error _ => .bad

namespace OpaqueMessage

theorem parse_item_iff {s rest : List UInt8} {m : OpaqueMessage} :
    parse s = .item m rest ↔ read s = .ok (m, rest) := by
  unfold parse
  split
  · rename_i m' rest' hread
    simp [hread]
  all_goals
    rename_i hread
    simp [hread]

theorem parse_bad_iff {s : List UInt8} :
    parse s = .bad ↔ ∃ typ version len body e, readHeader s = some ((typ, version, len), body) ∧
      checkHeader typ version len = .error e := by
  unfold parse
  split
  · rename_i m rest hread
    refine iff_of_false nofun ?_
    rintro ⟨_, _, _, _, _, hheader, hcheck⟩
    obtain ⟨_, _, _, _, hheader', hcheck', _⟩ := read_ok_iff.mp hread
    rw [hheader] at hheader'
    cases hheader'
    rw [hcheck] at hcheck'
    cases hcheck'
  · rename_i hread
    refine iff_of_false nofun ?_
    rintro ⟨typ, version, len, body, e, hheader, hcheck⟩
    have hread' := read_error_iff.mpr (.inr ⟨typ, version, len, body, hheader, .inl hcheck⟩)
    rw [hread] at hread'
    cases hread'
    exact (checkHeader_error hcheck).1 rfl
  · rename_i hread
    refine iff_of_false nofun ?_
    rintro ⟨typ, version, len, body, e, hheader, hcheck⟩
    have hread' := read_error_iff.mpr (.inr ⟨typ, version, len, body, hheader, .inl hcheck⟩)
    rw [hread] at hread'
    cases hread'
    exact (checkHeader_error hcheck).2 rfl
  · rename_i e hne hne' hread
    refine iff_of_true rfl ?_
    rcases read_error_iff.mp hread with ⟨_, rfl⟩ |
      ⟨typ, version, len, body, hheader, h | ⟨_, _, rfl⟩⟩
    · exact absurd rfl hne
    · exact ⟨typ, version, len, body, e, hheader, h⟩
    · exact absurd rfl hne'

/-- More is asked for only while a record of the largest size would not be complete. -/
theorem length_of_parse_more {s : List UInt8} (h : parse s = .more) :
    s.length + 1 < maxWireSize := by
  unfold parse at h
  split at h
  · cases h
  · rename_i hread
    rcases read_error_iff.mp hread with ⟨hnone, _⟩ | ⟨_, _, _, _, _, h | ⟨_, _, h⟩⟩
    · rw [readHeader_eq_none_iff] at hnone
      exact Nat.lt_of_lt_of_le (Nat.succ_lt_succ hnone) (by decide)
    · exact absurd rfl (checkHeader_error h).1
    · cases h
  · rename_i hread
    rcases read_error_iff.mp hread with ⟨_, h⟩ | ⟨_, _, len, body, hheader, h | ⟨hcheck, hlen, _⟩⟩
    · cases h
    · exact absurd rfl (checkHeader_error h).2
    · obtain ⟨a, b, c, d, e, rfl, _⟩ := readHeader_eq_some hheader
      have hmax := len_lt_of_checkHeader hcheck
      simp only [List.length_cons, maxWireSize, headerSize]
      omega
  · cases h

/-- Whether there is a record at the front does not depend on what comes later. -/
def records : PrefixParser UInt8 OpaqueMessage where
  parse := parse
  shorter h := by
    obtain ⟨_, _, _, _, hheader, _, _, _, rfl⟩ := read_ok_iff.mp (parse_item_iff.mp h)
    obtain ⟨a, b, c, d, e, rfl, _⟩ := readHeader_eq_some hheader
    simp only [List.length_cons, List.length_drop]
    omega
  item_append t h := by
    obtain ⟨typ, version, len, body, hheader, hcheck, hle, rfl, rfl⟩ :=
      read_ok_iff.mp (parse_item_iff.mp h)
    refine parse_item_iff.mpr (read_ok_iff.mpr ⟨typ, version, len, body ++ t,
      readHeader_append hheader t, hcheck, ?_, ?_, ?_⟩)
    · rw [List.length_append]
      exact Nat.le_add_right_of_le hle
    · rw [List.take_append_of_le_length hle]
    · rw [List.drop_append_of_le_length hle]
  bad_append t h := by
    obtain ⟨typ, version, len, body, e, hheader, hcheck⟩ := parse_bad_iff.mp h
    exact parse_bad_iff.mpr ⟨typ, version, len, body ++ t, e, readHeader_append hheader t, hcheck⟩

end OpaqueMessage

/-- A reader: it may write anywhere in the slice it is given, and says how many bytes
at its front it read, or fails. -/
structure Source where
  read : List UInt8 → List UInt8 × Option Nat
  length_eq : ∀ slice, (read slice).1.length = slice.length
  le : ∀ slice n, (read slice).2 = some n → n ≤ slice.length

structure MessageDeframer where
  frames : List OpaqueMessage
  desynced : Bool
  buf : Vector UInt8 OpaqueMessage.maxWireSize
  used : Nat

inductive BufferContents where
  | invalid
  | incomplete
  | valid

namespace MessageDeframer

open OpaqueMessage

def new : MessageDeframer := ⟨[], false, Vector.replicate maxWireSize 0, 0⟩

/-- The used prefix of the buffer. -/
def held (d : MessageDeframer) : List UInt8 := d.buf.toList.take d.used

/-- `buf.copy_within(start..stop, 0)` -/
def copyWithin {n : Nat} (buf : Vector UInt8 n) (start stop : Nat) : Vector UInt8 n :=
  Vector.ofFn fun i => if i < stop - start then buf.toList.getD (start + i) 0 else buf[i]

def bufConsume (taken : Nat) (d : MessageDeframer) : MessageDeframer :=
  if taken < d.used then { d with buf := copyWithin d.buf taken d.used, used := d.used - taken }
  else if taken = d.used then { d with used := 0 }
  else d

def tryDeframeOne (d : MessageDeframer) : BufferContents × MessageDeframer :=
  match OpaqueMessage.read d.held with
  | .ok (m, rest) =>
      (.valid, bufConsume (d.held.length - rest.length) { d with frames := d.frames ++ [m] })
  | .error .tooShortForHeader => (.incomplete, d)
  | .error .tooShortForLength => (.incomplete, d)
  | .error _ => (.invalid, d)

theorem used_lt_of_valid {d d' : MessageDeframer} (h : tryDeframeOne d = (.valid, d')) :
    d'.used < d.used := by
  unfold tryDeframeOne at h
  split at h
  · rename_i m rest hread
    have hlt := records.shorter (parse_item_iff.mpr hread)
    have hle : d.held.length ≤ d.used := by
      rw [held, List.length_take]
      exact Nat.min_le_left _ _
    cases h
    unfold bufConsume
    split
    · simp only
      omega
    split
    · simp only
      omega
    · rename_i h₁ h₂
      simp only at h₁ h₂
      omega
  all_goals cases h

def deframe (d : MessageDeframer) : MessageDeframer :=
  match _h : tryDeframeOne d with
  | (.invalid, d) => { d with desynced := true }
  | (.valid, d) => deframe d
  | (.incomplete, d) => d
termination_by d.used
decreasing_by exact used_lt_of_valid _h

/-- How many bytes were read, if the reader did not fail. -/
def read (rd : Source) (d : MessageDeframer) :
    Except (Fault Empty) (Option Nat × MessageDeframer) :=
  if d.used ≤ maxWireSize then
    let (slice, result) := rd.read (d.buf.toList.drop d.used)
    let buf := Vector.ofFn fun i => if i < d.used then d.buf[i] else slice.getD (i - d.used) 0
    match result with
    | none => .ok (none, { d with buf })
    | some newBytes => .ok (some newBytes, deframe { d with buf, used := d.used + newBytes })
  else .error .panic

/-! ## One read -/

theorem length_held {d : MessageDeframer} (h : d.used ≤ maxWireSize) : d.held.length = d.used := by
  rw [held, List.length_take, Vector.length_toList, Nat.min_eq_left h]

/-- What is held after a prefix has been taken. -/
theorem held_bufConsume {d : MessageDeframer} {taken : Nat} (h : taken ≤ d.used)
    (hused : d.used ≤ maxWireSize) : (d.bufConsume taken).held = d.held.drop taken := by
  unfold bufConsume
  split
  · apply List.ext_getElem?
    intro i
    simp only [held, List.getElem?_take, List.getElem?_drop]
    by_cases hi : i < d.used - taken
    · have hsize : i < maxWireSize := by omega
      rw [if_pos hi, if_pos (by omega), List.getElem?_eq_getElem (by simpa using hsize)]
      simp only [copyWithin, Vector.getElem_toList, Vector.getElem_ofFn]
      rw [if_pos hi, List.getD_eq_getElem?_getD, List.getElem?_eq_getElem (by simp; omega)]
      rfl
    · rw [if_neg hi, if_neg (by omega)]
  · rename_i hnot
    have heq : taken = d.used := by omega
    rw [if_pos heq, List.drop_eq_nil_of_le (by rw [length_held hused, heq])]
    rfl

theorem used_bufConsume_le (d : MessageDeframer) (taken : Nat) :
    (d.bufConsume taken).used ≤ d.used := by
  unfold bufConsume
  split
  · exact Nat.sub_le _ _
  split
  · exact Nat.zero_le _
  · exact Nat.le_refl _

theorem frames_bufConsume (d : MessageDeframer) (taken : Nat) :
    (d.bufConsume taken).frames = d.frames ∧ (d.bufConsume taken).desynced = d.desynced := by
  unfold bufConsume
  split
  · exact ⟨rfl, rfl⟩
  split
  · exact ⟨rfl, rfl⟩
  · exact ⟨rfl, rfl⟩

/-- What is left of the stream is a suffix of it. -/
theorem rest_of_read {s rest : List UInt8} {m : OpaqueMessage}
    (h : OpaqueMessage.read s = .ok (m, rest)) :
    s.drop (s.length - rest.length) = rest := by
  obtain ⟨typ, version, len, body, hheader, _, hle, _, rfl⟩ := read_ok_iff.mp h
  obtain ⟨a, b, c, d, e, rfl, _⟩ := readHeader_eq_some hheader
  have htaken : (a :: b :: c :: d :: e :: body).length - (body.drop len.toNat).length =
      len.toNat + 5 := by
    simp only [List.length_cons, List.length_drop]
    omega
  rw [htaken]
  simp only [List.drop_succ_cons]

theorem tryDeframeOne_valid {d d' : MessageDeframer} (hused : d.used ≤ maxWireSize)
    (h : tryDeframeOne d = (.valid, d')) :
    ∃ m rest, parse d.held = .item m rest ∧ d'.frames = d.frames ++ [m] ∧
      d'.desynced = d.desynced ∧ d'.held = rest ∧ d'.used ≤ maxWireSize := by
  unfold tryDeframeOne at h
  split at h
  · rename_i m rest hread
    have hparse := parse_item_iff.mpr hread
    cases h
    have hlen := length_held hused
    obtain ⟨hframes, hdesynced⟩ := frames_bufConsume
      { d with frames := d.frames ++ [m] } (d.held.length - rest.length)
    refine ⟨m, rest, hparse, hframes, hdesynced, ?_,
      Nat.le_trans (used_bufConsume_le _ _) hused⟩
    exact (held_bufConsume (d := { d with frames := d.frames ++ [m] }) (by simp only; omega)
      hused).trans (rest_of_read hread)
  all_goals cases h

theorem tryDeframeOne_invalid {d d' : MessageDeframer} (h : tryDeframeOne d = (.invalid, d')) :
    d' = d ∧ parse d.held = .bad := by
  unfold tryDeframeOne at h
  split at h
  · cases h
  · cases h
  · cases h
  · rename_i e hne hne' hread
    cases h
    refine ⟨rfl, ?_⟩
    unfold parse
    split
    · rename_i hread'
      rw [hread] at hread'
      cases hread'
    · rename_i hread'
      rw [hread] at hread'
      cases hread'
      exact absurd rfl hne
    · rename_i hread'
      rw [hread] at hread'
      cases hread'
      exact absurd rfl hne'
    · rfl

theorem tryDeframeOne_incomplete {d d' : MessageDeframer}
    (h : tryDeframeOne d = (.incomplete, d')) : d' = d ∧ parse d.held = .more := by
  unfold tryDeframeOne at h
  split at h
  · cases h
  · rename_i hread
    cases h
    exact ⟨rfl, by rw [parse, hread]⟩
  · rename_i hread
    cases h
    exact ⟨rfl, by rw [parse, hread]⟩
  · cases h

/-- The loop drains the buffer. -/
theorem deframe_eq {d : MessageDeframer} (hused : d.used ≤ maxWireSize) :
    d.deframe.frames = d.frames ++ (records.drain d.held).items ∧
      d.deframe.held = (records.drain d.held).rest ∧
      d.deframe.desynced = (d.desynced || (records.drain d.held).bad) ∧
      d.deframe.used ≤ maxWireSize := by
  fun_induction deframe d with
  | case1 d d' h =>
      obtain ⟨rfl, hparse⟩ := tryDeframeOne_invalid h
      rw [PrefixParser.drain_of_bad hparse]
      exact ⟨by simp, rfl, by simp, hused⟩
  | case2 d d' h ih =>
      obtain ⟨m, rest, hparse, hframes, hdesynced, hheld, hused'⟩ := tryDeframeOne_valid hused h
      obtain ⟨ihframes, ihheld, ihdesynced, ihused⟩ := ih hused'
      rw [PrefixParser.drain_of_item hparse]
      rw [hheld] at ihframes ihheld ihdesynced
      refine ⟨?_, ihheld, ?_, ihused⟩
      · rw [ihframes, hframes, List.append_assoc]
        rfl
      · rw [ihdesynced, hdesynced]
  | case3 d d' h =>
      obtain ⟨rfl, hparse⟩ := tryDeframeOne_incomplete h
      rw [PrefixParser.drain_of_more hparse]
      exact ⟨by simp, rfl, by simp, hused⟩

/-- The bytes which a reader gives when it is given the unused part of the buffer. -/
def delivered (rd : Source) (d : MessageDeframer) : List UInt8 :=
  (rd.read (d.buf.toList.drop d.used)).1.take ((rd.read (d.buf.toList.drop d.used)).2.getD 0)

theorem held_of_prefix (buf : Vector UInt8 maxWireSize) {slice : List UInt8} {used n : Nat}
    (hn : used + n ≤ maxWireSize) (hslice : n ≤ slice.length) (frames : List OpaqueMessage)
    (desynced : Bool) :
    (MessageDeframer.mk frames desynced (Vector.ofFn fun i : Fin maxWireSize =>
        if i < used then buf[i] else slice.getD (i - used) 0) (used + n)).held =
      buf.toList.take used ++ slice.take n := by
  apply List.ext_getElem?
  intro i
  have hlen : (buf.toList.take used).length = used := by
    rw [List.length_take, Vector.length_toList]
    omega
  simp only [held, List.getElem?_take]
  by_cases hi : i < used
  · have hsize : i < maxWireSize := by omega
    rw [if_pos (by omega), List.getElem?_append_left (by omega), List.getElem?_take, if_pos hi,
      List.getElem?_eq_getElem (by simpa using hsize),
      List.getElem?_eq_getElem (by simpa using hsize)]
    simp [hi]
  · rw [List.getElem?_append_right (by omega), hlen, List.getElem?_take]
    by_cases hi' : i < used + n
    · have hsize : i < maxWireSize := by omega
      have hs : i - used < slice.length := by omega
      rw [if_pos hi', if_pos (by omega), List.getElem?_eq_getElem (by simpa using hsize),
        List.getElem?_eq_getElem hs]
      simp [hi, List.getD_eq_getElem?_getD, List.getElem?_eq_getElem hs]
    · rw [if_neg hi', if_neg (by omega)]

/-- A read puts what the reader gives after what is held, and drains that. -/
theorem read_eq (rd : Source) {d : MessageDeframer} (hused : d.used ≤ maxWireSize) :
    ∃ result d', d.read rd = .ok (result, d') ∧ d'.used ≤ maxWireSize ∧
      d'.frames = d.frames ++
        (if result.isSome then (records.drain (d.held ++ d.delivered rd)).items else []) ∧
      d'.held = (if result.isSome then (records.drain (d.held ++ d.delivered rd)).rest
        else d.held) ∧
      d'.desynced = (d.desynced ||
        (if result.isSome then (records.drain (d.held ++ d.delivered rd)).bad else false)) ∧
      (result.isSome = false → d.delivered rd = []) := by
  have hlen := rd.length_eq (d.buf.toList.drop d.used)
  have hle := rd.le (d.buf.toList.drop d.used)
  rw [List.length_drop, Vector.length_toList] at hlen hle
  rw [read, if_pos hused, delivered]
  cases hread : rd.read (d.buf.toList.drop d.used) with
  | mk slice result =>
      rw [hread] at hlen hle
      simp only at hlen hle
      cases result with
      | none =>
          have hheld := held_of_prefix d.buf (n := 0) hused (Nat.zero_le slice.length) d.frames
            d.desynced
          rw [List.take_zero, List.append_nil] at hheld
          exact ⟨none, _, rfl, hused, (List.append_nil _).symm, hheld, (Bool.or_false _).symm,
            fun _ => List.take_zero⟩
      | some n =>
          have hn := hle n rfl
          have hroom : d.used + n ≤ maxWireSize := by omega
          have hheld := held_of_prefix d.buf hroom (hlen ▸ hn) d.frames d.desynced
          obtain ⟨hframes, hrest, hdesynced, hused'⟩ := deframe_eq (d := ⟨d.frames, d.desynced,
            Vector.ofFn fun i : Fin maxWireSize => if i < d.used then d.buf[i] else
              slice.getD (i - d.used) 0, d.used + n⟩) hroom
          rw [hheld] at hframes hrest hdesynced
          exact ⟨some n, _, rfl, hused', hframes, hrest, hdesynced, nofun⟩

/-! ## Runs -/

inductive Op where
  | read (rd : Source)
  /-- The first frame is taken out. -/
  | popFrame

/-- The deframer, the frames taken out of it, and what was read so far. -/
structure Log where
  deframer : MessageDeframer
  popped : List OpaqueMessage
  stream : List UInt8

def step (log : Log) : Op → Except (Fault Empty) Log
  | .read rd => do
      let (_, deframer) ← log.deframer.read rd
      return { log with deframer, stream := log.stream ++ log.deframer.delivered rd }
  | .popFrame =>
      let deframer := { log.deframer with frames := log.deframer.frames.tail }
      .ok { log with deframer, popped := log.popped ++ log.deframer.frames.head?.toList }

def run (ops : List Op) : Except (Fault Empty) Log := ops.foldlM step ⟨new, [], []⟩

/-- The deframer stands where parsing the stream from its beginning leads. -/
structure Parsed (log : Log) : Prop where
  frames : log.popped ++ log.deframer.frames = (records.drain log.stream).items
  held : log.deframer.held = (records.drain log.stream).rest
  desynced : log.deframer.desynced = (records.drain log.stream).bad
  used : log.deframer.used ≤ maxWireSize

theorem Parsed.step {log : Log} (h : Parsed log) (op : Op) :
    ∃ log', step log op = .ok log' ∧ Parsed log' := by
  obtain ⟨hframes, hheld, hdesynced, hused⟩ := h
  cases op with
  | popFrame =>
      refine ⟨_, rfl, ?_, hheld, hdesynced, hused⟩
      rw [← hframes]
      cases log.deframer.frames with
      | nil => simp
      | cons frame frames => simp
  | read rd =>
      obtain ⟨result, d', hread, hused', hframes', hheld', hdesynced', hnone⟩ :=
        read_eq rd hused
      refine ⟨_, Fault.bind_ok_iff.mpr ⟨_, hread, rfl⟩, ?_⟩
      cases result with
      | none =>
          have hstream : log.stream ++ log.deframer.delivered rd = log.stream := by
            rw [hnone rfl, List.append_nil]
          refine ⟨?_, ?_, ?_, hused'⟩
          · simp only [hstream]
            rw [hframes', ← hframes, if_neg (by simp), List.append_nil]
          · simp only [hstream]
            rw [hheld', ← hheld, if_neg (by simp)]
          · simp only [hstream]
            rw [hdesynced', ← hdesynced, if_neg (by simp), Bool.or_false]
      | some n =>
          simp only [Option.isSome_some, if_true, hheld] at hframes' hheld' hdesynced'
          have hdrain := records.drain_append log.stream (log.deframer.delivered rd)
          refine ⟨?_, ?_, ?_, hused'⟩
          · simp only [hdrain]
            rw [hframes', ← List.append_assoc, hframes]
          · simp only [hdrain]
            exact hheld'
          · simp only [hdrain]
            rw [hdesynced', hdesynced]
            cases hbad : (records.drain log.stream).bad with
            | false => simp
            | true =>
                have hrest := records.parse_rest log.stream
                rw [if_pos hbad] at hrest
                rw [PrefixParser.drain_of_bad (records.bad_append _ hrest), Bool.true_or]

theorem Parsed.run (ops : List Op) : ∃ log, run ops = .ok log ∧ Parsed log := by
  have hnil : records.drain [] = ⟨[], [], false⟩ :=
    PrefixParser.drain_of_more (show parse [] = .more from rfl)
  induction ops using List.reverseRecOn with
  | nil =>
      refine ⟨_, rfl, ?_⟩
      constructor
      · rw [hnil]
        rfl
      · rw [hnil]
        exact List.take_zero
      · rw [hnil]
        rfl
      · exact Nat.zero_le _
  | append_singleton ops op ih =>
      obtain ⟨log, hrun, h⟩ := ih
      obtain ⟨log', hstep, h'⟩ := h.step op
      refine ⟨log', ?_, h'⟩
      rw [MessageDeframer.run, List.foldlM_append]
      refine Fault.bind_ok_iff.mpr ⟨log, hrun, ?_⟩
      rw [List.foldlM_cons]
      exact Fault.bind_ok_iff.mpr ⟨log', hstep, rfl⟩

/-- However a stream is read, and whenever frames are taken out, the frames and the flag
are those of parsing the whole stream; and a full buffer is that of a peer which does not
speak the protocol. -/
theorem run_frames (ops : List Op) :
    ∃ log, run ops = .ok log ∧
      (∀ rest : List UInt8, rest = [] ∨ log.deframer.desynced = true →
        log.popped ++ log.deframer.frames = (records.drain (log.stream ++ rest)).items ∧
          log.deframer.desynced = (records.drain (log.stream ++ rest)).bad) ∧
      log.deframer.used ≤ maxWireSize ∧
      (log.deframer.used = maxWireSize → log.deframer.desynced = true) ∧
      ∀ s : List UInt8, s.length = maxWireSize → parse s ≠ .more := by
  obtain ⟨log, hrun, hframes, hheld, hdesynced, hused⟩ := Parsed.run ops
  refine ⟨log, hrun, ?_, hused, ?_, ?_⟩
  · rintro rest (rfl | hbad)
    · rw [List.append_nil]
      exact ⟨hframes, hdesynced⟩
    · rw [hdesynced] at hbad
      rw [PrefixParser.drain_append_of_bad hbad rest, hframes, hdesynced, hbad]
      exact ⟨rfl, rfl⟩
  · intro hfull
    have hrest := records.parse_rest log.stream
    rw [← hheld, ← hdesynced] at hrest
    cases hflag : log.deframer.desynced with
    | true => rfl
    | false =>
        rw [hflag, if_neg (by simp)] at hrest
        have hlt := length_of_parse_more hrest
        rw [length_held hused, hfull] at hlt
        omega
  · intro s hs hmore
    have hlt := length_of_parse_more hmore
    omega

/-- The bytes at hand, as many of them as there is room for. -/
def chunk (bytes : List UInt8) : Source where
  read slice := (bytes.take slice.length ++ slice.drop bytes.length,
    some (min bytes.length slice.length))
  length_eq slice := by
    rw [List.length_append, List.length_take, List.length_drop]
    omega
  le slice n h := by
    cases h
    exact Nat.min_le_right _ _

/-- An alert which is read in two pieces, the first of which ends in the header. -/
theorem run_frames_split_alert :
    ∃ log, run [.read (chunk [0x15, 3, 3]), .popFrame, .read (chunk [0, 2, 1, 0])] = .ok log ∧
      log.popped ++ log.deframer.frames = (records.drain log.stream).items := by
  obtain ⟨log, hrun, hframes, _⟩ :=
    run_frames [.read (chunk [0x15, 3, 3]), .popFrame, .read (chunk [0, 2, 1, 0])]
  have hall := (hframes [] (.inl rfl)).1
  rw [List.append_nil] at hall
  exact ⟨log, hrun, hall⟩

end MessageDeframer

end Tlsn.Tls
