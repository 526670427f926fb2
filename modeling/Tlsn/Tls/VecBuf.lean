import Mathlib.Data.List.Induction
import Mathlib.Data.List.Basic

/-!
The byte buffer of the plain client, built from a queue of chunks. Reading and partial
writes take bytes from the front, which may end in the middle of a chunk.
-/

namespace Tlsn.Tls

structure ChunkVecBuffer where
  chunks : List (List UInt8)
  limit : Option Nat
deriving DecidableEq

/-- A writer: it takes some of the bytes of the slices it is offered, or fails. -/
structure Writer where
  writeVectored : List (List UInt8) → Option Nat
  le : ∀ slices used, writeVectored slices = some used → used ≤ slices.flatten.length

namespace ChunkVecBuffer

def new (limit : Option Nat) : ChunkVecBuffer := ⟨[], limit⟩

def setLimit (limit : Option Nat) (b : ChunkVecBuffer) : ChunkVecBuffer := { b with limit }

def isEmpty (b : ChunkVecBuffer) : Bool := b.chunks.isEmpty

def len (b : ChunkVecBuffer) : Nat := b.chunks.foldl (fun len chunk => len + chunk.length) 0

def applyLimit (len : Nat) (b : ChunkVecBuffer) : Nat :=
  match b.limit with
  | some limit => min len (limit - b.len)
  | none => len

def append (bytes : List UInt8) (b : ChunkVecBuffer) : Nat × ChunkVecBuffer :=
  (bytes.length, if bytes.isEmpty then b else { b with chunks := b.chunks ++ [bytes] })

def appendLimitedCopy (bytes : List UInt8) (b : ChunkVecBuffer) : Nat × ChunkVecBuffer :=
  let take := b.applyLimit bytes.length
  (take, (b.append (bytes.take take)).2)

def pop (b : ChunkVecBuffer) : Option (List UInt8) × ChunkVecBuffer :=
  (b.chunks.head?, { b with chunks := b.chunks.tail })

/-- Chunks leave from the front until one is longer than what is left to consume. -/
def consume : Nat → List (List UInt8) → List (List UInt8)
  | _, [] => []
  | used, buf :: chunks =>
      if used < buf.length then buf.drop used :: chunks else consume (used - buf.length) chunks

theorem length_consume_le (used : Nat) (chunks : List (List UInt8)) :
    (consume used chunks).length ≤ chunks.length := by
  induction chunks generalizing used with
  | nil => exact Nat.le_refl 0
  | cons buf chunks ih =>
      rw [consume]
      split
      · exact Nat.le_refl _
      · exact Nat.le_succ_of_le (ih _)

/-- The loop of `read`, from the bytes copied so far. -/
def readLoop (size : Nat) (copied : List UInt8) (chunks : List (List UInt8)) :
    List UInt8 × List (List UInt8) :=
  match chunks with
  | [] => (copied, [])
  | chunk :: rest =>
      if copied.length < size then
        let used := min chunk.length (size - copied.length)
        readLoop size (copied ++ chunk.take used) (consume used (chunk :: rest))
      else (copied, chunk :: rest)
termination_by size - copied.length + chunks.length
decreasing_by
  have hle := length_consume_le (min chunk.length (size - copied.length)) (chunk :: rest)
  simp only [List.length_cons, List.length_append, List.length_take] at hle ⊢
  by_cases hempty : chunk.length = 0
  · -- an empty chunk brings nothing, but it goes
    rw [hempty, Nat.zero_min, consume, if_neg (by omega)]
    have hrest := length_consume_le (0 - chunk.length) rest
    omega
  · omega

/-- How many bytes were read, the buffer they were read into, and what is left. -/
def read (buf : List UInt8) (b : ChunkVecBuffer) : (Nat × List UInt8) × ChunkVecBuffer :=
  let (copied, chunks) := readLoop buf.length [] b.chunks
  ((copied.length, copied ++ buf.drop copied.length), { b with chunks })

/-- At most 64 chunks are offered at once. The bytes taken are none when the writer fails. -/
def writeTo (wr : Writer) (b : ChunkVecBuffer) : Option Nat × ChunkVecBuffer :=
  if b.isEmpty then (some 0, b)
  else
    match wr.writeVectored (b.chunks.take 64) with
    | none => (none, b)
    | some used => (some used, { b with chunks := consume used b.chunks })

/-! ## One operation -/

def NoEmpty (chunks : List (List UInt8)) : Prop := ∀ chunk ∈ chunks, chunk ≠ []

theorem len_eq (b : ChunkVecBuffer) : b.len = b.chunks.flatten.length := by
  have hfold (chunks : List (List UInt8)) (n : Nat) :
      chunks.foldl (fun len chunk => len + chunk.length) n = n + chunks.flatten.length := by
    induction chunks generalizing n with
    | nil => rfl
    | cons chunk chunks ih =>
        rw [List.foldl_cons, ih, List.flatten_cons, List.length_append, Nat.add_assoc]
  rw [len, hfold, Nat.zero_add]

theorem flatten_consume (used : Nat) (chunks : List (List UInt8)) :
    (consume used chunks).flatten = chunks.flatten.drop used := by
  induction chunks generalizing used with
  | nil => simp [consume]
  | cons buf chunks ih =>
      rw [consume, List.flatten_cons, List.drop_append]
      split
      · rename_i hlt
        rw [List.flatten_cons, Nat.sub_eq_zero_of_le (Nat.le_of_lt hlt), List.drop_zero]
      · rename_i hge
        rw [ih, List.drop_eq_nil_of_le (Nat.le_of_not_lt hge), List.nil_append]

theorem NoEmpty.consume {chunks : List (List UInt8)} (h : NoEmpty chunks) (used : Nat) :
    NoEmpty (consume used chunks) := by
  induction chunks generalizing used with
  | nil => exact h
  | cons buf chunks ih =>
      have htail : NoEmpty chunks := fun chunk hc => h chunk (List.mem_cons_of_mem buf hc)
      rw [ChunkVecBuffer.consume]
      split
      · rename_i hlt
        intro chunk hchunk
        rcases List.mem_cons.mp hchunk with heq | hmem
        · rw [heq, Ne, List.drop_eq_nil_iff]
          omega
        · exact htail chunk hmem
      · exact ih htail _

/-- The loop copies bytes until there is no room or nothing left. -/
theorem readLoop_eq (size : Nat) (copied : List UInt8) (chunks : List (List UInt8)) :
    (readLoop size copied chunks).1 = copied ++ chunks.flatten.take (size - copied.length) ∧
      (readLoop size copied chunks).2.flatten = chunks.flatten.drop (size - copied.length) := by
  fun_induction readLoop size copied chunks with
  | case1 copied => simp
  | case2 copied chunk rest hlt used ih =>
      obtain ⟨ihcopied, ihrest⟩ := ih
      have hused : used ≤ chunk.length := Nat.min_le_left _ _
      have hfront : (chunk :: rest).flatten.take used = chunk.take used := by
        rw [List.flatten_cons, List.take_append_of_le_length hused]
      have hlen : (chunk.take used).length = used := by
        rw [List.length_take, Nat.min_eq_left hused]
      have hroom : size - (copied ++ chunk.take used).length = size - copied.length - used := by
        rw [List.length_append, hlen, Nat.sub_add_eq]
      have hsplit : used + (size - copied.length - used) = size - copied.length :=
        Nat.add_sub_cancel' (Nat.min_le_right _ _)
      rw [flatten_consume, hroom] at ihcopied ihrest
      constructor
      · rw [ihcopied, List.append_assoc, ← hfront, ← List.take_add, hsplit]
      · rw [ihrest, List.drop_drop, hsplit]
  | case3 copied chunk rest hge =>
      simp [Nat.sub_eq_zero_of_le (Nat.le_of_not_lt hge)]

theorem noEmpty_readLoop (size : Nat) (copied : List UInt8) {chunks : List (List UInt8)}
    (h : NoEmpty chunks) : NoEmpty (readLoop size copied chunks).2 := by
  fun_induction readLoop size copied chunks with
  | case1 copied => exact h
  | case2 copied chunk rest hlt used ih => exact ih (h.consume used)
  | case3 copied chunk rest hge => exact h

theorem flatten_append (bytes : List UInt8) (b : ChunkVecBuffer) :
    (b.append bytes).2.chunks.flatten = b.chunks.flatten ++ bytes := by
  rw [append]
  split
  · rename_i hempty
    rw [List.isEmpty_iff.mp hempty, List.append_nil]
  · rw [List.flatten_append, List.flatten_singleton]

theorem noEmpty_append (bytes : List UInt8) {b : ChunkVecBuffer} (h : NoEmpty b.chunks) :
    NoEmpty (b.append bytes).2.chunks := by
  rw [append]
  split
  · exact h
  · rename_i hne
    intro chunk hchunk
    rcases List.mem_append.mp hchunk with hmem | hmem
    · exact h chunk hmem
    · rw [List.mem_singleton.mp hmem]
      simpa using hne

theorem applyLimit_le (len : Nat) (b : ChunkVecBuffer) : b.applyLimit len ≤ len := by
  unfold applyLimit
  split
  · exact Nat.min_le_left _ _
  · exact Nat.le_refl len

theorem len_appendLimitedCopy (bytes : List UInt8) (b : ChunkVecBuffer) :
    (b.appendLimitedCopy bytes).2.len = b.len + b.applyLimit bytes.length := by
  simp only [appendLimitedCopy]
  rw [len_eq, flatten_append, List.length_append, ← len_eq, List.length_take,
    Nat.min_eq_left (applyLimit_le _ _)]

theorem limit_appendLimitedCopy (bytes : List UInt8) (b : ChunkVecBuffer) :
    (b.appendLimitedCopy bytes).2.limit = b.limit := by
  simp only [appendLimitedCopy, append]
  split
  · rfl
  · rfl

/-- A limited append fills up to the limit, and never beyond it. -/
theorem len_appendLimitedCopy_le (bytes : List UInt8) {b : ChunkVecBuffer} {limit : Nat}
    (h : b.limit = some limit) : (b.appendLimitedCopy bytes).2.len ≤ max limit b.len := by
  rw [len_appendLimitedCopy, applyLimit, h]
  simp only
  omega

theorem read_eq (buf : List UInt8) (b : ChunkVecBuffer) :
    (b.read buf).1 =
        (min buf.length b.len,
          b.chunks.flatten.take buf.length ++ buf.drop b.chunks.flatten.length) ∧
      (b.read buf).2.chunks.flatten = b.chunks.flatten.drop buf.length := by
  obtain ⟨hcopied, hrest⟩ := readLoop_eq buf.length [] b.chunks
  rw [List.nil_append, List.length_nil, Nat.sub_zero] at hcopied
  rw [List.length_nil, Nat.sub_zero] at hrest
  refine ⟨?_, hrest⟩
  simp only [read]
  rw [hcopied, List.length_take, len_eq]
  by_cases h : buf.length ≤ b.chunks.flatten.length
  · rw [Nat.min_eq_left h, List.drop_eq_nil_of_le (Nat.le_refl _), List.drop_eq_nil_of_le h]
  · rw [Nat.min_eq_right (Nat.le_of_not_le h)]

/-- A successful write takes bytes from the front, those which the writer was offered. -/
theorem writeTo_eq (wr : Writer) {b : ChunkVecBuffer} {used : Nat}
    (h : (b.writeTo wr).1 = some used) :
    used ≤ (b.chunks.take 64).flatten.length ∧
      (b.writeTo wr).2.chunks.flatten = b.chunks.flatten.drop used := by
  unfold writeTo at h ⊢
  split at h
  · rename_i hempty
    cases h
    rw [if_pos hempty]
    exact ⟨Nat.zero_le _, rfl⟩
  · rename_i hne
    rw [if_neg hne]
    cases hwrite : wr.writeVectored (b.chunks.take 64) with
    | none =>
        rw [hwrite] at h
        cases h
    | some taken =>
        rw [hwrite] at h
        cases h
        exact ⟨wr.le _ _ hwrite, flatten_consume used b.chunks⟩

/-- As many as the writer says, which is not asked when there is nothing to write. -/
theorem writeTo_used (wr : Writer) {b : ChunkVecBuffer} {used : Nat}
    (h : (b.writeTo wr).1 = some used) :
    b.chunks = [] ∧ used = 0 ∨ wr.writeVectored (b.chunks.take 64) = some used := by
  unfold writeTo at h
  split at h
  · rename_i hempty
    cases h
    exact .inl ⟨List.isEmpty_iff.mp hempty, rfl⟩
  · cases hwrite : wr.writeVectored (b.chunks.take 64) with
    | none =>
        rw [hwrite] at h
        cases h
    | some taken =>
        rw [hwrite] at h
        exact .inr h

theorem writeTo_error (wr : Writer) {b : ChunkVecBuffer} (h : (b.writeTo wr).1 = none) :
    (b.writeTo wr).2 = b := by
  unfold writeTo at h ⊢
  split at h
  · cases h
  · rename_i hne
    rw [if_neg hne]
    cases hwrite : wr.writeVectored (b.chunks.take 64) with
    | none => rfl
    | some taken =>
        rw [hwrite] at h
        cases h

theorem noEmpty_writeTo (wr : Writer) {b : ChunkVecBuffer} (h : NoEmpty b.chunks) :
    NoEmpty (b.writeTo wr).2.chunks := by
  unfold writeTo
  split
  · exact h
  · cases wr.writeVectored (b.chunks.take 64) with
    | none => exact h
    | some used => exact h.consume used

/-! ## Sequences of operations -/

inductive Op where
  | append (bytes : List UInt8)
  | appendLimitedCopy (bytes : List UInt8)
  | pop
  | read (buf : List UInt8)
  | writeTo (wr : Writer)
  | setLimit (limit : Option Nat)

/-- The buffer, the bytes put in, as many as reported, and the bytes taken out. -/
structure Log where
  buffer : ChunkVecBuffer
  put : List UInt8
  taken : List UInt8

def step (log : Log) : Op → Log
  | .append bytes =>
      let (used, buffer) := log.buffer.append bytes
      { log with buffer, put := log.put ++ bytes.take used }
  | .appendLimitedCopy bytes =>
      let (used, buffer) := log.buffer.appendLimitedCopy bytes
      { log with buffer, put := log.put ++ bytes.take used }
  | .pop =>
      let (chunk, buffer) := log.buffer.pop
      { log with buffer, taken := log.taken ++ chunk.getD [] }
  | .read buf =>
      let ((used, buf), buffer) := log.buffer.read buf
      { log with buffer, taken := log.taken ++ buf.take used }
  | .writeTo wr =>
      let (used, buffer) := log.buffer.writeTo wr
      let offered := (log.buffer.chunks.take 64).flatten
      { log with buffer, taken := log.taken ++ offered.take (used.getD 0) }
  | .setLimit limit => { log with buffer := log.buffer.setLimit limit }

def run (limit : Option Nat) (ops : List Op) : Log := ops.foldl step ⟨new limit, [], []⟩

/-- What was taken and what is left are what was put in, and no chunk is empty. -/
structure Fifo (log : Log) : Prop where
  bytes : log.taken ++ log.buffer.chunks.flatten = log.put
  noEmpty : NoEmpty log.buffer.chunks

theorem take_flatten_take {chunks : List (List UInt8)} {used n : Nat}
    (h : used ≤ (chunks.take n).flatten.length) :
    (chunks.take n).flatten.take used = chunks.flatten.take used := by
  conv_rhs => rw [← List.take_append_drop n chunks, List.flatten_append]
  rw [List.take_append_of_le_length h]

theorem Fifo.step {log : Log} (h : Fifo log) (op : Op) : Fifo (step log op) := by
  have hbytes := h.bytes
  cases op with
  | append bytes =>
      refine ⟨?_, noEmpty_append bytes h.noEmpty⟩
      have htake : bytes.take (log.buffer.append bytes).1 = bytes := List.take_length
      simp only [ChunkVecBuffer.step]
      rw [flatten_append, htake, ← List.append_assoc, hbytes]
  | appendLimitedCopy bytes =>
      refine ⟨?_, noEmpty_append _ h.noEmpty⟩
      simp only [ChunkVecBuffer.step, appendLimitedCopy]
      rw [flatten_append, ← List.append_assoc, hbytes]
  | pop =>
      refine ⟨?_, fun chunk hchunk => h.noEmpty chunk (List.mem_of_mem_tail hchunk)⟩
      simp only [ChunkVecBuffer.step, pop]
      rw [← hbytes]
      cases log.buffer.chunks with
      | nil => simp
      | cons chunk chunks => simp
  | read buf =>
      obtain ⟨hread, hrest⟩ := read_eq buf log.buffer
      refine ⟨?_, noEmpty_readLoop buf.length [] h.noEmpty⟩
      simp only [ChunkVecBuffer.step, hrest, hread, len_eq]
      rw [List.take_left' List.length_take, List.append_assoc, List.take_append_drop, hbytes]
  | writeTo wr =>
      refine ⟨?_, noEmpty_writeTo wr h.noEmpty⟩
      simp only [ChunkVecBuffer.step]
      cases hused : (log.buffer.writeTo wr).1 with
      | none =>
          rw [writeTo_error wr hused, Option.getD_none, List.take_zero, List.append_nil]
          exact hbytes
      | some used =>
          obtain ⟨hle, hrest⟩ := writeTo_eq wr hused
          rw [hrest, Option.getD_some, take_flatten_take hle, List.append_assoc,
            List.take_append_drop, hbytes]
  | setLimit limit => exact ⟨hbytes, h.noEmpty⟩

theorem Fifo.run (limit : Option Nat) (ops : List Op) : Fifo (run limit ops) := by
  induction ops using List.reverseRecOn with
  | nil => exact ⟨rfl, fun chunk hchunk => absurd hchunk List.not_mem_nil⟩
  | append_singleton ops op ih =>
      rw [ChunkVecBuffer.run, List.foldl_append]
      exact ih.step op

/-- Over every sequence of operations the buffer is a queue of bytes which limited
appends never raise above the limit. A read fills as much as there is, and a writer takes
as much as it says. -/
theorem run_fifo (limit : Option Nat) (ops : List Op) :
    (run limit ops).taken ++ (run limit ops).buffer.chunks.flatten = (run limit ops).put ∧
      (run limit ops).buffer.len = (run limit ops).buffer.chunks.flatten.length ∧
      (∀ chunk ∈ (run limit ops).buffer.chunks, chunk ≠ []) ∧
      (∀ (bytes : List UInt8) (max : Nat), (run limit ops).buffer.limit = some max →
        ((run limit ops).buffer.appendLimitedCopy bytes).1 =
            min bytes.length (max - (run limit ops).buffer.len) ∧
          ((run limit ops).buffer.appendLimitedCopy bytes).2.len ≤
            Nat.max max (run limit ops).buffer.len) ∧
      (∀ buf : List UInt8,
        ((run limit ops).buffer.read buf).1 = (min buf.length (run limit ops).buffer.len,
            (run limit ops).buffer.chunks.flatten.take buf.length ++
              buf.drop (run limit ops).buffer.chunks.flatten.length) ∧
          ((run limit ops).buffer.read buf).2.chunks.flatten =
            (run limit ops).buffer.chunks.flatten.drop buf.length) ∧
      ∀ (wr : Writer) (used : Nat), ((run limit ops).buffer.writeTo wr).1 = some used →
        ((run limit ops).buffer.chunks = [] ∧ used = 0 ∨
          wr.writeVectored ((run limit ops).buffer.chunks.take 64) = some used) ∧
        ((run limit ops).buffer.writeTo wr).2.chunks.flatten =
          (run limit ops).buffer.chunks.flatten.drop used := by
  have h := Fifo.run limit ops
  refine ⟨h.bytes, len_eq _, h.noEmpty, ?_, fun buf => read_eq buf _, ?_⟩
  · intro bytes max hmax
    refine ⟨?_, len_appendLimitedCopy_le bytes hmax⟩
    simp only [appendLimitedCopy, applyLimit, hmax]
  · intro wr used hused
    exact ⟨writeTo_used wr hused, (writeTo_eq wr hused).2⟩

/-- A writer which takes four bytes at most. -/
def slowWriter : Writer where
  writeVectored slices := some (min 4 slices.flatten.length)
  le slices used h := by
    cases h
    exact Nat.min_le_right _ _

/-- Ten bytes in a buffer limited to twelve, of which three are read and four are written. -/
def sampleOps : List Op :=
  [.append [1, 2, 3, 4, 5], .appendLimitedCopy [6, 7, 8, 9, 10], .read [0, 0, 0],
    .writeTo slowWriter]

theorem run_fifo_at_limit :
    (run (some 12) sampleOps).taken = [1, 2, 3, 4, 5, 6, 7] ∧
      (run (some 12) sampleOps).buffer.len = 3 ∧
      ((run (some 12) sampleOps).buffer.appendLimitedCopy (List.replicate 15 11)).1 = 9 ∧
      ((run (some 12) sampleOps).buffer.read [0, 0]).1 = (2, [8, 9]) := by
  obtain ⟨hbytes, hlen, -, hlimited, hread, -⟩ := run_fifo (some 12) sampleOps
  have htaken : (run (some 12) sampleOps).taken = [1, 2, 3, 4, 5, 6, 7] := by decide +kernel
  have hput : (run (some 12) sampleOps).put = [1, 2, 3, 4, 5, 6, 7] ++ [8, 9, 10] := by
    decide +kernel
  rw [htaken, hput, List.append_cancel_left_eq] at hbytes
  rw [hbytes] at hlen
  refine ⟨htaken, hlen, ?_, ?_⟩
  · rw [(hlimited _ 12 (by decide +kernel)).1, hlen]
    rfl
  · rw [(hread _).1, hlen, hbytes]
    rfl

end ChunkVecBuffer

end Tlsn.Tls
