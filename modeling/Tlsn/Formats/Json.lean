import Tlsn.Core.Commit

/-!
Commitments to the parts of a JSON value. A value is the tree of its parsed
parts, each with the positions of the transcript it stands at: the span of a
string is what stands between its quotes, the span of an object or an array
takes in its brackets.
-/

namespace Tlsn.Core.TranscriptCommitConfigBuilder

@[simp] theorem insertCommit_transcript (builder : TranscriptCommitConfigBuilder)
    (c : Commitment) : (builder.insertCommit c).transcript = builder.transcript := by
  unfold insertCommit
  split <;> rfl

@[simp] theorem insertCommit_defaultKind (builder : TranscriptCommitConfigBuilder)
    (c : Commitment) : (builder.insertCommit c).defaultKind = builder.defaultKind := by
  unfold insertCommit
  split <;> rfl

@[simp] theorem mem_insertCommit {builder : TranscriptCommitConfigBuilder} {c d : Commitment} :
    d ∈ (builder.insertCommit c).commits ↔ d = c ∨ d ∈ builder.commits := by
  unfold insertCommit
  split
  · rename_i h
    constructor
    · exact Or.inr
    · rintro (rfl | hd)
      · exact h
      · exact hd
  · exact List.mem_cons

/-- The builder with each of the ranges committed, in the default kind. -/
def commitAll (builder : TranscriptCommitConfigBuilder) (direction : Direction) :
    List Idx → TranscriptCommitConfigBuilder
  | [] => builder
  | r :: rs => (builder.insertCommit ((direction, r), builder.defaultKind)).commitAll direction rs

@[simp] theorem commitAll_transcript (builder : TranscriptCommitConfigBuilder)
    (direction : Direction) (rs : List Idx) :
    (builder.commitAll direction rs).transcript = builder.transcript := by
  induction rs generalizing builder with
  | nil => rfl
  | cons r rs ih => rw [commitAll, ih, insertCommit_transcript]

theorem commitAll_append (builder : TranscriptCommitConfigBuilder) (direction : Direction)
    (rs rs' : List Idx) : builder.commitAll direction (rs ++ rs') =
      (builder.commitAll direction rs).commitAll direction rs' := by
  induction rs generalizing builder with
  | nil => rfl
  | cons r rs ih => rw [List.cons_append, commitAll, ih, ← commitAll]

/-- The commitments that are added are the ranges, and no others. -/
theorem mem_commitAll {builder : TranscriptCommitConfigBuilder} {direction : Direction}
    {rs : List Idx} {c : Commitment} : c ∈ (builder.commitAll direction rs).commits ↔
      c ∈ builder.commits ∨ ∃ r ∈ rs, c = ((direction, r), builder.defaultKind) := by
  induction rs generalizing builder with
  | nil => simp [commitAll]
  | cons r rs ih =>
      rw [commitAll, ih, mem_insertCommit, insertCommit_defaultKind, List.exists_mem_cons_iff]
      tauto

theorem commit_ok {builder : TranscriptCommitConfigBuilder} {ranges : Idx}
    {direction : Direction} (h : ranges.stop ≤ builder.transcript.lenOfDirection direction) :
    builder.commit ranges direction = .ok (builder.commitAll direction [ranges]) :=
  if_neg (Nat.not_lt.mpr h)

end Tlsn.Core.TranscriptCommitConfigBuilder

namespace Tlsn.Formats

open Tlsn.Core

structure JsonCommitError where
  msg : String
  source : Option TranscriptCommitConfigBuilderError
deriving DecidableEq

def JsonCommitError.newWithSource (msg : String) (source : TranscriptCommitConfigBuilderError) :
    JsonCommitError :=
  ⟨msg, some source⟩

mutual

inductive JsonValue where
  | object (obj : JsonObject)
  | array (arr : JsonArray)
  | string (span : Idx)
  | number (span : Idx)
  | bool (span : Idx)
  | null (span : Idx)

inductive JsonObject where
  | mk (span : Idx) (elems : List KeyValue)

inductive KeyValue where
  | mk (span : Idx) (value : JsonValue)

inductive JsonArray where
  | mk (span : Idx) (elems : List JsonValue)

end

def JsonObject.span : JsonObject → Idx
  | .mk span _ => span

def JsonObject.elems : JsonObject → List KeyValue
  | .mk _ elems => elems

def KeyValue.span : KeyValue → Idx
  | .mk span _ => span

def KeyValue.value : KeyValue → JsonValue
  | .mk _ value => value

def JsonArray.span : JsonArray → Idx
  | .mk span _ => span

def JsonArray.elems : JsonArray → List JsonValue
  | .mk _ elems => elems

def JsonValue.span : JsonValue → Idx
  | .object obj => obj.span
  | .array arr => arr.span
  | .string span | .number span | .bool span | .null span => span

def JsonObject.withoutPairs (object : JsonObject) : Idx :=
  object.span.differenceAll (object.elems.map KeyValue.span)

def KeyValue.withoutValue (kv : KeyValue) : Idx := kv.span.difference kv.value.span

def JsonArray.withoutValues (array : JsonArray) : Idx :=
  array.span.differenceAll (array.elems.map JsonValue.span)

namespace DefaultJsonCommitter

/-- A commitment to one range, its failure under the message of the part. -/
def commitSpan (msg : String) (builder : TranscriptCommitConfigBuilder) (ranges : Idx)
    (direction : Direction) : Except JsonCommitError TranscriptCommitConfigBuilder :=
  (builder.commit ranges direction).mapError (JsonCommitError.newWithSource msg)

def commitArray (builder : TranscriptCommitConfigBuilder) (array : JsonArray)
    (direction : Direction) : Except JsonCommitError TranscriptCommitConfigBuilder := do
  let builder ← commitSpan "failed to commit array" builder array.span direction
  -- The elements are not committed on their own.
  if array.elems.isEmpty then return builder
  else commitSpan "failed to commit array excluding values" builder array.withoutValues direction

def commitString (builder : TranscriptCommitConfigBuilder) (string : Idx)
    (direction : Direction) : Except JsonCommitError TranscriptCommitConfigBuilder :=
  if string.isEmpty then .ok builder
  else commitSpan "failed to commit string" builder string direction

def commitNumber : TranscriptCommitConfigBuilder → Idx → Direction →
    Except JsonCommitError TranscriptCommitConfigBuilder :=
  commitSpan "failed to commit number"

def commitBool : TranscriptCommitConfigBuilder → Idx → Direction →
    Except JsonCommitError TranscriptCommitConfigBuilder :=
  commitSpan "failed to commit boolean"

def commitNull : TranscriptCommitConfigBuilder → Idx → Direction →
    Except JsonCommitError TranscriptCommitConfigBuilder :=
  commitSpan "failed to commit null"

mutual

def commitValue (builder : TranscriptCommitConfigBuilder) (value : JsonValue)
    (direction : Direction) : Except JsonCommitError TranscriptCommitConfigBuilder :=
  match value with
  | .object obj => commitObject builder obj direction
  | .array arr => commitArray builder arr direction
  | .string string => commitString builder string direction
  | .number number => commitNumber builder number direction
  | .bool boolean => commitBool builder boolean direction
  | .null null => commitNull builder null direction

def commitObject (builder : TranscriptCommitConfigBuilder) (object : JsonObject)
    (direction : Direction) : Except JsonCommitError TranscriptCommitConfigBuilder :=
  match object with
  | .mk span elems => do
      let builder ← commitSpan "failed to commit object" builder
        (JsonObject.mk span elems).withoutPairs direction
      commitPairs builder elems direction

/-- The loop of `commitObject`. -/
def commitPairs (builder : TranscriptCommitConfigBuilder) (elems : List KeyValue)
    (direction : Direction) : Except JsonCommitError TranscriptCommitConfigBuilder :=
  match elems with
  | [] => .ok builder
  | kv :: elems => do
      let builder ← commitKeyValue builder kv direction
      commitPairs builder elems direction

def commitKeyValue (builder : TranscriptCommitConfigBuilder) (kv : KeyValue)
    (direction : Direction) : Except JsonCommitError TranscriptCommitConfigBuilder :=
  match kv with
  | .mk span value => do
      let builder ← commitSpan "failed to commit key-value pair excluding the value" builder
        (KeyValue.mk span value).withoutValue direction
      commitValue builder value direction

end

end DefaultJsonCommitter

mutual

/-- Every part stands within the part it is parsed from. -/
def JsonValue.Nested : JsonValue → Prop
  | .object obj => obj.Nested
  | .array arr => ∀ value ∈ arr.elems, ∀ p ∈ value.span, p ∈ arr.span
  | .string _ | .number _ | .bool _ | .null _ => True

def JsonObject.Nested : JsonObject → Prop
  | .mk span elems => pairsNested span elems

def pairsNested (span : Idx) : List KeyValue → Prop
  | [] => True
  | kv :: elems => ((∀ p ∈ kv.span, p ∈ span) ∧ kv.Nested) ∧ pairsNested span elems

def KeyValue.Nested : KeyValue → Prop
  | .mk span value => (∀ p ∈ value.span, p ∈ span) ∧ value.Nested

end

def JsonArray.ranges (array : JsonArray) : List Idx :=
  array.span :: if array.elems.isEmpty then [] else [array.withoutValues]

mutual

/-- What is committed for a value, in the order of the commitments. -/
def JsonValue.ranges : JsonValue → List Idx
  | .object obj => obj.ranges
  | .array arr => arr.ranges
  | .string span => if span.isEmpty then [] else [span]
  | .number span | .bool span | .null span => [span]

def JsonObject.ranges : JsonObject → List Idx
  | .mk span elems => (JsonObject.mk span elems).withoutPairs :: pairsRanges elems

def pairsRanges : List KeyValue → List Idx
  | [] => []
  | kv :: elems => kv.ranges ++ pairsRanges elems

def KeyValue.ranges : KeyValue → List Idx
  | .mk span value => (KeyValue.mk span value).withoutValue :: value.ranges

end

theorem mem_pairsRanges {elems : List KeyValue} {r : Idx} :
    r ∈ pairsRanges elems ↔ ∃ kv ∈ elems, r ∈ kv.ranges := by
  induction elems with
  | nil => simp [pairsRanges]
  | cons kv elems ih => rw [pairsRanges, List.mem_append, ih, List.exists_mem_cons_iff]

theorem JsonObject.mem_ranges {object : JsonObject} {r : Idx} : r ∈ object.ranges ↔
    r = object.withoutPairs ∨ ∃ kv ∈ object.elems, r ∈ kv.ranges := by
  cases object with
  | mk span elems => rw [JsonObject.ranges, List.mem_cons, mem_pairsRanges, JsonObject.elems]

theorem KeyValue.mem_ranges {kv : KeyValue} {r : Idx} : r ∈ kv.ranges ↔
    r = kv.withoutValue ∨ r ∈ kv.value.ranges := by
  cases kv with
  | mk span value => rw [KeyValue.ranges, List.mem_cons, KeyValue.value]

theorem pairsNested_iff {span : Idx} {elems : List KeyValue} : pairsNested span elems ↔
    ∀ kv ∈ elems, (∀ p ∈ kv.span, p ∈ span) ∧ kv.Nested := by
  induction elems with
  | nil => simp [pairsNested]
  | cons kv elems ih => rw [pairsNested, ih, List.forall_mem_cons]

theorem JsonObject.nested_iff {object : JsonObject} : object.Nested ↔
    ∀ kv ∈ object.elems, (∀ p ∈ kv.span, p ∈ object.span) ∧ kv.Nested := by
  cases object with
  | mk span elems =>
      rw [JsonObject.Nested, pairsNested_iff, JsonObject.elems, JsonObject.span]

theorem KeyValue.nested_iff {kv : KeyValue} : kv.Nested ↔
    (∀ p ∈ kv.value.span, p ∈ kv.span) ∧ kv.value.Nested := by
  cases kv with
  | mk span value => rw [KeyValue.Nested, KeyValue.value, KeyValue.span]

/-- Induction over the nesting of objects; the elements of an array are not
looked into. -/
theorem JsonValue.objects_induct {motive : JsonValue → Prop}
    (object : ∀ obj : JsonObject, (∀ kv ∈ obj.elems, motive kv.value) → motive (.object obj))
    (array : ∀ arr, motive (.array arr)) (string : ∀ span, motive (.string span))
    (number : ∀ span, motive (.number span)) (bool : ∀ span, motive (.bool span))
    (null : ∀ span, motive (.null span)) (value : JsonValue) : motive value :=
  @JsonValue.rec motive (fun obj => ∀ kv ∈ obj.elems, motive kv.value)
    (fun kv => motive kv.value) (fun _ => True) (fun elems => ∀ kv ∈ elems, motive kv.value)
    (fun _ => True) object (fun arr _ => array arr) string number bool null (fun _ _ h => h)
    (fun _ _ h => h) (fun _ _ _ => trivial) (by simp)
    (fun _ _ hkv helems => List.forall_mem_cons.mpr ⟨hkv, helems⟩) trivial
    (fun _ _ _ _ => trivial) value

theorem JsonObject.mem_span_iff {object : JsonObject} {p : Nat} (h : object.Nested) :
    p ∈ object.span ↔ p ∈ object.withoutPairs ∨ ∃ kv ∈ object.elems, p ∈ kv.span := by
  rw [JsonObject.withoutPairs, RangeSet.mem_differenceAll, List.forall_mem_map]
  constructor
  · intro hp
    by_cases hkv : ∃ kv ∈ object.elems, p ∈ kv.span
    · exact Or.inr hkv
    · exact Or.inl ⟨hp, fun kv hmem hin => hkv ⟨kv, hmem, hin⟩⟩
  · rintro (⟨hp, -⟩ | ⟨kv, hkv, hp⟩)
    · exact hp
    · exact (JsonObject.nested_iff.mp h kv hkv).1 p hp

theorem KeyValue.mem_span_iff {kv : KeyValue} {p : Nat} (h : kv.Nested) :
    p ∈ kv.span ↔ p ∈ kv.withoutValue ∨ p ∈ kv.value.span := by
  rw [KeyValue.withoutValue, RangeSet.mem_difference]
  constructor
  · intro hp
    by_cases hv : p ∈ kv.value.span
    · exact Or.inr hv
    · exact Or.inl ⟨hp, hv⟩
  · rintro (⟨hp, -⟩ | hv)
    · exact hp
    · exact (KeyValue.nested_iff.mp h).1 p hv

theorem JsonArray.mem_ranges_span {array : JsonArray} {p : Nat} :
    (∃ r ∈ array.ranges, p ∈ r) ↔ p ∈ array.span := by
  rw [JsonArray.ranges, List.exists_mem_cons_iff]
  constructor
  · rintro (hp | ⟨r, hr, hp⟩)
    · exact hp
    · split at hr
      · cases hr
      · cases List.mem_singleton.mp hr
        exact (RangeSet.mem_differenceAll.mp hp).1
  · exact Or.inl

/-- The ranges of a value cover its span, and nothing else. -/
theorem JsonValue.mem_ranges_span {value : JsonValue} (h : value.Nested) (p : Nat) :
    (∃ r ∈ value.ranges, p ∈ r) ↔ p ∈ value.span := by
  have hone : ∀ span : Idx, (∃ r ∈ [span], p ∈ r) ↔ p ∈ span := by simp
  induction value using JsonValue.objects_induct with
  | object obj ih =>
      have hobj : obj.Nested := h
      have hkv : ∀ kv ∈ obj.elems, (∃ r ∈ kv.ranges, p ∈ r) ↔ p ∈ kv.span := by
        intro kv hkv
        have hnested := (JsonObject.nested_iff.mp hobj kv hkv).2
        have hvalue : (∃ r ∈ kv.value.ranges, p ∈ r) ↔ p ∈ kv.value.span :=
          ih kv hkv (KeyValue.nested_iff.mp hnested).2
        rw [KeyValue.mem_span_iff hnested, ← hvalue]
        simp only [KeyValue.mem_ranges, or_and_right, exists_or, exists_eq_left]
      rw [JsonValue.span, JsonObject.mem_span_iff hobj]
      simp only [JsonValue.ranges, JsonObject.mem_ranges, or_and_right, exists_or, exists_eq_left]
      apply or_congr_right
      constructor
      · rintro ⟨r, ⟨kv, hmem, hr⟩, hp⟩
        exact ⟨kv, hmem, (hkv kv hmem).mp ⟨r, hr, hp⟩⟩
      · rintro ⟨kv, hmem, hp⟩
        obtain ⟨r, hr, hp⟩ := (hkv kv hmem).mpr hp
        exact ⟨r, ⟨kv, hmem, hr⟩, hp⟩
  | array arr => exact JsonArray.mem_ranges_span
  | string span =>
      rw [JsonValue.ranges, JsonValue.span]
      split
      · rename_i hempty
        simp [RangeSet.isEmpty_iff.mp hempty p]
      · exact hone span
  | number span => exact hone span
  | bool span => exact hone span
  | null span => exact hone span

namespace DefaultJsonCommitter

theorem commitSpan_ok {msg : String} {builder : TranscriptCommitConfigBuilder} {ranges : Idx}
    {direction : Direction} (h : ranges.stop ≤ builder.transcript.lenOfDirection direction) :
    commitSpan msg builder ranges direction = .ok (builder.commitAll direction [ranges]) := by
  rw [commitSpan, TranscriptCommitConfigBuilder.commit_ok h]
  rfl

theorem commitArray_ok {builder : TranscriptCommitConfigBuilder} {array : JsonArray}
    {direction : Direction}
    (h : array.span.stop ≤ builder.transcript.lenOfDirection direction) :
    commitArray builder array direction = .ok (builder.commitAll direction array.ranges) := by
  rw [commitArray, commitSpan_ok h, JsonArray.ranges]
  refine (Fault.ok_bind _ _).trans ?_
  split
  · rfl
  · rw [commitSpan_ok]
    · rfl
    · rw [TranscriptCommitConfigBuilder.commitAll_transcript]
      exact RangeSet.stop_le_of_subset (fun p hp => (RangeSet.mem_differenceAll.mp hp).1) h

theorem commitString_ok {builder : TranscriptCommitConfigBuilder} {string : Idx}
    {direction : Direction} (h : string.stop ≤ builder.transcript.lenOfDirection direction) :
    commitString builder string direction =
      .ok (builder.commitAll direction (JsonValue.string string).ranges) := by
  rw [commitString, JsonValue.ranges]
  split
  · rfl
  · exact commitSpan_ok h

theorem commitObject_eq (builder : TranscriptCommitConfigBuilder) (object : JsonObject)
    (direction : Direction) : commitObject builder object direction =
      (commitSpan "failed to commit object" builder object.withoutPairs direction >>= fun b =>
        commitPairs b object.elems direction) := by
  cases object with
  | mk span elems => rw [commitObject, JsonObject.elems]

theorem commitKeyValue_eq (builder : TranscriptCommitConfigBuilder) (kv : KeyValue)
    (direction : Direction) : commitKeyValue builder kv direction =
      (commitSpan "failed to commit key-value pair excluding the value" builder kv.withoutValue
        direction >>= fun b => commitValue b kv.value direction) := by
  cases kv with
  | mk span value => rw [commitKeyValue, KeyValue.value]

theorem commitKeyValue_ok {direction : Direction} {kv : KeyValue} (h : kv.Nested)
    (hvalue : ∀ builder : TranscriptCommitConfigBuilder,
      kv.value.span.stop ≤ builder.transcript.lenOfDirection direction →
        commitValue builder kv.value direction = .ok (builder.commitAll direction kv.value.ranges))
    (builder : TranscriptCommitConfigBuilder)
    (hstop : kv.span.stop ≤ builder.transcript.lenOfDirection direction) :
    commitKeyValue builder kv direction = .ok (builder.commitAll direction kv.ranges) := by
  have hranges : kv.ranges = kv.withoutValue :: kv.value.ranges := by
    cases kv with
    | mk span value => rw [KeyValue.ranges, KeyValue.value]
  have hkey : kv.withoutValue.stop ≤ builder.transcript.lenOfDirection direction :=
    Nat.le_trans RangeSet.difference_stop_le hstop
  have hin : kv.value.span.stop ≤ (builder.commitAll direction
      [kv.withoutValue]).transcript.lenOfDirection direction := by
    rw [TranscriptCommitConfigBuilder.commitAll_transcript]
    exact RangeSet.stop_le_of_subset (KeyValue.nested_iff.mp h).1 hstop
  rw [commitKeyValue_eq, commitSpan_ok hkey, Fault.ok_bind, hvalue _ hin, hranges,
    ← TranscriptCommitConfigBuilder.commitAll_append, List.singleton_append]

theorem commitPairs_ok {direction : Direction} {elems : List KeyValue} {len : Nat}
    (hkv : ∀ kv ∈ elems, ∀ builder : TranscriptCommitConfigBuilder,
      builder.transcript.lenOfDirection direction = len →
        commitKeyValue builder kv direction = .ok (builder.commitAll direction kv.ranges))
    (builder : TranscriptCommitConfigBuilder)
    (hlen : builder.transcript.lenOfDirection direction = len) :
    commitPairs builder elems direction =
      .ok (builder.commitAll direction (pairsRanges elems)) := by
  induction elems generalizing builder with
  | nil => rw [commitPairs, pairsRanges, TranscriptCommitConfigBuilder.commitAll]
  | cons kv elems ih =>
      obtain ⟨hfirst, hrest⟩ := List.forall_mem_cons.mp hkv
      rw [commitPairs, hfirst builder hlen, Fault.ok_bind, pairsRanges,
        TranscriptCommitConfigBuilder.commitAll_append]
      apply ih hrest
      rw [TranscriptCommitConfigBuilder.commitAll_transcript]
      exact hlen

/-- A value that stands in the transcript has each of its ranges committed. -/
theorem commitValue_ok {direction : Direction} {value : JsonValue} (h : value.Nested)
    (builder : TranscriptCommitConfigBuilder)
    (hstop : value.span.stop ≤ builder.transcript.lenOfDirection direction) :
    commitValue builder value direction = .ok (builder.commitAll direction value.ranges) := by
  induction value using JsonValue.objects_induct generalizing builder with
  | object obj ih =>
      have hobj := JsonObject.nested_iff.mp h
      have hranges : obj.ranges = obj.withoutPairs :: pairsRanges obj.elems := by
        cases obj with
        | mk span elems => rw [JsonObject.ranges, JsonObject.elems]
      have hframe : obj.withoutPairs.stop ≤ builder.transcript.lenOfDirection direction :=
        RangeSet.stop_le_of_subset (fun p hp => (RangeSet.mem_differenceAll.mp hp).1) hstop
      have hpairs : ∀ kv ∈ obj.elems, ∀ b : TranscriptCommitConfigBuilder,
          b.transcript.lenOfDirection direction = builder.transcript.lenOfDirection direction →
            commitKeyValue b kv direction = .ok (b.commitAll direction kv.ranges) := by
        intro kv hkv b hlen
        obtain ⟨hin, hkvn⟩ := hobj kv hkv
        apply commitKeyValue_ok hkvn
        · intro b'
          exact ih kv hkv (KeyValue.nested_iff.mp hkvn).2 b'
        · rw [hlen]
          exact RangeSet.stop_le_of_subset hin hstop
      rw [commitValue, commitObject_eq, commitSpan_ok hframe, Fault.ok_bind,
        commitPairs_ok hpairs _ (by rw [TranscriptCommitConfigBuilder.commitAll_transcript]),
        ← TranscriptCommitConfigBuilder.commitAll_append, JsonValue.ranges, hranges,
        List.singleton_append]
  | array arr => exact commitArray_ok hstop
  | string span => exact commitString_ok hstop
  | number span => exact commitSpan_ok hstop
  | bool span => exact commitSpan_ok hstop
  | null span => exact commitSpan_ok hstop

end DefaultJsonCommitter

/-- `value.Outside w`: the value `w` stands in `value`, outside of any array. -/
inductive JsonValue.Outside : JsonValue → JsonValue → Prop
  | self (value : JsonValue) : JsonValue.Outside value value
  | pair {object : JsonObject} {kv : KeyValue} {w : JsonValue} (hkv : kv ∈ object.elems)
      (hw : JsonValue.Outside kv.value w) : JsonValue.Outside (.object object) w

def JsonValue.isScalar : JsonValue → Bool
  | .object _ | .array _ => false
  | .string _ | .number _ | .bool _ | .null _ => true

theorem JsonValue.Outside.ranges_subset {value w : JsonValue} (h : value.Outside w) :
    ∀ r ∈ w.ranges, r ∈ value.ranges := by
  induction h with
  | self value => exact fun r hr => hr
  | pair hkv hw ih =>
      intro r hr
      rw [JsonValue.ranges, JsonObject.mem_ranges]
      exact Or.inr ⟨_, hkv, KeyValue.mem_ranges.mpr (Or.inr (ih r hr))⟩

/-- A scalar outside of any array has a commitment of its own. -/
theorem JsonValue.Outside.scalar_mem {value w : JsonValue} (h : value.Outside w)
    (hw : w.isScalar = true) (hne : w.span.isEmpty = false) : w.span ∈ value.ranges := by
  apply h.ranges_subset
  cases w with
  | object obj => cases hw
  | array arr => cases hw
  | string span =>
      have hspan : span.isEmpty = false := hne
      simp [JsonValue.ranges, JsonValue.span, hspan]
  | number span => exact List.mem_singleton_self span
  | bool span => exact List.mem_singleton_self span
  | null span => exact List.mem_singleton_self span

/-- So has a key-value pair without its value. -/
theorem JsonValue.Outside.pair_mem {value : JsonValue} {object : JsonObject} {kv : KeyValue}
    (h : value.Outside (.object object)) (hkv : kv ∈ object.elems) :
    kv.withoutValue ∈ value.ranges := by
  apply h.ranges_subset
  rw [JsonValue.ranges, JsonObject.mem_ranges]
  exact Or.inr ⟨kv, hkv, KeyValue.mem_ranges.mpr (Or.inl rfl)⟩

end Tlsn.Formats
