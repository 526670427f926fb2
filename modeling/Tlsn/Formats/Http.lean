import Tlsn.Formats.Json

/-!
Commitments to the parts of HTTP messages: the message as a whole, what is left
of it without its fields and its body, and each of those.
-/

namespace Tlsn.Formats

open Tlsn.Core

inductive MessageKind where
  | request
  | response
deriving DecidableEq

/-- What a commitment of an HTTP part may fail with. -/
inductive HttpCommitSource where
  | builder (e : TranscriptCommitConfigBuilderError)
  | json (e : JsonCommitError)
deriving DecidableEq

structure HttpCommitError where
  idx : Option Nat
  recordKind : MessageKind
  msg : String
  source : Option HttpCommitSource
deriving DecidableEq

def HttpCommitError.newWithSource (recordKind : MessageKind) (msg : String)
    (source : HttpCommitSource) : HttpCommitError :=
  ⟨none, recordKind, msg, some source⟩

structure HeaderName where
  span : Idx
  asStr : String

structure Header where
  span : Idx
  name : HeaderName
  value : Idx

def Header.withoutValue (header : Header) : Idx := header.span.difference header.value

inductive BodyContent where
  | json (value : JsonValue)
  | unknown (span : Idx)

def BodyContent.span : BodyContent → Idx
  | .json value => value.span
  | .unknown span => span

structure Body where
  span : Idx
  content : BodyContent

structure RequestLine where
  span : Idx
  method : Idx
  target : Idx

structure Request where
  span : Idx
  request : RequestLine
  headers : List Header
  body : Option Body

structure Status where
  span : Idx

structure Response where
  span : Idx
  status : Status
  headers : List Header
  body : Option Body

def Request.withoutData (request : Request) : Idx :=
  request.span.differenceAll (request.request.target ::
    (request.headers.map Header.span ++ (request.body.map Body.span).toList))

def Response.withoutData (response : Response) : Idx :=
  response.span.differenceAll
    (response.headers.map Header.span ++ (response.body.map Body.span).toList)

structure HttpTranscript where
  requests : List Request
  responses : List Response

namespace DefaultHttpCommitter

/-- A commitment to one range, its failure under the kind and message of the part. -/
def commitSpan (kind : MessageKind) (msg : String) (builder : TranscriptCommitConfigBuilder)
    (ranges : Idx) (direction : Direction) :
    Except HttpCommitError TranscriptCommitConfigBuilder :=
  (builder.commit ranges direction).mapError fun e =>
    HttpCommitError.newWithSource kind msg (.builder e)

def commitTarget (builder : TranscriptCommitConfigBuilder) (direction : Direction)
    (target : Idx) : Except HttpCommitError TranscriptCommitConfigBuilder :=
  commitSpan .request "failed to commit to target in request" builder target direction

/-- A header as a whole, then without its value when there is one; `excluding` ends
the message of the second failure. -/
def commitHeader (kind : MessageKind) (excluding : String)
    (builder : TranscriptCommitConfigBuilder) (direction : Direction) (header : Header) :
    Except HttpCommitError TranscriptCommitConfigBuilder := do
  let msg := "failed to commit to \"" ++ header.name.asStr ++ "\" header"
  let builder ← commitSpan kind msg builder header.span direction
  if header.value.isEmpty then return builder
  else commitSpan kind (msg ++ excluding) builder header.withoutValue direction

def commitRequestHeader : TranscriptCommitConfigBuilder → Direction → Header →
    Except HttpCommitError TranscriptCommitConfigBuilder :=
  commitHeader .request " excluding value"

def commitResponseHeader : TranscriptCommitConfigBuilder → Direction → Header →
    Except HttpCommitError TranscriptCommitConfigBuilder :=
  commitHeader .response " excluding value in response"

/-- A body by its format. A failure on an unknown format is reported as one of a
request, also in a response. -/
def commitBody (kind : MessageKind) (builder : TranscriptCommitConfigBuilder)
    (direction : Direction) (body : Body) :
    Except HttpCommitError TranscriptCommitConfigBuilder :=
  match body.content with
  | .json value =>
      (DefaultJsonCommitter.commitValue builder value direction).mapError fun e =>
        HttpCommitError.newWithSource kind "failed to commit to JSON body" (.json e)
  | .unknown span =>
      commitSpan .request "failed to commit to unknown content body" builder span direction

def commitRequestBody : TranscriptCommitConfigBuilder → Direction → Body →
    Except HttpCommitError TranscriptCommitConfigBuilder :=
  commitBody .request

def commitResponseBody : TranscriptCommitConfigBuilder → Direction → Body →
    Except HttpCommitError TranscriptCommitConfigBuilder :=
  commitBody .response

/-- What is left of a message without its data, when it has headers or a body. -/
def commitWithoutData (kind : MessageKind) (msg : String) (builder : TranscriptCommitConfigBuilder)
    (direction : Direction) (headers : List Header) (body : Option Body) (withoutData : Idx) :
    Except HttpCommitError TranscriptCommitConfigBuilder :=
  if !headers.isEmpty || body.isSome then commitSpan kind msg builder withoutData direction
  else .ok builder

def commitRequest (builder : TranscriptCommitConfigBuilder) (direction : Direction)
    (request : Request) : Except HttpCommitError TranscriptCommitConfigBuilder := do
  let builder ← commitSpan .request "failed to commit to entire request" builder request.span
    direction
  let builder ← commitWithoutData .request "failed to commit to request with excluded data" builder
    direction request.headers request.body request.withoutData
  let builder ← commitTarget builder direction request.request.target
  let builder ← request.headers.foldlM (fun b h => commitRequestHeader b direction h) builder
  match request.body with
  | some body => commitRequestBody builder direction body
  | none => return builder

def commitResponse (builder : TranscriptCommitConfigBuilder) (direction : Direction)
    (response : Response) : Except HttpCommitError TranscriptCommitConfigBuilder := do
  let builder ← commitSpan .response "failed to commit to entire response" builder response.span
    direction
  let builder ← commitWithoutData .response "failed to commit to response excluding data" builder
    direction response.headers response.body response.withoutData
  let builder ← response.headers.foldlM (fun b h => commitResponseHeader b direction h) builder
  match response.body with
  | some body => commitResponseBody builder direction body
  | none => return builder

def commitTranscript (builder : TranscriptCommitConfigBuilder) (transcript : HttpTranscript) :
    Except HttpCommitError TranscriptCommitConfigBuilder := do
  let builder ← transcript.requests.foldlM (fun b r => commitRequest b .sent r) builder
  transcript.responses.foldlM (fun b r => commitResponse b .received r) builder

end DefaultHttpCommitter

def Header.ranges (header : Header) : List Idx :=
  header.span :: if header.value.isEmpty then [] else [header.withoutValue]

def BodyContent.ranges : BodyContent → List Idx
  | .json value => value.ranges
  | .unknown span => [span]

/-- What is committed of the headers and the body. -/
def fieldRanges (headers : List Header) (body : Option Body) : List Idx :=
  headers.flatMap Header.ranges ++ (body.map fun b => b.content.ranges).getD []

/-- What is committed for a request beside the request as a whole. -/
def Request.parts (request : Request) : List Idx :=
  (if !request.headers.isEmpty || request.body.isSome then [request.withoutData] else []) ++
    request.request.target :: fieldRanges request.headers request.body

/-- What is committed for a response beside the response as a whole. -/
def Response.parts (response : Response) : List Idx :=
  (if !response.headers.isEmpty || response.body.isSome then [response.withoutData] else []) ++
    fieldRanges response.headers response.body

/-- How a parsed message is laid out: it starts with `lead`, `named` are the spans named
before the body, and the body stands behind them. -/
structure Layout (span lead : Idx) (named : List Idx) (heads : List Header)
    (payload : Option Body) : Prop where
  starts : ∃ p ∈ lead, p ∈ span ∧ (∀ part ∈ named, p ∉ part) ∧ ∀ b ∈ payload, p ∉ b.span
  inside : ∀ part ∈ named, ∀ p ∈ part, p ∈ span
  header : ∀ h ∈ heads, h.span.isEmpty = false ∧ ∀ p ∈ h.value, p ∈ h.span
  body : ∀ b ∈ payload, b.span.isEmpty = false ∧
    (∀ p ∈ b.span, p ∈ span ∧ ∀ part ∈ named, p ∉ part) ∧
    (∀ p ∈ b.content.span, p ∈ b.span) ∧ ∀ value, b.content = .json value → value.Nested

def Request.Parsed (request : Request) : Prop :=
  Layout request.span request.request.method
    (request.request.target :: request.headers.map Header.span) request.headers request.body

def Response.Parsed (response : Response) : Prop :=
  Layout response.span response.status.span (response.headers.map Header.span) response.headers
    response.body

/-- What the body was parsed into takes in every byte of the body. -/
def Body.Filled (body : Body) : Prop := ∀ p ∈ body.span, p ∈ body.content.span

theorem Header.mem_ranges_span {header : Header} {p : Nat} :
    (∃ r ∈ header.ranges, p ∈ r) ↔ p ∈ header.span := by
  rw [Header.ranges, List.exists_mem_cons_iff]
  constructor
  · rintro (hp | ⟨r, hr, hp⟩)
    · exact hp
    · split at hr
      · cases hr
      · cases List.mem_singleton.mp hr
        exact (RangeSet.mem_difference.mp hp).1
  · exact Or.inl

theorem BodyContent.mem_ranges_span {content : BodyContent}
    (h : ∀ value, content = .json value → value.Nested) (p : Nat) :
    (∃ r ∈ content.ranges, p ∈ r) ↔ p ∈ content.span := by
  cases content with
  | json value => exact JsonValue.mem_ranges_span (h value rfl) p
  | unknown span => simp [BodyContent.ranges, BodyContent.span]

theorem mem_fieldRanges {headers : List Header} {body : Option Body} {r : Idx} :
    r ∈ fieldRanges headers body ↔
      (∃ h ∈ headers, r ∈ h.ranges) ∨ ∃ b ∈ body, r ∈ b.content.ranges := by
  rw [fieldRanges, List.mem_append, List.mem_flatMap]
  cases body with
  | none => simp
  | some b => simp

namespace Layout

variable {span lead : Idx} {extra : List Idx} {heads : List Header} {payload : Option Body}

theorem mem_fieldRanges_span
    (h : Layout span lead (extra ++ heads.map Header.span) heads payload) (p : Nat) :
    (∃ r ∈ fieldRanges heads payload, p ∈ r) ↔
      (∃ head ∈ heads, p ∈ head.span) ∨ ∃ b ∈ payload, p ∈ b.content.span := by
  simp only [mem_fieldRanges, or_and_right, exists_or]
  apply or_congr
  · constructor
    · rintro ⟨r, ⟨head, hhead, hr⟩, hp⟩
      exact ⟨head, hhead, Header.mem_ranges_span.mp ⟨r, hr, hp⟩⟩
    · rintro ⟨head, hhead, hp⟩
      obtain ⟨r, hr, hp⟩ := Header.mem_ranges_span.mpr hp
      exact ⟨r, ⟨head, hhead, hr⟩, hp⟩
  · constructor
    · rintro ⟨r, ⟨b, hb, hr⟩, hp⟩
      exact ⟨b, hb, (BodyContent.mem_ranges_span (h.body b hb).2.2.2 p).mp ⟨r, hr, hp⟩⟩
    · rintro ⟨b, hb, hp⟩
      obtain ⟨r, hr, hp⟩ := (BodyContent.mem_ranges_span (h.body b hb).2.2.2 p).mpr hp
      exact ⟨r, ⟨b, hb, hr⟩, hp⟩

/-- A field or a range of one stands in the named spans or in the body. -/
theorem mem_part (h : Layout span lead (extra ++ heads.map Header.span) heads payload)
    {part : Idx} (hpart : part ∈ extra ++ fieldRanges heads payload) {p : Nat} (hp : p ∈ part) :
    (∃ q ∈ extra ++ heads.map Header.span, p ∈ q) ∨ ∃ b ∈ payload, p ∈ b.content.span := by
  rcases List.mem_append.mp hpart with hextra | hfield
  · exact Or.inl ⟨part, List.mem_append_left _ hextra, hp⟩
  · rcases (h.mem_fieldRanges_span p).mp ⟨part, hfield, hp⟩ with ⟨head, hhead, hp⟩ | hbody
    · exact Or.inl ⟨head.span, List.mem_append_right _ (List.mem_map_of_mem hhead), hp⟩
    · exact Or.inr hbody

theorem part_subset (h : Layout span lead (extra ++ heads.map Header.span) heads payload)
    {part : Idx} (hpart : part ∈ extra ++ fieldRanges heads payload) :
    ∀ p ∈ part, p ∈ span := by
  intro p hp
  rcases h.mem_part hpart hp with ⟨q, hq, hp⟩ | ⟨b, hb, hp⟩
  · exact h.inside q hq p hp
  · obtain ⟨-, hin, hcontent, -⟩ := h.body b hb
    exact (hin p (hcontent p hp)).1

/-- The start of the message is in none of the fields. -/
theorem part_ne (h : Layout span lead (extra ++ heads.map Header.span) heads payload)
    {part : Idx} (hpart : part ∈ extra ++ fieldRanges heads payload) : part ≠ span := by
  rintro rfl
  obtain ⟨p, -, hp, hnamed, hbody⟩ := h.starts
  rcases h.mem_part hpart hp with ⟨q, hq, hpq⟩ | ⟨b, hb, hpb⟩
  · exact hnamed q hq hpq
  · exact hbody b hb ((h.body b hb).2.2.1 p hpb)

/-- What is left without the data is not the whole message. -/
theorem rest_ne (h : Layout span lead (extra ++ heads.map Header.span) heads payload)
    (hdata : heads ≠ [] ∨ payload.isSome = true) :
    span.differenceAll (extra ++ heads.map Header.span ++ (payload.map Body.span).toList) ≠
      span := by
  have hout : ∀ q ∈ extra ++ heads.map Header.span ++ (payload.map Body.span).toList,
      ∀ p ∈ q, p ∈ span → span.differenceAll
        (extra ++ heads.map Header.span ++ (payload.map Body.span).toList) ≠ span := by
    intro q hq p hpq hp heq
    rw [← heq, RangeSet.mem_differenceAll] at hp
    exact hp.2 q hq hpq
  have hmem : ∀ {q : Idx}, q.isEmpty = false → ∃ p, p ∈ q := by
    intro q hq
    by_contra hnone
    rw [RangeSet.isEmpty_iff.mpr (not_exists.mp hnone)] at hq
    cases hq
  rcases hdata with hne | hsome
  · obtain ⟨head, hhead⟩ := List.exists_mem_of_ne_nil _ hne
    obtain ⟨p, hp⟩ := hmem (h.header head hhead).1
    have hnamed : head.span ∈ extra ++ heads.map Header.span :=
      List.mem_append_right _ (List.mem_map_of_mem hhead)
    exact hout head.span (List.mem_append_left _ hnamed) p hp (h.inside _ hnamed p hp)
  · obtain ⟨b, rfl⟩ := Option.isSome_iff_exists.mp hsome
    obtain ⟨hne, hin, -⟩ := h.body b rfl
    obtain ⟨p, hp⟩ := hmem hne
    exact hout b.span (by simp) p hp (hin p hp).1

/-- With at least one header or a body, the parts smaller than the message reach
every byte exactly when the content of the body fills it. -/
theorem covered_iff (h : Layout span lead (extra ++ heads.map Header.span) heads payload)
    (hdata : heads ≠ [] ∨ payload.isSome = true) :
    (∀ p ∈ span, ∃ part ∈ span.differenceAll (extra ++ heads.map Header.span ++
        (payload.map Body.span).toList) :: (extra ++ fieldRanges heads payload),
        p ∈ part ∧ part ≠ span) ↔
      ∀ b ∈ payload, b.Filled := by
  simp only [List.exists_mem_cons_iff, RangeSet.mem_differenceAll]
  constructor
  · intro hcover b hb p hp
    obtain ⟨-, hin, -⟩ := h.body b hb
    rcases hcover p (hin p hp).1 with ⟨⟨-, hrest⟩, -⟩ | ⟨part, hpart, hpp, -⟩
    · have hmem : b.span ∈ extra ++ heads.map Header.span ++ (payload.map Body.span).toList := by
        rw [Option.mem_def.mp hb]
        simp
      exact absurd hp (hrest b.span hmem)
    · rcases h.mem_part hpart hpp with ⟨q, hq, hpq⟩ | ⟨b', hb', hp'⟩
      · exact absurd hpq ((hin p hp).2 q hq)
      · cases Option.mem_unique hb hb'
        exact hp'
  · intro hfilled p hp
    by_cases hrest : ∀ q ∈ extra ++ heads.map Header.span ++ (payload.map Body.span).toList, p ∉ q
    · exact Or.inl ⟨⟨hp, hrest⟩, h.rest_ne hdata⟩
    · obtain ⟨part, hpart, hpp⟩ : ∃ part ∈ extra ++ fieldRanges heads payload, p ∈ part := by
        push Not at hrest
        obtain ⟨q, hq, hpq⟩ := hrest
        rcases List.mem_append.mp hq with hq | hq
        · rcases List.mem_append.mp hq with hextra | hhead
          · exact ⟨q, List.mem_append_left _ hextra, hpq⟩
          · obtain ⟨head, hmem, rfl⟩ := List.mem_map.mp hhead
            obtain ⟨r, hr, hpr⟩ := (h.mem_fieldRanges_span p).mpr (Or.inl ⟨head, hmem, hpq⟩)
            exact ⟨r, List.mem_append_right _ hr, hpr⟩
        · obtain ⟨b, hb, rfl⟩ : ∃ b ∈ payload, b.span = q := by simpa using hq
          obtain ⟨r, hr, hpr⟩ :=
            (h.mem_fieldRanges_span p).mpr (Or.inr ⟨b, hb, hfilled b hb p hpq⟩)
          exact ⟨r, List.mem_append_right _ hr, hpr⟩
      exact Or.inr ⟨part, hpart, hpp, h.part_ne hpart⟩

end Layout

namespace DefaultHttpCommitter

theorem commitSpan_ok {kind : MessageKind} {msg : String}
    {builder : TranscriptCommitConfigBuilder} {ranges : Idx} {direction : Direction}
    (h : ranges.stop ≤ builder.transcript.lenOfDirection direction) :
    commitSpan kind msg builder ranges direction =
      .ok (builder.commitAll direction [ranges]) := by
  rw [commitSpan, TranscriptCommitConfigBuilder.commit_ok h]
  rfl

theorem commitHeader_ok {kind : MessageKind} {excluding : String}
    {builder : TranscriptCommitConfigBuilder} {direction : Direction} {header : Header}
    (h : header.span.stop ≤ builder.transcript.lenOfDirection direction) :
    commitHeader kind excluding builder direction header =
      .ok (builder.commitAll direction header.ranges) := by
  rw [commitHeader, commitSpan_ok h, Header.ranges]
  refine (Fault.ok_bind _ _).trans ?_
  split
  · rfl
  · apply commitSpan_ok
    rw [TranscriptCommitConfigBuilder.commitAll_transcript]
    exact Nat.le_trans RangeSet.difference_stop_le h

theorem commitBody_ok {kind : MessageKind} {builder : TranscriptCommitConfigBuilder}
    {direction : Direction} {body : Body}
    (hnested : ∀ value, body.content = .json value → value.Nested)
    (h : body.content.span.stop ≤ builder.transcript.lenOfDirection direction) :
    commitBody kind builder direction body =
      .ok (builder.commitAll direction body.content.ranges) := by
  rw [commitBody]
  cases hc : body.content with
  | json value =>
      rw [hc] at h
      have hvalue := DefaultJsonCommitter.commitValue_ok (hnested value hc) builder h
      dsimp only
      rw [hvalue]
      rfl
  | unknown span =>
      rw [hc] at h
      exact commitSpan_ok h

/-- A loop of commitments adds what its rounds add. -/
theorem foldlM_commitAll {ε α : Type} {direction : Direction} {len : Nat} {ranges : α → List Idx}
    {f : TranscriptCommitConfigBuilder → α → Except ε TranscriptCommitConfigBuilder} {l : List α}
    (hf : ∀ a ∈ l, ∀ b : TranscriptCommitConfigBuilder,
      b.transcript.lenOfDirection direction = len →
        f b a = .ok (b.commitAll direction (ranges a)))
    (builder : TranscriptCommitConfigBuilder)
    (hlen : builder.transcript.lenOfDirection direction = len) :
    l.foldlM f builder = .ok (builder.commitAll direction (l.flatMap ranges)) := by
  induction l generalizing builder with
  | nil => rfl
  | cons a l ih =>
      obtain ⟨hfirst, hrest⟩ := List.forall_mem_cons.mp hf
      rw [List.foldlM_cons, hfirst builder hlen, Fault.ok_bind, List.flatMap_cons,
        TranscriptCommitConfigBuilder.commitAll_append]
      apply ih hrest
      rw [TranscriptCommitConfigBuilder.commitAll_transcript]
      exact hlen

section Messages

variable {span lead : Idx} {named : List Idx} {heads : List Header} {payload : Option Body}
  {direction : Direction}

/-- The headers and the body of a message in the transcript are committed. -/
theorem commitFields_ok {kind : MessageKind} {excluding : String}
    (h : Layout span lead named heads payload) (hnamed : ∀ head ∈ heads, head.span ∈ named)
    (builder : TranscriptCommitConfigBuilder)
    (hstop : span.stop ≤ builder.transcript.lenOfDirection direction) :
    (heads.foldlM (fun b head => commitHeader kind excluding b direction head) builder >>= fun b =>
      match payload with
      | some body => commitBody kind b direction body
      | none => .ok b) = .ok (builder.commitAll direction (fieldRanges heads payload)) := by
  have hheads : heads.foldlM (fun b head => commitHeader kind excluding b direction head) builder =
      .ok (builder.commitAll direction (heads.flatMap Header.ranges)) := by
    apply foldlM_commitAll _ builder rfl
    intro head hhead b hlen
    apply commitHeader_ok
    rw [hlen]
    exact RangeSet.stop_le_of_subset (h.inside _ (hnamed head hhead)) hstop
  rw [hheads, Fault.ok_bind, fieldRanges, TranscriptCommitConfigBuilder.commitAll_append]
  cases payload with
  | none => rfl
  | some body =>
      obtain ⟨-, hin, hcontent, hnested⟩ := h.body body rfl
      apply commitBody_ok hnested
      rw [TranscriptCommitConfigBuilder.commitAll_transcript]
      exact RangeSet.stop_le_of_subset (fun p hp => (hin p (hcontent p hp)).1) hstop

theorem commitWithoutData_ok {kind : MessageKind} {msg : String} {parts : List Idx}
    (builder : TranscriptCommitConfigBuilder)
    (hstop : span.stop ≤ builder.transcript.lenOfDirection direction) :
    commitWithoutData kind msg builder direction heads payload (span.differenceAll parts) =
      .ok (builder.commitAll direction
        (if !heads.isEmpty || payload.isSome then [span.differenceAll parts] else [])) := by
  rw [commitWithoutData]
  split
  · exact commitSpan_ok
      (RangeSet.stop_le_of_subset (fun p hp => (RangeSet.mem_differenceAll.mp hp).1) hstop)
  · rfl

end Messages

theorem commitRequest_ok {request : Request} {direction : Direction} (h : request.Parsed)
    (builder : TranscriptCommitConfigBuilder)
    (hstop : request.span.stop ≤ builder.transcript.lenOfDirection direction) :
    commitRequest builder direction request =
      .ok (builder.commitAll direction (request.span :: request.parts)) := by
  have hin : ∀ rs, request.span.stop ≤
      (builder.commitAll direction rs).transcript.lenOfDirection direction := by
    intro rs
    rw [TranscriptCommitConfigBuilder.commitAll_transcript]
    exact hstop
  have htarget : ∀ rs, request.request.target.stop ≤
      (builder.commitAll direction rs).transcript.lenOfDirection direction := fun rs =>
    RangeSet.stop_le_of_subset (h.inside _ List.mem_cons_self) (hin rs)
  have hnamed : ∀ head ∈ request.headers,
      head.span ∈ request.request.target :: request.headers.map Header.span := fun head hhead =>
    List.mem_cons_of_mem _ (List.mem_map_of_mem hhead)
  rw [commitRequest, commitSpan_ok hstop, Fault.ok_bind, Request.withoutData,
    commitWithoutData_ok _ (hin _), Fault.ok_bind, ← TranscriptCommitConfigBuilder.commitAll_append,
    commitTarget, commitSpan_ok (htarget _), Fault.ok_bind,
    ← TranscriptCommitConfigBuilder.commitAll_append]
  refine (commitFields_ok h hnamed _ (hin _)).trans ?_
  rw [← TranscriptCommitConfigBuilder.commitAll_append, Request.parts, Request.withoutData]
  simp only [List.append_assoc, List.cons_append, List.nil_append]

theorem commitResponse_ok {response : Response} {direction : Direction} (h : response.Parsed)
    (builder : TranscriptCommitConfigBuilder)
    (hstop : response.span.stop ≤ builder.transcript.lenOfDirection direction) :
    commitResponse builder direction response =
      .ok (builder.commitAll direction (response.span :: response.parts)) := by
  have hin : ∀ rs, response.span.stop ≤
      (builder.commitAll direction rs).transcript.lenOfDirection direction := by
    intro rs
    rw [TranscriptCommitConfigBuilder.commitAll_transcript]
    exact hstop
  have hnamed : ∀ head ∈ response.headers, head.span ∈ response.headers.map Header.span :=
    fun head hhead => List.mem_map_of_mem hhead
  rw [commitResponse, commitSpan_ok hstop, Fault.ok_bind, Response.withoutData,
    commitWithoutData_ok _ (hin _), Fault.ok_bind, ← TranscriptCommitConfigBuilder.commitAll_append]
  refine (commitFields_ok h hnamed _ (hin _)).trans ?_
  rw [← TranscriptCommitConfigBuilder.commitAll_append, Response.parts, Response.withoutData]
  simp only [List.cons_append, List.nil_append]

/-- A transcript has the parts of each of its messages committed, message by message. -/
theorem commitTranscript_ok {transcript : HttpTranscript} {builder : TranscriptCommitConfigBuilder}
    (hrequests : ∀ r ∈ transcript.requests,
      r.Parsed ∧ r.span.stop ≤ builder.transcript.lenOfDirection .sent)
    (hresponses : ∀ r ∈ transcript.responses,
      r.Parsed ∧ r.span.stop ≤ builder.transcript.lenOfDirection .received) :
    commitTranscript builder transcript = .ok
      ((builder.commitAll .sent (transcript.requests.flatMap fun r => r.span :: r.parts)).commitAll
        .received (transcript.responses.flatMap fun r => r.span :: r.parts)) := by
  have hsent : transcript.requests.foldlM (fun b r => commitRequest b .sent r) builder =
      .ok (builder.commitAll .sent
        (transcript.requests.flatMap fun r => r.span :: r.parts)) := by
    apply foldlM_commitAll _ builder rfl
    intro r hr b hlen
    obtain ⟨hparsed, hstop⟩ := hrequests r hr
    exact commitRequest_ok hparsed b (hlen ▸ hstop)
  rw [commitTranscript, hsent, Fault.ok_bind]
  apply foldlM_commitAll _ _ rfl
  intro r hr b hlen
  obtain ⟨hparsed, hstop⟩ := hresponses r hr
  apply commitResponse_ok hparsed
  rw [hlen, TranscriptCommitConfigBuilder.commitAll_transcript]
  exact hstop

end DefaultHttpCommitter

theorem hasData_iff {headers : List Header} {body : Option Body} :
    (!headers.isEmpty || body.isSome) = true ↔ headers ≠ [] ∨ body.isSome = true := by
  simp

theorem Request.Parsed.part_subset {request : Request} (h : request.Parsed) :
    ∀ part ∈ request.parts, ∀ p ∈ part, p ∈ request.span := by
  have hlayout : Layout request.span request.request.method
    ([request.request.target] ++ request.headers.map Header.span) request.headers request.body := h
  intro part hpart
  rw [Request.parts, List.mem_append] at hpart
  rcases hpart with hrest | hfield
  · split at hrest
    · cases List.mem_singleton.mp hrest
      exact fun p hp => (RangeSet.mem_differenceAll.mp hp).1
    · cases hrest
  · exact hlayout.part_subset hfield

theorem Request.Parsed.covered_iff {request : Request} (h : request.Parsed)
    (hdata : request.headers ≠ [] ∨ request.body.isSome = true) :
    (∀ p ∈ request.span, ∃ part ∈ request.parts, p ∈ part ∧ part ≠ request.span) ↔
      ∀ b ∈ request.body, b.Filled := by
  have hlayout : Layout request.span request.request.method
    ([request.request.target] ++ request.headers.map Header.span) request.headers request.body := h
  rw [Request.parts, if_pos (hasData_iff.mpr hdata)]
  exact hlayout.covered_iff hdata

theorem Response.Parsed.part_subset {response : Response} (h : response.Parsed) :
    ∀ part ∈ response.parts, ∀ p ∈ part, p ∈ response.span := by
  have hlayout : Layout response.span response.status.span
    ([] ++ response.headers.map Header.span) response.headers response.body := h
  intro part hpart
  rw [Response.parts, List.mem_append] at hpart
  rcases hpart with hrest | hfield
  · split at hrest
    · cases List.mem_singleton.mp hrest
      exact fun p hp => (RangeSet.mem_differenceAll.mp hp).1
    · cases hrest
  · exact hlayout.part_subset hfield

theorem Response.Parsed.covered_iff {response : Response} (h : response.Parsed)
    (hdata : response.headers ≠ [] ∨ response.body.isSome = true) :
    (∀ p ∈ response.span, ∃ part ∈ response.parts, p ∈ part ∧ part ≠ response.span) ↔
      ∀ b ∈ response.body, b.Filled := by
  have hlayout : Layout response.span response.status.span
    ([] ++ response.headers.map Header.span) response.headers response.body := h
  rw [Response.parts, if_pos (hasData_iff.mpr hdata)]
  exact hlayout.covered_iff hdata

/-- The committers cut a value, a request or a response into parts. A value is covered by
them; a message with headers or a body exactly when the content of the body fills it. -/
theorem committers_cover (builder : TranscriptCommitConfigBuilder) (direction : Direction) :
    (∀ value : JsonValue,
      value.Nested → value.span.stop ≤ builder.transcript.lenOfDirection direction →
        DefaultJsonCommitter.commitValue builder value direction =
            .ok (builder.commitAll direction value.ranges) ∧
          (∀ r ∈ value.ranges, ∀ p ∈ r, p ∈ value.span) ∧
          (∀ p ∈ value.span, ∃ r ∈ value.ranges, p ∈ r) ∧
          (∀ object, value.Outside (.object object) → ∀ kv ∈ object.elems,
            kv.withoutValue ∈ value.ranges) ∧
          ∀ scalar, value.Outside scalar → scalar.isScalar = true →
            scalar.span.isEmpty = false → scalar.span ∈ value.ranges) ∧
      (∀ request : Request,
        request.Parsed → request.span.stop ≤ builder.transcript.lenOfDirection direction →
          request.headers ≠ [] ∨ request.body.isSome = true →
            DefaultHttpCommitter.commitRequest builder direction request =
                .ok (builder.commitAll direction (request.span :: request.parts)) ∧
              (∀ part ∈ request.parts, ∀ p ∈ part, p ∈ request.span) ∧
              ((∀ p ∈ request.span, ∃ part ∈ request.parts, p ∈ part ∧ part ≠ request.span) ↔
                ∀ b ∈ request.body, b.Filled)) ∧
      ∀ response : Response,
        response.Parsed → response.span.stop ≤ builder.transcript.lenOfDirection direction →
          response.headers ≠ [] ∨ response.body.isSome = true →
            DefaultHttpCommitter.commitResponse builder direction response =
                .ok (builder.commitAll direction (response.span :: response.parts)) ∧
              (∀ part ∈ response.parts, ∀ p ∈ part, p ∈ response.span) ∧
              ((∀ p ∈ response.span, ∃ part ∈ response.parts, p ∈ part ∧ part ≠ response.span) ↔
                ∀ b ∈ response.body, b.Filled) := by
  refine ⟨?_, ?_, ?_⟩
  · intro value hnested hstop
    refine ⟨DefaultJsonCommitter.commitValue_ok hnested builder hstop, ?_, ?_, ?_, ?_⟩
    · intro r hr p hp
      exact (JsonValue.mem_ranges_span hnested p).mp ⟨r, hr, hp⟩
    · intro p hp
      exact (JsonValue.mem_ranges_span hnested p).mpr hp
    · intro object houtside kv hkv
      exact houtside.pair_mem hkv
    · intro scalar houtside hscalar hne
      exact houtside.scalar_mem hscalar hne
  · intro request hparsed hstop hdata
    exact ⟨DefaultHttpCommitter.commitRequest_ok hparsed builder hstop, hparsed.part_subset,
      hparsed.covered_iff hdata⟩
  · intro response hparsed hstop hdata
    exact ⟨DefaultHttpCommitter.commitResponse_ok hparsed builder hstop, hparsed.part_subset,
      hparsed.covered_iff hdata⟩

/-- A request whose body is the JSON text of one string, quotes and all. -/
def stringBodyRequest : Request where
  span := RangeSet.ofRange ⟨0, 74⟩
  request := ⟨RangeSet.ofRange ⟨0, 17⟩, RangeSet.ofRange ⟨0, 4⟩, RangeSet.ofRange ⟨5, 6⟩⟩
  headers :=
    [⟨RangeSet.ofRange ⟨17, 49⟩, ⟨RangeSet.ofRange ⟨17, 29⟩, "Content-Type"⟩,
        RangeSet.ofRange ⟨31, 47⟩⟩,
      ⟨RangeSet.ofRange ⟨49, 68⟩, ⟨RangeSet.ofRange ⟨49, 63⟩, "Content-Length"⟩,
        RangeSet.ofRange ⟨65, 66⟩⟩]
  body := some ⟨RangeSet.ofRange ⟨70, 74⟩, .json (.string (RangeSet.ofRange ⟨71, 73⟩))⟩

/-- `POST / HTTP/1.1`, the two headers, and the body `"hi"`. -/
def stringBodyTranscript : Transcript where
  sent := "POST / HTTP/1.1\r\nContent-Type: application/json\r\nContent-Length: 4\r\n\r\n\"hi\""
    |>.toUTF8.toList
  received := []

theorem stringBodyRequest_parsed : stringBodyRequest.Parsed where
  starts := by
    refine ⟨0, by decide +kernel, by decide +kernel, by decide +kernel, ?_⟩
    intro b hb
    cases hb
    decide +kernel
  inside := by decide +kernel
  header := by decide +kernel
  body := by
    intro b hb
    cases hb
    refine ⟨by decide +kernel, by decide +kernel, by decide +kernel, ?_⟩
    intro value hvalue
    cases hvalue
    trivial

/-- No part but the whole request has the opening quote of the body. -/
theorem string_quote_uncovered :
    stringBodyRequest.Parsed ∧
      stringBodyRequest.span.stop ≤ stringBodyTranscript.lenOfDirection .sent ∧
      ∃ builder, DefaultHttpCommitter.commitRequest (.new stringBodyTranscript) .sent
          stringBodyRequest = .ok builder ∧
        ¬ ∀ p ∈ stringBodyRequest.span, ∃ c ∈ builder.commits,
          p ∈ c.1.2 ∧ c.1.2 ≠ stringBodyRequest.span := by
  have hstop : stringBodyRequest.span.stop ≤ stringBodyTranscript.lenOfDirection .sent := by
    decide +kernel
  have hparts : ∀ part ∈ stringBodyRequest.span :: stringBodyRequest.parts, 70 ∈ part →
      part = stringBodyRequest.span := by
    decide +kernel
  refine ⟨stringBodyRequest_parsed, hstop, _,
    DefaultHttpCommitter.commitRequest_ok stringBodyRequest_parsed _ hstop, ?_⟩
  intro hcover
  obtain ⟨c, hc, hin, hne⟩ := hcover 70 (by decide +kernel)
  rcases TranscriptCommitConfigBuilder.mem_commitAll.mp hc with hnew | ⟨part, hpart, rfl⟩
  · cases hnew
  · exact hne (hparts part hpart hin)

/-- The object `{"a":"","b":[1]}`. -/
def emptyStringObject : JsonValue :=
  .object (.mk (RangeSet.ofRange ⟨0, 16⟩)
    [.mk (RangeSet.ofRange ⟨1, 7⟩) (.string (RangeSet.ofRange ⟨6, 6⟩)),
      .mk (RangeSet.ofRange ⟨8, 15⟩) (.array (.mk (RangeSet.ofRange ⟨12, 15⟩)
        [.number (RangeSet.ofRange ⟨13, 14⟩)]))])

/-- A response with one header and no body. -/
def headerResponse : Response where
  span := RangeSet.ofRange ⟨0, 24⟩
  status := ⟨RangeSet.ofRange ⟨0, 16⟩⟩
  headers := [⟨RangeSet.ofRange ⟨17, 22⟩, ⟨RangeSet.ofRange ⟨17, 18⟩, "A"⟩,
    RangeSet.ofRange ⟨20, 20⟩⟩]
  body := none

theorem headerResponse_parsed : headerResponse.Parsed := by
  refine ⟨⟨0, by decide +kernel, by decide +kernel, by decide +kernel, ?_⟩, by decide +kernel,
    by decide +kernel, ?_⟩
  · intro b hb
    cases hb
  · intro b hb
    cases hb

theorem committers_cover_message :
    (∃ builder, DefaultJsonCommitter.commitValue (.new stringBodyTranscript) emptyStringObject
        .sent = .ok builder ∧ builder.commits.length = 5) ∧
      (∀ p ∈ headerResponse.span, ∃ part ∈ headerResponse.parts,
        p ∈ part ∧ part ≠ headerResponse.span) ∧
      ¬ ∀ p ∈ stringBodyRequest.span, ∃ part ∈ stringBodyRequest.parts,
        p ∈ part ∧ part ≠ stringBodyRequest.span := by
  have hvalue : emptyStringObject.Nested := by
    simp only [emptyStringObject, JsonValue.Nested, JsonObject.Nested, pairsNested, KeyValue.Nested]
    decide +kernel
  refine ⟨⟨_, ((committers_cover (.new stringBodyTranscript) .sent).1 emptyStringObject hvalue
    (by decide +kernel)).1, by decide +kernel⟩, ?_, ?_⟩
  · apply ((committers_cover (.new ⟨[], List.replicate 24 0⟩) .received).2.2 headerResponse
      headerResponse_parsed (by decide +kernel) (by decide)).2.2.mpr
    intro b hb
    cases hb
  · rw [((committers_cover (.new stringBodyTranscript) .sent).2.1 stringBodyRequest
      stringBodyRequest_parsed (by decide +kernel) (by decide)).2.2]
    intro hfilled
    exact absurd (hfilled _ rfl 70) (by decide +kernel)

/-- `GET /a HTTP/1.1`, a header and no body, after the other request. -/
def getRequest : Request where
  span := RangeSet.ofRange ⟨74, 99⟩
  request := ⟨RangeSet.ofRange ⟨74, 91⟩, RangeSet.ofRange ⟨74, 77⟩, RangeSet.ofRange ⟨78, 80⟩⟩
  headers := [⟨RangeSet.ofRange ⟨91, 97⟩, ⟨RangeSet.ofRange ⟨91, 92⟩, "A"⟩,
    RangeSet.ofRange ⟨94, 95⟩⟩]
  body := none

/-- A response with a body of text, after the other response. -/
def textResponse : Response where
  span := RangeSet.ofRange ⟨24, 64⟩
  status := ⟨RangeSet.ofRange ⟨24, 40⟩⟩
  headers := [⟨RangeSet.ofRange ⟨41, 60⟩, ⟨RangeSet.ofRange ⟨41, 55⟩, "Content-Length"⟩,
    RangeSet.ofRange ⟨57, 58⟩⟩]
  body := some ⟨RangeSet.ofRange ⟨62, 64⟩, .unknown (RangeSet.ofRange ⟨62, 64⟩)⟩

def exchangeTranscript : Transcript where
  sent := stringBodyTranscript.sent ++ "GET /a HTTP/1.1\r\nA: b\r\n\r\n".toUTF8.toList
  received :=
    "HTTP/1.1 200 OK\r\nA: \r\n\r\nHTTP/1.1 200 OK\r\nContent-Length: 2\r\n\r\nok".toUTF8.toList

theorem getRequest_parsed : getRequest.Parsed := by
  refine ⟨⟨74, by decide +kernel, by decide +kernel, by decide +kernel, ?_⟩, by decide +kernel,
    by decide +kernel, ?_⟩
  · intro b hb
    cases hb
  · intro b hb
    cases hb

theorem textResponse_parsed : textResponse.Parsed := by
  refine ⟨⟨24, by decide +kernel, by decide +kernel, by decide +kernel, ?_⟩, by decide +kernel,
    by decide +kernel, ?_⟩
  · intro b hb
    cases hb
    decide +kernel
  · intro b hb
    cases hb
    refine ⟨by decide +kernel, by decide +kernel, by decide +kernel, ?_⟩
    intro value hvalue
    cases hvalue

theorem commitTranscript_string :
    DefaultHttpCommitter.commitTranscript (.new exchangeTranscript)
        ⟨[stringBodyRequest, getRequest], [headerResponse, textResponse]⟩ =
      .ok (((TranscriptCommitConfigBuilder.new exchangeTranscript).commitAll .sent
        ((stringBodyRequest.span :: stringBodyRequest.parts) ++
          (getRequest.span :: getRequest.parts))).commitAll .received
        ((headerResponse.span :: headerResponse.parts) ++
          (textResponse.span :: textResponse.parts))) := by
  apply DefaultHttpCommitter.commitTranscript_ok
  · intro r hr
    simp only [List.mem_cons, List.not_mem_nil, or_false] at hr
    obtain rfl | rfl := hr
    · exact ⟨stringBodyRequest_parsed, by decide +kernel⟩
    · exact ⟨getRequest_parsed, by decide +kernel⟩
  · intro r hr
    simp only [List.mem_cons, List.not_mem_nil, or_false] at hr
    obtain rfl | rfl := hr
    · exact ⟨headerResponse_parsed, by decide +kernel⟩
    · exact ⟨textResponse_parsed, by decide +kernel⟩

end Tlsn.Formats
