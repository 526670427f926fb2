import Tlsn.Tls.Connection

/-!
Errors of a connection are to stay: once processing has failed, it fails again in the same
way, and does nothing else.
-/

namespace Tlsn.Tls.Connection

open Tlsn.MpcTls (Overflow)

open Fault (Preserves)

variable {B P H D : Type} {backend : Backend B} {payloads : HandshakePayloads P}
  {handler : Handler B P H D} {overflow : Overflow} {kept : Except Error H}

/-! ## What leaves the phase alone -/

theorem keeps_onCommon {α : Type} (x : CommonState.Op B α) :
    Preserves (fun conn : Connection B P H D => conn.state = kept) (onCommon x) :=
  Preserves.zoom x fun _ _ h => h

theorem keeps_onPhase {α : Type} (x : EStateM (Fault Error) (CommonState B × D) α) :
    Preserves (fun conn : Connection B P H D => conn.state = kept) (onPhase x) :=
  Preserves.zoom x fun _ _ h => h

theorem keeps_handle (msg : Message P) (state : H) :
    Preserves (fun conn => conn.state = kept) (handle backend handler overflow msg state) := by
  constructor
  intro conn hconn
  have hphase := (keeps_onPhase (handler.handle msg state)).after conn hconn
  unfold handle
  cases hhandle : onPhase (handler.handle msg state) conn with
  | ok next conn₁ =>
      rw [hhandle] at hphase
      exact hphase
  | error e conn₁ =>
      rw [hhandle] at hphase
      cases e with
      | panic => exact hphase
      | err e =>
          simp only
          split
          · have halert := (keeps_onCommon (CommonState.sendFatalAlert backend overflow
              AlertDescription.unexpectedMessage)).after conn₁ hphase
            split
            · rename_i hok
              rw [hok] at halert
              exact halert
            · rename_i herror
              rw [herror] at halert
              exact halert
          · exact hphase

theorem keeps_processMainProtocol (msg : Message P) (state : H) :
    Preserves (fun conn => conn.state = kept)
      (processMainProtocol backend handler overflow msg state) := by
  refine Preserves.bind Preserves.get fun conn => Preserves.ite ?_ (keeps_handle msg state)
  exact Preserves.bind (keeps_onCommon _) fun _ => Preserves.pure _

theorem keeps_processFrames (frames : List (HandshakeMessage P)) (state : H) :
    Preserves (fun conn => conn.state = kept)
      (processFrames backend handler overflow frames state) := by
  induction frames generalizing state with
  | nil => exact Preserves.pure state
  | cons msg rest ih =>
      refine Preserves.bind (Preserves.modify fun _ h => h) fun _ => ?_
      exact Preserves.bind (keeps_processMainProtocol _ state) fun state => ih state

theorem keeps_processIncomingPlain (msg : PlainMessage) (state : H) :
    Preserves (fun conn => conn.state = kept)
      (processIncomingPlain backend payloads handler overflow msg state) := by
  have hjoin : Preserves (fun conn : Connection B P H D => conn.state = kept)
      (joinMessage payloads msg) := ⟨fun _ h => h⟩
  refine Preserves.ite (Preserves.bind hjoin fun count => ?_) ?_
  · cases count with
    | some count =>
        refine Preserves.bind (Preserves.modify fun _ h => h) fun _ => ?_
        exact Preserves.bind Preserves.get fun conn => keeps_processFrames _ state
    | none => exact Preserves.bind (keeps_onCommon _) fun _ => Preserves.throw _
  · cases Message.ofPlain payloads msg with
    | error e => exact Preserves.throw _
    | ok msg =>
        obtain ⟨version, payload⟩ := msg
        cases payload with
        | alert alert => exact Preserves.bind (keeps_onCommon _) fun _ => Preserves.pure state
        | handshake payload => exact keeps_processMainProtocol _ state
        | changeCipherSpec => exact keeps_processMainProtocol _ state
        | applicationData bytes => exact keeps_processMainProtocol _ state

theorem keeps_processIncomingOpaque (msg : OpaqueMessage) :
    Preserves (fun conn : Connection B P H D => conn.state = kept)
      (processIncomingOpaque backend overflow msg) := by
  constructor
  intro conn hconn
  have hrest : Preserves (fun conn : Connection B P H D => conn.state = kept)
      (if msg.typ = .changeCipherSpec && !conn.common.mayReceiveApplicationData &&
          conn.common.isTls13 then
        if !isValidCcs msg || tls13MaxDroppedCcs < conn.common.receivedMiddleboxCcs then do
          onCommon (CommonState.sendFatalAlert backend overflow AlertDescription.unexpectedMessage)
          throw (.err (.peerMisbehavedError "illegal middlebox CCS received"))
        else do
          set { conn with common := { conn.common with
            receivedMiddleboxCcs := conn.common.receivedMiddleboxCcs + 1 } }
          return none
      else if conn.common.recordLayer.isDecrypting then do
        onCommon (CommonState.decryptIncoming backend overflow msg)
        return none
      else
        return some msg.intoPlainMessage) := by
    refine Preserves.ite (Preserves.ite ?_ ?_) (Preserves.ite ?_ (Preserves.pure _))
    · exact Preserves.bind (keeps_onCommon _) fun _ => Preserves.throw _
    · exact ⟨fun _ _ => hconn⟩
    · exact Preserves.bind (keeps_onCommon _) fun _ => Preserves.pure _
  exact hrest.after conn hconn

/-! ## One round -/

/-- An error which is kept, or one which leaves the phase alone. -/
theorem keeping_error {α : Type} {x : Op B P H D α} {conn conn' : Connection B P H D} {e : Error}
    (h : keeping x conn = .error (.err e) conn') : conn'.state = .error e := by
  unfold keeping at h
  split at h
  · cases h
  · cases h
    rfl
  · cases h

theorem keeping_ok {α : Type} {x : Op B P H D α}
    (hx : ∀ kept, Preserves (fun conn => conn.state = kept) x) {conn conn' : Connection B P H D}
    {a : α} (h : keeping x conn = .ok a conn') : conn'.state = conn.state := by
  unfold keeping at h
  split at h
  · rename_i hok
    cases h
    exact (hx conn.state).ok rfl hok
  · cases h
  · cases h

theorem popFrame_ok {conn conn' : Connection B P H D} {popped : Option OpaqueMessage}
    (h : popFrame conn = .ok popped conn') : conn'.state = conn.state := by
  cases h
  rfl

theorem frameRound_ok {state : H} {conn conn' : Connection B P H D} {r : Round H H}
    (h : frameRound backend payloads handler overflow state conn = .ok r conn') :
    conn'.state = conn.state := by
  obtain ⟨popped, conn₁, hpop, h⟩ := Fault.run_bind_ok_iff.mp h
  cases hpop
  cases hframe : conn.messageDeframer.frames.head? with
  | none =>
      rw [hframe] at h
      cases h
      rfl
  | some msg =>
      rw [hframe] at h
      obtain ⟨plain, conn₂, hincoming, h⟩ := Fault.run_bind_ok_iff.mp h
      have hkept := (keeps_processIncomingOpaque msg).ok rfl hincoming
      cases plain with
      | none =>
          cases h
          exact hkept
      | some plain =>
          obtain ⟨state', conn₃, hplain, h⟩ := Fault.run_bind_ok_iff.mp h
          cases h
          exact (keeping_ok (fun _ => keeps_processIncomingPlain plain state) hplain).trans hkept

theorem frameRound_error {state : H} {conn conn' : Connection B P H D} {e : Error}
    (h : frameRound backend payloads handler overflow state conn = .error (.err e) conn') :
    conn'.state = .error e ∨ conn'.state = conn.state ∧ ∃ msg conn₁,
      popFrame conn = .ok (some msg) conn₁ ∧
        processIncomingOpaque backend overflow msg conn₁ = .error (.err e) conn' := by
  obtain hpop | ⟨popped, conn₁, hpop, h⟩ := Fault.run_bind_error_iff.mp h
  · cases hpop
  cases popped with
  | none => cases h
  | some msg =>
      obtain hincoming | ⟨plain, conn₂, hincoming, h⟩ := Fault.run_bind_error_iff.mp h
      · refine .inr ⟨?_, msg, conn₁, hpop, hincoming⟩
        exact ((keeps_processIncomingOpaque msg).error rfl hincoming).trans (popFrame_ok hpop)
      · cases plain with
        | none => cases h
        | some plain =>
            obtain hplain | ⟨state', conn₃, _, h⟩ := Fault.run_bind_error_iff.mp h
            · exact .inl (keeping_error hplain)
            · cases h

theorem incomingRound_ok {state : H} {conn conn' : Connection B P H D} {r : Round H H}
    (h : incomingRound backend payloads handler overflow state conn = .ok r conn') :
    conn'.state = conn.state := by
  obtain ⟨msg, conn₁, hnext, h⟩ := Fault.run_bind_ok_iff.mp h
  have hkept := (keeps_onCommon _).ok rfl hnext
  cases msg with
  | none =>
      cases h
      exact hkept
  | some msg =>
      obtain ⟨state', conn₂, hplain, h⟩ := Fault.run_bind_ok_iff.mp h
      cases h
      exact (keeping_ok (fun _ => keeps_processIncomingPlain msg state) hplain).trans hkept

theorem incomingRound_error {state : H} {conn conn' : Connection B P H D} {e : Error}
    (h : incomingRound backend payloads handler overflow state conn = .error (.err e) conn') :
    conn'.state = .error e ∨
      conn'.state = conn.state ∧ nextIncoming backend conn = .error (.err e) conn' := by
  obtain hnext | ⟨msg, conn₁, _, h⟩ := Fault.run_bind_error_iff.mp h
  · exact .inr ⟨(keeps_onCommon _).error rfl hnext, hnext⟩
  · cases msg with
    | none => cases h
    | some msg =>
        obtain hplain | ⟨state', conn₂, _, h⟩ := Fault.run_bind_error_iff.mp h
        · exact .inl (keeping_error hplain)
        · cases h

theorem outgoingRound_ok {conn conn' : Connection B P H D} {r : Round Unit Unit}
    (h : outgoingRound backend () conn = .ok r conn') : conn'.state = conn.state := by
  obtain ⟨msg, conn₁, hnext, h⟩ := Fault.run_bind_ok_iff.mp h
  have hkept := (keeps_onCommon _).ok rfl hnext
  cases msg with
  | none =>
      cases h
      exact hkept
  | some msg =>
      cases h
      exact hkept

theorem outgoingRound_error {conn conn' : Connection B P H D} {e : Error}
    (h : outgoingRound backend () conn = .error (.err e) conn') :
    conn'.state = conn.state ∧ nextOutgoing backend conn = .error (.err e) conn' := by
  obtain hnext | ⟨msg, conn₁, _, h⟩ := Fault.run_bind_error_iff.mp h
  · exact ⟨(keeps_onCommon _).error rfl hnext, hnext⟩
  · cases msg with
    | none => cases h
    | some msg => cases h

/-! ## Where an error arises -/

/-- The rounds of a loop which were gone through. -/
abbrev Reaches {α β : Type} (body : α → Op B P H D (Round α β)) (a : α)
    (conn : Connection B P H D) (a' : α) (conn' : Connection B P H D) : Prop :=
  Loop.Reaches (LoopM.round body) (a, conn) (a', conn')

/-- The loop ends with a result. -/
def Ends {α β : Type} (body : α → Op B P H D (Round α β)) (a : α) (conn : Connection B P H D)
    (b : β) (conn' : Connection B P H D) : Prop :=
  ∃ fuel, LoopM.loop fuel body a conn = some (.ok b conn')

theorem loop_error_iff {α β : Type} {body : α → Op B P H D (Round α β)} {a : α}
    {conn conn' : Connection B P H D} {e : Fault Error} :
    (∃ fuel, LoopM.loop fuel body a conn = some (.error e conn')) ↔
      ∃ a' conn₁, Reaches body a conn a' conn₁ ∧ body a' conn₁ = .error e conn' := by
  refine Loop.run_some_iff.trans ⟨?_, ?_⟩
  · rintro ⟨⟨a', conn₁⟩, hreaches, hdone⟩
    obtain ⟨b, t, _, h⟩ | ⟨e', t, hbody, h⟩ := LoopM.round_done_iff.mp hdone
    · cases h
    · cases h
      exact ⟨a', conn₁, hreaches, hbody⟩
  · rintro ⟨a', conn₁, hreaches, hbody⟩
    exact ⟨(a', conn₁), hreaches, LoopM.round_done_iff.mpr (.inr ⟨e, conn', hbody, rfl⟩)⟩

theorem Reaches.state_eq {α β : Type} {body : α → Op B P H D (Round α β)}
    (hbody : ∀ a conn r conn', body a conn = .ok r conn' → conn'.state = conn.state) {a a' : α}
    {conn conn' : Connection B P H D} (h : Reaches body a conn a' conn') :
    conn'.state = conn.state := by
  refine Loop.Reaches.invariant (fun s => s.2.state = conn.state) ?_ h rfl
  rintro ⟨a₁, conn₁⟩ ⟨a₂, conn₂⟩ hstate hnext
  exact (hbody _ _ _ _ (LoopM.round_next_iff.mp hnext)).trans hstate

theorem Ends.state_eq {α β : Type} {body : α → Op B P H D (Round α β)}
    (hbody : ∀ a conn r conn', body a conn = .ok r conn' → conn'.state = conn.state) {a : α} {b : β}
    {conn conn' : Connection B P H D} (h : Ends body a conn b conn') :
    conn'.state = conn.state := by
  obtain ⟨⟨a', conn₁⟩, hreaches, hdone⟩ := Loop.run_some_iff.mp h
  obtain ⟨b', t, hlast, h⟩ | ⟨e, t, _, h⟩ := LoopM.round_done_iff.mp hdone
  · cases h
    exact (hbody _ _ _ _ hlast).trans (Reaches.state_eq hbody hreaches)
  · cases h

/-- An error which is returned, and not kept: the stream of records is corrupt, a frame is
refused before its plaintext is known, or the backend fails. -/
inductive LosesError (backend : Backend B) (payloads : HandshakePayloads P)
    (handler : Handler B P H D) (overflow : Overflow) (e : Error) (conn : Connection B P H D) : Prop
  | desynced {state : H} {conn₁ conn₂ : Connection B P H D}
      (htake : takeState conn = .ok state conn₁) (h : checkSynced conn₁ = .error (.err e) conn₂)
  | frame {state state' : H} {msg : OpaqueMessage} {conn₁ conn₂ conn₃ conn₄ : Connection B P H D}
      (htake : takeState conn = .ok state conn₁) (hsynced : checkSynced conn₁ = .ok () conn₁)
      (hframes : Reaches (frameRound backend payloads handler overflow) state conn₁ state' conn₂)
      (hpop : popFrame conn₂ = .ok (some msg) conn₃)
      (h : processIncomingOpaque backend overflow msg conn₃ = .error (.err e) conn₄)
  | flush {state state' : H} {conn₁ conn₂ conn₃ : Connection B P H D}
      (htake : takeState conn = .ok state conn₁) (hsynced : checkSynced conn₁ = .ok () conn₁)
      (hframes : Ends (frameRound backend payloads handler overflow) state conn₁ state' conn₂)
      (h : flush backend conn₂ = .error (.err e) conn₃)
  | incoming {state state' state'' : H} {conn₁ conn₂ conn₃ conn₄ conn₅ : Connection B P H D}
      (htake : takeState conn = .ok state conn₁) (hsynced : checkSynced conn₁ = .ok () conn₁)
      (hframes : Ends (frameRound backend payloads handler overflow) state conn₁ state' conn₂)
      (hflush : flush backend conn₂ = .ok () conn₃)
      (hincoming : Reaches (incomingRound backend payloads handler overflow)
        state' conn₃ state'' conn₄)
      (h : nextIncoming backend conn₄ = .error (.err e) conn₅)
  | outgoing {state state' state'' : H} {conn₁ conn₂ conn₃ conn₄ conn₅ conn₆ : Connection B P H D}
      (htake : takeState conn = .ok state conn₁) (hsynced : checkSynced conn₁ = .ok () conn₁)
      (hframes : Ends (frameRound backend payloads handler overflow) state conn₁ state' conn₂)
      (hflush : flush backend conn₂ = .ok () conn₃)
      (hincoming : Ends (incomingRound backend payloads handler overflow)
        state' conn₃ state'' conn₄)
      (houtgoing : Reaches (outgoingRound backend) () conn₄ () conn₅)
      (h : nextOutgoing backend conn₅ = .error (.err e) conn₆)

theorem takeState_ok {conn conn' : Connection B P H D} {state : H}
    (h : takeState conn = .ok state conn') : conn'.state = .error .handshakeNotComplete := by
  unfold takeState at h
  split at h
  · cases h
    rfl
  · cases h

theorem takeState_error {conn conn' : Connection B P H D} {e : Error}
    (h : takeState conn = .error (.err e) conn') : conn' = conn ∧ conn.state = .error e := by
  unfold takeState at h
  split at h
  · cases h
  · rename_i hstate
    cases h
    exact ⟨rfl, hstate⟩

theorem checkSynced_ok {conn conn' : Connection B P H D} (h : checkSynced conn = .ok () conn') :
    conn' = conn := by
  unfold checkSynced at h
  split at h
  · cases h
  · cases h
    rfl

theorem checkSynced_error {conn conn' : Connection B P H D} {e : Fault Error}
    (h : checkSynced conn = .error e conn') : conn' = conn := by
  unfold checkSynced at h
  split at h
  · cases h
    rfl
  · cases h

/-- An error is kept or lost. -/
theorem processNewPackets_error {fuel : Nat} {conn conn' : Connection B P H D} {e : Error}
    (h : processNewPackets backend payloads handler overflow fuel conn =
      some (.error (.err e) conn')) :
    conn'.state = .error e ∨ LosesError backend payloads handler overflow e conn ∧
      conn'.state = .error .handshakeNotComplete := by
  obtain htake | ⟨state, conn₁, htake, hrest₁⟩ := LoopM.bind_error_iff.mp h
  · obtain ⟨rfl, hstate⟩ := takeState_error (Option.some.inj htake)
    exact .inl hstate
  replace htake := Option.some.inj htake
  have hstate := takeState_ok htake
  obtain hsynced | ⟨_, conn₂, hsynced, hrest₂⟩ := LoopM.bind_error_iff.mp hrest₁
  · replace hsynced := Option.some.inj hsynced
    refine .inr ⟨.desynced htake hsynced, ?_⟩
    rw [checkSynced_error hsynced, hstate]
  replace hsynced := Option.some.inj hsynced
  cases checkSynced_ok hsynced
  obtain hloop | ⟨state', conn₃, hframes, hrest₃⟩ := LoopM.bind_error_iff.mp hrest₂
  · obtain ⟨state', conn₃, hreaches, hround⟩ := loop_error_iff.mp ⟨fuel, hloop⟩
    obtain hkept | ⟨hsame, msg, conn₄, hpop, hrefused⟩ := frameRound_error hround
    · exact .inl hkept
    · refine .inr ⟨.frame htake hsynced hreaches hpop hrefused, ?_⟩
      rw [hsame, hreaches.state_eq fun _ _ _ _ => frameRound_ok, hstate]
  replace hframes : Ends _ state conn₁ state' conn₃ := ⟨fuel, hframes⟩
  have hstate₃ := (hframes.state_eq fun _ _ _ _ => frameRound_ok).trans hstate
  obtain hflush | ⟨_, conn₄, hflush, hrest₄⟩ := LoopM.bind_error_iff.mp hrest₃
  · replace hflush := Option.some.inj hflush
    exact .inr ⟨.flush htake hsynced hframes hflush, (keeps_onCommon _).error hstate₃ hflush⟩
  replace hflush := Option.some.inj hflush
  have hstate₄ := (keeps_onCommon _).ok hstate₃ hflush
  obtain hloop | ⟨state'', conn₅, hincoming, hrest₅⟩ := LoopM.bind_error_iff.mp hrest₄
  · obtain ⟨state'', conn₅, hreaches, hround⟩ := loop_error_iff.mp ⟨fuel, hloop⟩
    obtain hkept | ⟨hsame, hnext⟩ := incomingRound_error hround
    · exact .inl hkept
    · refine .inr ⟨.incoming htake hsynced hframes hflush hreaches hnext, ?_⟩
      rw [hsame, hreaches.state_eq fun _ _ _ _ => incomingRound_ok, hstate₄]
  replace hincoming : Ends _ state' conn₄ state'' conn₅ := ⟨fuel, hincoming⟩
  have hstate₅ := (hincoming.state_eq fun _ _ _ _ => incomingRound_ok).trans hstate₄
  obtain hloop | ⟨_, conn₆, _, hrest₆⟩ := LoopM.bind_error_iff.mp hrest₅
  · obtain ⟨_, conn₆, hreaches, hround⟩ := loop_error_iff.mp ⟨fuel, hloop⟩
    obtain ⟨hsame, hnext⟩ := outgoingRound_error hround
    refine .inr ⟨.outgoing htake hsynced hframes hflush hincoming hreaches hnext, ?_⟩
    rw [hsame, hreaches.state_eq fun _ _ _ _ => outgoingRound_ok, hstate₅]
  · cases hrest₆

theorem Ends.mono {α β : Type} {body : α → Op B P H D (Round α β)} {a : α} {b : β}
    {conn conn' : Connection B P H D} (h : Ends body a conn b conn') :
    ∃ fuel, ∀ fuel' ≥ fuel, LoopM.loop fuel' body a conn = some (.ok b conn') := by
  obtain ⟨fuel, hloop⟩ := h
  exact ⟨fuel, fun _ hle => Loop.run_mono hle hloop⟩

/-- An error which is lost is returned, and the phase is gone. -/
theorem LosesError.returned {conn : Connection B P H D} {e : Error}
    (h : LosesError backend payloads handler overflow e conn) :
    ∃ fuel conn', processNewPackets backend payloads handler overflow fuel conn =
      some (.error (.err e) conn') ∧ conn'.state = .error .handshakeNotComplete := by
  cases h with
  | @desynced state conn₁ conn₂ htake h =>
      refine ⟨0, conn₂, ?_, ?_⟩
      · exact (LoopM.bind_of_ok (congrArg some htake)).trans (LoopM.bind_of_error (congrArg some h))
      · rw [checkSynced_error h, takeState_ok htake]
  | @frame state state' msg conn₁ conn₂ conn₃ conn₄ htake hsynced hframes hpop h =>
      have hround : frameRound backend payloads handler overflow state' conn₂ =
          .error (.err e) conn₄ :=
        Fault.run_bind_error_iff.mpr (.inr ⟨some msg, conn₃, hpop,
          Fault.run_bind_error_iff.mpr (.inl h)⟩)
      obtain ⟨fuel, hloop⟩ := loop_error_iff.mpr ⟨state', conn₂, hframes, hround⟩
      refine ⟨fuel, conn₄, ?_, ?_⟩
      · exact (LoopM.bind_of_ok (congrArg some htake)).trans
          ((LoopM.bind_of_ok (congrArg some hsynced)).trans (LoopM.bind_of_error hloop))
      · exact ((keeps_processIncomingOpaque msg).error rfl h).trans ((popFrame_ok hpop).trans
          ((hframes.state_eq fun _ _ _ _ => frameRound_ok).trans (takeState_ok htake)))
  | @flush state state' conn₁ conn₂ conn₃ htake hsynced hframes h =>
      have hstate := (hframes.state_eq fun _ _ _ _ => frameRound_ok).trans (takeState_ok htake)
      obtain ⟨fuel, hloop⟩ := hframes
      refine ⟨fuel, conn₃, ?_, (keeps_onCommon _).error hstate h⟩
      exact (LoopM.bind_of_ok (congrArg some htake)).trans
        ((LoopM.bind_of_ok (congrArg some hsynced)).trans ((LoopM.bind_of_ok hloop).trans
          (LoopM.bind_of_error (congrArg some h))))
  | @incoming state state' state'' conn₁ conn₂ conn₃ conn₄ conn₅ htake hsynced hframes hflush
      hincoming h =>
      have hstate := (hframes.state_eq fun _ _ _ _ => frameRound_ok).trans (takeState_ok htake)
      have hstate₃ := (keeps_onCommon _).ok hstate hflush
      have hround : incomingRound backend payloads handler overflow state'' conn₄ =
          .error (.err e) conn₅ := Fault.run_bind_error_iff.mpr (.inl h)
      obtain ⟨fuel₁, hloop₁⟩ := hframes.mono
      obtain ⟨fuel₂, hloop₂⟩ := loop_error_iff.mpr ⟨state'', conn₄, hincoming, hround⟩
      refine ⟨max fuel₁ fuel₂, conn₅, ?_, ?_⟩
      · exact (LoopM.bind_of_ok (congrArg some htake)).trans
          ((LoopM.bind_of_ok (congrArg some hsynced)).trans
            ((LoopM.bind_of_ok (hloop₁ _ (Nat.le_max_left _ _))).trans
              ((LoopM.bind_of_ok (congrArg some hflush)).trans
                (LoopM.bind_of_error (Loop.run_mono (Nat.le_max_right _ _) hloop₂)))))
      · exact (keeps_onCommon _).error
          ((hincoming.state_eq fun _ _ _ _ => incomingRound_ok).trans hstate₃) h
  | @outgoing state state' state'' conn₁ conn₂ conn₃ conn₄ conn₅ conn₆ htake hsynced hframes hflush
      hincoming houtgoing h =>
      have hstate := (hframes.state_eq fun _ _ _ _ => frameRound_ok).trans (takeState_ok htake)
      have hstate₄ := (hincoming.state_eq fun _ _ _ _ => incomingRound_ok).trans
        ((keeps_onCommon _).ok hstate hflush)
      have hround : outgoingRound backend () conn₅ = .error (.err e) conn₆ :=
        Fault.run_bind_error_iff.mpr (.inl h)
      obtain ⟨fuel₁, hloop₁⟩ := hframes.mono
      obtain ⟨fuel₂, hloop₂⟩ := hincoming.mono
      obtain ⟨fuel₃, hloop₃⟩ := loop_error_iff.mpr ⟨(), conn₅, houtgoing, hround⟩
      refine ⟨max fuel₁ (max fuel₂ fuel₃), conn₆, ?_, ?_⟩
      · exact (LoopM.bind_of_ok (congrArg some htake)).trans
          ((LoopM.bind_of_ok (congrArg some hsynced)).trans
            ((LoopM.bind_of_ok (hloop₁ _ (by omega))).trans
              ((LoopM.bind_of_ok (congrArg some hflush)).trans
                ((LoopM.bind_of_ok (hloop₂ _ (by omega))).trans
                  (LoopM.bind_of_error (Loop.run_mono (by omega) hloop₃))))))
      · exact (keeps_onCommon _).error
          ((houtgoing.state_eq fun _ _ _ _ => outgoingRound_ok).trans hstate₄) h

/-! ## Later calls -/

inductive Call where
  | start
  | processNewPackets (fuel : Nat)
  | readTls (rd : Source)
  | writePlaintext (buf : List UInt8)
  | writeAllPlaintext (fuel : Nat) (buf : List UInt8)
  | writeTls (wr : Writer)
  | readPlaintext (buf : List UInt8)
  | sendCloseNotify
  | serverClosed
  | setBufferLimit (limit : Option Nat)

/-- A call, whose result is not looked at. -/
def call (backend : Backend B) (payloads : HandshakePayloads P) (handler : Handler B P H D)
    (overflow : Overflow) : Call → LoopM (Fault Error) (Connection B P H D) Unit
  | .start => LoopM.lift (start handler)
  | .processNewPackets fuel => do
      let _ ← processNewPackets backend payloads handler overflow fuel
      return ()
  | .readTls rd => do
      let _ ← LoopM.lift (readTls rd)
      return ()
  | .writePlaintext buf => do
      let _ ← LoopM.lift (writePlaintext backend handler overflow buf)
      return ()
  | .writeAllPlaintext fuel buf => do
      let _ ← writeAllPlaintext backend handler overflow fuel buf
      return ()
  | .writeTls wr => LoopM.lift (onCommon (modify (writeTls wr)))
  | .readPlaintext buf => LoopM.lift (onCommon (modify (readPlaintext buf)))
  | .sendCloseNotify => LoopM.lift (onCommon (CommonState.sendCloseNotify backend overflow))
  | .serverClosed => LoopM.lift (onCommon (CommonState.onBackend backend.serverClosed))
  | .setBufferLimit limit => LoopM.lift (onCommon (modify (CommonState.setBufferLimit limit)))

/-- The connection after calls which returned, with a result or an error. -/
inductive Later (backend : Backend B) (payloads : HandshakePayloads P) (handler : Handler B P H D)
    (overflow : Overflow) (conn : Connection B P H D) : Connection B P H D → Prop
  | refl : Later backend payloads handler overflow conn conn
  | returned {conn₁ conn₂ : Connection B P H D} (c : Call)
      (h : Later backend payloads handler overflow conn conn₁)
      (hcall : call backend payloads handler overflow c conn₁ = some (.ok () conn₂)) :
      Later backend payloads handler overflow conn conn₂
  | failed {conn₁ conn₂ : Connection B P H D} {e : Error} (c : Call)
      (h : Later backend payloads handler overflow conn conn₁)
      (hcall : call backend payloads handler overflow c conn₁ = some (.error (.err e) conn₂)) :
      Later backend payloads handler overflow conn conn₂

/-- Whatever is called in the meantime, processing fails in the same way and does nothing. -/
def StaysAt (backend : Backend B) (payloads : HandshakePayloads P) (handler : Handler B P H D)
    (overflow : Overflow) (e : Error) (conn : Connection B P H D) : Prop :=
  ∀ conn', Later backend payloads handler overflow conn conn' → ∀ fuel,
    processNewPackets backend payloads handler overflow fuel conn' = some (.error (.err e) conn')

theorem processNewPackets_of_error {conn : Connection B P H D} {e : Error}
    (h : conn.state = .error e) (fuel : Nat) :
    processNewPackets backend payloads handler overflow fuel conn =
      some (.error (.err e) conn) := by
  refine LoopM.bind_of_error ?_
  simp only [LoopM.lift, takeState, h]

/-- An operation under which a kept error stays. -/
def Stays {α : Type} (e : Error) (x : LoopM (Fault Error) (Connection B P H D) α) : Prop :=
  ∀ conn, conn.state = .error e →
    (∀ a conn', x conn = some (.ok a conn') → conn'.state = .error e) ∧
      ∀ e' conn', x conn = some (.error e' conn') → conn'.state = .error e

namespace Stays

variable {α β : Type} {e : Error}

theorem lift {x : Op B P H D α} (hx : Preserves (fun conn => conn.state = .error e) x) :
    Stays e (LoopM.lift x) := by
  intro conn hconn
  exact ⟨fun a conn' h => hx.ok hconn (Option.some.inj h),
    fun e' conn' h => hx.error hconn (Option.some.inj h)⟩

theorem bind {x : LoopM (Fault Error) (Connection B P H D) α}
    {f : α → LoopM (Fault Error) (Connection B P H D) β} (hx : Stays e x)
    (hf : ∀ a, Stays e (f a)) : Stays e (x >>= f) := by
  intro conn hconn
  constructor
  · intro b conn' h
    obtain ⟨a, conn₁, hfirst, h⟩ := LoopM.bind_ok_iff.mp h
    exact (hf a conn₁ ((hx conn hconn).1 a conn₁ hfirst)).1 b conn' h
  · intro e' conn' h
    obtain h | ⟨a, conn₁, hfirst, h⟩ := LoopM.bind_error_iff.mp h
    · exact (hx conn hconn).2 e' conn' h
    · exact (hf a conn₁ ((hx conn hconn).1 a conn₁ hfirst)).2 e' conn' h

theorem pure (a : α) : Stays e (Pure.pure a : LoopM (Fault Error) (Connection B P H D) α) := by
  intro conn hconn
  rw [LoopM.pure_apply]
  constructor
  · intro a' conn' h
    cases h
    exact hconn
  · intro e' conn' h
    cases h

theorem loop {body : α → Op B P H D (Round α β)}
    (hbody : ∀ a, Preserves (fun conn => conn.state = .error e) (body a)) (fuel : Nat) (a : α) :
    Stays e (LoopM.loop fuel body a) := by
  intro conn hconn
  have hrun : ∀ r, Loop.run (LoopM.round body) fuel (a, conn) = some r →
      (∀ b conn', r = .ok b conn' → conn'.state = .error e) ∧
        ∀ e' conn', r = .error e' conn' → conn'.state = .error e := by
    intro r hr
    refine Loop.run_invariant (fun s => s.2.state = .error e)
      (fun r => (∀ b conn', r = .ok b conn' → conn'.state = .error e) ∧
        ∀ e' conn', r = .error e' conn' → conn'.state = .error e) ?_ ?_ hconn hr
    · intro s s' hs hnext
      exact (hbody s.1).ok hs (LoopM.round_next_iff.mp hnext)
    · intro s r hs hdone
      obtain ⟨b, conn', hok, rfl⟩ | ⟨e', conn', herror, rfl⟩ := LoopM.round_done_iff.mp hdone
      · constructor
        · intro b' conn'' h
          cases h
          exact (hbody s.1).ok hs hok
        · intro e' conn'' h
          cases h
      · constructor
        · intro b' conn'' h
          cases h
        · intro e' conn'' h
          cases h
          exact (hbody s.1).error hs herror
  exact ⟨fun b conn' h => (hrun _ h).1 b conn' rfl, fun e' conn' h => (hrun _ h).2 e' conn' rfl⟩

end Stays

/-! ## Errors stay unless they are lost -/

variable {e : Error}

theorem stays_processNewPackets (fuel : Nat) :
    Stays e (processNewPackets backend payloads handler overflow fuel) := by
  intro conn hconn
  rw [processNewPackets_of_error hconn]
  constructor
  · intro a conn' h
    cases h
  · intro e' conn' h
    cases h
    exact hconn

theorem keeps_writePlaintext (buf : List UInt8) :
    Preserves (fun conn => conn.state = kept) (writePlaintext backend handler overflow buf) := by
  refine Preserves.bind ?_ fun _ => keeps_onCommon _
  constructor
  intro conn hconn
  unfold perhapsWriteKeyUpdate
  split
  · split
    · exact hconn
    · exact hconn
  · exact hconn

theorem keeps_writeRound (buf : List UInt8) (pos : Nat) :
    Preserves (fun conn => conn.state = kept) (writeRound backend handler overflow buf pos) :=
  Preserves.ite (Preserves.bind (keeps_writePlaintext _) fun _ => Preserves.pure _)
    (Preserves.pure _)

theorem keeps_outgoingRound (a : Unit) :
    Preserves (fun conn : Connection B P H D => conn.state = kept) (outgoingRound backend a) := by
  refine Preserves.bind (keeps_onCommon _) fun msg => ?_
  cases msg with
  | none => exact Preserves.pure _
  | some msg => exact Preserves.bind (Preserves.modify fun _ h => h) fun _ => Preserves.pure _

theorem stays_call (c : Call) : Stays e (call backend payloads handler overflow c) := by
  cases c with
  | start =>
      refine Stays.lift ⟨fun conn hconn => ?_⟩
      have htake : takeState conn = .error (.err e) conn := by
        simp only [takeState, hconn]
      rw [start, Fault.run_bind_of_error htake]
      exact hconn
  | processNewPackets fuel => exact (stays_processNewPackets fuel).bind fun _ => Stays.pure ()
  | readTls rd =>
      refine (Stays.lift ⟨fun conn hconn => ?_⟩).bind fun _ => Stays.pure ()
      unfold readTls
      split
      · exact hconn
      · exact hconn
  | writePlaintext buf =>
      exact (Stays.lift (keeps_writePlaintext buf)).bind fun _ => Stays.pure ()
  | writeAllPlaintext fuel buf =>
      refine Stays.bind ?_ fun _ => Stays.pure ()
      refine (Stays.loop (keeps_writeRound buf) fuel 0).bind fun pos => ?_
      refine (Stays.lift (keeps_onCommon _)).bind fun _ => ?_
      exact (Stays.loop keeps_outgoingRound fuel ()).bind fun _ => Stays.pure pos
  | writeTls wr => exact Stays.lift (keeps_onCommon _)
  | readPlaintext buf => exact Stays.lift (keeps_onCommon _)
  | sendCloseNotify => exact Stays.lift (keeps_onCommon _)
  | serverClosed => exact Stays.lift (keeps_onCommon _)
  | setBufferLimit limit => exact Stays.lift (keeps_onCommon _)

theorem Later.state_eq {conn conn' : Connection B P H D}
    (h : Later backend payloads handler overflow conn conn') (hconn : conn.state = .error e) :
    conn'.state = .error e := by
  induction h with
  | refl => exact hconn
  | returned c h hcall ih => exact (stays_call c _ ih).1 _ _ hcall
  | failed c h hcall ih => exact (stays_call c _ ih).2 _ _ hcall

theorem staysAt_iff {conn : Connection B P H D} {kept : Error} (hconn : conn.state = .error kept) :
    StaysAt backend payloads handler overflow e conn ↔ kept = e := by
  constructor
  · intro h
    have hfirst := h conn .refl 0
    rw [processNewPackets_of_error hconn] at hfirst
    cases hfirst
    rfl
  · rintro rfl conn' hlater fuel
    exact processNewPackets_of_error (hlater.state_eq hconn) fuel

/-- An error stays exactly when it is not one of those which are lost, of which the next
call finds another one instead. -/
theorem errors_stay_iff (backend : Backend B) (payloads : HandshakePayloads P)
    (handler : Handler B P H D) (overflow : Overflow) (conn : Connection B P H D) :
    (∀ fuel e conn', processNewPackets backend payloads handler overflow fuel conn =
        some (.error (.err e) conn') → StaysAt backend payloads handler overflow e conn') ↔
      ∀ e, LosesError backend payloads handler overflow e conn → e = .handshakeNotComplete := by
  constructor
  · intro h e hloses
    obtain ⟨fuel, conn', hrun, hstate⟩ := hloses.returned
    exact ((staysAt_iff hstate).mp (h fuel e conn' hrun)).symm
  · intro h fuel e conn' hrun
    obtain hkept | ⟨hloses, hstate⟩ := processNewPackets_error hrun
    · exact (staysAt_iff hkept).mpr rfl
    · rw [h e hloses] at hrun ⊢
      exact (staysAt_iff hstate).mpr rfl

/-- A backend without messages. -/
def idleBackend : Backend Unit where
  pushIncoming _ := return
  pushOutgoing _ := return
  nextIncoming := return none
  nextOutgoing := return none
  flush := return
  startTraffic := return
  serverClosed := return

/-- One phase, which is never left. -/
def idleHandler {C : Type} : Handler C (List UInt8) Unit Unit :=
  ⟨fun _ => return (), fun _ _ => return (), fun _ => false⟩

def idleCommon {C : Type} (backend : C) : CommonState C where
  negotiatedVersion := none
  recordLayer := ⟨0, 0, .invalid, .invalid, none⟩
  backend
  alignedHandshake := true
  maySendApplicationData := false
  mayReceiveApplicationData := false
  sentFatalAlert := false
  hasReceivedCloseNotify := false
  hasSeenEof := false
  receivedMiddleboxCcs := 0
  messageFragmenter := ⟨maxFragmentLen⟩
  receivedPlaintext := .new (some 0)
  sendablePlaintext := .new (some 0x10000)
  sendableTls := .new (some 0x10000)

/-- A connection which received bytes that are no record. -/
def desynced (state : Except Error Unit) : Connection Unit (List UInt8) Unit Unit :=
  ⟨state, (), idleCommon (), { MessageDeframer.new with desynced := true }, .new⟩

/-- A connection which received a fatal alert, before or after it is processed. -/
def alerted (state : Except Error Unit) (frames : List OpaqueMessage) :
    Connection Unit (List UInt8) Unit Unit :=
  ⟨state, (), idleCommon (), { MessageDeframer.new with frames := frames }, .new⟩

def handshakeFailure : OpaqueMessage := ⟨.alert, .tlsV1_2, [2, 0x28]⟩

theorem alerted_run (fuel : Nat) :
    processNewPackets idleBackend HandshakeJoiner.opaquePayloads idleHandler .checks (fuel + 1)
        (alerted (.ok ()) [handshakeFailure]) =
      some (.error (.err (.alertReceived 0x28)) (alerted (.error (.alertReceived 0x28)) [])) := rfl

theorem not_ends_alerted {state state' : Unit} {conn' : Connection Unit (List UInt8) Unit Unit} :
    ¬ Ends (frameRound idleBackend HandshakeJoiner.opaquePayloads idleHandler .checks) state
      (alerted (.error .handshakeNotComplete) [handshakeFailure]) state' conn' := by
  rintro ⟨fuel, hloop⟩
  cases fuel with
  | zero => cases hloop
  | succ fuel => cases hloop

/-- The error of a frame is kept. -/
theorem errors_stay_alert :
    (∀ fuel, processNewPackets idleBackend HandshakeJoiner.opaquePayloads idleHandler .checks
        (fuel + 1) (alerted (.ok ()) [handshakeFailure]) =
      some (.error (.err (.alertReceived 0x28)) (alerted (.error (.alertReceived 0x28)) []))) ∧
      StaysAt idleBackend HandshakeJoiner.opaquePayloads idleHandler .checks (.alertReceived 0x28)
        (alerted (.error (.alertReceived 0x28)) []) := by
  refine ⟨alerted_run, (errors_stay_iff idleBackend HandshakeJoiner.opaquePayloads idleHandler
    .checks (alerted (.ok ()) [handshakeFailure])).mpr ?_ 1 _ _ (alerted_run 0)⟩
  intro e h
  cases h with
  | desynced htake h =>
      cases htake
      cases h
  | frame htake hsynced hframes hpop h =>
      cases htake
      cases hframes with
      | refl =>
          cases hpop
          cases h
      | next hbody _ => cases hbody
  | flush htake hsynced hframes h =>
      cases htake
      exact absurd hframes not_ends_alerted
  | incoming htake hsynced hframes hflush hincoming h =>
      cases htake
      exact absurd hframes not_ends_alerted
  | outgoing htake hsynced hframes hflush hincoming houtgoing h =>
      cases htake
      exact absurd hframes not_ends_alerted

/-- The first call says that the stream is corrupt, and the next one that the handshake is not
complete. -/
theorem desynced_error_lost :
    (∀ fuel, processNewPackets idleBackend HandshakeJoiner.opaquePayloads idleHandler .checks fuel
        (desynced (.ok ())) =
      some (.error (.err .corruptMessage) (desynced (.error .handshakeNotComplete)))) ∧
      (∀ fuel, processNewPackets idleBackend HandshakeJoiner.opaquePayloads idleHandler .checks fuel
          (desynced (.error .handshakeNotComplete)) =
        some (.error (.err .handshakeNotComplete) (desynced (.error .handshakeNotComplete)))) ∧
      ¬ StaysAt idleBackend HandshakeJoiner.opaquePayloads idleHandler .checks .corruptMessage
        (desynced (.error .handshakeNotComplete)) := by
  refine ⟨fun fuel => rfl, fun fuel => rfl, fun h => ?_⟩
  have hstay := h _ .refl 0
  rw [processNewPackets_of_error (show (desynced (.error .handshakeNotComplete)).state =
    .error .handshakeNotComplete from rfl)] at hstay
  cases hstay

end Tlsn.Tls.Connection
