import Tlsn.MpcTls.ErrorText
import Tlsn.MpcTls.VmLog

/-!
What the pad of the leader is drawn for. A batch of records is decrypted one by one;
when one of them fails, those before it have drawn their part of the pad, and the
record that failed has not.
-/

namespace Tlsn.MpcTls

open Tlsn.Cipher Tlsn.Common Tlsn.Tls
open Fault (Preserves Triple)

/-- The resources, when there are any. -/
def MpcAesGcm.resources? (gcm : MpcAesGcm) : Option Resources :=
  match gcm.state with
  | .setup resources _ => some resources
  | .ready resources _ => some resources
  | _ => none

namespace Resources

variable {L : Layout} {n : Nat}

/-- The resources are those of the layout, with some blocks for tags. -/
def LaidOut (L : Layout) (n : Nat) (r : Resources) : Prop := ∃ j0s, r = L.resources j0s n

theorem laidOut_takeJ0s (data : List TagData) :
    Preserves (fun s => LaidOut L n s.2) (takeJ0s data) := by
  induction data with
  | nil => exact Preserves.pure _
  | cons d data ih =>
      have honVm : ∀ {α : Type} (x : EStateM (Fault VmError) Vm α),
          Preserves (fun s => LaidOut L n s.2) (onVm x) := by
        intro α x
        constructor
        intro s hs
        unfold onVm Fault.onFst
        cases Fault.adapt _ x s.1 <;> exact hs
      have hpop : Preserves (fun s => LaidOut L n s.2) popJ0 := by
        constructor
        rintro ⟨vm, r⟩ ⟨j0s, rfl⟩
        unfold popJ0
        split
        · exact ⟨j0s, rfl⟩
        · exact ⟨j0s.dropLast, rfl⟩
      refine Preserves.bind (Preserves.lift _) fun _ => Preserves.bind hpop fun ⟨j0, shared⟩ => ?_
      refine Preserves.bind ?_ fun _ => Preserves.bind ih fun _ => Preserves.pure _
      refine Preserves.bind (honVm _) fun _ => Preserves.bind (honVm _) fun _ => ?_
      exact Preserves.bind (honVm _) fun _ => honVm _

/-- Verifying tags takes blocks for tags, and nothing else. -/
theorem laidOut_verifyTags (role : Role) (ghash : Ghash) (data : List TagData)
    (ciphertexts tags : List (List UInt8)) :
    Preserves (fun s => LaidOut L n s.2) (verifyTags role ghash data ciphertexts tags) := by
  refine Preserves.ite (Preserves.throw _) (Preserves.ite (Preserves.throw _) ?_)
  refine Preserves.bind Preserves.get fun _ => Preserves.ite (Preserves.throw _) ?_
  exact Preserves.bind (laidOut_takeJ0s _) fun _ => Preserves.pure _

end Resources

/-- What an operation keeps of the resources of a ready instance, the instance keeps. -/
theorem MpcAesGcm.resources_whenReady {α : Type} {I : Resources → Prop} {role : Role}
    {text : String} {x : Role → Ghash → EStateM (Fault AeadError) (Vm × Resources) α}
    (hx : ∀ role ghash, Preserves (fun s => I s.2) (x role ghash)) :
    Preserves (fun s : Vm × MpcAesGcm => s.2.role = role ∧ ∀ r, s.2.resources? = some r → I r)
      (whenReady text x) := by
  constructor
  rintro ⟨vm, gcm⟩ ⟨hrole, h⟩
  unfold whenReady
  cases hstate : gcm.state with
  | ready resources ghash =>
      have hafter := (hx gcm.role ghash).after (vm, resources)
        (h resources (by rw [resources?, hstate]))
      simp only
      cases hrun : x gcm.role ghash (vm, resources) with
      | ok a t =>
          rw [hrun] at hafter
          refine ⟨hrole, fun r hr => ?_⟩
          cases hr
          exact hafter
      | error e t =>
          rw [hrun] at hafter
          refine ⟨hrole, fun r hr => ?_⟩
          cases hr
          exact hafter
  | init => exact ⟨hrole, h⟩
  | setup resources ghashKey => exact ⟨hrole, h⟩
  | error => exact ⟨hrole, h⟩

namespace DecryptOp

/-! ## Batches -/

/-- How many bytes of the pad the records take. -/
def padLen : List DecryptOp → Nat
  | [] => 0
  | op :: ops => (match op.mode with
      | .isPrivate => op.ciphertext.length
      | .isPublic => 0) + padLen ops

theorem padLen_append (ops ops' : List DecryptOp) :
    padLen (ops ++ ops') = padLen ops + padLen ops' := by
  induction ops with
  | nil => exact (Nat.zero_add _).symm
  | cons op ops ih => rw [List.cons_append, padLen, padLen, ih, Nat.add_assoc]

theorem padLen_le (ops : List DecryptOp) :
    padLen ops ≤ (ops.map fun op => op.ciphertext.length).sum := by
  induction ops with
  | nil => exact Nat.le_refl _
  | cons op ops ih =>
      rw [padLen, List.map_cons, List.sum_cons]
      cases op.mode with
      | isPrivate => exact Nat.add_le_add_left ih _
      | isPublic => exact Nat.le_trans (Nat.le_of_eq (Nat.zero_add _)) (Nat.le_add_left_of_le ih)

theorem padLen_public {ops : List DecryptOp} (h : ∀ op ∈ ops, op.mode = .isPublic) :
    padLen ops = 0 := by
  induction ops with
  | nil => rfl
  | cons op ops ih =>
      obtain ⟨hop, hops⟩ := List.forall_mem_cons.mp h
      rw [padLen, hop, ih hops]

theorem length_padRest {n : Nat} {otp : List UInt8} {ops : List DecryptOp}
    (h : FitFrom n (some otp) ops) :
    ∃ rest, padRest (some otp) ops = some rest ∧ rest.length + padLen ops = otp.length := by
  induction ops generalizing n otp with
  | nil => exact ⟨otp, rfl, rfl⟩
  | cons op ops ih =>
      obtain ⟨hfits, hrest⟩ := h
      have hpad := hfits.2.2
      cases hmode : op.mode with
      | isPrivate =>
          rw [hmode] at hpad
          have hle := hpad otp rfl
          have hafter : op.padAfter (some otp) =
              some (otp.take (otp.length - op.ciphertext.length)) := by
            rw [padAfter, hmode, Option.map_some]
          rw [hafter] at hrest
          obtain ⟨rest, heq, hlen⟩ := ih hrest
          refine ⟨rest, ?_, ?_⟩
          · rw [padRest, hafter, heq]
          · rw [padLen, hmode]
            rw [List.length_take] at hlen
            simp only
            omega
      | isPublic =>
          have hafter : op.padAfter (some otp) = some otp := by rw [padAfter, hmode]
          rw [hafter] at hrest
          obtain ⟨rest, heq, hlen⟩ := ih hrest
          refine ⟨rest, ?_, ?_⟩
          · rw [padRest, hafter, heq]
          · rw [padLen, hmode, Nat.zero_add, hlen]

section

variable {L : Layout} {j0s : List (CtrBlock × OneTimePadShared)} {ghash : Ghash} {n : Nat}
  {op : DecryptOp}

/-- A record that does not fit leaves everything as it is. -/
theorem decryptOne_refused {s : DecryptState}
    (hstate : s.1.2.state = .ready (L.resources j0s n) ghash) (hword : 16 * n < wordSize)
    (hlen : op.ciphertext.length < wordSize) (h : ¬ op.FitsAt n s.2) :
    ∃ e, op.decryptOne s = .error e s := by
  obtain ⟨⟨vm, gcm⟩, pad⟩ := s
  cases hmode : op.mode with
  | isPublic =>
      have hrefused : ∃ e, MpcAesGcm.takeKeystream op.explicitNonce op.ciphertext.length (vm, gcm) =
          .error e (vm, gcm) := by
        apply MpcAesGcm.takeKeystream_refused (s := (vm, gcm)) hstate hword hlen
        intro hfits
        exact h ⟨hfits.1, hfits.2.2, by rw [hmode]; exact hfits.2.1⟩
      obtain ⟨e, he⟩ := hrefused
      refine ⟨e.map MpcTlsError.recordLayerAead, ?_⟩
      rw [decryptOne, hmode]
      simp only [Fault.onFst, decryptPublic, bind, EStateM.bind, Fault.adapt, he]
  | isPrivate =>
      rw [decryptOne, hmode]
      simp only
      rw [privateMpc, Fault.get_bind]
      have happly : (∀ otp, pad = some otp → op.ciphertext.length ≤ otp.length) →
          ∃ e, MpcAesGcm.applyKeystream op.explicitNonce op.ciphertext.length (vm, gcm) =
            .error e (vm, gcm) := by
        intro hpad
        apply MpcAesGcm.applyKeystream_refused (s := (vm, gcm)) hstate hword hlen
        intro hfits
        exact h ⟨hfits.1, hfits.2, by rw [hmode]; exact hpad⟩
      cases pad with
      | none =>
          obtain ⟨e, he⟩ := happly fun otp hotp => by cases hotp
          refine ⟨e.map MpcTlsError.recordLayerAead, ?_⟩
          simp only [bind, EStateM.bind, Fault.onFst, Fault.adapt, he]
      | some otp =>
          simp only
          by_cases hlong : op.ciphertext.length > otp.length
          · rw [if_pos hlong]
            exact ⟨_, rfl⟩
          · obtain ⟨e, he⟩ := happly fun otp' hotp => by
              cases hotp
              exact Nat.le_of_not_lt hlong
            refine ⟨e.map MpcTlsError.recordLayerAead, ?_⟩
            rw [if_neg hlong]
            simp only [bind, EStateM.bind, Fault.onFst, Fault.adapt, he]

end

/-- Before the instance is ready, nothing is decrypted. -/
theorem decryptOne_waiting {op : DecryptOp} {s : DecryptState}
    (h : ∀ r ghash, s.1.2.state ≠ .ready r ghash) : ∃ e, op.decryptOne s = .error e s := by
  obtain ⟨⟨vm, gcm⟩, pad⟩ := s
  have hready : ∀ {α : Type} (text : String)
      (x : Role → Ghash → EStateM (Fault AeadError) (Vm × Resources) α),
      ∃ e, MpcAesGcm.whenReady text x (vm, gcm) = .error e (vm, gcm) := by
    intro α text x
    unfold MpcAesGcm.whenReady
    cases hstate : gcm.state with
    | ready r ghash => exact absurd hstate (h r ghash)
    | init => exact ⟨_, rfl⟩
    | setup r ghashKey => exact ⟨_, rfl⟩
    | error => exact ⟨_, rfl⟩
  unfold decryptOne
  cases op.mode with
  | isPublic =>
      obtain ⟨e, he⟩ : ∃ e, MpcAesGcm.takeKeystream op.explicitNonce op.ciphertext.length
          (vm, gcm) = .error e (vm, gcm) := hready _ _
      refine ⟨e.map MpcTlsError.recordLayerAead, ?_⟩
      simp only [Fault.onFst, decryptPublic, bind, EStateM.bind, Fault.adapt, he]
  | isPrivate =>
      obtain ⟨e, he⟩ : ∃ e, MpcAesGcm.applyKeystream op.explicitNonce op.ciphertext.length
          (vm, gcm) = .error e (vm, gcm) := hready _ _
      simp only
      rw [privateMpc, Fault.get_bind]
      cases pad with
      | none =>
          refine ⟨e.map MpcTlsError.recordLayerAead, ?_⟩
          simp only [bind, EStateM.bind, Fault.onFst, Fault.adapt, he]
      | some otp =>
          simp only
          by_cases hlong : op.ciphertext.length > otp.length
          · rw [if_pos hlong]
            exact ⟨_, rfl⟩
          · refine ⟨e.map MpcTlsError.recordLayerAead, ?_⟩
            rw [if_neg hlong]
            simp only [bind, EStateM.bind, Fault.onFst, Fault.adapt, he]

/-- The records `done` have been decrypted with the resources of the layout and with the
pad, in this order. -/
structure Drawn (L : Layout) (N : Nat) (pad : Option (List UInt8)) (done : List DecryptOp)
    (s : DecryptState) : Prop where
  role : s.1.2.role = .leader
  laid : ∀ r, s.1.2.resources? = some r → r.LaidOut L (remaining N done)
  rest : s.2 = padRest pad done
  fits : FitFrom N pad done
  log : ∀ o ∈ opsFrom .leader L N pad done, o ∈ s.1.1.log

namespace Drawn

variable {L : Layout} {N : Nat} {pad : Option (List UInt8)} {done : List DecryptOp}
  {op : DecryptOp} {s s' : DecryptState}

/-- One record: it draws its part, or it fails and nothing changes. -/
theorem decryptOne (h : Drawn L N pad done s) (hword : 16 * N < wordSize)
    (hlen : op.ciphertext.length < wordSize) :
    (∃ out s', op.decryptOne s = .ok out s' ∧ Drawn L N pad (done ++ [op]) s') ∨
      ∃ e, op.decryptOne s = .error e s := by
  by_cases hready : ∃ r ghash, s.1.2.state = .ready r ghash
  · obtain ⟨r, ghash, hstate⟩ := hready
    obtain ⟨j0s, rfl⟩ := h.laid r (by rw [MpcAesGcm.resources?, hstate])
    have hle := remaining_le done N
    by_cases hfits : op.FitsAt (remaining N done) s.2
    · refine .inl ⟨_, _, decryptOne_eq hstate (by omega) hfits, ?_⟩
      constructor
      · exact h.role
      · intro r hr
        cases hr
        exact ⟨j0s, by rw [remaining_append]; rfl⟩
      · rw [padRest_append, ← h.rest]
        rfl
      · rw [fitFrom_append, ← h.rest]
        exact ⟨h.fits, hfits, trivial⟩
      · intro o ho
        rw [opsFrom_append, ← h.rest] at ho
        cases List.mem_append.mp ho with
        | inl ho => exact logged_push o _ _ (h.log o ho)
        | inr ho =>
            rw [opsFrom, opsFrom, List.append_nil, ← h.role] at ho
            exact List.mem_append_right _ ho
    · exact .inr (decryptOne_refused hstate (by omega) hlen hfits)
  · exact .inr (decryptOne_waiting fun r ghash hstate => hready ⟨r, ghash, hstate⟩)

/-- A batch: all of the records draw their part, or those in front do. -/
theorem decryptMpc (ops : List DecryptOp) (hword : 16 * N < wordSize)
    (hlen : ∀ op ∈ ops, op.ciphertext.length < wordSize) :
    Triple (Drawn L N pad done) (decryptMpc ops) (fun _ => Drawn L N pad (done ++ ops))
      fun _ s => ∃ front, front <+: ops ∧ Drawn L N pad (done ++ front) s := by
  induction ops generalizing done with
  | nil =>
      rw [List.append_nil]
      exact Triple.pure fun _ => id
  | cons op ops ih =>
      obtain ⟨hop, hops⟩ := List.forall_mem_cons.mp hlen
      constructor
      intro s hs
      cases hs.decryptOne hword hop with
      | inl h =>
          obtain ⟨out, s₁, hone, hdrawn⟩ := h
          have hrest : Triple (Drawn L N pad (done ++ [op])) (do
              let outputs ← Tlsn.MpcTls.decryptMpc ops
              (return out :: outputs : EStateM (Fault MpcTlsError) DecryptState _))
              (fun _ => Drawn L N pad (done ++ op :: ops))
              fun _ s => ∃ front, front <+: op :: ops ∧ Drawn L N pad (done ++ front) s := by
            refine Triple.bind ((ih hops).conseq (fun _ => id) (fun _ _ => id) ?_) fun _ =>
              Triple.pure fun s h => ?_
            · rintro e s ⟨front, hfront, h⟩
              rw [List.append_assoc] at h
              exact ⟨op :: front, List.cons_prefix_cons.mpr ⟨rfl, hfront⟩, h⟩
            · rw [List.append_assoc] at h
              exact h
          rw [Tlsn.MpcTls.decryptMpc, Fault.run_bind_of_ok hone]
          exact hrest.after s₁ hdrawn
      | inr h =>
          obtain ⟨e, he⟩ := h
          rw [Tlsn.MpcTls.decryptMpc, Fault.run_bind_of_error he]
          exact ⟨[], List.nil_prefix, by rw [List.append_nil]; exact hs⟩

/-- While the pad is long enough for the batch, its length is not what a record fails
with. -/
theorem decryptMpc_text {otp : List UInt8} (ops : List DecryptOp)
    (h : Drawn L N (some otp) done s) (hword : 16 * N < wordSize)
    (hlen : ∀ op ∈ ops, op.ciphertext.length < wordSize)
    (hpad : padLen (done ++ ops) ≤ otp.length) {e : Fault MpcTlsError}
    (hrun : Tlsn.MpcTls.decryptMpc ops s = .error e s') : NotHead 'c' e := by
  induction ops generalizing done s with
  | nil => cases hrun
  | cons op ops ih =>
      obtain ⟨hop, hops⟩ := List.forall_mem_cons.mp hlen
      have happend : done ++ op :: ops = (done ++ [op]) ++ ops := by
        rw [List.append_assoc, List.singleton_append]
      have hone : ∀ e s', op.decryptOne s = .error e s' → NotHead 'c' e := by
        unfold DecryptOp.decryptOne
        cases hmode : op.mode with
        | isPublic =>
            refine Fault.Raises.onFst (Fault.Raises.bind (NotHead.adapt_aead _) fun _ => ?_) s
            exact Fault.Raises.bind (NotHead.onVm _) fun _ => Fault.Raises.pure _
        | isPrivate =>
            apply NotHead.privateMpc_of_pad
            intro rest hrest
            obtain ⟨rest', heq, hsum⟩ := length_padRest h.fits
            rw [h.rest, heq] at hrest
            cases hrest
            rw [padLen_append, padLen, hmode] at hpad
            simp only at hpad
            omega
      cases Fault.run_bind_error_iff.mp hrun with
      | inl hrun => exact hone _ _ hrun
      | inr hrun =>
          obtain ⟨out, s₁, hout, hrun⟩ := hrun
          cases h.decryptOne hword hop with
          | inr hfail =>
              obtain ⟨e', he'⟩ := hfail
              rw [he'] at hout
              cases hout
          | inl hok =>
              obtain ⟨out', s₁', hok, hdrawn⟩ := hok
              rw [hok] at hout
              cases hout
              cases Fault.run_bind_error_iff.mp hrun with
              | inl hrun => exact ih hdrawn hops (happend ▸ hpad) hrun
              | inr hrun =>
                  obtain ⟨outs, s₂, -, hrun⟩ := hrun
                  cases hrun

/-- The tags of the records may be verified at any time. -/
theorem verifyTags (ops : List DecryptOp) (rest : Option (List UInt8)) :
    Preserves (fun t => Drawn L N pad done (t, rest)) (verifyTags ops) := by
  have hlaid : Preserves (fun t : Vm × MpcAesGcm => t.2.role = .leader ∧
      ∀ r, t.2.resources? = some r → r.LaidOut L (remaining N done)) (Tlsn.MpcTls.verifyTags ops) :=
    Preserves.adapt (MpcAesGcm.resources_whenReady
      fun _ _ => Resources.laidOut_verifyTags _ _ _ _ _)
  constructor
  intro t h
  cases hrun : Tlsn.MpcTls.verifyTags ops t with
  | ok task t' =>
      have hafter := hlaid.ok ⟨h.role, h.laid⟩ hrun
      exact ⟨hafter.1, hafter.2, h.rest, h.fits,
        fun o ho => log_of_ok (fun o => logged_verifyTags o ops) hrun o (h.log o ho)⟩
  | error e t' =>
      have hafter := hlaid.error ⟨h.role, h.laid⟩ hrun
      exact ⟨hafter.1, hafter.2, h.rest, h.fits,
        fun o ho => log_of_error (fun o => logged_verifyTags o ops) hrun o (h.log o ho)⟩

end Drawn

end DecryptOp

end Tlsn.MpcTls
