import Tlsn.MpcTls.Decrypt

/-!
The inputs of the tag tasks. Each record gets a block of its own off the end of
those that were allocated, and the block is assigned the nonce of the record.
-/

namespace Tlsn.MpcTls

open Tlsn.Cipher Tlsn.Tls

abbrev J0 := CtrBlock × OneTimePadShared

namespace J0

/-- What is logged when a record takes a block. -/
def ops (j0 : J0) (nonce : List UInt8) : List VmOp :=
  [.assign j0.1.explicitNonce nonce, .commit j0.1.explicitNonce, .assign j0.1.counter (beBytes 4 1),
    .commit j0.1.counter]

/-- The block can take a nonce and a counter. -/
def Sized (j0 : J0) : Prop := j0.1.explicitNonce.len = 8 ∧ j0.1.counter.len = 4

/-- The blocks which `k` records take. -/
def taken (j0s : List J0) (k : Nat) : List J0 := j0s.reverse.take k

def rest (j0s : List J0) (k : Nat) : List J0 := j0s.take (j0s.length - k)

theorem length_taken {j0s : List J0} {k : Nat} (h : k ≤ j0s.length) : (taken j0s k).length = k := by
  rw [taken, List.length_take, List.length_reverse, Nat.min_eq_left h]

theorem length_rest (j0s : List J0) (k : Nat) : (rest j0s k).length = j0s.length - k := by
  rw [rest, List.length_take, Nat.min_eq_left (Nat.sub_le ..)]

theorem mem_of_mem_rest {j0s : List J0} {k : Nat} {j0 : J0} (h : j0 ∈ rest j0s k) : j0 ∈ j0s :=
  List.mem_of_mem_take h

theorem rest_zero (j0s : List J0) : rest j0s 0 = j0s := List.take_length

theorem taken_snoc (init : List J0) (last : J0) (k : Nat) :
    taken (init ++ [last]) (k + 1) = last :: taken init k := by
  simp [taken]

theorem rest_snoc (init : List J0) (last : J0) (k : Nat) :
    rest (init ++ [last]) (k + 1) = rest init k := by
  rw [rest, List.length_append, List.length_singleton, Nat.add_sub_add_right,
    List.take_append_of_le_length (Nat.sub_le ..), rest]

end J0

namespace Resources

/-- The blocks of the records, assigned their nonces. -/
def j0Ops : List J0 → List TagData → List VmOp
  | j0 :: j0s, data :: rest => j0.ops data.explicitNonce ++ j0Ops j0s rest
  | _, _ => []

theorem popJ0_snoc (vm : Vm) (r : Resources) (init : List J0) (last : J0) :
    popJ0 (vm, { r with j0s := init ++ [last] }) = .ok last (vm, { r with j0s := init }) := by
  simp [popJ0]

theorem assignJ0_eq {j0 : J0} {nonce : List UInt8} {s : Vm × Resources} (hsized : j0.Sized)
    (hnonce : nonce.length = 8) :
    assignJ0 j0.1 nonce s = .ok () (s.1.push (j0.ops nonce), s.2) := by
  have hassign : ∀ {r : Slice} {data : List UInt8} (t : Vm × Resources), data.length = r.len →
      onVm (Vm.assign r data) t = .ok () (t.1.push [.assign r data], t.2) := by
    intro r data t h
    simp only [onVm, Fault.onFst, Fault.adapt, Vm.assign, h, if_true]
  have hcommit : ∀ (r : Slice) (t : Vm × Resources),
      onVm (Vm.commit r) t = .ok () (t.1.push [.commit r], t.2) := fun r t => rfl
  rw [assignJ0, Fault.run_bind_of_ok (hassign s (by rw [hnonce, hsized.1])),
    Fault.run_bind_of_ok (hcommit _ _),
    Fault.run_bind_of_ok (hassign _ (by rw [hsized.2, length_beBytes])), hcommit]
  simp only [Vm.push_push]
  rfl

/-- Every record finds a block, and has a nonce of the right length. -/
theorem takeJ0s_eq (data : List TagData) {vm : Vm} {r : Resources}
    (hsized : ∀ j0 ∈ r.j0s, J0.Sized j0) (hcount : data.length ≤ r.j0s.length)
    (hnonce : ∀ d ∈ data, d.explicitNonce.length = 8) :
    takeJ0s data (vm, r) = .ok ((J0.taken r.j0s data.length).map Prod.snd)
      (vm.push (j0Ops (J0.taken r.j0s data.length) data),
        { r with j0s := J0.rest r.j0s data.length }) := by
  induction data generalizing vm r with
  | nil =>
      simp only [List.length_nil, J0.rest_zero, J0.taken, List.take_zero, List.map_nil, j0Ops,
        Vm.push_nil]
      rfl
  | cons d data ih =>
      obtain ⟨input, keystream, j0s, output⟩ := r
      obtain ⟨init, last, rfl⟩ := (List.eq_nil_or_concat j0s).resolve_left (by
        intro hnil
        subst hnil
        simp at hcount)
      have hlast := hsized last (by simp)
      have hd := hnonce d List.mem_cons_self
      have hrest : data.length ≤ init.length := by simpa using hcount
      have htail := @ih (vm.push (J0.ops last d.explicitNonce))
        (⟨input, keystream, init, output⟩) (fun j0 h => hsized j0 (by simp [h])) hrest
        (fun d' h => hnonce d' (List.mem_cons_of_mem _ h))
      have hpop := popJ0_snoc vm ⟨input, keystream, init, output⟩ init last
      have hok : nonceOf d.explicitNonce = .ok d.explicitNonce := if_pos hd
      rw [takeJ0s, Fault.run_bind_of_ok (Fault.lift_of_ok hok _), List.concat_eq_append,
        Fault.run_bind_of_ok hpop]
      simp only
      rw [Fault.run_bind_of_ok (assignJ0_eq hlast hd), Fault.run_bind_of_ok htail]
      simp only [List.length_cons, J0.taken_snoc, J0.rest_snoc, List.map_cons, j0Ops, Vm.push_push]
      rfl

/-- What a batch needs: a block for each record, and nonces of the right length. -/
def TagsFit (j0s : List J0) (data : List TagData) : Prop :=
  data.length ≤ j0s.length ∧ ∀ d ∈ data, d.explicitNonce.length = 8

theorem takeJ0s_nonces {data : List TagData} {s s' : Vm × Resources} {r : List OneTimePadShared}
    (h : takeJ0s data s = .ok r s') : ∀ d ∈ data, d.explicitNonce.length = 8 := by
  induction data generalizing s s' r with
  | nil =>
      intro d hd
      cases hd
  | cons d data ih =>
      obtain ⟨nonce, s₁, hnonce, h⟩ := Fault.run_bind_ok_iff.mp h
      obtain ⟨j0, s₂, -, h⟩ := Fault.run_bind_ok_iff.mp h
      obtain ⟨-, s₃, -, h⟩ := Fault.run_bind_ok_iff.mp h
      obtain ⟨rest, s₄, hrest, -⟩ := Fault.run_bind_ok_iff.mp h
      have hok := (Fault.lift_ok_iff.mp hnonce).1
      refine List.forall_mem_cons.mpr ⟨?_, ih hrest⟩
      by_contra hlength
      rw [nonceOf, if_neg hlength] at hok
      cases hok

section

variable {role : Role} {ghash : Ghash} {ciphertexts : List (Future (List UInt8))}
  {data : List TagData} {texts tags : List (List UInt8)} {s s' : Vm × Resources}

theorem computeTags_fit {task : ComputeTags}
    (h : computeTags role ghash ciphertexts data s = .ok task s') :
    ciphertexts.length = data.length ∧ TagsFit s.2.j0s data := by
  unfold computeTags at h
  by_cases hlen : ciphertexts.length = data.length
  · rw [if_neg (not_not_intro hlen), Fault.get_bind] at h
    by_cases hcount : ciphertexts.length > s.2.j0s.length
    · rw [if_pos hcount] at h
      cases h
    · rw [if_neg hcount] at h
      obtain ⟨j0s, s₁, htake, -⟩ := Fault.run_bind_ok_iff.mp h
      exact ⟨hlen, by omega, takeJ0s_nonces htake⟩
  · rw [if_pos hlen] at h
    cases h

theorem computeTags_eq (hlen : ciphertexts.length = data.length)
    (hsized : ∀ j0 ∈ s.2.j0s, J0.Sized j0) (hfits : TagsFit s.2.j0s data) :
    computeTags role ghash ciphertexts data s =
      .ok ⟨role, List.zipWith (fun j0 (c, d) => ⟨j0, c, TagData.aad d⟩)
          ((J0.taken s.2.j0s data.length).map Prod.snd) (ciphertexts.zip data), ghash⟩
        (s.1.push (j0Ops (J0.taken s.2.j0s data.length) data),
          { s.2 with j0s := J0.rest s.2.j0s data.length }) := by
  unfold computeTags
  rw [if_neg (not_not_intro hlen), Fault.get_bind, if_neg (by have := hfits.1; omega),
    Fault.run_bind_of_ok (takeJ0s_eq data hsized hfits.1 hfits.2)]
  rfl

theorem verifyTags_fit {task : VerifyTags}
    (h : verifyTags role ghash data texts tags s = .ok task s') :
    texts.length = data.length ∧ texts.length = tags.length ∧ TagsFit s.2.j0s data := by
  unfold verifyTags at h
  by_cases hlen : texts.length = data.length
  · rw [if_neg (not_not_intro hlen)] at h
    by_cases hlen' : texts.length = tags.length
    · rw [if_neg (not_not_intro hlen'), Fault.get_bind] at h
      by_cases hcount : texts.length > s.2.j0s.length
      · rw [if_pos hcount] at h
        cases h
      · rw [if_neg hcount] at h
        obtain ⟨j0s, s₁, htake, -⟩ := Fault.run_bind_ok_iff.mp h
        exact ⟨hlen, hlen', by omega, takeJ0s_nonces htake⟩
    · rw [if_pos hlen'] at h
      cases h
  · rw [if_pos hlen] at h
    cases h

theorem verifyTags_eq (hlen : texts.length = data.length) (hlen' : texts.length = tags.length)
    (hsized : ∀ j0 ∈ s.2.j0s, J0.Sized j0) (hfits : TagsFit s.2.j0s data) :
    verifyTags role ghash data texts tags s =
      .ok ⟨role, List.zipWith (fun j0 ((c, d), t) => ⟨j0, c, TagData.aad d, t⟩)
          ((J0.taken s.2.j0s data.length).map Prod.snd) ((texts.zip data).zip tags), ghash⟩
        (s.1.push (j0Ops (J0.taken s.2.j0s data.length) data),
          { s.2 with j0s := J0.rest s.2.j0s data.length }) := by
  unfold verifyTags
  rw [if_neg (not_not_intro hlen), if_neg (not_not_intro hlen'), Fault.get_bind,
    if_neg (by have := hfits.1; omega),
    Fault.run_bind_of_ok (takeJ0s_eq data hsized hfits.1 hfits.2)]
  rfl

end

end Resources

end Tlsn.MpcTls
