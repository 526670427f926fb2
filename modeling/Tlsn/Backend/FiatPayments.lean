import Tlsn.Backend.WalletService

/-!
Payments against what was moved to the wallet of the operator, over any interleaving of
requests. The receiver of a transfer is not looked at, and nothing marks one as paid.
-/

namespace Tlsn.Backend.WalletService

variable {viem : Viem ℚ} {decimals : Nat} {operator : String} {sepolia : Sepolia} {e e' : Execution}
  {es : List Execution} {answer : Answer}

/-- What a transfer has to agree with: the sender, and the value. -/
structure Key where
  sender : String
  units : ℤ
deriving DecidableEq

def TransferEvent.key (event : TransferEvent) : Key := ⟨event.fromAddress.toLower, event.value⟩

def Execution.key (e : Execution) : Option Key :=
  e.expectedAmount.map fun expectedAmount => ⟨e.request.walletAddress.toLower, expectedAmount⟩

/-- The transfers to the wallet of the operator. -/
def deposits (operator : String) (sepolia : Sepolia) : List TransferEvent :=
  sepolia.log.filter fun event => event.toAddress.toLower = operator.toLower

/-- What a request is paid for, or may still be. -/
def claim (e : Execution) : Option Key :=
  match e.stage with
  | .payment _ => e.key
  | .returned _ => if e.paid.isSome then e.key else none
  | _ => none

/-- A block is mined. -/
def Mines (sepolia sepolia' : Sepolia) : Prop :=
  ∃ events : List TransferEvent, (∀ event ∈ events, event.block = sepolia.head + 1) ∧
    sepolia' = ⟨sepolia.head + 1, sepolia.log ++ events⟩

/-- Requests side by side. -/
def requests (viem : Viem ℚ) (decimals : Nat) :
    Interleaving Sepolia (TransactionRequest ℚ) Execution Answer where
  change := Mines
  start := Execution.start
  resume := fun sepolia answer e => e.resume viem decimals sepolia answer

/-- When transfers match a request, its amount has no more decimal places than the token, and
there are more such transfers to the operator than requests which were paid for them, or may
still be. -/
def Funded (decimals : Nat) (operator : String) (sepolia : Sepolia) (es : List Execution)
    (answer : Answer) (e : Execution) : Prop :=
  ∀ fromBlock toBlock, e.stage = .logs fromBlock toBlock → answer = .answered →
    (e.matchingTransfers (sepolia.getLogs fromBlock toBlock)).length > 0 →
    Whole e.request.amount decimals ∧ ∀ k, e.key = some k →
      (es.filterMap claim).count k < ((deposits operator sepolia).map TransferEvent.key).count k

/-- What is known of a request on its own. -/
structure Tracked (viem : Viem ℚ) (decimals : Nat) (e : Execution) : Prop where
  unpaid : e.paid.isSome = true → ∃ reply, e.stage = .returned reply
  priced : ∀ n, e.expectedAmount = some n → viem.parseUnits e.request.amount decimals = some n
  payment : ∀ args, e.stage = .payment args ∨ e.paid = some args →
    args.amount = e.request.amount ∧ Whole e.request.amount decimals ∧
      ∃ n, e.expectedAmount = some n

theorem Tracked.start (request : TransactionRequest ℚ) :
    Tracked viem decimals (Execution.start request) := by
  unfold Execution.start
  split <;>
    exact ⟨fun h => (nomatch h), fun _ h => (nomatch h), fun _ h => (h.elim nofun nofun)⟩

/-- Events that match give the amount which was expected. -/
theorem matchingTransfers_pos {events : List TransferEvent}
    (h : (e.matchingTransfers events).length > 0) : ∃ n, e.expectedAmount = some n := by
  obtain ⟨event, hevent⟩ := List.exists_mem_of_length_pos h
  obtain ⟨-, hmatch⟩ := List.mem_filter.mp hevent
  rw [Bool.and_eq_true, decide_eq_true_eq, decide_eq_true_eq] at hmatch
  exact ⟨_, hmatch.2.symm⟩

theorem Tracked.paid_none (h : Tracked viem decimals e)
    (hstage : ∀ reply, e.stage ≠ .returned reply) :
    e.paid = none := by
  cases hpaid : e.paid with
  | none => rfl
  | some args =>
      obtain ⟨reply, hreturned⟩ := h.unpaid (by rw [hpaid]; rfl)
      exact absurd hreturned (hstage reply)

/-- A step before anything is paid. -/
theorem Tracked.goOn {stage : Stage} (h : Tracked viem decimals e)
    (hstage : ∀ reply, e.stage ≠ .returned reply)
    (hpayment : ∀ args, stage = .payment args → args.amount = e.request.amount ∧
      Whole e.request.amount decimals ∧ ∃ n, e.expectedAmount = some n) :
    Tracked viem decimals { e with stage := stage } where
  unpaid := fun hpaid => by
    rw [show e.paid = none from h.paid_none hstage] at hpaid
    cases hpaid
  priced := h.priced
  payment := fun args hargs => by
    cases hargs with
    | inl hargs => exact hpayment args hargs
    | inr hpaid =>
        rw [show e.paid = none from h.paid_none hstage] at hpaid
        cases hpaid

theorem Tracked.resumed (h : Tracked viem decimals e)
    (hfunded : Funded decimals operator sepolia es answer e)
    (hresumed : Resumed viem decimals sepolia e answer e') : Tracked viem decimals e' := by
  cases hresumed with
  | idle => exact h
  | rejected hstage => exact h.goOn hstage fun args hnot => nomatch hnot
  | priced hstage hunits =>
      have hnone := h.paid_none (by simp [hstage])
      constructor
      · intro hpaid
        rw [show e.paid = none from hnone] at hpaid
        cases hpaid
      · intro n hn
        cases hn
        exact hunits
      · intro args hargs
        rw [show e.paid = none from hnone] at hargs
        cases hargs with
        | inl hnot => cases hnot
        | inr hnot => cases hnot
  | located hstage => exact h.goOn (by simp [hstage]) fun args hnot => nomatch hnot
  | verified hstage hmatching =>
      refine h.goOn (by simp [hstage]) fun args hargs => ?_
      cases hargs
      exact ⟨rfl, (hfunded _ _ hstage rfl hmatching).1, matchingTransfers_pos hmatching⟩
  | paid hstage =>
      refine ⟨fun _ => ⟨_, rfl⟩, h.priced, fun args hargs => ?_⟩
      cases hargs with
      | inl hnot => cases hnot
      | inr hpaid =>
          cases hpaid
          exact h.payment _ (.inl hstage)

theorem Tracked.claims (h : Tracked viem decimals e)
    (hfunded : Funded decimals operator sepolia es answer e)
    (hresumed : Resumed viem decimals sepolia e answer e') :
    Interleaving.Claims claim ((deposits operator sepolia).map TransferEvent.key) es e e' := by
  cases hresumed with
  | idle => exact .kept rfl
  | rejected hstage =>
      refine .dropped ?_
      simp only [claim]
      rw [h.paid_none hstage]
      rfl
  | priced hstage hunits => exact .dropped rfl
  | located hstage => exact .dropped rfl
  | verified hstage hmatching =>
      obtain ⟨n, hn⟩ := matchingTransfers_pos hmatching
      have hkey : e.key = some ⟨e.request.walletAddress.toLower, n⟩ := by
        rw [Execution.key, hn]
        rfl
      refine .made ?_ hkey ((hfunded _ _ hstage rfl hmatching).2 _ hkey)
      rw [claim, hstage]
  | paid hstage =>
      refine .kept ?_
      rw [claim, claim, hstage]
      rfl

/-! ## Runs -/

/-- What a payment was made for. -/
def paidKey (e : Execution) : Option Key := if e.paid.isSome then e.key else none

def paidAmount (e : Execution) : ℚ :=
  match e.paid with
  | some args => args.amount
  | none => 0

/-- The fiat that was sent. -/
def paidOut (es : List Execution) : ℚ := (es.map paidAmount).sum

/-- The USDC that was moved to the operator, in whole tokens. -/
def received (decimals : Nat) (operator : String) (sepolia : Sepolia) : ℚ :=
  ((deposits operator sepolia).map fun event => (event.value : ℚ) / 10 ^ decimals).sum

/-- Each payment has a transfer to the operator of its own, from its wallet and with its amount,
and no more is paid than was moved to the operator. -/
structure Covered (decimals : Nat) (operator : String) (sepolia : Sepolia) (es : List Execution) :
    Prop where
  backed : (es.filterMap paidKey).Subperm ((deposits operator sepolia).map TransferEvent.key)
  total : paidOut es ≤ received decimals operator sepolia

/-- The amount for which a key stands. -/
def Key.amount (decimals : Nat) (k : Key) : ℚ := (k.units : ℚ) / 10 ^ decimals

theorem Tracked.paidKey_of_paid (hviem : viem.Exact) {args : CreatePaymentRequest}
    (h : Tracked viem decimals e) (hpaid : e.paid = some args) :
    ∃ k, claim e = some k ∧ paidKey e = some k ∧ k.amount decimals = paidAmount e := by
  obtain ⟨hamount, hwhole, n, hn⟩ := h.payment args (.inr hpaid)
  obtain ⟨reply, hstage⟩ := h.unpaid (by rw [hpaid]; rfl)
  have hkey : e.key = some ⟨e.request.walletAddress.toLower, n⟩ := by
    rw [Execution.key, hn]
    rfl
  refine ⟨⟨e.request.walletAddress.toLower, n⟩, ?_, ?_, ?_⟩
  · rw [claim, hstage]
    simp only [hpaid, Option.isSome_some, if_true]
    exact hkey
  · rw [paidKey, hpaid]
    exact hkey
  · rw [paidAmount, hpaid]
    exact (hviem.units_div hwhole (h.priced n hn)).trans hamount.symm

theorem paidKey_none (h : e.paid = none) : paidKey e = none := by rw [paidKey, h]; rfl

theorem paidKey_sublist (hviem : viem.Exact) (h : ∀ e ∈ es, Tracked viem decimals e) :
    (es.filterMap paidKey).Sublist (es.filterMap claim) := by
  induction es with
  | nil => exact List.Sublist.refl _
  | cons e es ih =>
      obtain ⟨he, hes⟩ := List.forall_mem_cons.mp h
      rw [List.filterMap_cons, List.filterMap_cons]
      cases hpaid : e.paid with
      | none =>
          rw [paidKey_none hpaid]
          cases claim e with
          | none => exact ih hes
          | some k => exact (ih hes).cons _
      | some args =>
          obtain ⟨k, hclaim, hkey, -⟩ := he.paidKey_of_paid hviem hpaid
          rw [hkey, hclaim]
          exact (ih hes).cons_cons _

theorem paidOut_eq (hviem : viem.Exact) (h : ∀ e ∈ es, Tracked viem decimals e) :
    paidOut es = ((es.filterMap paidKey).map (Key.amount decimals)).sum := by
  induction es with
  | nil => rfl
  | cons e es ih =>
      obtain ⟨he, hes⟩ := List.forall_mem_cons.mp h
      have ih := ih hes
      unfold paidOut at ih ⊢
      rw [List.map_cons, List.sum_cons, List.filterMap_cons, ih]
      cases hpaid : e.paid with
      | none =>
          rw [paidKey_none hpaid, paidAmount, hpaid]
          exact zero_add _
      | some args =>
          obtain ⟨k, -, hkey, hamount⟩ := he.paidKey_of_paid hviem hpaid
          rw [hkey, List.map_cons, List.sum_cons, hamount]

theorem received_eq : received decimals operator sepolia =
    (((deposits operator sepolia).map TransferEvent.key).map (Key.amount decimals)).sum := by
  rw [received, List.map_map]
  congr 1

theorem tracked {initial : Sepolia → Prop}
    (h : (requests viem decimals).Reachable initial (Funded decimals operator) sepolia es) :
    ∀ e ∈ es, Tracked viem decimals e :=
  h.all (P := fun _ => Tracked viem decimals) (fun _ _ _ _ => id)
    (fun _ request => Tracked.start request)
    fun sepolia _ answer e hallowed he =>
      he.resumed hallowed (resume_resumed viem decimals sepolia answer e)

/-- As long as each request that is verified has a transfer to the operator left for it, no
more is paid than was moved to the operator. -/
theorem covered (hviem : viem.Exact)
    (h : (requests viem decimals).Reachable (fun _ => True) (Funded decimals operator) sepolia es) :
    Covered decimals operator sepolia es := by
  have htracked := tracked h
  have hclaims : (es.filterMap claim).Subperm
      ((deposits operator sepolia).map TransferEvent.key) := by
    refine h.backed claim (fun sepolia => (deposits operator sepolia).map TransferEvent.key)
      ?_ ?_ ?_
    · rintro sepolia _ ⟨events, -, rfl⟩
      refine List.Sublist.subperm (List.Sublist.map _ ?_)
      exact (List.sublist_append_left sepolia.log events).filter _
    · intro request
      show claim (Execution.start request) = none
      unfold Execution.start
      split <;> rfl
    · intro sepolia es answer e hreach he hallowed
      exact (tracked hreach e he).claims hallowed (resume_resumed viem decimals sepolia answer e)
  have hpaid := (paidKey_sublist hviem htracked).subperm.trans hclaims
  refine ⟨hpaid, ?_⟩
  rw [paidOut_eq hviem htracked, received_eq]
  refine hpaid.sum_map_le fun k hk => ?_
  obtain ⟨event, -, rfl⟩ := List.mem_map.mp hk
  exact div_nonneg (Rat.intCast_nonneg.mpr (Int.natCast_nonneg _)) (pow_nonneg (by decide) _)

/-! A transfer of 25 USDC, to the operator or to someone else. -/

def sampleOperator : String := "0x00000000000000000000000000000000000000ff"

def sampleRequest : TransactionRequest ℚ :=
  ⟨25, "12345678", "0x00000000000000000000000000000000000000aa", some "Payee", some "000000", none⟩

def sampleSepolia (toAddress : String) : Sepolia :=
  ⟨1000, [⟨sampleRequest.walletAddress, toAddress, 25000000, 990⟩]⟩

def sampleAt (stage : Stage) : Execution := ⟨sampleRequest, some 25000000, stage, none⟩

def samplePaying : Execution :=
  sampleAt (.payment (sendMoney (Execution.createPayment sampleRequest)))

def samplePaid : Execution where
  request := sampleRequest
  expectedAmount := some 25000000
  stage := .returned ⟨true, "Transaction verified and bank transfer successful"⟩
  paid := some (sendMoney (Execution.createPayment sampleRequest))

theorem sample_start : Execution.start sampleRequest = ⟨sampleRequest, none, .decimals, none⟩ := by
  decide

theorem sample_units :
    sampleViem.parseUnits sampleRequest.amount 6 = some 25000000 ∧
      Whole sampleRequest.amount 6 := by
  decide +kernel

theorem sample_priced (sepolia : Sepolia) :
    (⟨sampleRequest, none, .decimals, none⟩ : Execution).resume sampleViem 6 sepolia .answered =
      sampleAt .blockNumber := by
  simp only [Execution.resume, sample_units.1]
  rfl

/-- The request with the blocks in which it looks for transfers. -/
def sampleLocated (sepolia : Sepolia) : Execution :=
  sampleAt (.logs ((sepolia.head : ℤ) - 100) sepolia.head)

theorem sample_located (sepolia : Sepolia) :
    (sampleAt .blockNumber).resume sampleViem 6 sepolia .answered = sampleLocated sepolia := rfl

theorem sample_verified {sepolia sepolia' : Sepolia}
    (h : ((sampleLocated sepolia).matchingTransfers
      (sepolia'.getLogs ((sepolia.head : ℤ) - 100) sepolia.head)).length > 0) :
    (sampleLocated sepolia).resume sampleViem 6 sepolia' .answered = samplePaying := if_pos h

theorem sample_matching (toAddress : String) :
    ((sampleLocated (sampleSepolia toAddress)).matchingTransfers
      ((sampleSepolia toAddress).getLogs 900 1000)).length = 1 := by
  simp [Execution.matchingTransfers, Sepolia.getLogs, sampleSepolia, sampleLocated, sampleAt]

theorem sample_paid (sepolia : Sepolia) :
    samplePaying.resume sampleViem 6 sepolia (.payment "VALIDATED") = samplePaid := by
  simp only [Execution.resume, samplePaying, sampleAt, Execution.paidWith]
  rw [if_pos (by decide)]
  rfl

/-- A second transfer like the first. -/
def secondTransfer : TransferEvent := ⟨sampleRequest.walletAddress, sampleOperator, 25000000, 1001⟩

def bothTransfers : Sepolia := ⟨1001, (sampleSepolia sampleOperator).log ++ [secondTransfer]⟩

section

variable {allowed : Sepolia → List Execution → Answer → Execution → Prop} {sepolia : Sepolia}
  {es : List Execution}

/-- A request is priced and looks for transfers. -/
theorem sample_locates
    (hother : ∀ sepolia es answer e, (∀ fromBlock toBlock, e.stage ≠ .logs fromBlock toBlock) →
      allowed sepolia es answer e)
    (h : (requests sampleViem 6).Reachable (fun _ => True) allowed sepolia es) :
    (requests sampleViem 6).Reachable (fun _ => True) allowed sepolia
      (es ++ [sampleLocated sepolia]) := by
  have hstarted : (requests sampleViem 6).Reachable (fun _ => True) allowed sepolia
      (es ++ [⟨sampleRequest, none, .decimals, none⟩]) := by
    rw [← sample_start]
    exact h.request sampleRequest
  have hpriced : (requests sampleViem 6).Reachable (fun _ => True) allowed sepolia
      (es ++ [sampleAt .blockNumber]) := by
    rw [← sample_priced sepolia]
    exact hstarted.answerLast Answer.answered (hother _ _ _ _ (by simp))
  rw [← sample_located sepolia]
  exact hpriced.answerLast Answer.answered (hother _ _ _ _ (by simp [sampleAt]))

end

/-- A request is paid if it is allowed to see the log. -/
theorem sample_reachable {toAddress : String}
    {allowed : Sepolia → List Execution → Answer → Execution → Prop}
    (hother : ∀ sepolia es answer e, (∀ fromBlock toBlock, e.stage ≠ .logs fromBlock toBlock) →
      allowed sepolia es answer e)
    (hlogs : allowed (sampleSepolia toAddress) [sampleLocated (sampleSepolia toAddress)] .answered
      (sampleLocated (sampleSepolia toAddress))) :
    (requests sampleViem 6).Reachable (fun _ => True) allowed (sampleSepolia toAddress)
      [samplePaid] := by
  have hinitial : (requests sampleViem 6).Reachable (fun _ => True) allowed
      (sampleSepolia toAddress) [] := .initial trivial
  have hverified : (requests sampleViem 6).Reachable (fun _ => True) allowed
      (sampleSepolia toAddress) ([] ++ [samplePaying]) := by
    have hfound := sample_matching toAddress
    rw [← sample_verified (Nat.lt_of_lt_of_eq Nat.one_pos hfound.symm)]
    exact (sample_locates hother hinitial).answerLast Answer.answered hlogs
  rw [← sample_paid (sampleSepolia toAddress)]
  exact hverified.answerLast (Answer.payment "VALIDATED")
    (hother _ _ _ _ (by simp [samplePaying, sampleAt]))

theorem Funded.of_other {decimals : Nat} {operator : String} (sepolia : Sepolia)
    (es : List Execution) (answer : Answer) (e : Execution)
    (h : ∀ fromBlock toBlock, e.stage ≠ .logs fromBlock toBlock) :
    Funded decimals operator sepolia es answer e :=
  fun fromBlock toBlock hlogs => absurd hlogs (h fromBlock toBlock)

def sampleKey : Key := ⟨sampleRequest.walletAddress.toLower, 25000000⟩

theorem bothTransfers_keys :
    (deposits sampleOperator bothTransfers).map TransferEvent.key = [sampleKey, sampleKey] := by
  simp [deposits, bothTransfers, sampleSepolia, secondTransfer, TransferEvent.key, sampleKey]

theorem bothTransfers_matching {sepolia : Sepolia}
    (h : sepolia = sampleSepolia sampleOperator ∨ sepolia = bothTransfers) :
    ((sampleLocated sepolia).matchingTransfers
      (bothTransfers.getLogs ((sepolia.head : ℤ) - 100) sepolia.head)).length > 0 := by
  cases h with
  | inl h | inr h =>
      subst h
      simp [Execution.matchingTransfers, Sepolia.getLogs, bothTransfers, secondTransfer,
        sampleSepolia, sampleLocated, sampleAt]

/-- As long as at most one of the transfers is claimed. -/
theorem bothTransfers_funded {es : List Execution} {sepolia : Sepolia}
    (h : es.filterMap claim = [] ∨ es.filterMap claim = [sampleKey]) :
    Funded 6 sampleOperator bothTransfers es .answered (sampleLocated sepolia) := by
  intro fromBlock toBlock _ _ _
  refine ⟨sample_units.2, fun k hk => ?_⟩
  obtain rfl : sampleKey = k := Option.some.inj hk
  rw [bothTransfers_keys]
  cases h with
  | inl h | inr h => simp [h]

/-- The second transfer comes while the first request is waiting, and each of two requests
finds one. -/
theorem sampleRun :
    (requests sampleViem 6).Reachable (fun _ => True) (Funded 6 sampleOperator) bothTransfers
      [samplePaid, samplePaid] := by
  have hinitial : (requests sampleViem 6).Reachable (fun _ => True) (Funded 6 sampleOperator)
      (sampleSepolia sampleOperator) [] := .initial trivial
  have hmined : (requests sampleViem 6).Reachable (fun _ => True) (Funded 6 sampleOperator)
      bothTransfers [sampleLocated (sampleSepolia sampleOperator)] :=
    (sample_locates Funded.of_other hinitial).change
      ⟨[secondTransfer], fun event h => by cases List.mem_singleton.mp h; rfl, rfl⟩
  have hboth := sample_locates Funded.of_other hmined
  have hfirst : (requests sampleViem 6).Reachable (fun _ => True) (Funded 6 sampleOperator)
      bothTransfers ([samplePaying] ++ [sampleLocated bothTransfers]) := by
    rw [← sample_verified (bothTransfers_matching (.inl rfl))]
    exact hboth.answerFirst Answer.answered (bothTransfers_funded (.inl rfl))
  have hsecond : (requests sampleViem 6).Reachable (fun _ => True) (Funded 6 sampleOperator)
      bothTransfers ([samplePaying] ++ [samplePaying]) :=
    sample_verified (bothTransfers_matching (.inr rfl)) ▸
      hfirst.answerLast Answer.answered (bothTransfers_funded (.inr rfl))
  have hpaid : (requests sampleViem 6).Reachable (fun _ => True) (Funded 6 sampleOperator)
      bothTransfers ([samplePaid] ++ [samplePaying]) :=
    sample_paid bothTransfers ▸ hsecond.answerFirst (Answer.payment "VALIDATED")
      (Funded.of_other _ _ _ _ (by simp [samplePaying, sampleAt]))
  exact sample_paid bothTransfers ▸ hpaid.answerLast (Answer.payment "VALIDATED")
    (Funded.of_other _ _ _ _ (by simp [samplePaying, sampleAt]))

theorem covered_sample :
    Covered 6 sampleOperator bothTransfers [samplePaid, samplePaid] ∧
      paidOut [samplePaid, samplePaid] = 50 :=
  ⟨covered sampleViem_exact sampleRun, by decide +kernel⟩

def sampleOther : String := "0x00000000000000000000000000000000000000bb"

theorem sample_lower :
    sampleOther.toLower = sampleOther ∧ sampleOperator.toLower = sampleOperator := by
  decide +kernel

theorem sample_deposits : deposits sampleOperator (sampleSepolia sampleOther) = [] := by
  obtain ⟨hother, hoperator⟩ := sample_lower
  have hne : sampleOther ≠ sampleOperator := by decide
  simp [deposits, sampleSepolia, hother, hoperator, hne]

/-- The transfer is to someone else, and the request is paid. -/
theorem other_paid :
    (requests sampleViem 6).Reachable (fun _ => True) (fun _ _ _ _ => True)
        (sampleSepolia sampleOther) [samplePaid] ∧
      paidOut [samplePaid] = 25 ∧ received 6 sampleOperator (sampleSepolia sampleOther) = 0 ∧
      ¬ Covered 6 sampleOperator (sampleSepolia sampleOther) [samplePaid] := by
  have hpaid : paidOut [samplePaid] = 25 := by decide +kernel
  have hreceived : received 6 sampleOperator (sampleSepolia sampleOther) = 0 := by
    rw [received, sample_deposits]
    rfl
  refine ⟨sample_reachable (fun _ _ _ _ _ => trivial) trivial, hpaid, hreceived, ?_⟩
  intro h
  have htotal := h.total
  rw [hpaid, hreceived] at htotal
  exact absurd htotal (by decide)

end Tlsn.Backend.WalletService
