import Tlsn.Backend.BankService

/-!
Payouts against what the bank has received, over any interleaving of requests. Nothing marks
a transaction of the bank as paid out; a request finds it again as long as it is listed.
-/

namespace Tlsn.Backend.BankService

open CctpService WalletService

variable {viem : Viem ℚ} {env : Env} {transactions : List (Transaction ℚ)} {e e' : Execution ℚ}
  {es : List (Execution ℚ)} {answer : Answer}

/-- The transaction for which a request is paid out, or may still be. -/
def claim (e : Execution ℚ) : Option (Transaction ℚ) :=
  match e.stage with
  | .returned (.failure _) => none
  | _ => e.deposit

theorem claim_eq (h : ∀ text, e.stage ≠ .returned (.failure text)) : claim e = e.deposit := by
  unfold claim
  split
  · next text hstage => exact absurd hstage (h text)
  · rfl

/-- What was sent, in whole tokens. -/
def value (t : Transfer) : ℚ := t.amountInWei / 10 ^ t.decimals

/-- What is known of a request on its own. -/
structure Tracked (e : Execution ℚ) : Prop where
  unlisted : e.stage = .transactions → e.deposit = none
  listed : e.stage ≠ .transactions → (∀ text, e.stage ≠ .returned (.failure text)) →
    ∃ deposit, e.deposit = some deposit ∧ deposit.payer = some e.request.bankAccountNumber ∧
      deposit.amount = e.request.amount
  transfer : ∀ args, e.stage = .transfer args → value args = e.request.amount
  sent : ∀ args, e.moved.sent = some args →
    (∃ hash, e.stage = .returned (.success hash)) ∧ value args = e.request.amount

/-- The bank receives a transaction, and lists it in some place. -/
def Receives (transactions transactions' : List (Transaction ℚ)) : Prop :=
  ∃ before t after, transactions = before ++ after ∧ transactions' = before ++ t :: after

/-- Requests side by side. -/
def requests (viem : Viem ℚ) (env : Env) :
    Interleaving (List (Transaction ℚ)) (TransactionRequest ℚ) (Execution ℚ) Answer where
  change := Receives
  start := Execution.start
  resume := fun transactions answer e => e.resume viem env transactions answer

/-- The transaction which is listed for a request is not that of another one which was paid
out, or may still be; and the amount has no more decimal places than the token. -/
structure Unclaimed (transactions : List (Transaction ℚ)) (es : List (Execution ℚ))
    (answer : Answer) (e : Execution ℚ) : Prop where
  unclaimed : ∀ deposit, e.stage = .transactions → answer = .listed →
    Execution.filteredTransactions e.request transactions = some deposit →
    deposit.amount = e.request.amount → deposit ∉ es.filterMap claim
  whole : ∀ token decimals, e.stage = .decimals token → answer = .decimals decimals →
    Whole e.request.amount decimals

theorem sendTransfer_value (hviem : viem.Exact) {token : Token} {toAddress : String} {amount : ℚ}
    {decimals : Nat} {args : Transfer} (hwhole : Whole amount decimals)
    (h : sendTransfer viem token toAddress amount decimals = .ok args) : value args = amount := by
  unfold sendTransfer at h
  cases hunits : viem.parseUnits amount decimals with
  | none =>
      rw [hunits] at h
      cases h
  | some units =>
      simp only [hunits] at h
      by_cases haddress : (!viem.isAddress toAddress) = true
      · rw [if_pos haddress] at h
        cases h
      · rw [if_neg haddress] at h
        obtain ⟨n, hn, hargs⟩ := Fault.bind_ok_iff.mp h
        obtain ⟨-, rfl⟩ := uint256_ok_iff.mp hn
        cases hargs
        exact hviem.units_div hwhole hunits

theorem filteredTransactions_some {request : TransactionRequest ℚ} {deposit : Transaction ℚ}
    (h : Execution.filteredTransactions request transactions = some deposit) :
    deposit ∈ transactions ∧ deposit.payer = some request.bankAccountNumber :=
  ⟨List.mem_of_find?_eq_some h, by simpa using List.find?_some h⟩

theorem Tracked.start (request : TransactionRequest ℚ) : Tracked (Execution.start request) where
  unlisted := fun _ => rfl
  listed := fun h => absurd rfl h
  transfer := fun _ h => nomatch h
  sent := fun _ h => nomatch h

theorem Tracked.unsent (h : Tracked e) (hstage : ∀ hash, e.stage ≠ .returned (.success hash)) :
    e.moved.sent = none := by
  cases hsent : e.moved.sent with
  | none => rfl
  | some args =>
      obtain ⟨⟨hash, hreturned⟩, -⟩ := h.sent args hsent
      exact absurd hreturned (hstage hash)

/-- A step to another stage, with the same transaction and before anything is sent. -/
theorem Tracked.goOn (h : Tracked e) (hreturned : ∀ reply, e.stage ≠ .returned reply)
    (hlisted : e.stage ≠ .transactions) (hstage : e'.stage ≠ .transactions)
    (hrequest : e'.request = e.request) (hdeposit : e'.deposit = e.deposit)
    (htransfer : ∀ args, e'.stage = .transfer args → value args = e.request.amount)
    (hsent : e'.moved.sent = e.moved.sent) : Tracked e' where
  unlisted := fun h => absurd h hstage
  listed := fun _ _ => by
    rw [hdeposit, hrequest]
    exact h.listed hlisted fun text => hreturned (.failure text)
  transfer := hrequest ▸ htransfer
  sent := fun args hargs => by
    rw [hsent, h.unsent fun hash => hreturned (.success hash)] at hargs
    cases hargs

/-- A transaction is found. -/
theorem Tracked.found {deposit : Transaction ℚ} {stage : Stage} (h : Tracked e)
    (hlisting : e.stage = .transactions)
    (hfound : Execution.filteredTransactions e.request transactions = some deposit)
    (hamount : deposit.amount = e.request.amount) (hstage : stage ≠ .transactions)
    (htransfer : ∀ args, stage ≠ .transfer args) :
    Tracked { e with deposit := some deposit, stage := stage } where
  unlisted := fun h => absurd h hstage
  listed := fun _ _ => ⟨deposit, rfl, (filteredTransactions_some hfound).2, hamount⟩
  transfer := fun args h => absurd h (htransfer args)
  sent := fun args hargs => by
    have hnone := h.unsent (by simp [hlisting])
    rw [show e.moved.sent = some args from hargs] at hnone
    cases hnone

theorem Tracked.resumed (hviem : viem.Exact) (h : Tracked e)
    (hwhole : ∀ token decimals, e.stage = .decimals token → answer = .decimals decimals →
      Whole e.request.amount decimals)
    (hresumed : Resumed viem env transactions e answer e') : Tracked e' := by
  cases hresumed with
  | idle => exact h
  | failed hstage =>
      constructor
      · exact fun hnot => nomatch hnot
      · exact fun _ hnot => absurd rfl (hnot _)
      · exact fun args hnot => nomatch hnot
      · intro args hsent
        rw [h.unsent fun hash => hstage (.success hash)] at hsent
        cases hsent
  | burning hstage hfound hamount hburn =>
      exact h.found hstage hfound (same_iff.mp hamount) (by simp) (by simp)
  | sending hstage hfound hamount htoken =>
      exact h.found hstage hfound (same_iff.mp hamount) (by simp) (by simp)
  | burned hstage =>
      exact h.goOn (by simp [hstage]) (by simp [hstage]) (by simp) rfl rfl (by simp) rfl
  | attested hstage hmint =>
      exact h.goOn (by simp [hstage]) (by simp [hstage]) (by simp) rfl rfl (by simp) rfl
  | minted hstage htoken =>
      exact h.goOn (by simp [hstage]) (by simp [hstage]) (by simp) rfl rfl (by simp) rfl
  | unsent hstage =>
      exact h.goOn (by simp [hstage]) (by simp [hstage]) (by simp) rfl rfl (by simp) rfl
  | transferring hstage htransfer =>
      refine h.goOn (by simp [hstage]) (by simp [hstage]) (by simp) rfl rfl ?_ rfl
      intro args hargs
      cases hargs
      exact sendTransfer_value hviem (hwhole _ _ hstage rfl) htransfer
  | sent hstage =>
      constructor
      · exact fun hnot => nomatch hnot
      · exact fun _ _ => h.listed (by simp [hstage]) (by simp [hstage])
      · exact fun args hnot => nomatch hnot
      · intro args hsent
        cases hsent
        exact ⟨⟨_, rfl⟩, h.transfer _ hstage⟩

theorem Tracked.claims (h : Tracked e)
    (hunclaimed : ∀ deposit, e.stage = .transactions → answer = .listed →
      Execution.filteredTransactions e.request transactions = some deposit →
      deposit.amount = e.request.amount → deposit ∉ es.filterMap claim)
    (hresumed : Resumed viem env transactions e answer e') :
    Interleaving.Claims claim transactions es e e' := by
  have hkept : ∀ e', (∀ text, e.stage ≠ .returned (.failure text)) →
      (∀ text, e'.stage ≠ .returned (.failure text)) → e'.deposit = e.deposit →
      Interleaving.Claims claim transactions es e e' := by
    intro e' he he' hdeposit
    exact .kept (by rw [claim_eq he, claim_eq he', hdeposit])
  have hmade : ∀ (e' : Execution ℚ) (deposit : Transaction ℚ), e.stage = .transactions →
      answer = .listed →
      Execution.filteredTransactions e.request transactions = some deposit →
      deposit.amount = e.request.amount → (∀ text, e'.stage ≠ .returned (.failure text)) →
      e'.deposit = some deposit → Interleaving.Claims claim transactions es e e' := by
    intro e' deposit hstage hanswer hfound hamount he' hdeposit
    refine .made ?_ ?_ (k := deposit) ?_
    · rw [claim_eq (by simp [hstage])]
      exact h.unlisted hstage
    · rw [claim_eq he', hdeposit]
    · rw [List.count_eq_zero.mpr (hunclaimed deposit hstage hanswer hfound hamount)]
      exact List.count_pos_iff.mpr (filteredTransactions_some hfound).1
  cases hresumed with
  | idle => exact .kept rfl
  | failed hstage => exact .dropped rfl
  | burning hstage hfound hamount hburn =>
      exact hmade _ _ hstage rfl hfound (same_iff.mp hamount) (by simp) rfl
  | sending hstage hfound hamount htoken =>
      exact hmade _ _ hstage rfl hfound (same_iff.mp hamount) (by simp) rfl
  | burned hstage => exact hkept _ (by simp [hstage]) (by simp) rfl
  | attested hstage hmint => exact hkept _ (by simp [hstage]) (by simp) rfl
  | minted hstage htoken => exact hkept _ (by simp [hstage]) (by simp) rfl
  | unsent hstage => exact .dropped rfl
  | transferring hstage htransfer => exact hkept _ (by simp [hstage]) (by simp) rfl
  | sent hstage => exact hkept _ (by simp [hstage]) (by simp) rfl

/-! ## Runs -/

/-- The transaction on account of which crypto was sent. -/
def spent (e : Execution ℚ) : Option (Transaction ℚ) :=
  match e.moved.sent with
  | some _ => e.deposit
  | none => none

def sentValue (e : Execution ℚ) : ℚ :=
  match e.moved.sent with
  | some args => value args
  | none => 0

/-- What was sent on account of a bank account. -/
def paidOut (account : String) (es : List (Execution ℚ)) : ℚ :=
  ((es.filter fun e => e.request.bankAccountNumber = account).map sentValue).sum

/-- What the bank has received from an account. -/
def incoming (account : String) (transactions : List (Transaction ℚ)) : ℚ :=
  ((transactions.filter fun t => t.payer = some account).map Transaction.amount).sum

/-- Each transaction of the bank backs at most one payout, and no account gets more than what
was received from it. -/
structure PaidOnce (transactions : List (Transaction ℚ)) (es : List (Execution ℚ)) : Prop where
  backed : (es.filterMap spent).Subperm transactions
  total : ∀ account, paidOut account es ≤ incoming account transactions

theorem Tracked.spent_of_sent {args : Transfer} (h : Tracked e) (hsent : e.moved.sent = some args) :
    ∃ deposit, claim e = some deposit ∧ spent e = some deposit ∧
      deposit.payer = some e.request.bankAccountNumber ∧ deposit.amount = sentValue e := by
  obtain ⟨⟨hash, hstage⟩, hvalue⟩ := h.sent args hsent
  obtain ⟨deposit, hdeposit, hpayer, hamount⟩ := h.listed (by simp [hstage]) (by simp [hstage])
  refine ⟨deposit, ?_, ?_, hpayer, ?_⟩
  · rw [claim_eq (by simp [hstage]), hdeposit]
  · rw [spent, hsent, hdeposit]
  · rw [sentValue, hsent]
    exact hamount.trans hvalue.symm

/-- What was spent is claimed. -/
theorem spent_sublist (h : ∀ e ∈ es, Tracked e) :
    (es.filterMap spent).Sublist (es.filterMap claim) := by
  induction es with
  | nil => exact List.Sublist.refl _
  | cons e es ih =>
      obtain ⟨he, hes⟩ := List.forall_mem_cons.mp h
      rw [List.filterMap_cons, List.filterMap_cons]
      cases hsent : e.moved.sent with
      | none =>
          have hspent : spent e = none := by rw [spent, hsent]
          rw [hspent]
          cases claim e with
          | none => exact ih hes
          | some deposit => exact (ih hes).cons _
      | some args =>
          obtain ⟨deposit, hclaim, hspent, -⟩ := he.spent_of_sent hsent
          rw [hspent, hclaim]
          exact (ih hes).cons_cons _

/-- What was sent is what was spent. -/
theorem paidOut_eq (account : String) (h : ∀ e ∈ es, Tracked e) :
    paidOut account es = incoming account (es.filterMap spent) := by
  induction es with
  | nil => rfl
  | cons e es ih =>
      obtain ⟨he, hes⟩ := List.forall_mem_cons.mp h
      have ih := ih hes
      unfold paidOut incoming at ih ⊢
      rw [List.filter_cons, List.filterMap_cons]
      cases hsent : e.moved.sent with
      | none =>
          have hspent : spent e = none := by rw [spent, hsent]
          have hvalue : sentValue e = 0 := by rw [sentValue, hsent]
          rw [hspent]
          by_cases haccount : e.request.bankAccountNumber = account
          · simp [haccount, hvalue, ih]
          · simp [haccount, ih]
      | some args =>
          obtain ⟨deposit, -, hspent, hpayer, hamount⟩ := he.spent_of_sent hsent
          rw [hspent]
          by_cases haccount : e.request.bankAccountNumber = account
          · simp [haccount, hpayer, hamount, ih]
          · simp [haccount, hpayer, ih]

theorem incoming_le {transactions' : List (Transaction ℚ)} (account : String)
    (h : transactions.Subperm transactions') :
    incoming account transactions ≤ incoming account transactions' :=
  List.Subperm.sum_map_le (h.filter _) fun t _ => t.listed

theorem tracked (hviem : viem.Exact) {initial : List (Transaction ℚ) → Prop}
    (h : (requests viem env).Reachable initial Unclaimed transactions es) :
    ∀ e ∈ es, Tracked e :=
  h.all (P := fun _ => Tracked) (fun _ _ _ _ => id) (fun _ request => Tracked.start request)
    fun transactions _ answer e hallowed he =>
      he.resumed hviem hallowed.whole (resume_resumed viem env transactions answer e)

/-- As long as no request has a transaction listed for which another one was paid out, or
may still be, none is paid out twice. -/
theorem paidOnce (hviem : viem.Exact)
    (h : (requests viem env).Reachable (fun _ => True) Unclaimed transactions es) :
    PaidOnce transactions es := by
  have htracked := tracked hviem h
  have hclaims : (es.filterMap claim).Subperm transactions := by
    refine h.backed claim id ?_ (fun _ => rfl) ?_
    · rintro _ _ ⟨before, t, after, rfl, rfl⟩
      exact ((List.Sublist.refl before).append (List.sublist_cons_self t after)).subperm
    · intro transactions es answer e hreach he hallowed
      exact (tracked hviem hreach e he).claims hallowed.unclaimed
        (resume_resumed viem env transactions answer e)
  have hspent := (spent_sublist htracked).subperm.trans hclaims
  refine ⟨hspent, fun account => ?_⟩
  rw [paidOut_eq account htracked]
  exact incoming_le account hspent

/-! Transactions of one account, and requests for them. -/

def sampleEnv : Env := ⟨"0x00000000000000000000000000000000000000ff"⟩

theorem sample_listed : Number.Listed (25 : ℚ) := by
  change (0 : ℚ) ≤ 25
  decide

theorem sample_listed_later : Number.Listed (40 : ℚ) := by
  change (0 : ℚ) ≤ 40
  decide

def sampleDeposit : Transaction ℚ := ⟨"T1", 25, sample_listed, some "12345678"⟩

def laterDeposit : Transaction ℚ := ⟨"T2", 40, sample_listed_later, some "12345678"⟩

def sampleRequest : TransactionRequest ℚ :=
  ⟨25, "12345678", "0x00000000000000000000000000000000000000aa", none, none, some "sepolia"⟩

def laterRequest : TransactionRequest ℚ := { sampleRequest with amount := 40 }

def sampleAnswers : List Answer := [.listed, .decimals 6, .submitted "0x01"]

def sampleResume (transactions : List (Transaction ℚ)) (answers : List Answer)
    (e : Execution ℚ) : Execution ℚ :=
  answers.foldl (fun e a => e.resume sampleViem sampleEnv transactions a) e

def samplePaid : Execution ℚ := sampleResume [sampleDeposit] sampleAnswers (.start sampleRequest)

/-! A second transaction comes while a first request is waiting. -/

def bothDeposits : List (Transaction ℚ) := [laterDeposit, sampleDeposit]

def firstListed : Execution ℚ := sampleResume [sampleDeposit] [.listed] (.start sampleRequest)

def firstPaid : Execution ℚ :=
  sampleResume bothDeposits [.decimals 6, .submitted "0x01"] firstListed

def laterPaid : Execution ℚ :=
  sampleResume bothDeposits [.listed, .decimals 6, .submitted "0x02"] (.start laterRequest)

section

variable {transactions : List (Transaction ℚ)} {es : List (Execution ℚ)} {e : Execution ℚ}

theorem Unclaimed.of_listed
    (h : ∀ deposit, Execution.filteredTransactions e.request transactions = some deposit →
      deposit ∉ es.filterMap claim) : Unclaimed transactions es .listed e where
  unclaimed deposit _ _ hfound _ := h deposit hfound
  whole token decimals _ h := by cases h

theorem Unclaimed.of_decimals {decimals : Nat} (h : Whole e.request.amount decimals) :
    Unclaimed transactions es (.decimals decimals) e where
  unclaimed deposit _ h := by cases h
  whole token decimals' _ heq := by
    cases heq
    exact h

theorem Unclaimed.of_submitted {hash : String} :
    Unclaimed transactions es (.submitted hash) e where
  unclaimed deposit _ h := by cases h
  whole token decimals _ h := by cases h

end

/-- A run whose requests are as the theorem wants them. -/
abbrev SampleRuns (transactions : List (Transaction ℚ)) (es : List (Execution ℚ)) : Prop :=
  (requests sampleViem sampleEnv).Reachable (fun _ => True) Unclaimed transactions es

/-- The requests take turns. -/
theorem sampleRun : SampleRuns bothDeposits [firstPaid, laterPaid] := by
  have hinitial : SampleRuns [sampleDeposit] [] := .initial trivial
  have hlisted := (hinitial.request sampleRequest).answerLast Answer.listed
    (.of_listed fun deposit _ h => by cases h)
  have hreceived : SampleRuns bothDeposits [firstListed] :=
    hlisted.change ⟨[], laterDeposit, [sampleDeposit], rfl, rfl⟩
  have hlater := (hreceived.request laterRequest).answerLast Answer.listed
    (.of_listed fun deposit hdeposit => by
      cases (show Option.some laterDeposit = some deposit from hdeposit)
      decide +kernel)
  have hpriced : SampleRuns bothDeposits ([sampleResume bothDeposits [.decimals 6] firstListed] ++
      [sampleResume bothDeposits [.listed] (.start laterRequest)]) :=
    hlater.answerFirst (Answer.decimals 6) (.of_decimals (by decide +kernel))
  have hlaterPriced := hpriced.answerLast (Answer.decimals 6) (.of_decimals (by decide +kernel))
  have hlaterPaid : SampleRuns bothDeposits
      [sampleResume bothDeposits [.decimals 6] firstListed, laterPaid] :=
    hlaterPriced.answerLast (Answer.submitted "0x02") .of_submitted
  exact hlaterPaid.answerFirst (Answer.submitted "0x01") .of_submitted

theorem paidOnce_sample :
    PaidOnce bothDeposits [firstPaid, laterPaid] ∧
      paidOut "12345678" [firstPaid, laterPaid] = 65 :=
  ⟨paidOnce sampleViem_exact sampleRun, by decide +kernel⟩

/-- The same request again. -/
theorem paid_twice :
    (requests sampleViem sampleEnv).Reachable (fun _ => True) (fun _ _ _ _ => True)
        [sampleDeposit] [samplePaid, samplePaid] ∧
      paidOut "12345678" [samplePaid, samplePaid] = 50 ∧
      incoming "12345678" [sampleDeposit] = 25 ∧
      ¬ PaidOnce [sampleDeposit] [samplePaid, samplePaid] := by
  have hinitial : (requests sampleViem sampleEnv).Reachable (fun _ => True)
      (fun _ _ _ _ => True) [sampleDeposit] [] := .initial trivial
  have hfirst := (hinitial.request sampleRequest).answers sampleAnswers
  have hsecond := (hfirst.request sampleRequest).answers sampleAnswers
  have hpaid : paidOut "12345678" [samplePaid, samplePaid] = 50 := by decide +kernel
  have hincoming : incoming "12345678" [sampleDeposit] = 25 := by decide +kernel
  refine ⟨hsecond, hpaid, hincoming, ?_⟩
  intro h
  have htotal := h.total "12345678"
  rw [hpaid, hincoming] at htotal
  exact absurd htotal (by decide +kernel)

end Tlsn.Backend.BankService
