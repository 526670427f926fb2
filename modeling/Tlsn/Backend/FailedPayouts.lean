import Tlsn.Backend.Payouts

/-!
Requests which are not paid out, with the doubles in which they are computed. What comes after the
burn rejects requests which were not rejected before it.
-/

namespace Tlsn.Backend

theorem lookup_isSome_iff {α : Type} (table : List (String × α)) (name : String) :
    (∃ a, table.lookup name = some a) ↔ name ∈ table.map Prod.fst := by
  induction table with
  | nil => simp
  | cons entry table ih =>
      obtain ⟨key, b⟩ := entry
      rw [List.lookup_cons, List.map_cons, List.mem_cons]
      by_cases h : name = key
      · simp [h]
      · have hbeq : (name == key) = false := beq_false_of_ne h
        simp only [hbeq, h, false_or]
        exact ih

/-- The chains of a table. -/
theorem lookup_succeeds_iff {α : Type} {table : List (String × α)} {chain : Option String} :
    (∃ a, lookup table chain = .ok a) ↔ ∃ name ∈ table.map Prod.fst, chain = some name := by
  simp only [lookup_ok_iff, ← lookup_isSome_iff]
  constructor
  · rintro ⟨a, name, hchain, hname⟩
    exact ⟨name, ⟨a, hname⟩, hchain⟩
  · rintro ⟨name, ⟨a, hname⟩, hchain⟩
    exact ⟨a, name, hchain, hname⟩

namespace BankService

open CctpService WalletService

variable {viem : Viem Float} {env : Env} {e : Execution Float}

/-- The chains to which USDC is burned. -/
def Bridged (chain : Option String) : Prop :=
  ∃ name ∈ ["avalanche", "arbitrum", "base", "linea"], chain = some name

theorem burnUSDC_succeeds_iff (env : Env) {amount : Float} {chain : Option String}
    (h : chain ≠ some "sepolia") :
    (∃ args, burnUSDC env amount chain = .ok args) ↔
      Bridged chain ∧ ∃ n : ℤ, finiteValue amount = some (n : ℚ) ∧ 0 ≤ n ∧ n < 2 ^ 256 := by
  have hdomain : (∃ d, getDomain chain = .ok d) ↔ Bridged chain := by
    rw [getDomain, lookup_succeeds_iff]
    constructor
    · rintro ⟨name, hname, rfl⟩
      cases List.mem_cons.mp hname with
      | inl hname =>
          subst hname
          exact absurd rfl h
      | inr hname => exact ⟨name, hname, rfl⟩
    · rintro ⟨name, hname, rfl⟩
      exact ⟨name, List.mem_cons_of_mem _ hname, rfl⟩
  rw [← hdomain]
  constructor
  · rintro ⟨args, hargs⟩
    obtain ⟨messenger, -, hargs⟩ := Fault.bind_ok_iff.mp hargs
    obtain ⟨n, hn, hargs⟩ := Fault.bind_ok_iff.mp hargs
    obtain ⟨d, hd, hargs⟩ := Fault.bind_ok_iff.mp hargs
    obtain ⟨token, -, hargs⟩ := Fault.bind_ok_iff.mp hargs
    obtain ⟨m, hm, -⟩ := Fault.bind_ok_iff.mp hargs
    exact ⟨⟨d, hd⟩, n, bigInt_float_ok_iff.mp hn, (uint256_ok_iff.mp hm).1⟩
  · rintro ⟨⟨d, hd⟩, n, hn, hrange⟩
    refine ⟨_, Fault.bind_ok_iff.mpr ⟨_, rfl, Fault.bind_ok_iff.mpr
      ⟨n, bigInt_float_ok_iff.mpr hn, Fault.bind_ok_iff.mpr ⟨d, hd, Fault.bind_ok_iff.mpr
        ⟨_, rfl, Fault.bind_ok_iff.mpr ⟨_, uint256_ok_iff.mpr ⟨hrange, rfl⟩, rfl⟩⟩⟩⟩⟩⟩

/-- Minting lacks a chain to which is burned. -/
theorem mintUSDC_succeeds_iff (attestation : Attestation) {chain : Option String}
    (h : Bridged chain) :
    (∃ args, mintUSDC attestation chain = .ok args) ↔ chain ≠ some "linea" := by
  obtain ⟨name, hname, rfl⟩ := h
  simp only [List.mem_cons, List.not_mem_nil, or_false] at hname
  obtain rfl | rfl | rfl | rfl := hname
  · exact ⟨fun _ => by decide, fun _ => ⟨_, rfl⟩⟩
  · exact ⟨fun _ => by decide, fun _ => ⟨_, rfl⟩⟩
  · exact ⟨fun _ => by decide, fun _ => ⟨_, rfl⟩⟩
  · constructor
    · rintro ⟨args, hargs⟩
      cases hargs
    · exact fun hne => absurd rfl hne

theorem sendToken_succeeds_iff {toAddress : String} {chain : Option String} (h : Bridged chain) :
    (∃ token, sendToken toAddress chain = .ok token) ↔ isWalletAddressValid toAddress = true := by
  have htoken : ∃ clientChain usdc, sendChain chain = .ok clientChain ∧
      WalletService.getUSDC chain = .ok usdc := by
    obtain ⟨name, hname, rfl⟩ := h
    simp only [List.mem_cons, List.not_mem_nil, or_false] at hname
    obtain rfl | rfl | rfl | rfl := hname
    · exact ⟨_, _, rfl, rfl⟩
    · exact ⟨_, _, rfl, rfl⟩
    · exact ⟨_, _, rfl, rfl⟩
    · exact ⟨_, _, rfl, rfl⟩
  obtain ⟨clientChain, usdc, hchain, husdc⟩ := htoken
  unfold sendToken
  by_cases hvalid : isWalletAddressValid toAddress = true
  · simp only [hvalid, Bool.not_true, Bool.false_eq_true, if_false, iff_true]
    exact ⟨_, Fault.bind_ok_iff.mpr ⟨_, hchain, Fault.bind_ok_iff.mpr ⟨_, husdc, rfl⟩⟩⟩
  · simp [hvalid]

theorem sendTransfer_succeeds_iff {token : Token} {toAddress : String} {amount : Float}
    {decimals : Nat} :
    (∃ args, sendTransfer viem token toAddress amount decimals = .ok args) ↔
      viem.isAddress toAddress = true ∧
        ∃ units, viem.parseUnits amount decimals = some units ∧ 0 ≤ units ∧ units < 2 ^ 256 := by
  unfold sendTransfer
  cases hunits : viem.parseUnits amount decimals with
  | none => simp
  | some units =>
      by_cases haddress : viem.isAddress toAddress = true
      · simp only [haddress, Bool.not_true, Bool.false_eq_true, if_false, true_and,
          Option.some.injEq, exists_eq_left']
        constructor
        · rintro ⟨args, hargs⟩
          obtain ⟨n, hn, -⟩ := Fault.bind_ok_iff.mp hargs
          exact (uint256_ok_iff.mp hn).1
        · intro hrange
          exact ⟨_, Fault.bind_ok_iff.mpr ⟨_, uint256_ok_iff.mpr ⟨hrange, rfl⟩, rfl⟩⟩
      · simp [haddress]

/-! ## One request -/

/-- What is read while a request is processed. What cannot be read is missing. -/
structure Reads where
  transactions : Option (List (Transaction Float))
  decimals : Option Nat

/-- The answers to a request when each transaction which it submits succeeds. The attestation
may take any time, and is then one of any content. -/
inductive Reads.Gives (reads : Reads) : Stage → Answer → Prop
  | listed {transactions : List (Transaction Float)} (h : reads.transactions = some transactions) :
      Gives reads .transactions .listed
  | unlisted (h : reads.transactions = none) : Gives reads .transactions .failed
  | burned {args : DepositForBurn} (hash : String) : Gives reads (.burn args) (.submitted hash)
  | unattested {burnTx : String} : Gives reads (.attestation burnTx) .failed
  | attested {burnTx : String} (attestation : Attestation) :
      Gives reads (.attestation burnTx) (.attested attestation)
  | minted {args : ReceiveMessage} (hash : String) : Gives reads (.mint args) (.submitted hash)
  | decimals {token : Token} {n : Nat} (h : reads.decimals = some n) :
      Gives reads (.decimals token) (.decimals n)
  | noDecimals {token : Token} (h : reads.decimals = none) : Gives reads (.decimals token) .failed
  | sent {args : Transfer} (hash : String) : Gives reads (.transfer args) (.submitted hash)

/-- Where a request can get. -/
inductive Runs (viem : Viem Float) (env : Env) (reads : Reads)
    (request : TransactionRequest Float) : Execution Float → Prop
  | start : Runs viem env reads request (.start request)
  | step {e : Execution Float} {answer : Answer} (h : Runs viem env reads request e)
      (hanswer : reads.Gives e.stage answer) :
      Runs viem env reads request (e.resume viem env (reads.transactions.getD []) answer)

/-- Where a failure is reported, nothing was moved. -/
def SafeFailure (viem : Viem Float) (env : Env) (reads : Reads)
    (request : TransactionRequest Float) : Prop :=
  ∀ e text, Runs viem env reads request e → e.stage = .returned (.failure text) →
    e.moved = .nothing

/-- The request gets to the burn, and USDC is burned. -/
structure Burns (reads : Reads) (request : TransactionRequest Float) : Prop where
  listed : ∃ transactions deposit, reads.transactions = some transactions ∧
    Execution.filteredTransactions request transactions = some deposit ∧
    (deposit.amount == request.amount) = true
  chain : Bridged request.chain
  units : ∃ n : ℤ, finiteValue (request.amount * 1000000) = some (n : ℚ) ∧ 0 ≤ n ∧ n < 2 ^ 256

/-- Nothing is rejected any more once USDC is burned. -/
structure Delivers (viem : Viem Float) (reads : Reads) (request : TransactionRequest Float) :
    Prop where
  chain : request.chain ≠ some "linea"
  valid : isWalletAddressValid request.walletAddress = true
  address : viem.isAddress request.walletAddress = true
  units : ∃ decimals units, reads.decimals = some decimals ∧
    viem.parseUnits request.amount decimals = some units ∧ 0 ≤ units ∧ units < 2 ^ 256

variable {reads : Reads} {request : TransactionRequest Float}

theorem Bridged.ne_sepolia {chain : Option String} (h : Bridged chain) :
    chain ≠ some "sepolia" := by
  obtain ⟨name, hname, rfl⟩ := h
  simp only [List.mem_cons, List.not_mem_nil, or_false] at hname
  obtain rfl | rfl | rfl | rfl := hname <;> decide

theorem Delivers.transfers (h : Delivers viem reads request) (token : Token) {n : Nat}
    (hn : reads.decimals = some n) :
    ∃ args, sendTransfer viem token request.walletAddress request.amount n = .ok args := by
  obtain ⟨m, units, hm, hunits, hrange⟩ := h.units
  rw [hn] at hm
  cases hm
  exact sendTransfer_succeeds_iff.mpr ⟨h.address, units, hunits, hrange⟩

/-- What holds on the way of a request for which the burn implies the rest. -/
def Safe (viem : Viem Float) (reads : Reads) (request : TransactionRequest Float)
    (e : Execution Float) : Prop :=
  e.request = request ∧
    match e.stage with
    | .transactions => e.moved = .nothing
    | .burn _ => Burns reads request ∧ e.moved = .nothing
    | .attestation _ => Burns reads request ∧ Delivers viem reads request
    | .mint _ => Burns reads request ∧ Delivers viem reads request
    | .decimals _ => e.moved = .nothing ∨ Delivers viem reads request
    | .transfer _ => True
    | .returned (.success _) => True
    | .returned (.failure _) => e.moved = .nothing

theorem Safe.listed (h : Safe viem reads request e) (hstage : e.stage = .transactions)
    {transactions : List (Transaction Float)} (hlisted : reads.transactions = some transactions) :
    Safe viem reads request (e.listed env transactions) := by
  obtain ⟨rfl, hmoved⟩ := h
  rw [hstage] at hmoved
  unfold Execution.listed
  cases hfound : Execution.filteredTransactions e.request transactions with
  | none => exact ⟨rfl, hmoved⟩
  | some deposit =>
      simp only []
      by_cases hamount : Number.same deposit.amount e.request.amount = true
      · rw [if_pos hamount]
        by_cases hchain : e.request.chain ≠ some "sepolia"
        · rw [if_pos hchain]
          cases hburn : burnUSDC env (Number.millions e.request.amount) e.request.chain with
          | ok args =>
              obtain ⟨hbridged, hunits⟩ := (burnUSDC_succeeds_iff env hchain).mp ⟨args, hburn⟩
              exact ⟨rfl, ⟨⟨transactions, deposit, hlisted, hfound, hamount⟩, hbridged, hunits⟩,
                hmoved⟩
          | error text => exact ⟨rfl, hmoved⟩
        · rw [if_neg hchain]
          cases htoken : sendToken e.request.walletAddress e.request.chain with
          | ok token =>
              simp only [Execution.send, Execution.await, htoken]
              exact ⟨rfl, .inl hmoved⟩
          | error text =>
              simp only [Execution.send, Execution.await, htoken]
              exact ⟨rfl, hmoved⟩
      · rw [if_neg hamount]
        exact ⟨rfl, hmoved⟩

theorem Safe.step {answer : Answer} (hdelivers : Burns reads request → Delivers viem reads request)
    (h : Safe viem reads request e) (hanswer : reads.Gives e.stage answer) :
    Safe viem reads request (e.resume viem env (reads.transactions.getD []) answer) := by
  obtain ⟨hrequest, hsafe⟩ := h
  cases hstage : e.stage with
  | transactions =>
      rw [hstage] at hanswer hsafe
      cases hanswer with
      | listed hlisted =>
          simp only [Execution.resume, hstage, hlisted, Option.getD_some]
          refine Safe.listed ⟨hrequest, ?_⟩ hstage hlisted
          rw [hstage]
          exact hsafe
      | unlisted hnone =>
          simp only [Execution.resume, hstage]
          exact ⟨hrequest, hsafe⟩
  | burn args =>
      rw [hstage] at hanswer hsafe
      cases hanswer with
      | burned hash =>
          simp only [Execution.resume, hstage]
          exact ⟨hrequest, hsafe.1, hdelivers hsafe.1⟩
  | attestation burnTx =>
      rw [hstage] at hanswer hsafe
      cases hanswer with
      | unattested =>
          simp only [Execution.resume, hstage]
          refine ⟨hrequest, ?_⟩
          rw [hstage]
          exact hsafe
      | attested attestation =>
          obtain ⟨args, hmint⟩ :=
            (mintUSDC_succeeds_iff attestation hsafe.1.chain).mpr hsafe.2.chain
          rw [← hrequest] at hmint
          simp only [Execution.resume, hstage, Execution.await, hmint]
          exact ⟨hrequest, hsafe⟩
  | mint args =>
      rw [hstage] at hanswer hsafe
      cases hanswer with
      | minted hash =>
          obtain ⟨token, htoken⟩ := (sendToken_succeeds_iff hsafe.1.chain).mpr hsafe.2.valid
          rw [← hrequest] at htoken
          simp only [Execution.resume, hstage, Execution.send, Execution.await, htoken]
          exact ⟨hrequest, .inr hsafe.2⟩
  | decimals token =>
      rw [hstage] at hanswer hsafe
      cases hanswer with
      | @decimals _ n hdecimals =>
          simp only [Execution.resume, hstage, Execution.await]
          cases htransfer : sendTransfer viem token e.request.walletAddress e.request.amount n with
          | ok args => exact ⟨hrequest, trivial⟩
          | error text =>
              cases hsafe with
              | inl hmoved => exact ⟨hrequest, hmoved⟩
              | inr h =>
                  obtain ⟨args, hargs⟩ := h.transfers token hdecimals
                  rw [hrequest, hargs] at htransfer
                  cases htransfer
      | noDecimals hnone =>
          simp only [Execution.resume, hstage]
          cases hsafe with
          | inl hmoved => exact ⟨hrequest, hmoved⟩
          | inr h =>
              obtain ⟨n, -, hn, -⟩ := h.units
              rw [hnone] at hn
              cases hn
  | transfer args =>
      rw [hstage] at hanswer
      cases hanswer with
      | sent hash =>
          simp only [Execution.resume, hstage]
          exact ⟨hrequest, trivial⟩
  | returned reply =>
      rw [hstage] at hanswer
      cases hanswer

theorem Safe.runs (hdelivers : Burns reads request → Delivers viem reads request)
    (h : Runs viem env reads request e) : Safe viem reads request e := by
  induction h with
  | start => exact ⟨rfl, rfl⟩
  | step h hanswer ih => exact ih.step hdelivers hanswer

/-- From the burn on, a request which is rejected has lost what was burned. -/
theorem SafeFailure.delivers (h : SafeFailure viem env reads request)
    (hburns : Burns reads request) : Delivers viem reads request := by
  obtain ⟨transactions, deposit, hlisted, hfound, hamount⟩ := hburns.listed
  have hsame : Number.same deposit.amount request.amount = true := hamount
  obtain ⟨args, hburn⟩ : ∃ args,
      burnUSDC env (Number.millions request.amount) request.chain = .ok args :=
    (burnUSDC_succeeds_iff env hburns.chain.ne_sepolia).mpr ⟨hburns.chain, hburns.units⟩
  have hburned : ∀ e, Runs viem env reads request e → e.moved.burned = some args →
      ∀ text, e.stage ≠ .returned (.failure text) := by
    intro e hruns hmoved text hstage
    rw [h e text hruns hstage] at hmoved
    cases hmoved
  have hfirst : Runs viem env reads request ⟨request, some deposit, .burn args, .nothing⟩ := by
    have hrun : Runs viem env reads request _ := Runs.start.step (.listed hlisted)
    simpa only [Execution.resume, Execution.start, hlisted, Option.getD_some, Execution.listed,
      hfound, if_pos hsame, if_pos hburns.chain.ne_sepolia, Execution.await, hburn] using hrun
  have hattesting : Runs viem env reads request
      ⟨request, some deposit, .attestation "", ⟨some args, none, none⟩⟩ :=
    hfirst.step (.burned "")
  have hmints : ∃ minting, mintUSDC ⟨"", ""⟩ request.chain = .ok minting := by
    cases hmint : mintUSDC ⟨"", ""⟩ request.chain with
    | ok minting => exact ⟨minting, rfl⟩
    | error text =>
        have hrun := hattesting.step (.attested ⟨"", ""⟩)
        simp only [Execution.resume, Execution.await, hmint] at hrun
        exact absurd rfl (hburned _ hrun rfl _)
  obtain ⟨minting, hmint⟩ := hmints
  have hminting : Runs viem env reads request
      ⟨request, some deposit, .mint minting, ⟨some args, none, none⟩⟩ := by
    have hrun := hattesting.step (.attested ⟨"", ""⟩)
    simpa only [Execution.resume, Execution.await, hmint] using hrun
  have hsends : ∃ token, sendToken request.walletAddress request.chain = .ok token := by
    cases htoken : sendToken request.walletAddress request.chain with
    | ok token => exact ⟨token, rfl⟩
    | error text =>
        have hrun := hminting.step (.minted "")
        simp only [Execution.resume, Execution.send, Execution.await, htoken] at hrun
        exact absurd rfl (hburned _ hrun rfl _)
  obtain ⟨token, htoken⟩ := hsends
  have hreading : Runs viem env reads request
      ⟨request, some deposit, .decimals token, ⟨some args, some minting, none⟩⟩ := by
    have hrun := hminting.step (.minted "")
    simpa only [Execution.resume, Execution.send, Execution.await, htoken] using hrun
  have htransfers : ∃ n transfer, reads.decimals = some n ∧
      sendTransfer viem token request.walletAddress request.amount n = .ok transfer := by
    cases hdecimals : reads.decimals with
    | none =>
        have hrun := hreading.step (.noDecimals hdecimals)
        exact absurd rfl (hburned _ hrun rfl _)
    | some n =>
        cases htransfer : sendTransfer viem token request.walletAddress request.amount n with
        | ok transfer => exact ⟨n, transfer, rfl, htransfer⟩
        | error text =>
            have hrun := hreading.step (.decimals hdecimals)
            simp only [Execution.resume, Execution.await, htransfer] at hrun
            exact absurd rfl (hburned _ hrun rfl _)
  obtain ⟨n, transfer, hn, htransfer⟩ := htransfers
  obtain ⟨haddress, units, hunits, hrange⟩ := sendTransfer_succeeds_iff.mp ⟨transfer, htransfer⟩
  exact {
    chain := (mintUSDC_succeeds_iff ⟨"", ""⟩ hburns.chain).mp ⟨minting, hmint⟩
    valid := (sendToken_succeeds_iff hburns.chain).mp ⟨token, htoken⟩
    address := haddress
    units := ⟨n, units, hn, hunits, hrange⟩ }

/-- A failure leaves no funds moved exactly if nothing can be rejected after the burn. -/
theorem safeFailure_iff :
    SafeFailure viem env reads request ↔ (Burns reads request → Delivers viem reads request) := by
  constructor
  · exact SafeFailure.delivers
  · intro hdelivers e text hruns hstage
    have hsafe := (Safe.runs hdelivers hruns).2
    rw [hstage] at hsafe
    exact hsafe

/-! A library which does not look at checksums, and requests for 25. -/

def doubleViem : Viem Float where
  parseUnits := fun amount decimals =>
    (finiteValue amount).bind fun q => sampleViem.parseUnits q decimals
  isAddress := isWalletAddressValid

def doubleDeposit : Transaction Float := ⟨"T1", 25, trivial, some "12345678"⟩

/-- Minting does not know the chain, unlike all the other tables. -/
def lineaRequest : TransactionRequest Float :=
  ⟨25, "12345678", "0x00000000000000000000000000000000000000aa", none, none, some "linea"⟩

def lineaReads : Reads := ⟨some [doubleDeposit], some 6⟩

def lineaBurn : DepositForBurn where
  tokenMessenger := "0x8FE6B999Dc680CcFDD5Bf7EB0974218be2542DAA"
  amount := 25000000
  destinationDomain := 11
  mintRecipient := "0x00000000000000000000000000000000000000000000000000000000000000ff"
  burnToken := "0x1c7d4b196cb0c7b01d743fbc6116a902379c7238"
  destinationCaller := "0x0000000000000000000000000000000000000000000000000000000000000000"
  maxFee := 5000
  minFinalityThreshold := 1000

def lineaFailed : Execution Float :=
  ⟨lineaRequest, some doubleDeposit, .returned (.failure "Unexpected error"),
    ⟨some lineaBurn, none, none⟩⟩

theorem linea_listed :
    (Execution.start lineaRequest).resume doubleViem sampleEnv [doubleDeposit] .listed =
      ⟨lineaRequest, some doubleDeposit, .burn lineaBurn, .nothing⟩ := by
  decide +kernel

theorem linea_unminted (attestation : Attestation) :
    mintUSDC attestation (some "linea") = .error "Unsupported chain: linea" := rfl

/-- The burn is reported as a failure. -/
theorem linea_burned :
    Runs doubleViem sampleEnv lineaReads lineaRequest lineaFailed ∧
      ¬ SafeFailure doubleViem sampleEnv lineaReads lineaRequest := by
  have hburning : Runs doubleViem sampleEnv lineaReads lineaRequest
      ⟨lineaRequest, some doubleDeposit, .burn lineaBurn, .nothing⟩ := by
    rw [← linea_listed]
    exact Runs.start.step (.listed rfl)
  have hattesting : Runs doubleViem sampleEnv lineaReads lineaRequest
      ⟨lineaRequest, some doubleDeposit, .attestation "0x01", ⟨some lineaBurn, none, none⟩⟩ :=
    hburning.step (.burned "0x01")
  have hfailed : Runs doubleViem sampleEnv lineaReads lineaRequest lineaFailed := by
    have hrun := hattesting.step (.attested ⟨"0x02", "0x03"⟩)
    simp only [Execution.resume, Execution.await, lineaRequest, linea_unminted] at hrun
    exact hrun
  refine ⟨hfailed, fun hsafe => ?_⟩
  cases hsafe _ _ hfailed rfl

end BankService

end Tlsn.Backend
