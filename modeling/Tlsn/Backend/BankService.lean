import Tlsn.Backend.Cctp
import Tlsn.Library.Interleaving

/-!
From fiat to crypto. A request is paid out once the bank lists a transaction of its account
with its amount. What the code does between one await and the next is one step; requests
run side by side, and share the transactions which the bank has received.
-/

namespace Tlsn.Backend

open CctpService WalletService

/-- A transaction of the bank. The account of the payer may be missing. -/
structure Transaction (α : Type) [Number α] where
  id : String
  amount : α
  listed : Number.Listed amount
  payer : Option String
deriving DecidableEq

namespace BankService

inductive Reply where
  | success (transactionHash : String)
  | failure (error : String)
deriving DecidableEq

/-- What a request is waiting for. -/
inductive Stage where
  | transactions
  | burn (args : DepositForBurn)
  | attestation (burnTx : String)
  | mint (args : ReceiveMessage)
  | decimals (token : Token)
  | transfer (args : Transfer)
  | returned (reply : Reply)
deriving DecidableEq

/-- What has happened on the chains. -/
structure Moved where
  burned : Option DepositForBurn
  minted : Option ReceiveMessage
  sent : Option Transfer
deriving DecidableEq

def Moved.nothing : Moved := ⟨none, none, none⟩

/-- A request, with the transaction of the bank which was found for it. -/
structure Execution (α : Type) [Number α] where
  request : TransactionRequest α
  deposit : Option (Transaction α)
  stage : Stage
  moved : Moved
deriving DecidableEq

inductive Answer where
  | failed
  | listed
  | submitted (hash : String)
  | attested (attestation : Attestation)
  | decimals (decimals : Nat)
deriving DecidableEq

namespace Execution

variable {α : Type} [Number α]

def start (request : TransactionRequest α) : Execution α := ⟨request, none, .transactions, .nothing⟩

def reply (reply : Reply) (e : Execution α) : Execution α := { e with stage := .returned reply }

/-- What is thrown is caught. -/
def unexpected (e : Execution α) : Execution α := e.reply (.failure "Unexpected error")

/-- The step with a stage which may have thrown instead. -/
def await {β : Type} (x : Except String β) (stage : β → Stage) (e : Execution α) : Execution α :=
  match x with
  | .ok b => { e with stage := stage b }
  | .error _ => e.unexpected

def send (e : Execution α) : Execution α :=
  e.await (sendToken e.request.walletAddress e.request.chain) .decimals

/-- The first transaction of the account. -/
def filteredTransactions (request : TransactionRequest α) (transactions : List (Transaction α)) :
    Option (Transaction α) :=
  transactions.find? fun t => t.payer = some request.bankAccountNumber

def listed (env : Env) (transactions : List (Transaction α)) (e : Execution α) : Execution α :=
  match filteredTransactions e.request transactions with
  | none => e.unexpected
  | some deposit =>
      let e := { e with deposit := some deposit }
      if Number.same deposit.amount e.request.amount then
        if e.request.chain ≠ some "sepolia" then
          e.await (burnUSDC env (Number.millions e.request.amount) e.request.chain) .burn
        else e.send
      else e.reply (.failure "Transaction amount does not match")

/-- Goes on with an answer. The attestation is asked for until it is there. -/
def resume (viem : Viem α) (env : Env) (transactions : List (Transaction α)) (answer : Answer)
    (e : Execution α) : Execution α :=
  match e.stage, answer with
  | .transactions, .listed => e.listed env transactions
  | .burn args, .submitted hash =>
      { e with moved := { e.moved with burned := some args }, stage := .attestation hash }
  | .attestation _, .attested attestation =>
      e.await (mintUSDC attestation e.request.chain) .mint
  | .attestation _, _ => e
  | .mint args, .submitted _ => { e with moved := { e.moved with minted := some args } }.send
  | .decimals token, .decimals decimals =>
      e.await (sendTransfer viem token e.request.walletAddress e.request.amount decimals) .transfer
  | .transfer args, .submitted hash =>
      { e with moved := { e.moved with sent := some args }, stage := .returned (.success hash) }
  | .returned _, _ => e
  | _, _ => e.unexpected

end Execution

/-! ## What a step can do -/

variable {α : Type} [Number α] {viem : Viem α} {env : Env} {transactions : List (Transaction α)}
  {e : Execution α}

inductive Resumed (viem : Viem α) (env : Env) (transactions : List (Transaction α))
    (e : Execution α) : Answer → Execution α → Prop where
  | idle {answer : Answer} : Resumed viem env transactions e answer e
  | failed {answer : Answer} {deposit : Option (Transaction α)} {text : String}
      (hstage : ∀ reply, e.stage ≠ .returned reply) :
      Resumed viem env transactions e answer
        { e with deposit := deposit, stage := .returned (.failure text) }
  | burning {deposit : Transaction α} {args : DepositForBurn} (hstage : e.stage = .transactions)
      (hfound : Execution.filteredTransactions e.request transactions = some deposit)
      (hamount : Number.same deposit.amount e.request.amount = true)
      (hburn : burnUSDC env (Number.millions e.request.amount) e.request.chain = .ok args) :
      Resumed viem env transactions e .listed
        { e with deposit := some deposit, stage := .burn args }
  | sending {deposit : Transaction α} {token : Token} (hstage : e.stage = .transactions)
      (hfound : Execution.filteredTransactions e.request transactions = some deposit)
      (hamount : Number.same deposit.amount e.request.amount = true)
      (htoken : sendToken e.request.walletAddress e.request.chain = .ok token) :
      Resumed viem env transactions e .listed
        { e with deposit := some deposit, stage := .decimals token }
  | burned {args : DepositForBurn} {hash : String} (hstage : e.stage = .burn args) :
      Resumed viem env transactions e (.submitted hash)
        { e with moved := { e.moved with burned := some args }, stage := .attestation hash }
  | attested {burnTx : String} {attestation : Attestation} {args : ReceiveMessage}
      (hstage : e.stage = .attestation burnTx)
      (hmint : mintUSDC attestation e.request.chain = .ok args) :
      Resumed viem env transactions e (.attested attestation) { e with stage := .mint args }
  | minted {args : ReceiveMessage} {hash : String} {token : Token} (hstage : e.stage = .mint args)
      (htoken : sendToken e.request.walletAddress e.request.chain = .ok token) :
      Resumed viem env transactions e (.submitted hash)
        { e with moved := { e.moved with minted := some args }, stage := .decimals token }
  | unsent {args : ReceiveMessage} {hash text : String} (hstage : e.stage = .mint args) :
      Resumed viem env transactions e (.submitted hash)
        { e with
          moved := { e.moved with minted := some args }
          stage := .returned (.failure text) }
  | transferring {token : Token} {decimals : Nat} {args : Transfer}
      (hstage : e.stage = .decimals token)
      (htransfer : sendTransfer viem token e.request.walletAddress e.request.amount decimals =
        .ok args) :
      Resumed viem env transactions e (.decimals decimals) { e with stage := .transfer args }
  | sent {args : Transfer} {hash : String} (hstage : e.stage = .transfer args) :
      Resumed viem env transactions e (.submitted hash)
        { e with
          moved := { e.moved with sent := some args }
          stage := .returned (.success hash) }

theorem listed_resumed (hstage : e.stage = .transactions) :
    Resumed viem env transactions e .listed (e.listed env transactions) := by
  have hreturned : ∀ reply, e.stage ≠ .returned reply := by
    intro reply h
    rw [hstage] at h
    cases h
  unfold Execution.listed
  cases hfound : Execution.filteredTransactions e.request transactions with
  | none => exact .failed hreturned
  | some deposit =>
      simp only []
      by_cases hamount : Number.same deposit.amount e.request.amount = true
      · rw [if_pos hamount]
        by_cases hchain : e.request.chain ≠ some "sepolia"
        · rw [if_pos hchain]
          cases hburn : burnUSDC env (Number.millions e.request.amount) e.request.chain with
          | ok args => exact .burning hstage hfound hamount hburn
          | error text => exact .failed hreturned
        · rw [if_neg hchain]
          cases htoken : sendToken e.request.walletAddress e.request.chain with
          | ok token =>
              simp only [Execution.send, Execution.await, htoken]
              exact .sending hstage hfound hamount htoken
          | error text =>
              simp only [Execution.send, Execution.await, htoken]
              exact .failed hreturned
      · rw [if_neg hamount]
        exact .failed hreturned

theorem resume_resumed (viem : Viem α) (env : Env) (transactions : List (Transaction α))
    (answer : Answer) (e : Execution α) :
    Resumed viem env transactions e answer (e.resume viem env transactions answer) := by
  have hfailed : (∀ reply, e.stage ≠ .returned reply) →
      Resumed viem env transactions e answer e.unexpected := fun h => .failed h
  cases hstage : e.stage with
  | transactions =>
      have hunexpected := hfailed (by simp [hstage])
      cases answer with
      | listed =>
          simp only [Execution.resume, hstage]
          exact listed_resumed hstage
      | _ =>
          simp only [Execution.resume, hstage]
          exact hunexpected
  | burn args =>
      have hunexpected := hfailed (by simp [hstage])
      cases answer with
      | submitted hash =>
          simp only [Execution.resume, hstage]
          exact .burned hstage
      | _ =>
          simp only [Execution.resume, hstage]
          exact hunexpected
  | attestation burnTx =>
      cases answer with
      | attested attestation =>
          simp only [Execution.resume, hstage, Execution.await]
          cases hmint : mintUSDC attestation e.request.chain with
          | ok args => exact .attested hstage hmint
          | error text => exact hfailed (by simp [hstage])
      | _ =>
          simp only [Execution.resume, hstage]
          exact .idle
  | mint args =>
      have hunexpected := hfailed (by simp [hstage])
      cases answer with
      | submitted hash =>
          simp only [Execution.resume, hstage, Execution.send, Execution.await]
          cases htoken : sendToken e.request.walletAddress e.request.chain with
          | ok token => exact .minted hstage htoken
          | error text => exact .unsent hstage
      | _ =>
          simp only [Execution.resume, hstage]
          exact hunexpected
  | decimals token =>
      have hunexpected := hfailed (by simp [hstage])
      cases answer with
      | decimals decimals =>
          simp only [Execution.resume, hstage, Execution.await]
          cases htransfer : sendTransfer viem token e.request.walletAddress e.request.amount
              decimals with
          | ok args => exact .transferring hstage htransfer
          | error text => exact hunexpected
      | _ =>
          simp only [Execution.resume, hstage]
          exact hunexpected
  | transfer args =>
      have hunexpected := hfailed (by simp [hstage])
      cases answer with
      | submitted hash =>
          simp only [Execution.resume, hstage]
          exact .sent hstage
      | _ =>
          simp only [Execution.resume, hstage]
          exact hunexpected
  | returned reply =>
      cases answer <;>
        · simp only [Execution.resume, hstage]
          exact .idle

end BankService

end Tlsn.Backend
