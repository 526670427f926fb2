import Tlsn.Backend.Cctp
import Tlsn.Library.Interleaving

/-!
From crypto to fiat. A request is paid once USDC was moved from its wallet, in its amount,
within the last blocks. What the code does between one await and the next is one step;
requests run side by side, and see the same chain.
-/

namespace Tlsn.Backend.WalletService

/-- A Transfer event of USDC. -/
structure TransferEvent where
  fromAddress : String
  toAddress : String
  value : Nat
  block : Nat
deriving DecidableEq

/-- The blocks so far, and their events. -/
structure Sepolia where
  head : Nat
  log : List TransferEvent
deriving DecidableEq

def Sepolia.getLogs (fromBlock toBlock : ℤ) (sepolia : Sepolia) : List TransferEvent :=
  sepolia.log.filter fun event => fromBlock ≤ event.block && event.block ≤ toBlock

structure Destination where
  type : String
  accountNumber : String
  sortCode : String
  name : String
deriving DecidableEq

structure CreatePaymentRequest where
  sourceAccountId : Option String
  destination : Destination
  currency : Option String
  amount : ℚ
  reference : Option String
deriving DecidableEq

/-- `||`: the empty text counts as none. -/
def orElse (text : Option String) (default : String) : String :=
  match text with
  | some text => if text = "" then default else text
  | none => default

/-- What the bank service posts. -/
def sendMoney (createPaymentRequest : CreatePaymentRequest) : CreatePaymentRequest :=
  { createPaymentRequest with
    sourceAccountId := some (orElse createPaymentRequest.sourceAccountId "A2100DV5R6")
    currency := some (orElse createPaymentRequest.currency "GBP") }

structure Reply where
  success : Bool
  message : String
deriving DecidableEq

/-- What a request is waiting for. -/
inductive Stage where
  | decimals
  | blockNumber
  | logs (fromBlock toBlock : ℤ)
  | payment (args : CreatePaymentRequest)
  | returned (reply : Reply)
deriving DecidableEq

/-- A request, and the payment that was made for it. -/
structure Execution where
  request : TransactionRequest ℚ
  expectedAmount : Option ℤ
  stage : Stage
  paid : Option CreatePaymentRequest
deriving DecidableEq

inductive Answer where
  | failed
  | answered
  | payment (status : String)
deriving DecidableEq

namespace Execution

def start (request : TransactionRequest ℚ) : Execution :=
  if !isWalletAddressValid request.walletAddress then
    ⟨request, none, .returned ⟨false, "Invalid wallet address"⟩, none⟩
  else ⟨request, none, .decimals, none⟩

def reply (success : Bool) (message : String) (e : Execution) : Execution :=
  { e with stage := .returned ⟨success, message⟩ }

/-- What is thrown is caught. -/
def verificationError (e : Execution) : Execution := e.reply false "Verification error"

/-- The events from the wallet with the amount, to any receiver. -/
def matchingTransfers (events : List TransferEvent) (e : Execution) : List TransferEvent :=
  events.filter fun event =>
    event.fromAddress.toLower = e.request.walletAddress.toLower &&
      some (event.value : ℤ) = e.expectedAmount

def createPayment (request : TransactionRequest ℚ) : CreatePaymentRequest where
  sourceAccountId := none
  destination := ⟨"SCAN", request.bankAccountNumber, orElse request.sortCode "",
    orElse request.name ""⟩
  currency := none
  amount := request.amount
  reference := some "Crypto to fiat"

def verified (events : List TransferEvent) (e : Execution) : Execution :=
  if (e.matchingTransfers events).length > 0 then
    { e with stage := .payment (sendMoney (createPayment e.request)) }
  else e.reply false "Transaction not verified"

def paidWith (status : String) (args : CreatePaymentRequest) (e : Execution) : Execution :=
  let e := { e with paid := some args }
  if status ≠ "" then e.reply true "Transaction verified and bank transfer successful"
  else e.reply false "Transaction verified but bank transfer failed"

/-- Goes on with an answer. What the provider answers is what holds of the chain. -/
def resume (viem : Viem ℚ) (decimals : Nat) (sepolia : Sepolia) (answer : Answer) (e : Execution) :
    Execution :=
  match e.stage, answer with
  | .decimals, .answered =>
      match viem.parseUnits e.request.amount decimals with
      | some expectedAmount =>
          { e with expectedAmount := some expectedAmount, stage := .blockNumber }
      | none => e.verificationError
  | .blockNumber, .answered =>
      { e with stage := .logs ((sepolia.head : ℤ) - 100) sepolia.head }
  | .logs fromBlock toBlock, .answered => e.verified (sepolia.getLogs fromBlock toBlock)
  | .payment args, .payment status => e.paidWith status args
  | .returned _, _ => e
  | _, _ => e.verificationError

end Execution

/-! ## What a step can do -/

variable {viem : Viem ℚ} {decimals : Nat} {sepolia : Sepolia} {e : Execution}

inductive Resumed (viem : Viem ℚ) (decimals : Nat) (sepolia : Sepolia) (e : Execution) :
    Answer → Execution → Prop where
  | idle {answer : Answer} : Resumed viem decimals sepolia e answer e
  | rejected {answer : Answer} {reply : Reply} (hstage : ∀ reply, e.stage ≠ .returned reply) :
      Resumed viem decimals sepolia e answer { e with stage := .returned reply }
  | priced {expectedAmount : ℤ} (hstage : e.stage = .decimals)
      (hunits : viem.parseUnits e.request.amount decimals = some expectedAmount) :
      Resumed viem decimals sepolia e .answered
        { e with expectedAmount := some expectedAmount, stage := .blockNumber }
  | located (hstage : e.stage = .blockNumber) :
      Resumed viem decimals sepolia e .answered
        { e with stage := .logs ((sepolia.head : ℤ) - 100) sepolia.head }
  | verified {fromBlock toBlock : ℤ} (hstage : e.stage = .logs fromBlock toBlock)
      (hmatching : (e.matchingTransfers (sepolia.getLogs fromBlock toBlock)).length > 0) :
      Resumed viem decimals sepolia e .answered
        { e with stage := .payment (sendMoney (Execution.createPayment e.request)) }
  | paid {args : CreatePaymentRequest} {status : String} {reply : Reply}
      (hstage : e.stage = .payment args) :
      Resumed viem decimals sepolia e (.payment status)
        { e with paid := some args, stage := .returned reply }

theorem resume_resumed (viem : Viem ℚ) (decimals : Nat) (sepolia : Sepolia) (answer : Answer)
    (e : Execution) :
    Resumed viem decimals sepolia e answer (e.resume viem decimals sepolia answer) := by
  have hrejected : ∀ success message, (∀ reply, e.stage ≠ .returned reply) →
      Resumed viem decimals sepolia e answer (e.reply success message) :=
    fun _ _ h => .rejected h
  cases hstage : e.stage with
  | decimals =>
      have hunexpected := hrejected false "Verification error" (by simp [hstage])
      cases answer with
      | answered =>
          simp only [Execution.resume, hstage]
          cases hunits : viem.parseUnits e.request.amount decimals with
          | some expectedAmount => exact .priced hstage hunits
          | none => exact hunexpected
      | _ =>
          simp only [Execution.resume, hstage]
          exact hunexpected
  | blockNumber =>
      have hunexpected := hrejected false "Verification error" (by simp [hstage])
      cases answer with
      | answered =>
          simp only [Execution.resume, hstage]
          exact .located hstage
      | _ =>
          simp only [Execution.resume, hstage]
          exact hunexpected
  | logs fromBlock toBlock =>
      have hunexpected := hrejected false "Verification error" (by simp [hstage])
      cases answer with
      | answered =>
          simp only [Execution.resume, hstage, Execution.verified]
          by_cases hmatching :
              (e.matchingTransfers (sepolia.getLogs fromBlock toBlock)).length > 0
          · rw [if_pos hmatching]
            exact .verified hstage hmatching
          · rw [if_neg hmatching]
            exact hrejected _ _ (by simp [hstage])
      | _ =>
          simp only [Execution.resume, hstage]
          exact hunexpected
  | payment args =>
      have hunexpected := hrejected false "Verification error" (by simp [hstage])
      cases answer with
      | payment status =>
          simp only [Execution.resume, hstage, Execution.paidWith]
          by_cases hstatus : status ≠ ""
          · rw [if_pos hstatus]
            exact .paid hstage
          · rw [if_neg hstatus]
            exact .paid hstage
      | _ =>
          simp only [Execution.resume, hstage]
          exact hunexpected
  | returned reply =>
      cases answer <;>
        · simp only [Execution.resume, hstage]
          exact .idle

end Tlsn.Backend.WalletService
