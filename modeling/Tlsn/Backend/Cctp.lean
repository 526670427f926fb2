import Tlsn.Backend.Request
import Tlsn.Library.Fault

/-!
The chains. Each service looks a chain up in tables of its own, and the tables do not have
the same chains.
-/

namespace Tlsn.Backend

inductive Chain where
  | sepolia
  | avalancheFuji
  | arbitrumSepolia
  | baseSepolia
  | lineaSepolia
deriving DecidableEq

/-- Looks a chain up. What is not given is printed as undefined. -/
def lookup {α : Type} (table : List (String × α)) (chain : Option String) : Except String α :=
  match chain.bind fun name => table.lookup name with
  | some a => .ok a
  | none => .error ("Unsupported chain: " ++ chain.getD "undefined")

theorem lookup_ok_iff {α : Type} {table : List (String × α)} {chain : Option String} {a : α} :
    lookup table chain = .ok a ↔ ∃ name, chain = some name ∧ table.lookup name = some a := by
  cases chain with
  | none => simp [lookup]
  | some name =>
      cases h : table.lookup name with
      | none => simp [lookup, h]
      | some b => simp [lookup, h]

def usdc : List (String × String) :=
  [("sepolia", "0x1c7d4b196cb0c7b01d743fbc6116a902379c7238"),
    ("avalanche", "0x5425890298aed601595a70AB815c96711a31Bc65"),
    ("arbitrum", "0x75faf114eafb1BDbe2F0316DF893fd58CE46AA4d"),
    ("base", "0x036CbD53842c5426634e7929541eC2318f3dCF7e"),
    ("linea", "0xFEce4462D57bD51A6A552365A011b95f0E16d9B7")]

namespace CctpService

def getUSDC : Option String → Except String String := lookup usdc

def getMessageTransmitter : Option String → Except String String := lookup
  [("avalanche", "0xE737e5cEBEEBa77EFE34D4aa090756590b1CE275"),
    ("linea", "0xE737e5cEBEEBa77EFE34D4aa090756590b1CE275"),
    ("arbitrum", "0xE737e5cEBEEBa77EFE34D4aa090756590b1CE275"),
    ("base", "0xE737e5cEBEEBa77EFE34D4aa090756590b1CE275")]

def getTokenMessenger : Option String → Except String String := lookup
  [("sepolia", "0x8FE6B999Dc680CcFDD5Bf7EB0974218be2542DAA")]

def getDomain : Option String → Except String Nat := lookup
  [("sepolia", 0), ("avalanche", 1), ("arbitrum", 3), ("base", 6), ("linea", 11)]

/-- The arguments of `depositForBurn`, and the contract which is called. -/
structure DepositForBurn where
  tokenMessenger : String
  amount : ℤ
  destinationDomain : Nat
  mintRecipient : String
  burnToken : String
  destinationCaller : String
  maxFee : Nat
  minFinalityThreshold : Nat
deriving DecidableEq

/-- The transaction which is submitted. -/
def burnUSDC {α : Type} [Number α] (env : Env) (amount : α) (chain : Option String) :
    Except String DepositForBurn := do
  let tokenMessenger ← getTokenMessenger (some "sepolia")
  let amount ← Number.bigInt amount
  let destinationDomain ← getDomain chain
  let burnToken ← getUSDC (some "sepolia")
  let amount ← uint256 amount
  return {
    tokenMessenger := tokenMessenger
    amount := amount
    destinationDomain := destinationDomain
    mintRecipient := "0x000000000000000000000000" ++ String.ofList (env.walletAddress.toList.drop 2)
    burnToken := burnToken
    destinationCaller := "0x0000000000000000000000000000000000000000000000000000000000000000"
    maxFee := 5000
    minFinalityThreshold := 1000 }

structure Attestation where
  message : String
  attestation : String
deriving DecidableEq

structure ReceiveMessage where
  messageTransmitter : String
  chain : Chain
  attestation : Attestation
deriving DecidableEq

def mintChain : Option String → Except String Chain := lookup
  [("sepolia", .sepolia), ("avalanche", .avalancheFuji), ("arbitrum", .arbitrumSepolia),
    ("base", .baseSepolia)]

def mintUSDC (attestation : Attestation) (chain : Option String) :
    Except String ReceiveMessage := do
  let clientChain ← mintChain chain
  return ⟨← getMessageTransmitter chain, clientChain, attestation⟩

end CctpService

namespace WalletService

def getUSDC : Option String → Except String String := lookup usdc

def sendChain : Option String → Except String Chain := lookup
  [("sepolia", .sepolia), ("avalanche", .avalancheFuji), ("arbitrum", .arbitrumSepolia),
    ("base", .baseSepolia), ("linea", .lineaSepolia)]

/-- The token of which the decimals are asked for. -/
structure Token where
  address : String
  chain : Chain
deriving DecidableEq

/-- What `send` does before it asks for the decimals of the token. -/
def sendToken (toAddress : String) (chain : Option String) : Except String Token :=
  if !isWalletAddressValid toAddress then .error "Geçersiz cüzdan adresi formatı"
  else do
    let clientChain ← sendChain chain
    return ⟨← getUSDC chain, clientChain⟩

structure Transfer where
  token : Token
  toAddress : String
  amountInWei : ℤ
  decimals : Nat
deriving DecidableEq

/-- What `send` does once it knows the decimals. -/
def sendTransfer {α : Type} (viem : Viem α) (token : Token) (toAddress : String) (amount : α)
    (decimals : Nat) : Except String Transfer :=
  match viem.parseUnits amount decimals with
  | none => .error "Number is not a valid decimal number"
  | some amountInWei =>
      if !viem.isAddress toAddress then .error "Address is invalid"
      else do
        let amountInWei ← uint256 amountInWei
        return ⟨token, toAddress, amountInWei, decimals⟩

end WalletService

end Tlsn.Backend
