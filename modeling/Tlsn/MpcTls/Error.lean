import Tlsn.Cipher.Keystream

/-!
Roles of the two parties, and the errors of the record layer. An error of a lower
layer is kept as the source of the one it is turned into.
-/

namespace Tlsn.MpcTls

open Tlsn.Cipher

inductive Role where
  | leader
  | follower
deriving DecidableEq

inductive GhashError where
  | state (reason : String)
  | keyLength (expected actual : Nat)
  | inputLength (len max : Nat)
deriving DecidableEq

namespace AeadError

inductive Source where
  | msg (text : String)
  | vm (e : VmError)
  | cipher (e : CipherError)
  | aes (e : AesError)
  | ghash (e : GhashError)
  | commitment
deriving DecidableEq

end AeadError

inductive AeadError where
  | state (source : AeadError.Source)
  | cipher (source : AeadError.Source)
  | tag (source : AeadError.Source)
deriving DecidableEq

namespace MpcTlsError

inductive Source where
  | msg (text : String)
  | vm (e : VmError)
  | aead (e : AeadError)
deriving DecidableEq

end MpcTlsError

inductive MpcTlsError where
  | peer (source : MpcTlsError.Source)
  | state (source : MpcTlsError.Source)
  | handshake (source : MpcTlsError.Source)
  | recordLayer (source : MpcTlsError.Source)
  | nested (source : MpcTlsError)
  | other (source : MpcTlsError.Source)
  | io
deriving DecidableEq

end Tlsn.MpcTls
