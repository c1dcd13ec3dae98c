import SshTunnel.Lib.Net

/-!
# Transport types of the control API (`control/api.go`)

Go strings are texts (lists of characters); the named string type
`ConnectStatus` is an enumeration, with `unset` for the zero value `""` that a
connector has before `connect` writes its first status.
-/

namespace SshTunnel.Control

open Lib.Net (Text)

structure Rule where
  cidr : Text
  dialer : Text
  deriving Repr, DecidableEq

structure Proxy where
  proxyType : Text
  proxyPort : ℕ
  proxyParameters : Text
  deriving Repr, DecidableEq

/-- `control.Status`, with the embedded `Health`. -/
structure Status where
  healthy : Bool
  proxies : List Proxy
  deriving Repr, DecidableEq

structure SSHKey where
  type : Text
  publicKey : Text
  privateKey : Text
  passphrase : Text
  deriving Repr, DecidableEq

structure Dialer where
  name : Text
  type : Text
  destination : Text
  deriving Repr, DecidableEq

inductive ConnectStatus where
  | unset
  | connecting
  | handshake
  | needPassphrase
  | unknownHostKey
  | succeeded
  | failed
  deriving Repr, DecidableEq

def ConnectStatus.text : ConnectStatus → Text
  | .unset => []
  | .connecting => "connecting".toList
  | .handshake => "handshake".toList
  | .needPassphrase => "need_passphrase".toList
  | .unknownHostKey => "unknown_host_key".toList
  | .succeeded => "succeeded".toList
  | .failed => "failed".toList

/-- `control.ConnectIn` without the id, which selects the connector. -/
structure ConnectIn where
  passphrase : Text
  acceptHostKey : Option Bool
  deriving Repr, DecidableEq

/-- `control.ConnectOut` without the id. -/
structure ConnectOut where
  status : ConnectStatus
  messages : List Text
  hostKeyFingerprint : Text
  deriving Repr, DecidableEq

end SshTunnel.Control
