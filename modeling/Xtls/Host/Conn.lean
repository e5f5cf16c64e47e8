import Xtls.Host.Meta

/-!
# A connection of the host server

`conn_state_t` (`common.h` 160-200) without the statistics.
-/

namespace Xtls.Host

/-- Why the process stopped. -/
inductive Halt where
  | exitFailure   -- `exit(EXIT_FAILURE)`
  | nullPointer   -- a dereferenced NULL pointer
  | overflow      -- a copy beyond the end of its buffer
  deriving DecidableEq, Repr

/-- `enum sock_state`. -/
inductive SockState where
  | default | init | connected | readyToRecv | tlsHsRecved | httpReqRecved | httpRespSent
  | closeMetaPktSent | waitTcpFin | closed | errored
  deriving DecidableEq, Repr

/-- `conn_state_t`; a negative descriptor or file index is `none`.  `reqBuf` is the part of `req_buf` that has
been received, `req_len` is its length; behind it the buffer is 0. -/
structure ConnState where
  sockFd : Option Nat := none
  sockState : SockState := .default
  recvBytes : Int := 0
  metaInfo : MetaInfo := {}
  cryptoInfo : SslCryptoInfo := {}
  keepAlive : Bool := false
  scode : UInt32 := 0
  hdrSent : Bool := false
  hdrLen : Nat := 0
  hdrOffset : Nat := 0
  hdrRemain : Nat := 0
  hdrBuf : Bytes := []
  fileIdx : Option Nat := none
  fileSize : UInt64 := 0
  reqBuf : Bytes := []
  respFd : Option Nat := none
  respOffset : Nat := 0
  respRemain : Nat := 0
  deriving DecidableEq, Repr

/-- What a connection took from its meta packet. -/
def ConnState.ident (s : ConnState) : MetaInfo × SslCryptoInfo := (s.metaInfo, s.cryptoInfo)

end Xtls.Host
