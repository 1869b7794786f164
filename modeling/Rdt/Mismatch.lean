import Rdt.Client.Client
import Rdt.Server.Welcoming

/-!
# A client of the other protocol

The answer of the accepter to a SYN in the other protocol, and what the client makes of it.
-/

namespace Rdt

open PacketParser

namespace Client

end Client

namespace Server

open Accepter

variable {cfg : AccepterConfig} {a : Accepter} {raw : Bytes} {A : Address}

/-- A SYN in the other protocol from an address the pool does not list -/
structure ForeignSyn (cfg : AccepterConfig) (a : Accepter) (raw : Bytes) (A : Address) : Prop where
  isSyn : (getPacketFromBytes (raw.take commsBufferSize)).isSyn = true
  protocol : (getPacketFromBytes (raw.take commsBufferSize)).protocol ≠ cfg.protocolVersion
  free : a.clients.isClientConnected A = false

theorem ForeignSyn.ne_nil (h : ForeignSyn cfg a raw A) : raw ≠ [] := by
  rintro rfl
  exact absurd h.isSyn (by decide)

end Server

end Rdt
