import YbeProxy.ActiveClients
import Mathlib.Data.List.Chain
import Mathlib.Algebra.BigOperators.Group.List.Basic
import Mathlib.Algebra.Order.Ring.Int
import Mathlib.Tactic.Ring

/-!
# When messages are sent

`Proxy_SV_SendMessageToClient` and `Proxy_SV_RateMsec` of `Engine/Hooks/server/sv_snapshot.cpp` over a run of messages to
one client, and `Applied` of `Engine/Rate.cpp`, the rate that `/netStatus` shows. The engine sends the next message once
the time is reached that the last one set. A message counts as `SV_RateMsec` counts it: at most 1500 bytes of a longer one,
and a header; the fragments of the message before, which are sent at once, do not count.
-/

namespace YbeProxy.SendTimes
open YbeProxy.ServerCommands

/-! ## Waits -/

section Waits
variable {α : Type} (weight time next : α → Int)

end Waits

/-! ## The rate -/

/-- `Applied`; a `sv_maxRate` below 1000 counts as 1000. -/
def applied (svMaxRate rate : Int) : Int :=
  if svMaxRate ≠ 0 ∧ svMaxRate < rate then (if svMaxRate < 1000 then 1000 else svMaxRate) else rate

structure Send where
  env : Env
  sender : Sender
  msg : List Write
  work : Work

/-- The client once the message is on its way, and the size of the message. -/
def Send.transmitted (send : Send) : ClientT × Int32 :=
  send.sender.svNetchanTransmit send.msg
    (recordMessage send.env send.sender send.msg (writeOldFragments send.sender "[1]".toList send.work).cl)

def Send.after (send : Send) : ClientT := (proxySvSendMessageToClient send.env send.sender send.msg send.work).cl

def Send.time (send : Send) : Int := send.env.time.toInt
/-- When the next message is due. -/
def Send.next (send : Send) : Int := send.after.nextSnapshotTime.toInt
/-- The bytes as `SV_RateMsec` counts them. -/
def Send.bytes (send : Send) : Int := min send.transmitted.2.toInt 1500 + headerRateBytes
def Send.rate (send : Send) : Int := applied send.sender.svMaxRate send.transmitted.1.info.rate

/-- A message to a client that is not on the LAN, with the values that the engine and the proxy give a client, at a time
at which the map is not yet loaded again. -/
structure Ordinary (send : Send) : Prop where
  remote : ¬ (send.transmitted.1.info.remoteAddress.type = .naLoopback ∨
    send.sender.sysIsLanAddress send.transmitted.1.info.remoteAddress = true)
  rate : 1000 ≤ send.transmitted.1.info.rate
  interval : 0 ≤ send.transmitted.1.info.snapshotMsec ∧ send.transmitted.1.info.snapshotMsec ≤ 1000
  early : send.time ≤ 0x70000000

end YbeProxy.SendTimes
