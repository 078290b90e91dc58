import Tether.Node.Setup
import Tether.Ticker

/-! The calls of a running node that its settings can stop: the tickers of its probes and of its checks on
clients. An upload can stop it too, where it asks for room. -/
namespace Tether

/-- The ticker of the probes on a link; none where probes are off. -/
def KeepaliveSettings.ticker (k : KeepaliveSettings) (now : Instant) : Except Panic (Option Ticker) :=
  if k.enabled then (Ticker.after now k.interval).map some else .ok none

/-- The ticker of a master's checks on its clients. -/
def Node.MasterSetup.ticker (m : MasterSetup) (now : Instant) : Except Panic Ticker :=
  Ticker.after now m.checkInterval

end Tether
