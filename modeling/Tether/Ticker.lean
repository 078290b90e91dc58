import Tether.Arithmetic
import Tether.Retry

/-! Readings of the clock and the tickers that start from them. A reading has its whole seconds in a signed
word, and a ticker must have a period; where that fails, the program stops and nobody is told in an error. -/
namespace Tether

def Span.add (s s' : Span) : Span := ⟨s.nanos + s'.nanos⟩

/-- The clock does not count so many seconds: they are kept in a signed word. -/
def Instant.limit : Nat := 9223372036854775808

/-- A reading of the clock, which stands for the time since the clock started. -/
structure Instant where
  elapsed : Span
  inRange : elapsed.seconds < Instant.limit
deriving DecidableEq, Repr

namespace Instant

def zero : Instant := ⟨⟨0⟩,by decide⟩

def add (now : Instant) (s : Span) : Except Panic Instant :=
  if h : (now.elapsed.add s).seconds < limit then .ok ⟨now.elapsed.add s,h⟩ else .error .instantOverflow

end Instant

/-- Ticks at `due` for the first time, and then once in each period. -/
structure Ticker where
  due : Instant
  period : Span
  positive : 0 < period.nanos
deriving DecidableEq, Repr

namespace Ticker

def starting (due : Instant) (period : Span) : Except Panic Ticker :=
  if h : 0 < period.nanos then .ok ⟨due,period,h⟩ else .error .periodZero

def after (now : Instant) (period : Span) : Except Panic Ticker := do
  starting (← now.add period) period

end Ticker
end Tether
