namespace ChordScript

/-- No time is this long, for the seconds of a time are a number of 64 bits. -/
def timeLimit : Nat := 1000 * UInt64.size

structure Config where
  initialBpm : UInt32 := 120
  keyHoldMs : UInt64 := 30
  keyStaggerMs : UInt64 := 2
deriving DecidableEq

structure Timing where
  hold : Nat
  stagger : Nat
deriving DecidableEq

namespace Config

def tempo (c : Config) : Nat := max c.initialBpm.toNat 1

def timing (c : Config) : Timing := ⟨c.keyHoldMs.toNat, c.keyStaggerMs.toNat⟩

end Config

def beatInterval (tempo : Nat) : Nat := 60000 / max tempo 1

end ChordScript
