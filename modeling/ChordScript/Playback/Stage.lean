import ChordScript.Config
import ChordScript.Playback.Notice

namespace ChordScript

/-- A sink counts the events sent to it from 1. At one of them it may set the cancel token, and at
one of them it may panic instead of taking the event. It sleeps some time before it takes one. -/
structure Sink where
  cancelAt : Option Nat := none
  panicAt : Option Nat := none
  cost : Nat := 0
deriving DecidableEq

inductive Effect
  | sent (event : KeyEvent)
  | slept (ms : Nat)
  | noted (notice : Notice)
deriving DecidableEq

namespace Effect

def event? : Effect → Option KeyEvent
  | sent e => some e
  | _ => none

def sleep? : Effect → Option Nat
  | slept ms => some ms
  | _ => none

def notice? : Effect → Option Notice
  | sent e => some (.typed e)
  | slept _ => none
  | noted n => some n

def events (done : List Effect) : List KeyEvent := done.filterMap event?

def sleeps (done : List Effect) : List Nat := done.filterMap sleep?

def notices (done : List Effect) : List Notice := done.filterMap notice?

end Effect

structure Stage where
  calls : Nat := 0
  cancelled : Bool := false
  now : Nat := 0
  now_lt : now < timeLimit := by decide
deriving DecidableEq

/-- The second of two panics, on the way out of the first, ends the whole program. -/
inductive Panic
  | sink
  | clock
  | abort
deriving DecidableEq

/-- What a part of playback made of the stage, its effects in order, and the panic that it ended in
if it did. -/
structure Passage where
  stage : Stage
  done : List Effect
  panic? : Option Panic := none
deriving DecidableEq

def Passage.andThen (p : Passage) (next : Stage → Passage) : Passage :=
  match p.panic? with
  | some _ => p
  | none =>
    let q := next p.stage
    { q with done := p.done ++ q.done }

namespace Stage

def cancel (s : Stage) : Stage := { s with cancelled := true }

/-- The clock panics rather than go beyond its last time. -/
def sleep (s : Stage) (ms : Nat) : Passage :=
  if h : s.now + ms < timeLimit then ⟨{ s with now := s.now + ms, now_lt := h }, [.slept ms], none⟩
  else ⟨s, [], some .clock⟩

def sleepUnlessCancelled (s : Stage) (ms : Nat) : Passage :=
  if s.cancelled then ⟨s, [], none⟩ else s.sleep ms

def waitBeat (s : Stage) (started beat : Nat) : Passage :=
  let remaining := beat - (s.now - started)
  if remaining = 0 then ⟨s, [], none⟩ else s.sleepUnlessCancelled remaining

def called (s : Stage) (sink : Sink) : Stage :=
  let calls := s.calls + 1
  { s with calls, cancelled := s.cancelled || sink.cancelAt = some calls }

def spend (s : Stage) (sink : Sink) : Passage :=
  if sink.cost = 0 then ⟨s, [], none⟩ else s.sleep sink.cost

def attempt (s : Stage) (sink : Sink) : Passage :=
  if sink.panicAt = some s.calls then ⟨s, [], some .sink⟩ else s.spend sink

def send (s : Stage) (sink : Sink) (e : KeyEvent) : Passage :=
  let p := ((s.called sink).attempt sink).andThen fun s => ⟨s, [.sent e], none⟩
  { p with done := .noted (.sending e) :: p.done }

end Stage

end ChordScript
