import ChordScript.Chord

namespace ChordScript

inductive KeyEvent
  | press (k : Key)
  | release (k : Key)
  | shiftDown
  | shiftUp
deriving DecidableEq

namespace KeyEvent

/-- A release lets go of the key that was pressed first. -/
def hold (held : List Key) : KeyEvent → List Key
  | press k => held ++ [k]
  | release k => held.erase k
  | shiftDown | shiftUp => held

def heldKeys (log : List KeyEvent) : List Key := log.foldl hold []

def shift (depth : Int) : KeyEvent → Int
  | press _ | release _ => depth
  | shiftDown => depth + 1
  | shiftUp => depth - 1

def shiftDepth (log : List KeyEvent) : Int := log.foldl shift 0

def shiftHeld (log : List KeyEvent) : Bool := 0 < shiftDepth log

def pressed? : KeyEvent → Option Key
  | press k => some k
  | _ => none

def pressedKeys (log : List KeyEvent) : List Key := log.filterMap pressed?

end KeyEvent

end ChordScript
