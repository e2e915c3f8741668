import ChordScript.Config
import ChordScript.Playback.Stage

namespace ChordScript

inductive Cue
  | send (event : KeyEvent)
  | wait (ms : Nat)
deriving DecidableEq

namespace Chord

def presses (c : Chord) (stagger : Nat) : List Cue :=
  [Cue.wait stagger].intercalate (c.keys.map fun k => [.send (.press k)])

def releases (c : Chord) : List Cue := c.keys.map fun k => .send (.release k)

def cues (c : Chord) (t : Timing) : List Cue :=
  let shift e := if c.needsShift then [Cue.send e] else []
  shift .shiftDown ++ c.presses t.stagger ++ [.wait t.hold] ++ c.releases ++ shift .shiftUp

end Chord

/-- What is to be released if the chord cannot be finished. -/
structure Hand where
  keys : List Key := []
  shift : Bool := false
deriving DecidableEq

namespace Hand

/-- A key counts as held before the sink hears of it. The first release lets go of all keys, for
those that are still down are not released a second time. -/
def after (h : Hand) : KeyEvent → Hand
  | .press k => { h with keys := h.keys ++ [k] }
  | .release _ => { h with keys := [] }
  | .shiftDown => { h with shift := true }
  | .shiftUp => { h with shift := false }

def letGo (h : Hand) : List Cue :=
  (h.keys.map fun k => .send (.release k)) ++ if h.shift then [.send .shiftUp] else []

end Hand

namespace Cue

def heed (s : Stage) (sink : Sink) : Cue → Passage
  | send e => s.send sink e
  | wait ms => s.sleep ms

def hand (h : Hand) : Cue → Hand
  | send e => h.after e
  | wait _ => h

end Cue

/-- Follows cues up to their end or to a panic, and says what the hand holds then. -/
def perform (sink : Sink) : List Cue → Hand → Stage → Hand × Passage
  | [], h, s => (h, ⟨s, [], none⟩)
  | cue :: cues, h, s =>
    let p := cue.heed s sink
    match p.panic? with
    | some _ => (cue.hand h, p)
    | none =>
      let (h, q) := perform sink cues (cue.hand h) p.stage
      (h, { q with done := p.done ++ q.done })

def strike (sink : Sink) (t : Timing) (c : Chord) (s : Stage) : Passage :=
  let (h, p) := perform sink (c.cues t) {} s
  match p.panic? with
  | none => p
  | some cause =>
    let (_, q) := perform sink h.letGo {} p.stage
    { q with
      done := p.done ++ q.done
      panic? := some (if q.panic?.isSome then .abort else cause) }

def strikeBeat (sink : Sink) (t : Timing) (beat : Nat) (c : Chord) (s : Stage) : Passage :=
  (strike sink t c s).andThen (·.waitBeat s.now beat)

inductive Striking
  | struck
  | cancelled
  | panicked (cause : Panic)
deriving DecidableEq

structure Strikes where
  striking : Striking
  stage : Stage
  done : List Effect
deriving DecidableEq

/-- Strikes chords one after another, each for a beat at least. A chord that has begun is not
affected by a cancellation, but none is begun after it. -/
def strikeAll (sink : Sink) (t : Timing) (beat : Nat) : List Chord → Stage → Strikes
  | [], s => ⟨.struck, s, []⟩
  | c :: cs, s =>
    if s.cancelled then ⟨.cancelled, s, []⟩
    else
      let p := strikeBeat sink t beat c s
      match p.panic? with
      | some cause => ⟨.panicked cause, p.stage, p.done⟩
      | none =>
        let r := strikeAll sink t beat cs p.stage
        { r with done := p.done ++ r.done }

end ChordScript
