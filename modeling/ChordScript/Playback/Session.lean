import ChordScript.Playback.Order
import ChordScript.Playback.Strike

namespace ChordScript

/-- Jumps taken, by source line and in the order of lines. -/
abbrev JumpCounts := List (Nat × Nat)

namespace JumpCounts

def get (counts : JumpCounts) (line : Nat) : Nat := (counts.lookup line).getD 0

def set (line count : Nat) : JumpCounts → JumpCounts
  | [] => [(line, count)]
  | (l, n) :: counts =>
    if line < l then (line, count) :: (l, n) :: counts
    else if line = l then (line, count) :: counts
    else (l, n) :: set line count counts

end JumpCounts

structure Playhead where
  cursor : Nat := 0
  tempo : Nat
  rest : Nat := 0
  jumps : JumpCounts := []
deriving DecidableEq

/-- Carries out an order of the given line; none if it is to stop. All jumps of a line share one
counter of 32 bits. -/
def Playhead.follow (h : Playhead) (line : Nat) : Order → Option (Playhead × List Notice)
  | .tempo bpm => some ({ h with tempo := bpm, cursor := h.cursor + 1 }, [])
  | .rest beats => some ({ h with rest := beats, cursor := h.cursor + 1 }, [])
  | .stop => none
  | .pass => some ({ h with cursor := h.cursor + 1 }, [])
  | .repeatFrom tag target bound =>
    let count := h.jumps.get line
    if count < bound then
      let count := (count + 1) % UInt32.size
      some ({ h with cursor := target, jumps := h.jumps.set line count },
        [.jumping tag count bound])
    else some ({ h with cursor := h.cursor + 1, jumps := h.jumps.set line count }, [])

inductive Phase
  | idle
  | running
  | ended (ending : Ending)
deriving DecidableEq

def Phase.name : Phase → String
  | idle => "Idle"
  | running => "Running"
  | ended (.played outcome) => outcome.name
  | ended (.failed _) => "Failed"

structure Session where
  document : Document
  timing : Timing
  sink : Sink
  head : Playhead
  stage : Stage := {}
  phase : Phase := .idle

inductive Verdict
  | more
  | ended (ending : Ending)
  | panicked (cause : Panic)
deriving DecidableEq

structure Turn where
  verdict : Verdict
  session : Session
  done : List Effect

namespace Session

def start (document : Document) (config : Config) (sink : Sink) : Session :=
  { document, sink, timing := config.timing, head := { tempo := config.tempo } }

def line (s : Session) : Nat := s.document.lineAt s.head.cursor

def beat (s : Session) : Nat := beatInterval s.head.tempo

def cancel (s : Session) : Session := { s with stage := s.stage.cancel }

def finish (s : Session) (ending : Ending) (done : List Effect) : Turn :=
  let notice := match ending with
    | .played outcome => .ended outcome s.head.cursor
    | .failed error => .failed error
  ⟨.ended ending, { s with phase := .ended ending }, done ++ [.noted notice]⟩

def sitOut (s : Session) : Turn :=
  let p := s.stage.waitBeat s.stage.now s.beat
  let s := { s with head := { s.head with rest := s.head.rest - 1 }, stage := p.stage }
  match p.panic? with
  | none => ⟨.more, s, p.done⟩
  | some cause => ⟨.panicked cause, s, p.done⟩

def play (s : Session) (chords : List Chord) : Turn :=
  let r := strikeAll s.sink s.timing s.beat chords s.stage
  let s := { s with stage := r.stage }
  match r.striking with
  | .struck => ⟨.more, { s with head := { s.head with cursor := s.head.cursor + 1 } }, r.done⟩
  | .cancelled => s.finish (.played .stopped) r.done
  | .panicked cause => ⟨.panicked cause, s, r.done⟩

def obey (s : Session) (line : Nat) (d : Directive) : Turn :=
  let noted := .noted (.obeying line d)
  match d.order s.document.tags with
  | .error cause => s.finish (.failed ⟨line, cause⟩) [noted]
  | .ok order =>
    match s.head.follow line order with
    | none => s.finish (.played .finished) [noted]
    | some (head, notices) => ⟨.more, { s with head }, noted :: notices.map .noted⟩

def advance (s : Session) : Turn :=
  if s.stage.cancelled then s.finish (.played .stopped) []
  else match s.document.actions[s.head.cursor]? with
    | none => s.finish (.played .finished) []
    | some action =>
      if 0 < s.head.rest then s.sitOut
      else match action.step with
        | .play chords => s.play chords
        | .obey d => s.obey action.line d

def tick (s : Session) : Turn :=
  match s.phase with
  | .ended ending => ⟨.ended ending, s, []⟩
  | .idle | .running => { s with phase := .running }.advance

end Session

end ChordScript
