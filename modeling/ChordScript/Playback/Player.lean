import ChordScript.Playback.Run

namespace ChordScript

/-- How a session ended that runs no more. A panic is reported as an error of the line at which
playback stands. -/
def Turn.told (t : Turn) : Ending :=
  match t.verdict with
  | .ended ending => ending
  | _ => .failed ⟨t.session.line, .sinkPanicked⟩

structure Call where
  ending : Ending
  log : List KeyEvent

/-- A session that is over. Its verdict is what whoever waits for it comes to know: how it ended, or
with what panic. -/
structure Report extends Turn where
  calls : List Call

namespace Report

def ofTurn (t : Turn) : Report := { t with calls := [⟨t.told, Effect.events t.done⟩] }

def stop (r : Report) : Report := { r with session := r.session.cancel }

end Report

structure Player where
  config : Config := {}

namespace Player

def session (p : Player) (document : Document) (sink : Sink) : Session :=
  .start document p.config sink

/-- Plays a document; a session that is cancelled before its start stops at once. -/
def play (p : Player) (document : Document) (sink : Sink) (cancelled : Bool) : Option Report :=
  let s := p.session document sink
  ((if cancelled then s.cancel else s).control .run).map .ofTurn

end Player

end ChordScript
