import ChordScript.Playback.Ending
import ChordScript.Playback.KeyEvent
import ChordScript.Script
import ChordScript.Text.Quoted

namespace ChordScript

inductive Level
  | error
  | warn
  | info
  | debug
  | trace
deriving DecidableEq

namespace Level

def name : Level → String
  | error => "ERROR"
  | warn => "WARN"
  | info => "INFO"
  | debug => "DEBUG"
  | trace => "TRACE"

def all : List Level := [error, warn, info, debug, trace]

def verbosity : Level → Nat
  | error => 1
  | warn => 2
  | info => 3
  | debug => 4
  | trace => 5

end Level

inductive Origin
  | program
  | compiler
  | scheduler
  | sink
deriving DecidableEq

def Origin.name : Origin → String
  | program => "keyroll"
  | compiler => "keyroll::dsl::compile"
  | scheduler => "keyroll::player::scheduler"
  | sink => "keyroll::player::sink"

inductive FieldValue
  | text (s : Text)
  | shown (s : String)
deriving DecidableEq

inductive Notice
  | stopReached (line : Nat)
  | tagRepeated (place : TagPlace) (previous : Nat)
  | started (actions tempo : Nat)
  | obeying (line : Nat) (directive : Directive)
  | jumping (tag : Text) (repeats : Nat) (bound : Int)
  | ended (outcome : Outcome) (cursor : Nat)
  | failed (error : RuntimeError)
  | sending (event : KeyEvent)
  | typed (event : KeyEvent)
  | playing (path : String) (actions tempo : Nat)
  | closed (ending : Ending)
  | refused (error : CompileError)
deriving DecidableEq

namespace Notice

def level : Notice → Level
  | stopReached _ | obeying _ _ | jumping _ _ _ => .debug
  | tagRepeated _ _ => .warn
  | started _ _ | ended _ _ | failed _ | typed _ | playing _ _ _ => .info
  | sending _ => .trace
  | closed (.played _) => .info
  | closed (.failed _) | refused _ => .error

def origin : Notice → Origin
  | stopReached _ | tagRepeated _ _ => .compiler
  | started _ _ | obeying _ _ | jumping _ _ _ | ended _ _ | failed _ | sending _ => .scheduler
  | typed _ => .sink
  | playing _ _ _ | closed _ | refused _ => .program

def message : Notice → String
  | stopReached _ => "STOP reached, ignoring remaining lines"
  | tagRepeated _ _ => "tag defined more than once, the later definition wins"
  | started _ _ => "playback started"
  | obeying _ _ => "directive"
  | jumping _ _ _ => "jump"
  | ended _ _ => "playback ended"
  | failed _ => "playback failed"
  | sending (.press _) => "key down"
  | sending (.release _) => "key up"
  | sending .shiftDown => "shift down"
  | sending .shiftUp => "shift up"
  | typed (.press _) | typed .shiftDown => "press"
  | typed (.release _) | typed .shiftUp => "release"
  | playing path actions tempo => s!"playing {path} ({actions} actions, {tempo} BPM)"
  | closed (.played .finished) => "done."
  | closed (.played .stopped) => "stopped."
  | closed (.failed e) => e.display
  | refused e => s!"compile failed: {e.display}"

def fields : Notice → List (String × FieldValue)
  | stopReached line => [("line", .shown (toString line))]
  | tagRepeated place previous =>
    [("tag", .text place.name), ("line", .shown (toString place.line)),
      ("previous_index", .shown (toString previous))]
  | started actions tempo =>
    [("actions", .shown (toString actions)), ("bpm", .shown (toString tempo))]
  | obeying line d =>
    [("line", .shown (toString line)), ("kind", .shown d.keyword.name),
      ("args", .shown (String.ofList (Text.quotedList d.args)))]
  | jumping tag repeats bound =>
    [("tag", .text tag), ("repeat", .shown (toString repeats)), ("bound", .shown (toString bound))]
  | ended outcome cursor =>
    [("outcome", .shown outcome.name), ("cursor", .shown (toString cursor))]
  | failed e => [("err", .shown e.display)]
  | sending (.press k) | sending (.release k) | typed (.press k) | typed (.release k) =>
    [("key", .shown k.toString)]
  | sending .shiftDown | sending .shiftUp => []
  | typed .shiftDown | typed .shiftUp => [("modifier", .shown "Shift")]
  | playing _ _ _ | closed _ | refused _ => []

end Notice

def Level.capture (l : Level) (ns : List Notice) : List Notice :=
  ns.filter (·.level.verbosity ≤ l.verbosity)

def Script.notices (s : Script) : List Notice :=
  s.stoppedAt.toList.map .stopReached ++
    (TagIndex.repeats {} (TagPlace.all s.document.actions.toList)).map fun (place, previous) =>
      .tagRepeated place previous

end ChordScript
