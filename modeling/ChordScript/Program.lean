import ChordScript.ConfigFile
import ChordScript.Playback.Player

namespace ChordScript

inductive Command
  | check (path : String)
  | play (path : String) (bpm : Option UInt32) (holdMs : Option UInt64)
deriving DecidableEq

structure Transcript where
  exit : UInt32
  output : String := ""
  errors : String := ""

def Script.summary (s : Script) (path : String) : String :=
  s!"Opened {path}\nParsed {s.document.actions.size} total actions, " ++
    s!"{s.vars.entries.length} variables\n" ++ String.ofList s.document.listing

def Config.override (c : Config) (bpm : Option UInt32) (holdMs : Option UInt64) : Config :=
  { c with initialBpm := bpm.getD c.initialBpm, keyHoldMs := holdMs.getD c.keyHoldMs }

namespace Command

variable (log : List Notice → String)

def checked (path : String) (script : Except CompileError Script) : Transcript :=
  match script with
  | .error e => { exit := 1, errors := e.display ++ "\n" }
  | .ok s => { exit := 0, output := log s.notices ++ s.summary path }

def opening (path : String) (s : Script) (config : Config) : List Notice :=
  s.notices ++ [.playing path s.document.actions.size config.tempo]

def exitCode : Ending → UInt32
  | .played _ => 0
  | .failed _ => 1

/-- None for a script that never ends, or ends in a panic. -/
def played (path : String) (config : Config) (script : Except CompileError Script) :
    Option Transcript :=
  match script with
  | .error e => some { exit := 1, output := log [.refused e] }
  | .ok s => do
    let report ← (Player.mk config).play s.document {} false
    let .ended ending := report.verdict | failure
    let notices := opening path s config ++ Effect.notices report.done ++ [.closed ending]
    return { exit := exitCode ending, output := log notices }

def transcript (content : String → Except ReadFault ByteArray) (config : Option Config) :
    Command → Option Transcript
  | check path => some (checked log path (Script.load path (content path)))
  | play path bpm holdMs =>
    played log path ((config.getD {}).override bpm holdMs) (Script.load path (content path))

end Command

end ChordScript
