import ChordScript.Document
import ChordScript.NoteLine
import ChordScript.Variables

namespace ChordScript

inductive Line
  | silent
  | notes (tokens : List Token)
  | directive (d : Directive)
deriving DecidableEq

namespace Line

def ofExpanded : Text → Except LineError Line
  | ',' :: body => (Directive.parse body).map directive
  | s => (NoteLine.tokens s).map notes

def read (vs : Variables) : Text → Except LineError Line
  | [] => .ok silent
  | '#' :: _ => .ok silent
  | s => vs.expand s >>= ofExpanded

end Line

structure Draft where
  lines : Nat := 0
  actions : Array Action := #[]
  vars : Variables := {}
  stoppedAt : Option Nat := none

namespace Draft

def take (d : Draft) : Line → Except LineError Draft
  | .silent => .ok d
  | .notes tokens => .ok { d with actions := d.actions ++ tokens.map (·.action d.lines) }
  | .directive dir =>
    match dir.keyword with
    | .stop => .ok { d with stoppedAt := some d.lines }
    | .set =>
      (d.vars.define (dir.args.headD []) (Text.joinFields dir.args.tail)).map
        fun vars => { d with vars }
    | _ => .ok { d with actions := d.actions.push ⟨d.lines, .obey dir⟩ }

def add (d : Draft) (s : Text) : Except CompileError Draft :=
  if d.stoppedAt.isSome then .ok d
  else
    let line := d.lines + 1
    ((Line.read d.vars s).bind (take { d with lines := line })).mapError (·.atLine line)

end Draft

structure Script where
  document : Document
  vars : Variables
  stoppedAt : Option Nat

namespace Script

def ofDraft (d : Draft) : Script := ⟨.ofActions d.actions, d.vars, d.stoppedAt⟩

def compile (source : Text) : Except CompileError Script :=
  (source.lines.foldlM Draft.add {}).map ofDraft

def load (path : String) (content : Except ReadFault ByteArray) : Except CompileError Script :=
  let text := content.bind fun bytes =>
    match String.fromUTF8? bytes with
    | some s => .ok s.toList
    | none => .error .notText
  match text with
  | .ok source => compile source
  | .error fault => .error (LineError.atLine ⟨.unreadable path fault, 0⟩ 0)

end Script

end ChordScript
