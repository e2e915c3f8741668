import ChordScript.Chord
import ChordScript.Directive
import ChordScript.Text.Decimal

namespace ChordScript

inductive Step
  | play (chords : List Chord)
  | obey (directive : Directive)
deriving DecidableEq

structure Action where
  line : Nat
  step : Step
deriving DecidableEq

namespace Step

def directive? : Step → Option Directive
  | play _ => none
  | obey d => some d

def isDirective (s : Step) (k : Keyword) : Bool := s.directive?.any (·.keyword = k)

def text : Step → Text
  | play chords => "PLAY: ".toList ++ [',', ' '].intercalate (chords.map Chord.text)
  | obey d => d.text

end Step

namespace Action

def rest (line beats : Nat) : Action := ⟨line, .obey ⟨.wait, [Text.decimal beats]⟩⟩

def arg? (a : Action) (i : Nat) : Option Text := a.step.directive?.bind (·.args[i]?)

def text (a : Action) : Text :=
  (Text.decimal a.line).leftpad 3 '0' ++ [':', ' '] ++ a.step.text

end Action

end ChordScript
