import ChordScript.Text

namespace ChordScript

inductive Keyword
  | bpm
  | wait
  | stop
  | tag
  | goto
  | set
deriving DecidableEq

namespace Keyword

def name : Keyword → String
  | bpm => "BPM"
  | wait => "WAIT"
  | stop => "STOP"
  | tag => "TAG"
  | goto => "GOTO"
  | set => "SET"

def text (k : Keyword) : Text := k.name.toList

def all : List Keyword := [bpm, wait, stop, tag, goto, set]

def ofWord? (word : Text) : Option Keyword := all.find? (·.text = word.map Char.toUpper)

/-- How many arguments a directive with this keyword is written with; the other keywords look at
theirs when the script is played. -/
def accepts (k : Keyword) (count : Nat) : Bool :=
  match k with
  | set => 2 ≤ count
  | tag => count = 1
  | _ => true

def expected : Keyword → String
  | set => "a name and a value"
  | tag => "exactly one tag name"
  | _ => "any arguments"

end Keyword

end ChordScript
