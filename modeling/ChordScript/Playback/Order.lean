import ChordScript.Document
import ChordScript.Playback.Ending

namespace ChordScript

inductive Order
  | tempo (bpm : Nat)
  | rest (beats : Nat)
  | stop
  | pass
  | repeatFrom (tag : Text) (target : Nat) (bound : Int)
deriving DecidableEq

namespace Directive

def arg (d : Directive) (i : Nat) : Except RuntimeError.Cause Text :=
  match d.args[i]? with
  | some a => .ok a
  | none => .error (.missingArgument d.keyword i)

def integerArg (d : Directive) (i : Nat) : Except RuntimeError.Cause Int := do
  let a ← d.arg i
  match Text.integer? a with
  | some n => return n
  | none => throw (.invalidInteger d.keyword a)

/-- Tempo and rests are numbers of 32 bits. A tempo beyond them is an error, a rest is cut down to
the longest. -/
def order (d : Directive) (tags : TagIndex) : Except RuntimeError.Cause Order :=
  match d.keyword with
  | .bpm => do
    let n ← d.integerArg 0
    if 1 ≤ n ∧ n < UInt32.size then return .tempo n.toNat else throw .invalidTempo
  | .wait => do
    let n ← d.integerArg 0
    return .rest (min n.toNat (UInt32.size - 1))
  | .stop => return .stop
  | .tag | .set => return .pass
  | .goto => do
    let name ← d.arg 0
    let bound ← d.integerArg 1
    match tags.get? name with
    | some target => return .repeatFrom name target bound
    | none => throw (.unknownTag name)

end Directive

end ChordScript
