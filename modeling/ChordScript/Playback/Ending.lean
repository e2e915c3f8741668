import ChordScript.Keyword

namespace ChordScript

namespace RuntimeError

inductive Cause
  | missingArgument (keyword : Keyword) (position : Nat)
  | invalidInteger (keyword : Keyword) (value : Text)
  | invalidTempo
  | unknownTag (name : Text)
  | sinkPanicked
deriving DecidableEq

namespace Cause

def name : Cause → String
  | missingArgument _ _ => "MissingArgument"
  | invalidInteger _ _ => "InvalidInteger"
  | invalidTempo => "InvalidTempo"
  | unknownTag _ => "UnknownTag"
  | sinkPanicked => "SinkPanicked"

def message : Cause → String
  | missingArgument k position => s!"{k.name} is missing argument {position}"
  | invalidInteger k value => k.name ++ " expects an integer, got '" ++ String.ofList value ++ "'"
  | invalidTempo => "tempo must be greater than zero"
  | unknownTag n => "unknown tag '" ++ String.ofList n ++ "'"
  | sinkPanicked => "key sink panicked"

end Cause

end RuntimeError

structure RuntimeError where
  line : Nat
  cause : RuntimeError.Cause
deriving DecidableEq

def RuntimeError.display (e : RuntimeError) : String :=
  s!"runtime error at line {e.line}: {e.cause.message}"

inductive Outcome
  | finished
  | stopped
deriving DecidableEq

def Outcome.name : Outcome → String
  | finished => "Finished"
  | stopped => "Stopped"

inductive Ending
  | played (outcome : Outcome)
  | failed (error : RuntimeError)
deriving DecidableEq

end ChordScript
