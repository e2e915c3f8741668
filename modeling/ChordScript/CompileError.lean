import ChordScript.Keyword

namespace ChordScript

inductive ReadFault
  | system (reason : String) (code : Nat)
  | notText
deriving DecidableEq

namespace ReadFault

def missing : ReadFault := system "No such file or directory" 2

def message : ReadFault → String
  | system reason code => s!"{reason} (os error {code})"
  | notText => "stream did not contain valid UTF-8"

end ReadFault

namespace CompileError

inductive Cause
  | nestedVariable
  | unmatchedBrace
  | unclosedVariable
  | unknownVariable (name : Text)
  | duplicateVariable (name : Text)
  | nestedChord
  | unmatchedBracket
  | unclosedChord
  | emptyChord
  | emptyDirective
  | unknownDirective (word : Text)
  | argumentCount (keyword : Keyword) (count : Nat)
  | unreadable (path : String) (fault : ReadFault)
deriving DecidableEq, Inhabited

namespace Cause

def name : Cause → String
  | nestedVariable => "NestedVariable"
  | unmatchedBrace => "UnmatchedBrace"
  | unclosedVariable => "UnclosedVariable"
  | unknownVariable _ => "UnknownVariable"
  | duplicateVariable _ => "DuplicateVariable"
  | nestedChord => "NestedChord"
  | unmatchedBracket => "UnmatchedBracket"
  | unclosedChord => "UnclosedChord"
  | emptyChord => "EmptyChord"
  | emptyDirective => "EmptyDirective"
  | unknownDirective _ => "UnknownDirective"
  | argumentCount _ _ => "ArgumentCount"
  | unreadable _ _ => "Io"

def message : Cause → String
  | nestedVariable => "variable use started inside another variable use"
  | unmatchedBrace => "closing brace without preceding opening brace"
  | unclosedVariable => "variable use is never closed"
  | unknownVariable n => "variable '" ++ String.ofList n ++ "' is not defined"
  | duplicateVariable n => "variable '" ++ String.ofList n ++ "' is already defined"
  | nestedChord => "chord group started inside another chord group"
  | unmatchedBracket => "chord group ended but was not begun"
  | unclosedChord => "unclosed chord group (rests are not allowed inside a group)"
  | emptyChord => "chord group has no keys"
  | emptyDirective => "expected directive after ','"
  | unknownDirective word => "invalid directive: " ++ String.ofList word
  | argumentCount k count => s!"{k.name} expects {k.expected}, got {count} argument(s)"
  | unreadable path fault => s!"failed to read {path}: {fault.message}"

end Cause

end CompileError

/-- A fault of one line, with the column at which the line as read shows it. Columns count from 1;
column 0 is the whole line. -/
structure LineError where
  cause : CompileError.Cause
  col : Nat
deriving DecidableEq, Inhabited

/-- Lines count from 1; line 0 is the whole file. -/
structure CompileError extends LineError where
  line : Nat
deriving DecidableEq

def LineError.atLine (e : LineError) (line : Nat) : CompileError := { e with line }

def CompileError.display (e : CompileError) : String :=
  s!"[{e.line}:{e.col}] {e.cause.name}: {e.cause.message}"

end ChordScript
