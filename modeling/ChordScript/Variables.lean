import ChordScript.CompileError

namespace ChordScript

structure Variables where
  entries : List (Text × Text) := []
deriving DecidableEq

def isBrace (c : Char) : Bool := c = '\x7b' || c = '\x7d'

def braces (s : Text) : Nat := s.countP isBrace

structure Use where
  before : Text
  name : Text
  after : Text
deriving DecidableEq

def Use.col (u : Use) : Nat := u.before.length + 1

def Use.replace (u : Use) (value : Text) : Text := u.before ++ value ++ u.after

/-- A brace out of place counts only up to the first complete use. -/
def firstUse? (s : Text) : Except LineError (Option Use) :=
  match s.span (!isBrace ·) with
  | (_, []) => .ok none
  | (before, brace :: s) =>
    let col := before.length + 1
    if brace = '\x7d' then .error ⟨.unmatchedBrace, col⟩
    else match s.span (!isBrace ·) with
      | (_, []) => .error ⟨.unclosedVariable, col⟩
      | (name, brace :: after) =>
        if brace = '\x7b' then .error ⟨.nestedVariable, col + name.length + 1⟩
        else .ok (some ⟨before, name, after⟩)

namespace Variables

def get? (vs : Variables) (name : Text) : Option Text := vs.entries.lookup name

def define (vs : Variables) (name value : Text) : Except LineError Variables :=
  match vs.get? name with
  | some _ => .error ⟨.duplicateVariable name, 0⟩
  | none => .ok ⟨vs.entries ++ [(name, value)]⟩

def expandWithin (vs : Variables) : Nat → Text → Option (Except LineError Text)
  | 0, _ => none
  | fuel + 1, s =>
    match firstUse? s with
    | .error e => some (.error e)
    | .ok none => some (.ok s)
    | .ok (some u) =>
      match vs.get? u.name with
      | none => some (.error ⟨.unknownVariable u.name, u.col⟩)
      | some value => expandWithin vs fuel (u.replace value)

/-- More uses than this are replaced only in a line whose expansion never ends. Each replacement
closes at some brace, of the line or of a value that an earlier replacement put in. Such a chain of
values never comes to the same brace of the same value twice, or it would come to it for ever. So a
chain is no longer than there are braces in all values, and it branches at most once for every
brace of a value. -/
def expandLimit (vs : Variables) (s : Text) : Nat :=
  let counts := vs.entries.map (braces ·.2)
  (braces s + 1) * Nat.pow (counts.foldr max 0 + 1) (counts.foldr (· + ·) 0)

def expand? (vs : Variables) (s : Text) : Option (Except LineError Text) :=
  vs.expandWithin (vs.expandLimit s + 1) s

/-- The expansion of a line that has one. It has one if no value holds a brace. -/
def expand (vs : Variables) (s : Text) : Except LineError Text := (vs.expand? s).getD default

end Variables

end ChordScript
