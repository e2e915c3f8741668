import ChordScript.CompileError
import ChordScript.Config

namespace ChordScript

/-- The library that reads and writes mappings. A mapping that is read is a list of its entries,
with the number of 64 bits that a value stands for if it stands for one. -/
structure YamlLibrary where
  read? : Text → Option (List (Text × Option UInt64))
  write : List (Text × UInt64) → Text

inductive Setting
  | initialBpm
  | keyHoldMs
  | keyStaggerMs
deriving DecidableEq

namespace Setting

def name : Setting → String
  | initialBpm => "initial_bpm"
  | keyHoldMs => "key_hold_ms"
  | keyStaggerMs => "key_stagger_ms"

def key (s : Setting) : Text := s.name.toList

def all : List Setting := [initialBpm, keyHoldMs, keyStaggerMs]

def get (s : Setting) (c : Config) : UInt64 :=
  match s with
  | initialBpm => c.initialBpm.toUInt64
  | keyHoldMs => c.keyHoldMs
  | keyStaggerMs => c.keyStaggerMs

def set (s : Setting) (c : Config) (n : UInt64) : Option Config :=
  match s with
  | initialBpm =>
    if n.toNat < UInt32.size then some { c with initialBpm := n.toUInt32 } else none
  | keyHoldMs => some { c with keyHoldMs := n }
  | keyStaggerMs => some { c with keyStaggerMs := n }

end Setting

namespace Config

def addEntries (c : Config) (seen : List Setting) : List (Text × Option UInt64) → Option Config
  | [] => some c
  | (key, value) :: entries =>
    match Setting.all.find? (·.key = key) with
    | none => addEntries c seen entries
    | some s => do
      if seen.contains s then failure
      addEntries (← s.set c (← value)) (s :: seen) entries

def ofYaml? (y : YamlLibrary) (s : Text) : Option Config := y.read? s >>= addEntries {} []

def toYaml (y : YamlLibrary) (c : Config) : Text :=
  y.write (Setting.all.map fun s => (s.key, s.get c))

def load (y : YamlLibrary) (content : Except ReadFault ByteArray) : Option Config := do
  let bytes ← content.toOption
  ofYaml? y (← String.fromUTF8? bytes).toList

end Config

end ChordScript
