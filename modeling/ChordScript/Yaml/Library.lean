import ChordScript.ConfigFile
import ChordScript.Yaml.Node

namespace ChordScript.Yaml

def bases : List (Text × Nat) := [(['0', 'x'], 16), (['0', 'o'], 8), (['0', 'b'], 2)]

/-- A decimal number that begins with a zero is a text. -/
def decimal? (s : Text) : Option Nat :=
  if s.head? = some '0' && s.length > 1 then none else Text.natural? s

def unsigned? (s : Text) : Option Nat :=
  let s := if s.head? = some '+' then s.tail else s
  match bases.lookup (s.take 2) with
  | some base => number? base (s.drop 2)
  | none => decimal? s

def integerTag : Uri := "tag:yaml.org,2002:int".toList

def Scalar.unsigned? (s : Scalar) : Option UInt64 :=
  if s.style = .plain || (s.style = .literal && s.tag = some integerTag) then
    ((Yaml.unsigned? s.text).filter (· < UInt64.size)).map .ofNat
  else none

namespace Tree

def entry? (t : Tree) (e : Node × Node) : Option (Text × Option UInt64) :=
  (t.scalar? e.1).map fun key => (key.text, (t.scalar? e.2).bind Scalar.unsigned?)

def entries? (t : Tree) : Option (List (Text × Option UInt64)) :=
  match t.root with
  | .mapping entries => entries.mapM t.entry?
  | n => if n.isEmpty then some [] else none

end Tree

def entryLine (e : Text × UInt64) : Text := e.1 ++ [':', ' '] ++ Text.decimal e.2.toNat ++ ['\n']

def library : YamlLibrary where
  read? s := Tree.read? s >>= Tree.entries?
  write := List.flatMap entryLine

end ChordScript.Yaml
