import ChordScript.Action

namespace ChordScript

structure TagPlace where
  name : Text
  line : Nat
  index : Nat
deriving DecidableEq

namespace TagPlace

def ofAction? (a : Action) (index : Nat) : Option TagPlace :=
  match a.step with
  | .obey ⟨.tag, name :: _⟩ => some ⟨name, a.line, index⟩
  | _ => none

def all (actions : List Action) : List TagPlace :=
  actions.zipIdx.filterMap fun (a, i) => ofAction? a i

end TagPlace

structure TagIndex where
  entries : List (Text × Nat) := []
deriving DecidableEq

namespace TagIndex

def get? (t : TagIndex) (name : Text) : Option Nat := t.entries.lookup name

def insert (t : TagIndex) (name : Text) (index : Nat) : TagIndex :=
  ⟨(name, index) :: t.entries.filter (·.1 ≠ name)⟩

def ofPlaces (places : List TagPlace) : TagIndex :=
  places.foldl (fun t p => t.insert p.name p.index) {}

/-- The places of tags that stand elsewhere before, each with the index of the place before it. -/
def repeats (seen : TagIndex) : List TagPlace → List (TagPlace × Nat)
  | [] => []
  | p :: ps =>
    let later := repeats (seen.insert p.name p.index) ps
    match seen.get? p.name with
    | none => later
    | some previous => (p, previous) :: later

def toSorted (t : TagIndex) : List (Text × Nat) :=
  t.entries.mergeSort fun a b => !b.1.lex a.1 (·.toNat < ·.toNat)

end TagIndex

structure Document where
  actions : Array Action
  tags : TagIndex
deriving DecidableEq

namespace Document

def ofActions (actions : Array Action) : Document :=
  ⟨actions, .ofPlaces (TagPlace.all actions.toList)⟩

def lineAt (d : Document) (index : Nat) : Nat :=
  match d.actions[index]? with
  | some a => a.line
  | none => 0

def listing (d : Document) : Text := d.actions.toList.flatMap (·.text ++ ['\n'])

end Document

end ChordScript
