import ChordScript.Action

namespace ChordScript

def isRest (c : Char) : Bool := c = ' ' || c = '.'

/-- A group of keys being read, the last key first, with the column of its bracket. -/
structure OpenGroup where
  col : Nat
  keys : List Key

inductive Token.Kind
  | chords (cs : List Chord)
  | rest (beats : Nat)
deriving DecidableEq

structure Token where
  col : Nat
  kind : Token.Kind
deriving DecidableEq

namespace NoteLine

def readRun (col : Nat) : Option OpenGroup → Text → Except LineError (List Chord)
  | none, [] => .ok []
  | some g, [] => .error ⟨.unclosedChord, g.col⟩
  | none, c :: s =>
    if c = '[' then readRun (col + 1) (some ⟨col, []⟩) s
    else if c = ']' then .error ⟨.unmatchedBracket, col⟩
    else (readRun (col + 1) none s).map (.single c :: ·)
  | some g, c :: s =>
    if c = '[' then .error ⟨.nestedChord, col⟩
    else if c = ']' then
      match Chord.ofKeys? g.keys.reverse with
      | none => .error ⟨.emptyChord, g.col⟩
      | some chord => (readRun (col + 1) none s).map (chord :: ·)
    else readRun (col + 1) (some ⟨g.col, c :: g.keys⟩) s

/-- The token of so many rests. Rests are counted with 32 bits: a full counter starts again with the
next rest, and there is no token if it has not. -/
def restToken? (col length : Nat) : Option Token :=
  let beats := length % UInt32.size
  if beats = 0 then none else some ⟨col + (length - beats), .rest beats⟩

/-- The tokens of pieces that are rests throughout or runs throughout. Rests at the end of the line
give none. -/
def tokensOf (col : Nat) : List Text → Except LineError (List Token)
  | [] => .ok []
  | piece :: pieces =>
    let next := col + piece.length
    if piece.all isRest then
      if pieces = [] then .ok []
      else (tokensOf next pieces).map ((restToken? col piece.length).toList ++ ·)
    else do
      let chords ← readRun col none piece
      (tokensOf next pieces).map (⟨col, .chords chords⟩ :: ·)

def tokens (s : Text) : Except LineError (List Token) :=
  tokensOf 1 (s.splitBy (isRest · == isRest ·))

end NoteLine

def Token.action (line : Nat) (t : Token) : Action :=
  match t.kind with
  | .chords cs => ⟨line, .play cs⟩
  | .rest beats => .rest line beats

end ChordScript
