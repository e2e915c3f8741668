import ChordScript.Text

namespace ChordScript.Text

def decimal (n : Nat) : Text := Nat.toDigits 10 n

def natural? (s : Text) : Option Nat :=
  if s ≠ [] ∧ s.all Char.isDigit then some (Nat.ofDigitChars 10 s 0) else none

def signed? : Text → Option Int
  | '-' :: s => (natural? s).map (fun n => -n)
  | '+' :: s => (natural? s).map Int.ofNat
  | s => (natural? s).map Int.ofNat

def wordBound : Int := 0x8000000000000000

def integer? (s : Text) : Option Int :=
  (signed? s).filter fun n => decide (-wordBound ≤ n ∧ n < wordBound)

end ChordScript.Text
