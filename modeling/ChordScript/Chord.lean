import ChordScript.Text.Uppercase

namespace ChordScript

/-- A key goes by the character that it types. -/
abbrev Key := Char

def Key.needsShift (k : Key) : Bool := Text.isUppercase k

/-- Each key once, where it stands first. -/
def Key.firsts : List Key → List Key
  | [] => []
  | k :: ks => k :: (firsts ks).filter (· ≠ k)

theorem Key.nodup_firsts (ks : List Key) : (firsts ks).Nodup := by
  induction ks with
  | nil => simp [firsts]
  | cons k ks ih => exact List.nodup_cons.2 ⟨by simp, ih.filter _⟩

theorem Key.firsts_eq_nil {ks : List Key} : firsts ks = [] ↔ ks = [] := by
  cases ks <;> simp [firsts]

structure Chord where
  keys : List Key
  nonempty : keys ≠ []
  nodup : keys.Nodup
deriving DecidableEq

namespace Chord

def single (k : Key) : Chord := ⟨[k], by simp, by simp⟩

def ofKeys? (ks : List Key) : Option Chord :=
  if h : ks = [] then none
  else some ⟨Key.firsts ks, mt Key.firsts_eq_nil.1 h, Key.nodup_firsts ks⟩

def needsShift (c : Chord) : Bool := c.keys.any Key.needsShift

def text (c : Chord) : Text := ['['] ++ c.keys ++ [']']

end Chord

end ChordScript
