import ChordScript.Yaml.Scalar

namespace ChordScript.Yaml

def isWordChar (c : Char) : Bool :=
  ('a' ≤ c && c ≤ 'z') || ('0' ≤ c && c ≤ '9') || c = '_'

structure Word (w : Text) : Prop where
  nonempty : w ≠ []
  chars : ∀ c ∈ w, isWordChar c = true

section Chars

variable {c d : Char}

theorem toNat_of_isWordChar (h : isWordChar c = true) : 0x20 ≤ c.toNat ∧ c.toNat ≤ 0x7E := by
  simp only [isWordChar, Bool.or_eq_true, Bool.and_eq_true, decide_eq_true_eq, Char.le_def,
    UInt32.le_iff_toNat_le] at h
  rcases h with (h | h) | rfl
  · exact ⟨Nat.le_trans (by decide) h.1, Nat.le_trans h.2 (by decide)⟩
  · exact ⟨Nat.le_trans (by decide) h.1, Nat.le_trans h.2 (by decide)⟩
  · decide

theorem isAllowed_of_isWordChar (h : isWordChar c = true) : isAllowed c = true := by
  have hn := toNat_of_isWordChar h
  simp [isAllowed, hn.1, hn.2]

end Chars

namespace Position

variable {w : Text}

end Position

namespace Cursor

end Cursor

section Plain

variable {w s : Text} {p : Position} {indent : Int}

def Gap.newline : Gap := { broken := true, first := ['\n'] }

end Plain

end ChordScript.Yaml
