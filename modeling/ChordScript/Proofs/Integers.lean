import ChordScript.Proofs.Elapsed
import ChordScript.Proofs.Jumps
import ChordScript.Proofs.Refusals

namespace ChordScript

namespace Text

variable {s : Text} {m n : Int}

theorem Numeral.unique (h : Numeral s m) (h' : Numeral s n) : m = n :=
  Option.some.inj ((signed?_eq_some.mpr h).symm.trans (signed?_eq_some.mpr h'))

end Text

namespace Directive

/-- The directive takes an integer from the text and, if it is a jump, it knows its tag. -/
inductive Takes (tags : TagIndex) (value : Text) : Directive → Prop
  | tempo (more : List Text) : Takes tags value ⟨.bpm, value :: more⟩
  | rest (more : List Text) : Takes tags value ⟨.wait, value :: more⟩
  | jump {name : Text} {target : Nat} (more : List Text) (htag : tags.get? name = some target) :
      Takes tags value ⟨.goto, name :: value :: more⟩

variable {d : Directive} {tags : TagIndex} {value : Text} {more : List Text} {n : Int}

theorem Takes.refused_iff (h : d.Takes tags value) :
    d.Faulty tags (.invalidInteger d.keyword value) ↔ ∀ n, ¬ Text.Literal value n := by
  constructor
  · intro hfaulty
    cases h with
    | tempo | rest =>
        cases hfaulty with
        | noNumber hk hvalue hn => exact hn
    | jump =>
        cases hfaulty with
        | noNumber hk => rcases hk with hk | hk <;> cases hk
        | noBound hk hname hvalue hn => exact hn
  · intro hn
    cases h with
    | tempo => exact .noNumber (.inl rfl) rfl hn
    | rest => exact .noNumber (.inr rfl) rfl hn
    | jump => exact .noBound rfl rfl rfl hn

end Directive

namespace Session

end Session

end ChordScript
