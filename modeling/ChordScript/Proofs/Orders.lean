import ChordScript.Playback.Order
import ChordScript.Proofs.Decimal
import ChordScript.Proofs.Success

namespace ChordScript

namespace Directive

variable {d : Directive} {tags : TagIndex}

theorem arg_eq_ok {i : Nat} {a : Text} : d.arg i = .ok a ↔ d.args[i]? = some a := by
  unfold arg
  split
  · next h => rw [h, Except.ok.injEq, Option.some.injEq]
  · next h => simp [h]

theorem integerArg_eq_ok {i : Nat} {n : Int} :
    d.integerArg i = .ok n ↔ d.args[i]?.bind Text.integer? = some n := by
  rw [integerArg, arg]
  cases d.args[i]? with
  | none => exact iff_of_false nofun nofun
  | some a =>
      rw [Option.bind_some]
      cases hn : Text.integer? a with
      | none =>
          simp only [bind, Except.bind, hn]
          exact iff_of_false nofun nofun
      | some m => simp [bind, Except.bind, pure, Except.pure, hn]

theorem integerArg_of_literal {i : Nat} {value : Text} {n : Int} (ha : d.args[i]? = some value)
    (hn : Text.Literal value n) : d.integerArg i = .ok n :=
  integerArg_eq_ok.mpr (by rw [ha, Option.bind_some, Text.integer?_eq_some.mpr hn])

theorem arg_eq_error {i : Nat} {cause : RuntimeError.Cause} :
    d.arg i = .error cause ↔ d.args[i]? = none ∧ cause = .missingArgument d.keyword i := by
  unfold arg
  split
  · next h => simp [h]
  · next h => simp [h, eq_comm]

theorem integerArg_eq_error {i : Nat} {cause : RuntimeError.Cause} :
    d.integerArg i = .error cause ↔
      d.args[i]? = none ∧ cause = .missingArgument d.keyword i ∨
      ∃ value, d.args[i]? = some value ∧ (∀ n, ¬ Text.Literal value n) ∧
        cause = .invalidInteger d.keyword value := by
  constructor
  · intro h
    rcases error_of_bind h with ha | ⟨value, ha, h⟩
    · exact .inl (arg_eq_error.mp ha)
    · split at h
      · cases h
      · next hn =>
          cases h
          exact .inr ⟨value, arg_eq_ok.mp ha, Text.integer?_eq_none.mp hn, rfl⟩
  · rintro (h | ⟨value, ha, hn, rfl⟩)
    · rw [integerArg, arg_eq_error.mpr h]
      rfl
    · rw [integerArg, arg_eq_ok.mpr ha]
      simp only [bind, Except.bind, Text.integer?_eq_none.mpr hn]
      rfl

/-- The orders that a directive gives, each with the arguments that it is read from. -/
inductive Means (d : Directive) (tags : TagIndex) : Order → Prop
  | tempo {n : Int} (hk : d.keyword = .bpm) (hn : d.integerArg 0 = .ok n)
      (hr : 1 ≤ n ∧ n < UInt32.size) : Means d tags (.tempo n.toNat)
  | rest {n : Int} (hk : d.keyword = .wait) (hn : d.integerArg 0 = .ok n) :
      Means d tags (.rest (min n.toNat (UInt32.size - 1)))
  | stop (hk : d.keyword = .stop) : Means d tags .stop
  | pass (hk : d.keyword = .tag ∨ d.keyword = .set) : Means d tags .pass
  | jump {name : Text} {target : Nat} {bound : Int} (hk : d.keyword = .goto)
      (hname : d.arg 0 = .ok name) (hbound : d.integerArg 1 = .ok bound)
      (htag : tags.get? name = some target) : Means d tags (.repeatFrom name target bound)

theorem order_eq_ok {o : Order} : d.order tags = .ok o ↔ d.Means tags o := by
  constructor
  · intro h
    unfold order at h
    split at h
    · next hk =>
        obtain ⟨n, hn, h⟩ := ok_of_bind h
        split at h
        · next hr =>
            cases h
            exact .tempo hk hn hr
        · cases h
    · next hk =>
        obtain ⟨n, hn, h⟩ := ok_of_bind h
        cases h
        exact .rest hk hn
    · next hk =>
        cases h
        exact .stop hk
    · next hk =>
        cases h
        exact .pass (.inl hk)
    · next hk =>
        cases h
        exact .pass (.inr hk)
    · next hk =>
        obtain ⟨name, hname, h⟩ := ok_of_bind h
        obtain ⟨bound, hbound, h⟩ := ok_of_bind h
        split at h
        · next htag =>
            cases h
            exact .jump hk hname hbound htag
        · cases h
  · intro h
    cases h with
    | tempo hk hn hr =>
        simp only [order, hk, hn, bind, Except.bind, if_pos hr]
        rfl
    | rest hk hn =>
        simp only [order, hk, hn, bind, Except.bind]
        rfl
    | stop hk =>
        simp only [order, hk]
        rfl
    | pass hk =>
        rcases hk with hk | hk <;>
          · simp only [order, hk]
            rfl
    | jump hk hname hbound htag =>
        simp only [order, hk, hname, hbound, bind, Except.bind, htag]
        rfl

theorem order_goto {name value : Text} {target : Nat} {bound : Int} (hk : d.keyword = .goto)
    (hname : d.args[0]? = some name) (hvalue : d.args[1]? = some value)
    (htag : tags.get? name = some target) (hbound : Text.integer? value = some bound) :
    d.order tags = .ok (.repeatFrom name target bound) :=
  order_eq_ok.mpr (.jump hk (arg_eq_ok.mpr hname)
    (integerArg_eq_ok.mpr (by rw [hvalue, Option.bind_some, hbound])) htag)

theorem order_wait {value : Text} {n : Int} (hk : d.keyword = .wait)
    (hvalue : d.args[0]? = some value) (hn : Text.Literal value n) (hfits : n < 4294967296) :
    d.order tags = .ok (.rest n.toNat) := by
  have hmeans : d.Means tags (.rest (min n.toNat (UInt32.size - 1))) :=
    .rest hk (integerArg_of_literal hvalue hn)
  have hmin : min n.toNat (UInt32.size - 1) = n.toNat := by
    have hsize : UInt32.size = 4294967296 := rfl
    omega
  rw [hmin] at hmeans
  exact order_eq_ok.mpr hmeans

theorem order_rest {n : Nat} (hn : n < UInt32.size) (tags : TagIndex) :
    order ⟨.wait, [Text.decimal n]⟩ tags = .ok (.rest n) := by
  have hfits : (n : Int) < 4294967296 := Int.ofNat_lt.mpr hn
  have hword : (n : Int) < Text.wordBound := Int.lt_trans hfits (by decide)
  exact order_wait rfl rfl (Text.integer?_eq_some.mp (Text.integer?_decimal hword)) hfits

end Directive

end ChordScript
