import ChordScript.Proofs.Moves
import ChordScript.Proofs.Orders

namespace ChordScript

namespace Directive

variable {d : Directive} {tags : TagIndex} {cause : RuntimeError.Cause}

/-- What is wrong with a directive that gives no order. What is looked at before is not wrong. -/
inductive Faulty (d : Directive) (tags : TagIndex) : RuntimeError.Cause → Prop
  | noFirst (hk : d.keyword = .bpm ∨ d.keyword = .wait ∨ d.keyword = .goto)
      (h : d.args[0]? = none) : Faulty d tags (.missingArgument d.keyword 0)
  | noNumber {value : Text} (hk : d.keyword = .bpm ∨ d.keyword = .wait)
      (hvalue : d.args[0]? = some value) (hn : ∀ n, ¬ Text.Literal value n) :
      Faulty d tags (.invalidInteger d.keyword value)
  | noTempo {value : Text} {n : Int} (hk : d.keyword = .bpm) (hvalue : d.args[0]? = some value)
      (hn : Text.Literal value n) (hr : n < 1 ∨ 4294967295 < n) : Faulty d tags .invalidTempo
  | noSecond {name : Text} (hk : d.keyword = .goto) (hname : d.args[0]? = some name)
      (h : d.args[1]? = none) : Faulty d tags (.missingArgument .goto 1)
  | noBound {name value : Text} (hk : d.keyword = .goto) (hname : d.args[0]? = some name)
      (hvalue : d.args[1]? = some value) (hn : ∀ n, ¬ Text.Literal value n) :
      Faulty d tags (.invalidInteger .goto value)
  | noTag {name value : Text} {n : Int} (hk : d.keyword = .goto) (hname : d.args[0]? = some name)
      (hvalue : d.args[1]? = some value) (hn : Text.Literal value n)
      (htag : tags.get? name = none) : Faulty d tags (.unknownTag name)

theorem tempo_fits_iff {n : Int} : ¬ (1 ≤ n ∧ n < UInt32.size) ↔ n < 1 ∨ 4294967295 < n := by
  have hsize : (UInt32.size : Int) = 4294967296 := rfl
  omega

theorem literal_of_integerArg {i : Nat} {n : Int} (h : d.integerArg i = .ok n) :
    ∃ value, d.args[i]? = some value ∧ Text.Literal value n := by
  obtain ⟨value, hvalue, hn⟩ := Option.bind_eq_some_iff.mp (integerArg_eq_ok.mp h)
  exact ⟨value, hvalue, Text.integer?_eq_some.mp hn⟩

theorem faulty_of_order (h : d.order tags = .error cause) : d.Faulty tags cause := by
  -- The first argument of a tempo or a rest is the same number, looked at in the same way.
  have number (hk : d.keyword = .bpm ∨ d.keyword = .wait) (hn : d.integerArg 0 = .error cause) :
      d.Faulty tags cause := by
    rcases integerArg_eq_error.mp hn with ⟨hnone, rfl⟩ | ⟨value, hvalue, hliteral, rfl⟩
    · apply Faulty.noFirst _ hnone
      rcases hk with hk | hk
      · exact .inl hk
      · exact .inr (.inl hk)
    · exact .noNumber hk hvalue hliteral
  unfold order at h
  split at h
  · next hk =>
      rcases error_of_bind h with hn | ⟨n, hn, h⟩
      · exact number (.inl hk) hn
      · obtain ⟨value, hvalue, hliteral⟩ := literal_of_integerArg hn
        split at h
        · cases h
        · next hr =>
            cases h
            exact .noTempo hk hvalue hliteral (tempo_fits_iff.mp hr)
  · next hk =>
      rcases error_of_bind h with hn | ⟨n, -, h⟩
      · exact number (.inr hk) hn
      · cases h
  · cases h
  · cases h
  · cases h
  · next hk =>
      rcases error_of_bind h with hname | ⟨name, hname, h⟩
      · obtain ⟨hnone, rfl⟩ := arg_eq_error.mp hname
        exact .noFirst (.inr (.inr hk)) hnone
      · replace hname := arg_eq_ok.mp hname
        rcases error_of_bind h with hn | ⟨n, hn, h⟩
        · rcases integerArg_eq_error.mp hn with ⟨hnone, rfl⟩ | ⟨value, hvalue, hliteral, rfl⟩
          · rw [hk]
            exact .noSecond hk hname hnone
          · rw [hk]
            exact .noBound hk hname hvalue hliteral
        · obtain ⟨value, hvalue, hliteral⟩ := literal_of_integerArg hn
          split at h
          · cases h
          · next htag =>
              cases h
              exact .noTag hk hname hvalue hliteral htag

theorem Faulty.order (h : d.Faulty tags cause) : d.order tags = .error cause := by
  cases h with
  | noFirst hk h =>
      have hname := arg_eq_error.mpr ⟨h, rfl⟩
      have hn := integerArg_eq_error.mpr (.inl ⟨h, rfl⟩)
      rcases hk with hk | hk | hk <;>
        simp only [Directive.order, hk, hname, hn, bind, Except.bind]
  | noNumber hk hvalue hn =>
      have herror := integerArg_eq_error.mpr (.inr ⟨_, hvalue, hn, rfl⟩)
      rcases hk with hk | hk <;> simp only [Directive.order, hk, herror, bind, Except.bind]
  | noTempo hk hvalue hn hr =>
      have hok := integerArg_of_literal hvalue hn
      simp only [Directive.order, hk, hok, bind, Except.bind, if_neg (tempo_fits_iff.mpr hr)]
      rfl
  | noSecond hk hname h =>
      have hok := arg_eq_ok.mpr hname
      have herror := integerArg_eq_error.mpr (.inl ⟨h, rfl⟩)
      simp only [Directive.order, hk, hok, herror, bind, Except.bind]
  | noBound hk hname hvalue hn =>
      have hok := arg_eq_ok.mpr hname
      have herror := integerArg_eq_error.mpr (.inr ⟨_, hvalue, hn, rfl⟩)
      simp only [Directive.order, hk, hok, herror, bind, Except.bind]
  | noTag hk hname hvalue hn htag =>
      have hok := arg_eq_ok.mpr hname
      have hbound := integerArg_of_literal hvalue hn
      simp only [Directive.order, hk, hok, hbound, bind, Except.bind, htag]
      rfl

theorem order_eq_error : d.order tags = .error cause ↔ d.Faulty tags cause :=
  ⟨faulty_of_order, Faulty.order⟩

theorem Faulty.keyword (h : d.Faulty tags cause) :
    d.keyword = .bpm ∨ d.keyword = .wait ∨ d.keyword = .goto := by
  cases h with
  | noFirst hk => exact hk
  | noNumber hk =>
      rcases hk with hk | hk
      · exact .inl hk
      · exact .inr (.inl hk)
  | noTempo hk => exact .inl hk
  | noSecond hk | noBound hk | noTag hk => exact .inr (.inr hk)

end Directive

namespace Session

variable {s : Session} {line : Nat} {d : Directive} {e : RuntimeError}

theorem tick_of_order_error (hf : s.Faces ⟨line, .obey d⟩) (hr : s.head.rest = 0)
    {cause : RuntimeError.Cause} (ho : d.order s.document.tags = .error cause) :
    s.tick = ⟨.ended (.failed ⟨line, cause⟩),
      { s with phase := .ended (.failed ⟨line, cause⟩) },
      [.noted (.obeying line d), .noted (.failed ⟨line, cause⟩)]⟩ :=
  (Ticked.refused hf hr ho).eq_tick

theorem order_error_of_tick (hf : s.Faces ⟨line, .obey d⟩) (hr : s.head.rest = 0)
    (h : s.tick.verdict = .ended (.failed e)) :
    e.line = line ∧ d.order s.document.tags = .error e.cause := by
  rw [hf.tick hr] at h
  change (s.running.obey line d).verdict = _ at h
  unfold obey at h
  dsimp only at h
  split at h
  · next ho =>
      cases h
      exact ⟨rfl, ho⟩
  · split at h <;> cases h

theorem tick_failed_iff (hf : s.Faces ⟨line, .obey d⟩) (hr : s.head.rest = 0) :
    s.tick.verdict = .ended (.failed e) ↔ e.line = line ∧ d.Faulty s.document.tags e.cause := by
  constructor
  · intro h
    obtain ⟨hline, ho⟩ := order_error_of_tick hf hr h
    exact ⟨hline, Directive.order_eq_error.mp ho⟩
  · rintro ⟨rfl, hfaulty⟩
    rw [tick_of_order_error hf hr hfaulty.order]

/-- A tick carries out the directive under the cursor unless there is something wrong with its
arguments, and then it fails with the first thing that is. A tick that fails ends playback and
leaves everything else as it was. -/
theorem tick_fails_iff (hf : s.Faces ⟨line, .obey d⟩) (hr : s.head.rest = 0) :
    (∀ e, s.tick.verdict = .ended (.failed e) ↔
      e.line = line ∧ d.Faulty s.document.tags e.cause) ∧
    (d.keyword = .stop ∨ d.keyword = .tag ∨ d.keyword = .set →
      ∀ e, s.tick.verdict ≠ .ended (.failed e)) ∧
    ∀ e, s.tick.verdict = .ended (.failed e) →
      s.tick.session = { s with phase := .ended (.failed e) } ∧
        s.tick.session.phase.name = "Failed" ∧ Effect.events s.tick.done = [] ∧
        Effect.sleeps s.tick.done = [] := by
  refine ⟨fun e => tick_failed_iff hf hr, ?_, ?_⟩
  · intro hk e h
    obtain ⟨-, hfaulty⟩ := (tick_failed_iff hf hr).mp h
    rcases hk with hk | hk | hk <;> simpa [hk] using hfaulty.keyword
  · intro e h
    obtain ⟨rfl, ho⟩ := order_error_of_tick hf hr h
    rw [tick_of_order_error hf hr ho]
    exact ⟨rfl, rfl, rfl, rfl⟩

/-- A jump whose bound has a blank in it, after a tempo with a sign and a rest that is none. That
its tag is unknown does not come up. -/
theorem tick_fails_iff_bound :
    let document : Document := .ofActions
      #[⟨1, .obey ⟨.bpm, ["+090".toList]⟩⟩, ⟨2, .obey ⟨.wait, ["-3".toList]⟩⟩,
        ⟨4, .obey ⟨.goto, ["x".toList, " 3".toList]⟩⟩]
    let s := (start document {} {}).after (Move.ticks 2)
    let e : RuntimeError := ⟨4, .invalidInteger .goto " 3".toList⟩
    s.Faces ⟨4, .obey ⟨.goto, ["x".toList, " 3".toList]⟩⟩ ∧ s.head.rest = 0 ∧
      s.tick.verdict = .ended (.failed e) ∧
      s.tick.session = { s with phase := .ended (.failed e) } ∧ s.head.tempo = 90 := by
  intro document s e
  have hf : s.Faces ⟨4, .obey ⟨.goto, ["x".toList, " 3".toList]⟩⟩ := ⟨rfl, rfl, rfl⟩
  obtain ⟨hiff, -, hleft⟩ := tick_fails_iff hf rfl
  have hfails := (hiff e).mpr
    ⟨rfl, .noBound rfl rfl rfl (Text.integer?_eq_none.mp rfl)⟩
  exact ⟨hf, rfl, hfails, (hleft e hfails).1, rfl⟩

end Session

end ChordScript
