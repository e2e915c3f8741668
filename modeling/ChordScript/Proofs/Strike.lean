import ChordScript.Proofs.Perform

namespace ChordScript

open Sink (hits)

variable (sink : Sink) (t : Timing) (beat : Nat)

section Strike

variable {sink : Sink} {t : Timing} {beat : Nat} {c : Chord} {s : Stage} {cause : Panic}

theorem strike_of_calm (h : (perform sink (c.cues t) {} s).2.panic? = none) :
    strike sink t c s = (perform sink (c.cues t) {} s).2 := by
  simp only [strike, h]

theorem strike_of_panic (h : (perform sink (c.cues t) {} s).2.panic? = some cause) :
    strike sink t c s =
      let p := (perform sink (c.cues t) {} s).2
      let q := (perform sink (perform sink (c.cues t) {} s).1.letGo {} p.stage).2
      ⟨q.stage, p.done ++ q.done, some (if q.panic?.isSome then .abort else cause)⟩ := by
  simp only [strike, h]

theorem perform_calm_of_strike (h : (strike sink t c s).panic? = none) :
    (perform sink (c.cues t) {} s).2.panic? = none := by
  cases hp : (perform sink (c.cues t) {} s).2.panic? with
  | none => rfl
  | some cause =>
      rw [strike_of_panic hp] at h
      cases h

theorem strike_took (h : (strike sink t c s).panic? = none) :
    Took sink s c.block (strike sink t c s).stage (strike sink t c s).done := by
  have hp := perform_calm_of_strike h
  rw [strike_of_calm hp, ← c.events_cues t]
  exact (perform_took sink (c.cues t) {} s hp).2

theorem strike_panicked (h : (strike sink t c s).panic? = some cause) (ha : cause ≠ .abort) :
    let p := (perform sink (c.cues t) {} s).2
    let q := (perform sink (perform sink (c.cues t) {} s).1.letGo {} p.stage).2
    p.panic? = some cause ∧ q.panic? = none ∧ (strike sink t c s).stage = q.stage ∧
      (strike sink t c s).done = p.done ++ q.done := by
  cases hp : (perform sink (c.cues t) {} s).2.panic? with
  | none =>
      rw [strike_of_calm hp, hp] at h
      cases h
  | some first =>
      rw [strike_of_panic hp] at h ⊢
      dsimp only at h ⊢
      split at h
      · exact absurd (Option.some.inj h).symm ha
      · next hq => exact ⟨hp.trans h, Option.not_isSome_iff_eq_none.mp hq, rfl, rfl⟩

/-- The sink panics only once, so it takes all that is released after that. -/
theorem strike_refused (h : (strike sink t c s).panic? = some .sink) :
    ∃ before e after, c.block = before ++ e :: after ∧
      sink.panicAt = some (s.calls + before.length + 1) ∧
      (strike sink t c s).stage.calls = s.calls + before.length + 1 +
        (Cue.events ((before ++ [e]).foldl Hand.after {}).letGo).length ∧
      Effect.events (strike sink t c s).done =
        before ++ Cue.events ((before ++ [e]).foldl Hand.after {}).letGo ∧
      ∃ taken, Effect.events taken = before ∧ (strike sink t c s).done = taken ++
        .noted (.sending e) ::
          (Cue.events ((before ++ [e]).foldl Hand.after {}).letGo).flatMap sink.taking := by
  obtain ⟨hp, hq, hstage, hdone⟩ := strike_panicked h nofun
  obtain ⟨before, e, after, s', taken, he, ht, hk, hcalls, hhand, hd⟩ :=
    perform_refused sink (c.cues t) {} s hp
  rw [c.events_cues t] at he
  rw [hhand] at hq hstage hdone
  have htook := (perform_took sink _ {} _ hq).2
  have hsends := hq
  rw [Hand.letGo_eq] at hsends
  replace hsends := perform_sends sink _ {} _ hsends
  rw [← Hand.letGo_eq] at hsends
  refine ⟨before, e, after, he, hk, ?_, ?_, taken, ht.events, ?_⟩
  · rw [hstage, htook.calls, hcalls]
  · rw [hdone, hd, Effect.events_append, Effect.events_append, ht.events, htook.events,
      Effect.events_noted, Effect.events_nil, List.append_nil]
  · rw [hdone, hd, hsends, List.append_assoc, List.singleton_append]

theorem strike_reaches (sink : Sink) (t : Timing) (c : Chord) (s : Stage) :
    s.Reaches sink (strike sink t c s).stage := by
  cases hp : (perform sink (c.cues t) {} s).2.panic? with
  | none =>
      rw [strike_of_calm hp]
      exact perform_reaches ..
  | some cause =>
      rw [strike_of_panic hp]
      exact (perform_reaches ..).trans (perform_reaches ..)

theorem strikeBeat_of_calm (h : (strike sink t c s).panic? = none) :
    strikeBeat sink t beat c s = ⟨((strike sink t c s).stage.waitBeat s.now beat).stage,
      (strike sink t c s).done ++ ((strike sink t c s).stage.waitBeat s.now beat).done,
      ((strike sink t c s).stage.waitBeat s.now beat).panic?⟩ := Passage.andThen_of_calm _ h

theorem strikeBeat_of_panic (h : (strike sink t c s).panic? = some cause) :
    strikeBeat sink t beat c s = strike sink t c s := Passage.andThen_of_panic _ h

theorem strike_calm_of_strikeBeat (h : (strikeBeat sink t beat c s).panic? = none) :
    (strike sink t c s).panic? = none := by
  rw [strikeBeat, Passage.panic?_andThen, Option.or_eq_none_iff] at h
  exact h.1

theorem strikeBeat_took (h : (strikeBeat sink t beat c s).panic? = none) :
    Took sink s c.block (strikeBeat sink t beat c s).stage (strikeBeat sink t beat c s).done := by
  have hp := strike_calm_of_strikeBeat h
  have ht := (strike_took hp).trans ((strike sink t c s).stage.waitBeat_took sink s.now beat)
  rw [List.append_nil] at ht
  rwa [strikeBeat_of_calm hp]

theorem strikeBeat_panicked (h : (strikeBeat sink t beat c s).panic? = some cause) :
    ((strike sink t c s).panic? = some cause ∧
      strikeBeat sink t beat c s = strike sink t c s) ∨
    ((strike sink t c s).panic? = none ∧ cause = .clock ∧
      strikeBeat sink t beat c s = { strike sink t c s with panic? := some .clock }) := by
  cases hp : (strike sink t c s).panic? with
  | some first =>
      rw [strikeBeat_of_panic hp] at h ⊢
      exact .inl ⟨hp.symm.trans h, rfl⟩
  | none =>
      rw [strikeBeat_of_calm hp] at h ⊢
      have hw := Stage.waitBeat_panicked h
      simp only [hw] at h ⊢
      exact .inr ⟨trivial, (Option.some.inj h).symm, by rw [List.append_nil]⟩

theorem strikeBeat_reaches (sink : Sink) (t : Timing) (beat : Nat) (c : Chord) (s : Stage) :
    s.Reaches sink (strikeBeat sink t beat c s).stage := by
  cases hp : (strike sink t c s).panic? with
  | some cause =>
      rw [strikeBeat_of_panic hp]
      exact strike_reaches ..
  | none =>
      rw [strikeBeat_of_calm hp]
      exact (strike_reaches ..).trans (Stage.waitBeat_reaches ..)

end Strike

/-- Of the chords of an action, those up to the one during which the sink sets the token. -/
def Sink.struck (sink : Sink) : Nat → List Chord → List Chord
  | _, [] => []
  | calls, c :: cs =>
    c :: if hits sink.cancelAt calls c.block.length then [] else sink.struck (calls + c.block.length) cs

theorem Sink.struck_eq_self {calls : Nat} {cs : List Chord}
    (h : hits sink.cancelAt calls ((sink.struck calls cs).flatMap Chord.block).length = false) :
    sink.struck calls cs = cs := by
  induction cs generalizing calls with
  | nil => rfl
  | cons c cs ih =>
      rw [struck, List.flatMap_cons, List.length_append, Sink.hits_add, Bool.or_eq_false_iff] at h
      rw [struck]
      simp only [h.1, Bool.false_eq_true, if_false] at h ⊢
      rw [ih h.2]

def Striking.panic? : Striking → Option Panic
  | panicked cause => some cause
  | _ => none

theorem Striking.panic?_eq_some {r : Striking} {cause : Panic} :
    r.panic? = some cause ↔ r = .panicked cause := by
  cases r <;> simp [panic?]

theorem strikeAll_of_cancelled (cs : List Chord) {s : Stage} (h : s.cancelled = true) :
    (strikeAll sink t beat cs s).done = [] ∧ (strikeAll sink t beat cs s).stage = s := by
  cases cs <;> simp [strikeAll, h]

section StrikeAll

variable {sink : Sink} {t : Timing} {beat : Nat} {c : Chord} {cs : List Chord} {s : Stage}
  {cause : Panic}

theorem strikeAll_of_calm (hs : s.cancelled = false)
    (hp : (strikeBeat sink t beat c s).panic? = none) :
    strikeAll sink t beat (c :: cs) s =
      ⟨(strikeAll sink t beat cs (strikeBeat sink t beat c s).stage).striking,
        (strikeAll sink t beat cs (strikeBeat sink t beat c s).stage).stage,
        (strikeBeat sink t beat c s).done ++
          (strikeAll sink t beat cs (strikeBeat sink t beat c s).stage).done⟩ := by
  simp only [strikeAll, hs, hp, Bool.false_eq_true, if_false]

theorem strikeAll_of_panic (hs : s.cancelled = false)
    (hp : (strikeBeat sink t beat c s).panic? = some cause) :
    strikeAll sink t beat (c :: cs) s = ⟨.panicked cause, (strikeBeat sink t beat c s).stage,
      (strikeBeat sink t beat c s).done⟩ := by
  simp only [strikeAll, hs, hp, Bool.false_eq_true, if_false]

theorem cancelled_of_strikeAll (h : (strikeAll sink t beat cs s).striking = .cancelled) :
    (strikeAll sink t beat cs s).stage.cancelled = true := by
  induction cs generalizing s with
  | nil => cases h
  | cons c cs ih =>
      cases hs : s.cancelled with
      | true => simp only [strikeAll, hs, if_true]
      | false =>
          cases hp : (strikeBeat sink t beat c s).panic? with
          | some cause =>
              rw [strikeAll_of_panic hs hp] at h
              cases h
          | none =>
              rw [strikeAll_of_calm hs hp] at h ⊢
              exact ih h

theorem strikeAll_took (hs : s.cancelled = false)
    (h : (strikeAll sink t beat cs s).striking.panic? = none) :
    Took sink s ((sink.struck s.calls cs).flatMap Chord.block) (strikeAll sink t beat cs s).stage
      (strikeAll sink t beat cs s).done := by
  induction cs generalizing s with
  | nil => exact .refl sink s
  | cons c cs ih =>
      cases hp : (strikeBeat sink t beat c s).panic? with
      | some cause =>
          rw [strikeAll_of_panic hs hp] at h
          cases h
      | none =>
          rw [strikeAll_of_calm hs hp] at h ⊢
          have hc := strikeBeat_took hp
          have hw := hc.cancelled
          rw [hs, Bool.false_or] at hw
          rw [Sink.struck, List.flatMap_cons]
          cases hh : hits sink.cancelAt s.calls c.block.length with
          | true =>
              obtain ⟨hd, hst⟩ := strikeAll_of_cancelled sink t beat cs (hw.trans hh)
              simpa [hd, hst] using hc
          | false =>
              have hr := ih (hw.trans hh) h
              rw [hc.calls] at hr
              exact hc.trans hr

theorem strikeAll_panicked (h : (strikeAll sink t beat cs s).striking = .panicked cause) :
    ∃ left c right s' done, cs = left ++ c :: right ∧ Took sink s (left.flatMap Chord.block) s' done ∧
      s'.cancelled = false ∧ (strikeBeat sink t beat c s').panic? = some cause ∧
      (strikeAll sink t beat cs s).stage = (strikeBeat sink t beat c s').stage ∧
      (strikeAll sink t beat cs s).done = done ++ (strikeBeat sink t beat c s').done := by
  induction cs generalizing s with
  | nil => cases h
  | cons c cs ih =>
      cases hs : s.cancelled with
      | true => simp [strikeAll, hs] at h
      | false =>
          cases hp : (strikeBeat sink t beat c s).panic? with
          | some first =>
              rw [strikeAll_of_panic hs hp] at h ⊢
              obtain rfl := Striking.panicked.inj h
              exact ⟨[], c, cs, s, [], rfl, .refl sink s, hs, hp, rfl, rfl⟩
          | none =>
              rw [strikeAll_of_calm hs hp] at h ⊢
              obtain ⟨left, d, right, s', done, rfl, ht, hfree, hd, hst, hdone⟩ := ih h
              exact ⟨c :: left, d, right, s', _, rfl, (strikeBeat_took hp).trans ht, hfree, hd, hst,
                by simp [hdone]⟩

theorem strikeAll_reaches (sink : Sink) (t : Timing) (beat : Nat) (cs : List Chord) (s : Stage) :
    s.Reaches sink (strikeAll sink t beat cs s).stage := by
  induction cs generalizing s with
  | nil => exact .refl sink s
  | cons c cs ih =>
      cases hs : s.cancelled with
      | true =>
          rw [(strikeAll_of_cancelled sink t beat (c :: cs) hs).2]
          exact .refl sink s
      | false =>
          cases hp : (strikeBeat sink t beat c s).panic? with
          | some cause =>
              rw [strikeAll_of_panic hs hp]
              exact strikeBeat_reaches ..
          | none =>
              rw [strikeAll_of_calm hs hp]
              exact (strikeBeat_reaches ..).trans (ih _)

theorem strikeAll_append_of_panic {left : List Chord}
    (h : (strikeAll sink t beat left s).striking = .panicked cause) :
    strikeAll sink t beat (left ++ cs) s = strikeAll sink t beat left s := by
  induction left generalizing s with
  | nil => cases h
  | cons c left ih =>
      cases hs : s.cancelled with
      | true => simp [strikeAll, hs]
      | false =>
          cases hp : (strikeBeat sink t beat c s).panic? with
          | some first => rw [List.cons_append, strikeAll_of_panic hs hp, strikeAll_of_panic hs hp]
          | none =>
              rw [strikeAll_of_calm hs hp] at h
              rw [List.cons_append, strikeAll_of_calm hs hp, strikeAll_of_calm hs hp, ih h]

theorem strikeAll_append {left : List Chord} (right : List Chord) (hs : s.cancelled = false)
    (hp : (strikeAll sink t beat left s).striking.panic? = none)
    (hc : hits sink.cancelAt s.calls (left.flatMap Chord.block).length = false) :
    let p := strikeAll sink t beat left s
    Took sink s (left.flatMap Chord.block) p.stage p.done ∧ p.stage.cancelled = false ∧
      strikeAll sink t beat (left ++ right) s = ⟨(strikeAll sink t beat right p.stage).striking,
        (strikeAll sink t beat right p.stage).stage,
        p.done ++ (strikeAll sink t beat right p.stage).done⟩ := by
  induction left generalizing s with
  | nil => exact ⟨.refl sink s, hs, rfl⟩
  | cons c left ih =>
      rw [List.flatMap_cons, List.length_append, Sink.hits_add, Bool.or_eq_false_iff] at hc
      cases hb : (strikeBeat sink t beat c s).panic? with
      | some cause =>
          rw [strikeAll_of_panic hs hb] at hp
          cases hp
      | none =>
          rw [strikeAll_of_calm hs hb] at hp ⊢
          have htook := strikeBeat_took hb
          have hfree := htook.cancelled
          rw [hs, hc.1, Bool.false_or] at hfree
          rw [← htook.calls] at hc
          obtain ⟨ht, hs', he⟩ := ih hfree hp hc.2
          refine ⟨htook.trans ht, hs', ?_⟩
          rw [List.cons_append, strikeAll_of_calm hs hb, he]
          simp only [List.append_assoc]

end StrikeAll

/-- What holds of all that is done for a cue, and of one thing done after another. -/
structure Heeding (sink : Sink) (p : List Effect → Prop) : Prop where
  nil : p []
  append : ∀ {xs ys : List Effect}, p xs → p ys → p (xs ++ ys)
  heed : ∀ (cue : Cue) (s : Stage), p (cue.heed s sink).done

namespace Heeding

variable {sink} {t} {beat} {p : List Effect → Prop}

theorem waitBeat (hp : Heeding sink p) (s : Stage) (started beat : Nat) :
    p (s.waitBeat started beat).done := by
  unfold Stage.waitBeat Stage.sleepUnlessCancelled
  dsimp only
  split
  · exact hp.nil
  · split
    · exact hp.nil
    · exact hp.heed (.wait _) s

theorem perform (hp : Heeding sink p) (cues : List Cue) (h : Hand) (s : Stage) :
    p (perform sink cues h s).2.done := by
  induction cues generalizing h s with
  | nil => exact hp.nil
  | cons cue cues ih =>
      cases hc : (cue.heed s sink).panic? with
      | some cause =>
          rw [perform_of_panic sink cues h s hc]
          exact hp.heed cue s
      | none =>
          rw [perform_of_calm sink cues h s hc]
          exact hp.append (hp.heed cue s) (ih ..)

theorem strike (hp : Heeding sink p) (c : Chord) (s : Stage) : p (strike sink t c s).done := by
  cases hc : (ChordScript.perform sink (c.cues t) {} s).2.panic? with
  | none =>
      rw [strike_of_calm hc]
      exact hp.perform ..
  | some cause =>
      rw [strike_of_panic hc]
      exact hp.append (hp.perform ..) (hp.perform ..)

theorem strikeBeat (hp : Heeding sink p) (c : Chord) (s : Stage) :
    p (strikeBeat sink t beat c s).done := by
  cases hc : (ChordScript.strike sink t c s).panic? with
  | some cause =>
      rw [strikeBeat_of_panic hc]
      exact hp.strike c s
  | none =>
      rw [strikeBeat_of_calm hc]
      exact hp.append (hp.strike c s) (hp.waitBeat ..)

theorem strikeAll (hp : Heeding sink p) (cs : List Chord) (s : Stage) :
    p (strikeAll sink t beat cs s).done := by
  induction cs generalizing s with
  | nil => exact hp.nil
  | cons c cs ih =>
      cases hs : s.cancelled with
      | true =>
          rw [(strikeAll_of_cancelled sink t beat (c :: cs) hs).1]
          exact hp.nil
      | false =>
          cases hc : (ChordScript.strikeBeat sink t beat c s).panic? with
          | some cause =>
              rw [strikeAll_of_panic hs hc]
              exact hp.strikeBeat c s
          | none =>
              rw [strikeAll_of_calm hs hc]
              exact hp.append (hp.strikeBeat c s) (ih _)

end Heeding

/-- Left by the sink or the clock, and not by the player. -/
def Effect.ofStage : Effect → Bool
  | sent _ | slept _ | noted (.sending _) => true
  | noted _ => false

theorem heeding_ofStage (sink : Sink) : Heeding sink (·.all Effect.ofStage = true) where
  nil := rfl
  append hx hy := by rw [List.all_append, hx, hy, Bool.and_self]
  heed cue s := by
    rw [Cue.done_heed]
    cases cue with
    | wait ms => split <;> rfl
    | send e =>
        simp only [Cue.heeded, Cue.tried, Sink.taking]
        split
        · split <;> rfl
        · rfl

theorem Effect.countP_of_ofStage {done : List Effect} (h : done.all ofStage = true)
    {p : Effect → Bool} (hp : ∀ x, p x = true → x.ofStage = false) : done.countP p = 0 := by
  refine List.countP_eq_zero.mpr fun x hx hpx => ?_
  have ho := List.all_eq_true.mp h x hx
  rw [hp x hpx] at ho
  cases ho

end ChordScript
