import Mathlib.Algebra.Ring.Nat
import ChordScript.Proofs.Strike

namespace ChordScript

open Sink (hits)

namespace Cue

def wait? : Cue → Option Nat
  | send _ => none
  | wait ms => some ms

def waits (cues : List Cue) : Nat := (cues.filterMap wait?).sum

theorem waits_append (xs ys : List Cue) : waits (xs ++ ys) = waits xs + waits ys := by
  rw [waits, List.filterMap_append, List.sum_append]
  rfl

@[simp] theorem waits_send (e : KeyEvent) (cues : List Cue) :
    waits (.send e :: cues) = waits cues := rfl

@[simp] theorem waits_wait (ms : Nat) (cues : List Cue) :
    waits (.wait ms :: cues) = ms + waits cues := by
  simp [waits, wait?]

@[simp] theorem waits_nil : waits [] = 0 := rfl

def time (sink : Sink) (cues : List Cue) : Nat := (cues.map (lasts sink)).sum

theorem time_cons (sink : Sink) (cue : Cue) (cues : List Cue) :
    time sink (cue :: cues) = cue.lasts sink + time sink cues := by
  rw [time, List.map_cons, List.sum_cons]
  rfl

theorem time_eq (sink : Sink) (cues : List Cue) :
    time sink cues = sink.cost * (events cues).length + waits cues := by
  induction cues with
  | nil => rfl
  | cons cue cues ih =>
      cases cue with
      | send e =>
          rw [time_cons, ih, events_send, waits_send, List.length_cons, Nat.mul_succ, lasts]
          omega
      | wait ms =>
          rw [time_cons, ih, events_wait, waits_wait, lasts]
          omega

theorem waits_map_send (f : Key → KeyEvent) (ks : List Key) :
    waits (ks.map fun k => .send (f k)) = 0 := by
  induction ks with
  | nil => rfl
  | cons k ks ih => exact ih

end Cue

namespace Chord

theorem waits_presses (c : Chord) (stagger : Nat) :
    Cue.waits (c.presses stagger) = (c.keys.length - 1) * stagger := by
  rw [presses]
  induction c.keys with
  | nil => simp [List.intercalate]
  | cons k ks ih =>
      cases ks with
      | nil => simp [List.intercalate]
      | cons l ks =>
          simp only [List.map_cons, List.intercalate_cons_cons, List.cons_append, List.nil_append,
            Cue.waits_send, Cue.waits_wait, List.length_cons, Nat.add_sub_cancel] at ih ⊢
          rw [ih, Nat.succ_mul, Nat.add_comm]

theorem waits_cues (c : Chord) (t : Timing) :
    Cue.waits (c.cues t) = (c.keys.length - 1) * t.stagger + t.hold := by
  simp only [cues, releases, Cue.waits_append, waits_presses, Cue.waits_map_send, Cue.waits_wait]
  cases c.needsShift <;> simp

def span (c : Chord) (t : Timing) (cost : Nat) : Nat :=
  cost * c.block.length + ((c.keys.length - 1) * t.stagger + t.hold)

theorem time_cues (c : Chord) (t : Timing) (sink : Sink) :
    Cue.time sink (c.cues t) = c.span t sink.cost := by
  rw [Cue.time_eq, waits_cues, events_cues, span]

theorem length_block (c : Chord) :
    c.block.length = 2 * c.keys.length + 2 * c.needsShift.toNat := by
  rw [block, ifShift, ifShift]
  cases c.needsShift <;> simp <;> omega

end Chord

section

variable {sink : Sink} {t : Timing} {beat : Nat} {c : Chord} {cs : List Chord} {s : Stage}

theorem Stage.waitBeat_now {started : Nat} (hp : (s.waitBeat started beat).panic? = none)
    (hc : s.cancelled = false) (hs : started ≤ s.now) :
    (s.waitBeat started beat).stage.now = max s.now (started + beat) := by
  simp only [waitBeat, sleepUnlessCancelled, hc, Bool.false_eq_true, if_false] at hp ⊢
  split at hp
  · next hr =>
      rw [if_pos hr]
      change s.now = _
      omega
  · next hr =>
      rw [if_neg hr]
      unfold sleep at hp ⊢
      split at hp
      · next hn =>
          rw [dif_pos hn]
          change s.now + (beat - (s.now - started)) = _
          omega
      · cases hp

theorem Stage.waitBeat_fits {started : Nat} (hs : started ≤ s.now)
    (hn : max s.now (started + beat) < timeLimit) : (s.waitBeat started beat).panic? = none := by
  unfold waitBeat sleepUnlessCancelled
  dsimp only
  split
  · rfl
  · split
    · rfl
    · rw [sleep_of_lt (by omega)]

theorem perform_now {cues : List Cue} {h : Hand} (hp : (perform sink cues h s).2.panic? = none) :
    (perform sink cues h s).2.stage.now = s.now + Cue.time sink cues := by
  induction cues generalizing h s with
  | nil => rfl
  | cons cue cues ih =>
      cases hc : (cue.heed s sink).panic? with
      | some cause =>
          rw [perform_of_panic sink cues h s hc, hc] at hp
          cases hp
      | none =>
          rw [perform_of_calm sink cues h s hc] at hp ⊢
          simp only [ih hp, cue.now_heed s sink, hc, if_true, Cue.time_cons, Nat.add_assoc]

theorem perform_fits {cues : List Cue} {h : Hand}
    (hp : hits sink.panicAt s.calls (Cue.events cues).length = false)
    (hn : s.now + Cue.time sink cues < timeLimit) : (perform sink cues h s).2.panic? = none := by
  induction cues generalizing h s with
  | nil => rfl
  | cons cue cues ih =>
      rw [Cue.events_cons, List.length_append, Sink.hits_add, Bool.or_eq_false_iff,
        ← cue.calls_heed s sink] at hp
      rw [Cue.time_cons] at hn
      have hc : (cue.heed s sink).panic? = none := by
        rw [cue.panic?_heed, hp.1, if_neg nofun, if_pos (by omega)]
      have hnow := cue.now_heed s sink
      rw [if_pos hc] at hnow
      rw [perform_of_calm sink cues h s hc]
      exact ih hp.2 (by omega)

theorem strike_now (h : (strike sink t c s).panic? = none) :
    (strike sink t c s).stage.now = s.now + c.span t sink.cost := by
  have hp := perform_calm_of_strike h
  rw [strike_of_calm hp, perform_now hp, c.time_cues]

theorem strike_fits (hp : hits sink.panicAt s.calls c.block.length = false)
    (hn : s.now + c.span t sink.cost < timeLimit) : (strike sink t c s).panic? = none := by
  rw [← c.events_cues t] at hp
  have hcalm := perform_fits (h := {}) hp (by rwa [c.time_cues])
  rw [strike_of_calm hcalm, hcalm]

theorem strikeBeat_now (h : (strikeBeat sink t beat c s).panic? = none)
    (hc : (strikeBeat sink t beat c s).stage.cancelled = false) :
    (strikeBeat sink t beat c s).stage.now = s.now + max beat (c.span t sink.cost) := by
  have hp := strike_calm_of_strikeBeat h
  have hnow := strike_now hp
  rw [strikeBeat_of_calm hp] at h hc ⊢
  rw [Stage.waitBeat_cancelled] at hc
  rw [Stage.waitBeat_now h hc (hnow ▸ Nat.le_add_right ..), hnow]
  omega

theorem strikeBeat_fits (hp : hits sink.panicAt s.calls c.block.length = false)
    (hn : s.now + max beat (c.span t sink.cost) < timeLimit) :
    (strikeBeat sink t beat c s).panic? = none := by
  have hcalm := strike_fits (t := t) hp (by omega)
  have hnow := strike_now hcalm
  rw [strikeBeat_of_calm hcalm]
  exact Stage.waitBeat_fits (hnow ▸ Nat.le_add_right ..) (by omega)

/-- Chords that overrun their beats take nothing from the chords after them. -/
theorem strikeAll_now (h : (strikeAll sink t beat cs s).striking = .struck)
    (hc : (strikeAll sink t beat cs s).stage.cancelled = false) :
    (strikeAll sink t beat cs s).stage.now =
      s.now + (cs.map fun c => max beat (c.span t sink.cost)).sum := by
  induction cs generalizing s with
  | nil => rfl
  | cons c cs ih =>
      cases hs : s.cancelled with
      | true => simp [strikeAll, hs] at h
      | false =>
          cases hp : (strikeBeat sink t beat c s).panic? with
          | some cause =>
              rw [strikeAll_of_panic hs hp] at h
              cases h
          | none =>
              rw [strikeAll_of_calm hs hp] at h hc ⊢
              have hfree : (strikeBeat sink t beat c s).stage.cancelled = false := by
                cases hd : (strikeBeat sink t beat c s).stage.cancelled with
                | false => rfl
                | true =>
                    rw [(strikeAll_of_cancelled sink t beat cs hd).2, hd] at hc
                    cases hc
              simp only [ih h hc, strikeBeat_now hp hfree, List.map_cons, List.sum_cons, Nat.add_assoc]

theorem strikeAll_fits (hp : hits sink.panicAt s.calls (cs.flatMap Chord.block).length = false)
    (hn : s.now + (cs.map fun c => max beat (c.span t sink.cost)).sum < timeLimit) :
    (strikeAll sink t beat cs s).striking.panic? = none := by
  induction cs generalizing s with
  | nil => rfl
  | cons c cs ih =>
      cases hs : s.cancelled with
      | true => simp [strikeAll, hs, Striking.panic?]
      | false =>
          rw [List.flatMap_cons, List.length_append, Sink.hits_add, Bool.or_eq_false_iff] at hp
          rw [List.map_cons, List.sum_cons] at hn
          have hcalm : (strikeBeat sink t beat c s).panic? = none := strikeBeat_fits hp.1 (by omega)
          have htook := strikeBeat_took hcalm
          rw [← htook.calls] at hp
          rw [strikeAll_of_calm hs hcalm]
          cases hfree : (strikeBeat sink t beat c s).stage.cancelled with
          | true =>
              cases cs with
              | nil => rfl
              | cons d cs => simp [strikeAll, hfree, Striking.panic?]
          | false => exact ih hp.2 (by rw [strikeBeat_now hcalm hfree]; omega)

theorem perform_late {cues : List Cue} {h : Hand}
    (hp : (perform sink cues h s).2.panic? = some .clock) :
    timeLimit ≤ s.now + Cue.time sink cues := by
  induction cues generalizing h s with
  | nil => cases hp
  | cons cue cues ih =>
      rw [Cue.time_cons]
      cases hc : (cue.heed s sink).panic? with
      | some cause =>
          rw [perform_of_panic sink cues h s hc, cue.panic?_heed] at hp
          split at hp
          · cases hp
          · split at hp
            · cases hp
            · omega
      | none =>
          rw [perform_of_calm sink cues h s hc] at hp
          have hlate := ih hp
          rw [cue.now_heed, if_pos hc] at hlate
          omega

theorem strikeBeat_late (h : (strikeBeat sink t beat c s).panic? = some .clock) :
    timeLimit ≤ s.now + max beat (c.span t sink.cost) := by
  obtain ⟨hp, -⟩ | ⟨hp, -, -⟩ := strikeBeat_panicked h
  · have hlate := perform_late (strike_panicked hp nofun).1
    rw [c.time_cues] at hlate
    omega
  · have hnow := strike_now hp
    rw [strikeBeat_of_calm hp] at h
    refine Nat.le_of_not_lt fun hlt => ?_
    have hfits : ((strike sink t c s).stage.waitBeat s.now beat).panic? = none :=
      Stage.waitBeat_fits (hnow ▸ Nat.le_add_right ..) (by omega)
    cases h.symm.trans hfits

theorem strikeAll_late (h : (strikeAll sink t beat cs s).striking = .panicked .clock) :
    timeLimit ≤ s.now + (cs.map fun c => max beat (c.span t sink.cost)).sum := by
  induction cs generalizing s with
  | nil => cases h
  | cons c cs ih =>
      rw [List.map_cons, List.sum_cons]
      cases hs : s.cancelled with
      | true => simp [strikeAll, hs] at h
      | false =>
          cases hp : (strikeBeat sink t beat c s).panic? with
          | some cause =>
              rw [strikeAll_of_panic hs hp] at h
              obtain rfl := Striking.panicked.inj h
              have hlate := strikeBeat_late hp
              omega
          | none =>
              rw [strikeAll_of_calm hs hp] at h
              have hlate := ih h
              cases hfree : (strikeBeat sink t beat c s).stage.cancelled with
              | true => cases cs <;> simp [strikeAll, hfree] at h
              | false =>
                  rw [strikeBeat_now hp hfree] at hlate
                  omega

theorem strikeAll_struck (t : Timing) (beat : Nat) (hs : s.cancelled = false)
    (hcancel : hits sink.cancelAt s.calls (cs.flatMap Chord.block).length = false)
    (hp : hits sink.panicAt s.calls (cs.flatMap Chord.block).length = false)
    (hn : s.now + (cs.map fun c => max beat (c.span t sink.cost)).sum < timeLimit) :
    (strikeAll sink t beat cs s).striking = .struck ∧
      (strikeAll sink t beat cs s).stage.cancelled = false := by
  have hcalm := strikeAll_fits hp hn
  obtain ⟨-, hfree, -⟩ := strikeAll_append [] hs hcalm hcancel
  refine ⟨?_, hfree⟩
  cases hr : (strikeAll sink t beat cs s).striking with
  | struck => rfl
  | cancelled => cases (cancelled_of_strikeAll hr).symm.trans hfree
  | panicked cause =>
      rw [hr] at hcalm
      cases hcalm

theorem perform_ne_abort (sink : Sink) (cues : List Cue) (h : Hand) (s : Stage) :
    (perform sink cues h s).2.panic? ≠ some .abort := by
  intro hp
  obtain ⟨before, cue, after, s', taken, -, -, hc, -⟩ := perform_panicked sink cues h s hp
  rw [cue.panic?_heed] at hc
  split at hc
  · cases hc
  · split at hc <;> cases hc

/-- A sink that takes no time and does not panic is not in the way of what is let go. -/
theorem strike_ne_abort (hc : sink.cost = 0) (hp : sink.panicAt = none) :
    (strike sink t c s).panic? ≠ some .abort := by
  have hcalm (calls count : Nat) : hits sink.panicAt calls count = false := by
    rw [hp]
    rfl
  cases hq : (perform sink (c.cues t) {} s).2.panic? with
  | none => rw [strike_of_calm hq, hq]; nofun
  | some cause =>
      have hq' := perform_ne_abort sink (c.cues t) {} s
      have htime (es : List KeyEvent) : Cue.time sink (es.map .send) = 0 := by
        rw [Cue.time_eq, hc, Nat.zero_mul, Nat.zero_add]
        induction es with
        | nil => rfl
        | cons e es ih => exact ih
      have hout : (perform sink (perform sink (c.cues t) {} s).1.letGo {}
          (perform sink (c.cues t) {} s).2.stage).2.panic? = none :=
        perform_fits (hcalm ..) (by rw [Hand.letGo_eq, htime]; exact Stage.now_lt _)
      rw [strike_of_panic hq]
      simp only [hout, Option.isSome_none, Bool.false_eq_true, if_false]
      exact hq ▸ hq'

/-- Chords that do not come to an end in time. -/
theorem strikeAll_overruns (hc : sink.cost = 0) (hp : sink.panicAt = none)
    (hcancel : sink.cancelAt = none) (hs : s.cancelled = false)
    (hn : timeLimit ≤ s.now + (cs.map fun c => max beat (c.span t sink.cost)).sum) :
    (strikeAll sink t beat cs s).striking = .panicked .clock := by
  have hfree (h : (strikeAll sink t beat cs s).striking.panic? = none) :
      (strikeAll sink t beat cs s).stage.cancelled = false := by
    rw [(strikeAll_took hs h).cancelled, hs, hcancel]
    rfl
  cases hr : (strikeAll sink t beat cs s).striking with
  | struck =>
      have hnow := strikeAll_now hr (hfree (by rw [hr]; rfl))
      have hlt := (strikeAll sink t beat cs s).stage.now_lt
      omega
  | cancelled =>
      have hf := hfree (by rw [hr]; rfl)
      cases (cancelled_of_strikeAll hr).symm.trans hf
  | panicked cause =>
      obtain ⟨left, c, right, s', done, -, -, -, hpanic, -⟩ := strikeAll_panicked hr
      obtain ⟨hstrike, -⟩ | ⟨-, rfl, -⟩ := strikeBeat_panicked hpanic
      · cases cause with
        | sink =>
            obtain ⟨before, e, after, -, hk, -⟩ := strike_refused hstrike
            rw [hp] at hk
            cases hk
        | clock => rfl
        | abort => exact absurd hstrike (strike_ne_abort hc hp)
      · rfl

end

end ChordScript
