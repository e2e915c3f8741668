import ChordScript.Proofs.Strokes
import ChordScript.Proofs.Timing

namespace ChordScript

open KeyEvent (Balanced heldKeys shiftHeld)
open Sink (hits)

theorem strike_pair {sink : Sink} {t : Timing} {c : Chord} {s : Stage} {k l : Key}
    (hp : sink.panicAt = none) (hc : sink.cost = 0) (hk : c.keys = [k, l])
    (hs : c.needsShift = false) (hn : timeLimit ≤ s.now + t.stagger) :
    (strike sink t c s).panic? = some .clock ∧
      Effect.events (strike sink t c s).done = [.press k, .release k] ∧
      (strike sink t c s).stage.calls = s.calls + 2 := by
  have hcalm (s : Stage) (e : KeyEvent) : ((Cue.send e).heed s sink).panic? = none := by
    have hhit : hits sink.panicAt s.calls (Cue.events [.send e]).length = false := by
      rw [hp]
      rfl
    rw [Cue.panic?_heed, hhit, Cue.lasts, hc, if_neg Bool.false_ne_true, Nat.add_zero, if_pos s.now_lt]
  have hcues : c.cues t = .send (.press k) :: .wait t.stagger ::
      [.send (.press l), .wait t.hold, .send (.release k), .send (.release l)] := by
    simp [Chord.cues, Chord.presses, Chord.releases, hs, hk, List.intercalate]
  have hnow := (Cue.send (.press k)).now_heed s sink
  rw [if_pos (hcalm s _), Cue.lasts, hc, Nat.add_zero] at hnow
  have hwait : (Cue.wait t.stagger).heed ((Cue.send (.press k)).heed s sink).stage sink =
      ⟨((Cue.send (.press k)).heed s sink).stage, [], some .clock⟩ :=
    Stage.sleep_of_le (hnow.symm ▸ hn)
  have hperform : perform sink (c.cues t) {} s = (⟨[k], false⟩,
      ⟨((Cue.send (.press k)).heed s sink).stage, ((Cue.send (.press k)).heed s sink).done, some .clock⟩) := by
    rw [hcues, perform_of_calm _ _ _ _ (hcalm s _),
      perform_of_panic _ _ _ _ (congrArg Passage.panic? hwait), hwait]
    simp only [List.append_nil]
    rfl
  have hout : (perform sink (Hand.letGo ⟨[k], false⟩) {}
      ((Cue.send (.press k)).heed s sink).stage).2.panic? = none :=
    (congrArg (·.2.panic?) (perform_of_calm sink [] {} _ (hcalm _ (.release k)))).trans rfl
  rw [strike_of_panic (congrArg (·.2.panic?) hperform)]
  have hpress := (Cue.send (.press k)).heed_took s sink (hcalm s _)
  have hrelease := (perform_took sink _ {} _ hout).2
  simp only [hperform, hout, Option.isSome_none, Bool.false_eq_true, if_false, Effect.events_append,
    hpress.events, hrelease.events, hrelease.calls, hpress.calls]
  exact ⟨trivial, rfl, rfl⟩

namespace Session

/-- A tick that strikes one chord of two keys again and again, until the time comes to its end. -/
theorem tick_pairs {s : Session} {line n : Nat} {c : Chord} {k l : Key}
    (hf : s.Faces ⟨line, .play (List.replicate n c ++ [c])⟩) (hr : s.head.rest = 0)
    (hp : s.sink.panicAt = none) (hc : s.sink.cost = 0) (hk : c.keys = [k, l])
    (hs : c.needsShift = false)
    (hfree : hits s.sink.cancelAt s.stage.calls ((List.replicate n c).flatMap Chord.block).length = false)
    (hlt : s.stage.now + n * max s.beat (c.span s.timing 0) < timeLimit)
    (hle : timeLimit ≤ s.stage.now + n * max s.beat (c.span s.timing 0) + s.timing.stagger) :
    s.tick.verdict = .panicked .clock ∧
      Effect.events s.tick.done =
        (List.replicate n c).flatMap Chord.block ++ [.press k, .release k] ∧
      s.tick.session.stage.calls =
        s.stage.calls + ((List.replicate n c).flatMap Chord.block).length + 2 := by
  have hsum : ((List.replicate n c).map fun c => max s.beat (c.span s.timing s.sink.cost)).sum =
      n * max s.beat (c.span s.timing 0) := by
    rw [List.map_replicate, List.sum_replicate_nat, hc]
  obtain ⟨hstruck, hlive⟩ := strikeAll_struck s.timing s.beat hf.free hfree
    (by rw [hp]; rfl) (by rwa [hsum])
  obtain ⟨htook, -, hall⟩ :=
    strikeAll_append [c] hf.free (congrArg Striking.panic? hstruck) hfree
  have hnow := strikeAll_now hstruck hlive
  rw [hsum] at hnow
  obtain ⟨hclock, hevents, hcalls⟩ := strike_pair (t := s.timing) hp hc hk hs (hnow ▸ hle)
  have hbeat : strikeBeat s.sink s.timing s.beat c _ = _ := strikeBeat_of_panic hclock
  have hstrikes : strikeAll s.sink s.timing s.beat [c] _ = _ :=
    strikeAll_of_panic hlive ((congrArg Passage.panic? hbeat).trans hclock)
  rw [hstrikes] at hall
  have hticked := Ticked.panicked hf hr (congrArg Strikes.striking hall)
  have hdone := congrArg (Effect.events ·.done) hall
  have hstage := congrArg (·.stage.calls) hall
  simp only [Effect.events_append, htook.events, hbeat, hevents, hcalls, htook.calls] at hdone hstage
  rw [hticked.eq_tick]
  exact ⟨rfl, hdone, hstage⟩

/-- As long as nothing panics, the log is made of whole blocks, one for each chord struck and in their
order. Nothing is down then, and on the way no key was pressed while it was down or released while
it was up. The latter is so even after the clock has panicked, unless it did in a call of the sink. -/
theorem log_eq_blocks (document : Document) (config : Config) (sink : Sink)
    (hp : sink.panicAt = none) :
    let s := start document config sink
    (∀ ms : List Move, s.Calm ms →
      Effect.events (s.doneIn ms) = (s.struckIn ms).flatMap Chord.block) ∧
    (∀ ms : List Move,
      s.Calm ms ∨ s.Lives ms ∧ (s.after ms).stage.now + sink.cost < timeLimit →
        let log := Effect.events (s.doneIn ms)
        Balanced log ∧ heldKeys log = [] ∧ shiftHeld log = false) ∧
    ∀ (cs : List Control) (ts : List Turn), s.history cs = some ts → ∃ ms, s.ComesTo ts ms := by
  intro s
  refine ⟨fun ms hc => (log_of_calm hc).1, fun ms h => ?_, fun cs ts => history_comesTo⟩
  have hb : Balanced (Effect.events (s.doneIn ms)) := by
    obtain hc | ⟨hl, hlt⟩ := h
    · exact balanced_of_calm hc
    · have hlate : ¬ (s.after ms).Late := by
        rw [Late, (frame_after s ms).2.1]
        exact Nat.not_le_of_lt hlt
      refine balanced_doneIn hl hlate fun k hk => ?_
      cases hp.symm.trans hk
  exact ⟨hb, hb.keys, hb.shiftHeld⟩

theorem log_eq_blocks_pair :
    let c : Chord := ⟨['a', 'B'], by decide, by decide⟩
    let s := start (.ofActions #[⟨1, .play [c, .single 'd']⟩]) {} { cancelAt := some 2 }
    s.sink.panicAt = none ∧ s.Calm [.tick, .tick] ∧
      Effect.events (s.doneIn [.tick, .tick]) = c.block ∧
      (∃ ts, s.history [.tick 1, .cancel] = some ts ∧ ∃ ms, s.ComesTo ts ms) := by
  have h := log_eq_blocks (.ofActions #[⟨1, .play [⟨['a', 'B'], by decide, by decide⟩, .single 'd']⟩])
    {} { cancelAt := some 2 } rfl
  exact ⟨rfl, ⟨rfl, rfl, trivial⟩, h.1 [.tick, .tick] ⟨rfl, rfl, trivial⟩, _, rfl,
    h.2.2 [.tick 1, .cancel] _ rfl⟩

/-- With the longest stagger the time comes to its end in the last of so many chords. Its second key
is not pressed, so the log is not made of whole blocks of that chord. -/
theorem log_ends_in_part :
    let c : Chord := ⟨['a', 'b'], by decide, by decide⟩
    let s := start (.ofActions #[⟨1, .play (List.replicate 1000 c ++ [c])⟩])
      { keyHoldMs := 0, keyStaggerMs := 18446744073709551615 } {}
    s.sink.panicAt = none ∧ s.tick.verdict = .panicked .clock ∧
      Effect.events (s.doneIn [.tick]) =
        (List.replicate 1000 c).flatMap Chord.block ++ [.press 'a', .release 'a'] ∧
      ∀ n, Effect.events (s.doneIn [.tick]) ≠ (List.replicate n c).flatMap Chord.block := by
  intro c s
  obtain ⟨hv, he, -⟩ := tick_pairs (s := s) (n := 1000) (k := 'a') (l := 'b') ⟨rfl, rfl, rfl⟩ rfl rfl rfl
    rfl rfl rfl (by decide) (by decide)
  have hlog : Effect.events (s.doneIn [.tick]) = _ := (congrArg Effect.events (List.append_nil _)).trans he
  refine ⟨rfl, hv, hlog, fun n h => ?_⟩
  -- Each block has four events, and there are two left over.
  have hlength (n : Nat) : ((List.replicate n c).flatMap Chord.block).length = 4 * n := by
    rw [List.length_flatMap, List.map_replicate, List.sum_replicate_nat]
    exact Nat.mul_comm n 4
  have hl := congrArg List.length (hlog.symm.trans h)
  rw [List.length_append, hlength, hlength] at hl
  simp only [List.length_cons, List.length_nil] at hl
  omega

end Session

end ChordScript
