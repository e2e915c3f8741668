import ChordScript.Proofs.Blocks
import ChordScript.Proofs.Undisturbed

namespace ChordScript

namespace Session

variable {s : Session} {t : Turn}

theorem Ticked.of_cancelled (h : Ticked s t) (hc : s.stage.cancelled = true) :
    Effect.timeline t.done = [] ∧ t.session.stage = s.stage ∧
      t.verdict = .ended (s.phase.ending?.getD (.played .stopped)) := by
  cases h with
  | past hp => exact ⟨rfl, rfl, by rw [hp]; rfl⟩
  | stopped hp => exact ⟨timeline_finish .., rfl, by rw [hp]; rfl⟩
  | finished hp hn => exact absurd (hc.symm.trans hn) (by decide)
  | rested hf | overslept hf | struck hf | interrupted hf | panicked hf | refused hf | halted hf
    | obeyed hf =>
      exact absurd (hc.symm.trans hf.free) (by decide)

theorem silent_of_cancelled (hc : s.stage.cancelled = true) (ms : List Move) :
    Effect.timeline (s.doneIn ms) = [] := by
  induction ms generalizing s with
  | nil => rfl
  | cons m ms ih =>
      rw [doneIn, Effect.timeline_append]
      cases m with
      | tick =>
          obtain ⟨hd, hs, -⟩ := s.ticked.of_cancelled hc
          rw [move, hd, ih (by rw [hs, hc])]
          rfl
      | cancel => exact ih rfl

theorem timeline_prefix (s : Session) (ms : List Move) :
    Effect.timeline (s.doneIn ms) <+:
      Effect.timeline (s.undisturbed.doneIn (Move.ticks (ms.count .tick))) := by
  induction ms generalizing s with
  | nil => exact List.prefix_rfl
  | cons m ms ih =>
      by_cases hs : s.stage.cancelled = true
      · rw [silent_of_cancelled hs]
        exact List.nil_prefix
      · replace hs : s.stage.cancelled = false := by simpa using hs
        cases m with
        | cancel =>
            have hc : Effect.timeline (s.doneIn (.cancel :: ms)) = [] :=
              silent_of_cancelled (s := s.cancel) rfl ms
            rw [hc]
            exact List.nil_prefix
        | tick =>
            rw [List.count_cons_self, Move.ticks, List.replicate_succ, doneIn, doneIn,
              Effect.timeline_append, Effect.timeline_append]
            cases ht : s.tick.session.stage.cancelled with
            | true =>
                rw [move, silent_of_cancelled ht, List.append_nil]
                exact (s.ticked.cut hs ht).1.trans (List.prefix_append ..)
            | false =>
                rw [move, move, (s.ticked.undisturbed hs ht).eq_tick]
                exact (List.prefix_append_right_inj _).mpr (ih s.tick.session)

theorem after_of_ended {e : Ending} (h : s.phase = .ended e) (n : Nat) :
    s.after (Move.ticks n) = s := by
  induction n with
  | zero => rfl
  | succ n ih => rw [after_ticks_succ, ih, (Ticked.past h).eq_tick]

theorem goesOn_of_live {n : Nat} (hcalm : s.Calm (Move.ticks n))
    (h : (s.after (Move.ticks n)).phase.ending? = none) : s.GoesOn n := by
  induction n generalizing s with
  | zero => trivial
  | succ n ih =>
      have hn : (s.tick.session.after (Move.ticks n)).phase.ending? = none := h
      refine ⟨?_, ih hcalm.2 hn⟩
      cases hv : s.tick.verdict with
      | more => rfl
      | panicked cause => exact absurd (hcalm.1.symm.trans (congrArg Verdict.panic? hv)) nofun
      | ended e =>
          have he := (s.ticked.ending e).mp hv
          rw [after_of_ended he, he] at hn
          cases hn

/-- A session that is going on when the token is set, be it by the sink in the very next tick, runs
until it is stopped, whatever the script has next. -/
theorem run_of_cancelled {n : Nat} (hcalm : s.Calm (Move.ticks (n + 1)))
    (hl : (s.after (Move.ticks n)).phase.ending? = none)
    (hc : (s.after (Move.ticks (n + 1))).stage.cancelled = true) :
    ∃ t, s.run = some t ∧ t.verdict = .ended (.played .stopped) := by
  have hticks : Move.ticks (n + 1) = Move.ticks n ++ [.tick] := List.replicate_succ'
  obtain ⟨hcalm', hv, -⟩ := answers_append.mp (hticks ▸ hcalm)
  have hg := goesOn_of_live hcalm' hl
  rw [after_ticks_succ] at hc
  have hrun {k : Nat} (hg : s.GoesOn k)
      (hv : (s.after (Move.ticks k)).tick.verdict = .ended (.played .stopped)) :
      ∃ t, s.run = some t ∧ t.verdict = .ended (.played .stopped) :=
    ⟨_, run_of_runsFor ⟨hg, by simp [hv]⟩, hv⟩
  cases hs : (s.after (Move.ticks n)).stage.cancelled with
  | true =>
      obtain ⟨-, -, hv⟩ := (s.after (Move.ticks n)).ticked.of_cancelled hs
      rw [hl] at hv
      exact hrun hg hv
  | false =>
      obtain ⟨-, hv⟩ := (s.after (Move.ticks n)).ticked.cut hs hc |>.2 hv
      obtain hv | hv := hv
      · -- The token was set in the last chord of an action: the next tick stops.
        have hl' : (s.after (Move.ticks (n + 1))).phase.ending? = none := by
          rw [after_ticks_succ]
          cases hph : (s.after (Move.ticks n)).tick.session.phase with
          | ended e => rw [((ticked _).ending e).mpr hph] at hv; cases hv
          | idle | running => rfl
        obtain ⟨-, -, hv'⟩ := (s.after (Move.ticks (n + 1))).ticked.of_cancelled
          (by rw [after_ticks_succ, hc])
        rw [hl'] at hv'
        exact hrun (goesOn_of_live hcalm hl') hv'
      · exact hrun hg hv

theorem cut_of_strikeAll {sink : Sink} {t : Timing} {beat : Nat} {cs : List Chord} {s : Stage}
    (hs : s.cancelled = false) (hc : (strikeAll sink t beat cs s).stage.cancelled = true) :
    ∃ k left x, sink.cancelAt = some k ∧ left ++ [x.chord] <+: cs ∧
      Stroke.ofChords sink t beat cs s = left.map Stroke.ofChord ++ [x] ∧
      s.calls + (left.flatMap Chord.block).length < k := by
  induction cs generalizing s with
  | nil => exact absurd (hs.symm.trans hc) nofun
  | cons c cs ih =>
      have hset (h : (strikeBeat sink t beat c s).stage.cancelled = true) :
          ∃ k, sink.cancelAt = some k ∧ s.calls < k := by
        rw [(strikeBeat_reaches sink t beat c s).cancelled, hs, Bool.false_or,
          Sink.hits_eq_true] at h
        obtain ⟨k, hk, hlt, -⟩ := h
        exact ⟨k, hk, hlt⟩
      cases hp : (strikeBeat sink t beat c s).panic? with
      | some cause =>
          rw [strikeAll_of_panic hs hp] at hc
          obtain ⟨k, hk, hlt⟩ := hset hc
          refine ⟨k, [], _, hk, ?_, Stroke.ofChords_of_panic hs hp, hlt⟩
          exact List.prefix_append [c] cs
      | none =>
          rw [strikeAll_of_calm hs hp] at hc
          rw [Stroke.ofChords_of_calm hs hp]
          cases hst : (strikeBeat sink t beat c s).stage.cancelled with
          | true =>
              obtain ⟨k, hk, hlt⟩ := hset hst
              refine ⟨k, [], .ofChord c, hk, List.prefix_append [c] cs, ?_, hlt⟩
              cases cs <;> simp [Stroke.ofChords, hst]
          | false =>
              obtain ⟨k, left, x, hk, hprefix, hstrokes, hlt⟩ := ih hst hc
              refine ⟨k, c :: left, x, hk, ?_, by rw [hstrokes]; rfl, ?_⟩
              · exact (List.prefix_cons_inj c).mpr hprefix
              · rw [(strikeBeat_took hp).calls] at hlt
                rw [List.flatMap_cons, List.length_append, ← Nat.add_assoc]
                exact hlt

/-- The token is set by the call with the number `k` in the stroke `x`, the last of a tick. Unless
the tick panics that stroke is whole, and nothing is done behind it. -/
structure CutIn (s : Session) (k : Nat) (left : List Chord) (x : Stroke) : Prop where
  call : s.sink.cancelAt = some k
  due : left ++ [x.chord] <+: s.due
  strokes : s.strokes = left.map Stroke.ofChord ++ [x]
  begun : s.stage.calls + (left.flatMap Chord.block).length < k
  events : Effect.events s.tick.done = left.flatMap Chord.block ++ x.log
  whole : s.tick.verdict.panic? = none → x.log = x.chord.block ∧
    k ≤ s.stage.calls + (left.flatMap Chord.block ++ x.chord.block).length ∧
    ∃ e, (Effect.timeline s.tick.done).getLast? = some (.sent e)

theorem Ticked.due_ne_nil (h : Ticked s t) (hs : s.stage.cancelled = false)
    (ht : t.session.stage.cancelled = true) : s.due ≠ [] := by
  have hne {line : Nat} {chords : List Chord} (hf : s.Faces ⟨line, .play chords⟩)
      (hr : s.head.rest = 0) (hst : (s.strikes chords).stage.cancelled = true) : s.due ≠ [] := by
    rw [due_eq hf hr]
    rintro rfl
    exact absurd (hs.symm.trans hst) nofun
  cases h with
  | struck hf hr | interrupted hf hr | panicked hf hr => exact hne hf hr ht
  | rested =>
      have hw := s.stage.waitBeat_cancelled s.stage.now s.beat
      exact absurd (hs.symm.trans (hw.symm.trans ht)) nofun
  | past | stopped | finished | overslept | refused | halted | obeyed =>
      exact absurd (hs.symm.trans ht) nofun

theorem cutIn_of_cancelled (hs : s.stage.cancelled = false)
    (hc : s.tick.session.stage.cancelled = true) : ∃ k left x, s.CutIn k left x := by
  have hd := s.ticked.due_ne_nil hs hc
  have hst : (strikeAll s.sink s.timing s.beat s.due s.stage).stage.cancelled = true := by
    rw [tick_of_due hd, stage_play] at hc
    exact hc
  obtain ⟨k, left, x, hk, hdue, hstrokes, hlt⟩ := cut_of_strikeAll hs hst
  have hevents : Effect.events s.tick.done = left.flatMap Chord.block ++ x.log := by
    rw [events_tick, strokes, hstrokes, List.flatMap_append, List.flatMap_singleton, List.flatMap_map]
    rfl
  refine ⟨k, left, x, hk, hdue, hstrokes, hlt, hevents, fun hv => ?_⟩
  have hx : x.log = x.chord.block := whole_of_calm hv x (by rw [strokes, hstrokes]; simp)
  have htook := s.ticked.took hv
  refine ⟨hx, ?_, ((s.ticked.cut hs hc).2 hv).1⟩
  rw [htook.cancelled, hs, Bool.false_or, Sink.hits_eq_true] at hc
  obtain ⟨k', hk', -, hle⟩ := hc
  obtain rfl := Option.some.inj (hk.symm.trans hk')
  rwa [← htook.events, hevents, hx] at hle

/-- What it comes to that the token of a session is set, beside the same session whose token never
is. -/
structure Cancels (s u : Session) : Prop where
  set_iff : ∀ ms, (s.after ms).stage.cancelled = true ↔
    .cancel ∈ ms ∨ ∃ k, s.sink.cancelAt = some k ∧ 0 < k ∧ k ≤ (s.after ms).stage.calls
  events : ∀ ms,
    Effect.events (s.doneIn ms) <+: Effect.events (u.doneIn (Move.ticks (ms.count .tick)))
  sleeps : ∀ ms,
    Effect.sleeps (s.doneIn ms) <+: Effect.sleeps (u.doneIn (Move.ticks (ms.count .tick)))
  timeline : ∀ ms,
    Effect.timeline (s.doneIn ms) <+: Effect.timeline (u.doneIn (Move.ticks (ms.count .tick)))
  silent : ∀ ms ns, (s.after ms).stage.cancelled = true →
    Effect.timeline (s.doneIn (ms ++ ns)) = Effect.timeline (s.doneIn ms)
  last : ∀ ms, (s.after ms).stage.cancelled = false →
    (s.after (ms ++ [.tick])).stage.cancelled = true → ∃ k left x, (s.after ms).CutIn k left x
  tick : ∀ ms, (s.after ms).phase.ending? = none → (s.after ms).stage.cancelled = true →
    (s.after ms).tick.verdict = .ended (.played .stopped)
  run : ∀ ms n, (s.after ms).Calm (Move.ticks (n + 1)) →
    ((s.after ms).after (Move.ticks n)).phase.ending? = none →
    ((s.after ms).after (Move.ticks (n + 1))).stage.cancelled = true →
    ∃ t, (s.after ms).run = some t ∧ t.verdict = .ended (.played .stopped)

/-- Whenever the token is set, what is done is a first part of what would have been done. The stroke
in which it is set is the last, and is whole unless the clock panics in it, and playback is stopped. -/
theorem cancellation (document : Document) (config : Config) (sink : Sink) :
    let s := start document config sink
    s.Cancels (start document config { sink with cancelAt := none }) ∧
      ∀ (cs : List Control) (ts : List Turn), s.history cs = some ts → ∃ ms, s.ComesTo ts ms := by
  intro s
  refine ⟨?_, fun cs ts => history_comesTo⟩
  have hpre (ms : List Move) : Effect.timeline (s.doneIn ms) <+: Effect.timeline
      ((start document config { sink with cancelAt := none }).doneIn
        (Move.ticks (ms.count .tick))) := timeline_prefix s ms
  constructor
  case set_iff =>
    intro ms
    rw [cancelled_after, Bool.or_eq_true, Bool.or_eq_true, Sink.hits_eq_true]
    simp [s, start]
  case events => exact fun ms => Effect.events_prefix (hpre ms)
  case sleeps => exact fun ms => Effect.sleeps_prefix (hpre ms)
  case timeline => exact hpre
  case silent =>
    intro ms ns hc
    rw [doneIn_append, Effect.timeline_append, silent_of_cancelled hc, List.append_nil]
  case last =>
    intro ms hs hc
    rw [after_append] at hc
    exact cutIn_of_cancelled hs hc
  case tick =>
    intro ms hl hc
    obtain ⟨-, -, hv⟩ := (s.after ms).ticked.of_cancelled hc
    rw [hv, hl]
    rfl
  case run => exact fun ms n hcalm hl hc => run_of_cancelled hcalm hl hc

theorem cancellation_last_chord :
    let s := start (.ofActions #[⟨1, .play [.single 'a', .single 'b']⟩, ⟨2, .obey ⟨.bpm, []⟩⟩]) {}
      { cancelAt := some 3 }
    s.Calm [.tick] ∧ (s.after []).stage.cancelled = false ∧
      (s.after [.tick]).stage.cancelled = true ∧ (∃ k left x, s.CutIn k left x) ∧
      ∃ t, s.run = some t ∧ t.verdict = .ended (.played .stopped) := by
  obtain ⟨h, -⟩ := cancellation
    (.ofActions #[⟨1, .play [.single 'a', .single 'b']⟩, ⟨2, .obey ⟨.bpm, []⟩⟩]) {}
    { cancelAt := some 3 }
  exact ⟨⟨rfl, trivial⟩, rfl, rfl, h.last [] rfl rfl, h.run [] 0 ⟨rfl, trivial⟩ rfl rfl⟩

theorem cancelled_pairs {line n calls : Nat} {c : Chord} {k l : Key}
    (hf : s.Faces ⟨line, .play (List.replicate n c ++ [c])⟩) (hr : s.head.rest = 0)
    (hp : s.sink.panicAt = none) (hc : s.sink.cost = 0) (hk : c.keys = [k, l])
    (hs : c.needsShift = false)
    (hlength : s.stage.calls + ((List.replicate n c).flatMap Chord.block).length = calls)
    (hcancel : s.sink.cancelAt = some (calls + 1))
    (hlt : s.stage.now + n * max s.beat (c.span s.timing 0) < timeLimit)
    (hle : timeLimit ≤ s.stage.now + n * max s.beat (c.span s.timing 0) + s.timing.stagger) :
    (s.after [.tick]).stage.cancelled = true ∧
      Effect.events (s.doneIn [.tick]) =
        (List.replicate n c).flatMap Chord.block ++ [.press k, .release k] ∧
      ∃ t, s.run = some t ∧ t.verdict = .panicked .clock := by
  have hfree : Sink.hits s.sink.cancelAt s.stage.calls
      ((List.replicate n c).flatMap Chord.block).length = false := by
    rw [← Bool.not_eq_true, Sink.hits_eq_true, hcancel]
    rintro ⟨m, hm, -, hle⟩
    obtain rfl := Option.some.inj hm
    omega
  obtain ⟨hv, he, hcalls⟩ := tick_pairs hf hr hp hc hk hs hfree hlt hle
  refine ⟨?_, (congrArg Effect.events (List.append_nil _)).trans he, run_of_panicked hv⟩
  rw [cancelled_after, Bool.or_eq_true, Sink.hits_eq_true]
  refine .inr ⟨calls + 1, hcancel, by omega, ?_⟩
  change calls + 1 ≤ s.stage.calls + (s.tick.session.stage.calls - s.stage.calls)
  omega

/-- The second key of the last chord is not pressed, and playback is not stopped. -/
theorem cancelled_in_part :
    let c : Chord := ⟨['a', 'b'], by decide, by decide⟩
    let s := start (.ofActions #[⟨1, .play (List.replicate 1000 c ++ [c])⟩])
      { keyHoldMs := 0, keyStaggerMs := 18446744073709551615 } { cancelAt := some 4001 }
    s.sink.panicAt = none ∧ (s.after [.tick]).stage.cancelled = true ∧
      Effect.events (s.doneIn [.tick]) =
        (List.replicate 1000 c).flatMap Chord.block ++ [.press 'a', .release 'a'] ∧
      ∃ t, s.run = some t ∧ t.verdict = .panicked .clock := by
  intro c s
  have hlength : s.stage.calls + ((List.replicate 1000 c).flatMap Chord.block).length = 4000 := by
    rw [List.length_flatMap, List.map_replicate, List.sum_replicate_nat]
    exact Nat.zero_add (1000 * c.block.length)
  exact ⟨rfl, cancelled_pairs ⟨rfl, rfl, rfl⟩ rfl rfl rfl rfl rfl hlength rfl (by decide) (by decide)⟩

end Session

end ChordScript
