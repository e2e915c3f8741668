import ChordScript.Proofs.Sounds

namespace ChordScript

open Sink (hits)

namespace Session

variable {s : Session} {t : Turn} {a : Action} {ms : List Move}

/-- So many ticks lead up to an action. All that is played in them are so many beats of a rest, and
none of them panics if the time for these is left. -/
structure Rests (s : Session) (ticks beats : Nat) (a : Action) (head : Playhead) : Prop where
  faces : (s.after (Move.ticks ticks)).Faces a
  head : (s.after (Move.ticks ticks)).head = head
  sounds : s.soundsIn (Move.ticks ticks) = List.replicate beats (.rest s.head.tempo)
  intime : s.stage.now + beats * s.beat < timeLimit → s.GoesOn ticks ∧
    (s.after (Move.ticks ticks)).stage.now = s.stage.now + beats * s.beat

namespace Rests

variable {m n beats beats' : Nat} {b : Action} {head head' : Playhead}

theorem refl (hf : s.Faces a) : s.Rests 0 0 a s.head :=
  ⟨hf, rfl, rfl, fun _ => ⟨trivial, by rw [Nat.zero_mul]; rfl⟩⟩

theorem trans (h : s.Rests m beats a head) (ht : head.tempo = s.head.tempo)
    (h' : (s.after (Move.ticks m)).Rests n beats' b head') :
    s.Rests (m + n) (beats + beats') b head' := by
  refine ⟨?_, ?_, ?_, fun hn => ?_⟩
  · rw [Move.ticks_add, after_append]
    exact h'.faces
  · rw [Move.ticks_add, after_append]
    exact h'.head
  · rw [Move.ticks_add, soundsIn_append, h.sounds, h'.sounds, h.head, ht,
      List.replicate_append_replicate]
  · have hbeat : (s.after (Move.ticks m)).beat = s.beat :=
      congrArg beatInterval (by rw [h.head, ht])
    rw [Nat.add_mul] at hn
    obtain ⟨hg, hnow⟩ := h.intime (by omega)
    obtain ⟨hg', hnow'⟩ := h'.intime (by rw [hbeat, hnow]; omega)
    refine ⟨hg.add hg', ?_⟩
    rw [Move.ticks_add, after_append, hnow', hbeat, hnow, Nat.add_mul, Nat.add_assoc]

end Rests

theorem Ticked.after (h : Ticked s t) : s.after (Move.ticks 1) = t.session := by
  obtain rfl := h.eq_tick
  rfl

theorem Ticked.rests {beats : Nat} (h : Ticked s t) (hf : t.session.Faces a)
    (hs : s.sounds = List.replicate beats (.rest s.head.tempo))
    (hn : s.stage.now + beats * s.beat < timeLimit →
      t.verdict = .more ∧ t.session.stage.now = s.stage.now + beats * s.beat) :
    s.Rests 1 beats a t.session.head := by
  obtain rfl := h.eq_tick
  exact ⟨hf, rfl, (List.append_nil _).trans hs, fun h => ⟨⟨(hn h).1, trivial⟩, (hn h).2⟩⟩

theorem rests_beat (hf : s.Faces a) (hr : 0 < s.head.rest) :
    s.Rests 1 1 a { s.head with rest := s.head.rest - 1 } := by
  have hsounds := sounds_of_rest hf hr
  cases hw : s.pause.panic? with
  | none =>
      have hfree := (s.stage.waitBeat_cancelled s.stage.now s.beat).trans hf.free
      have hnow := Stage.waitBeat_now hw hf.free (Nat.le_refl _)
      rw [Nat.max_eq_right (Nat.le_add_right ..)] at hnow
      refine (Ticked.rested hf hr hw).rests ⟨rfl, hfree, hf.action⟩ hsounds fun _ => ⟨rfl, ?_⟩
      rw [Nat.one_mul]
      exact hnow
  | some cause =>
      have hc : s.pause.panic? = some .clock := congrArg Passage.panic? (Stage.waitBeat_panicked hw)
      refine (Ticked.overslept hf hr hc).rests ⟨rfl, hf.free, hf.action⟩ hsounds fun hn => ?_
      rw [Nat.one_mul] at hn
      rw [pause, Stage.waitBeat_fits (Nat.le_refl _) (by omega)] at hc
      cases hc

theorem rests_sitOut (hf : s.Faces a) :
    s.Rests s.head.rest s.head.rest a { s.head with rest := 0 } := by
  -- By induction on the beats of the rest, one of which is gone after each tick.
  induction hr : s.head.rest generalizing s with
  | zero =>
      have hhead : { s.head with rest := 0 } = s.head := by rw [← hr]
      rw [hhead]
      exact .refl hf
  | succ n ih =>
      have hone := rests_beat hf (hr ▸ Nat.succ_pos n)
      have hout := ih hone.faces (by rw [hone.head, hr, Nat.add_sub_cancel])
      rw [hone.head] at hout
      rw [Nat.add_comm]
      exact hone.trans rfl hout

end Session

namespace Document

/-- From the index on there is a rest for each of the numbers. -/
inductive Waits (doc : Document) : Nat → List Int → Prop
  | nil (i : Nat) : Waits doc i []
  | cons {i line : Nat} {value : Text} {args : List Text} {n : Int} {ns : List Int}
      (action : doc.actions[i]? = some ⟨line, .obey ⟨.wait, value :: args⟩⟩)
      (literal : Text.Literal value n) (fits : n < 4294967296) (rest : Waits doc (i + 1) ns) :
      Waits doc i (n :: ns)

theorem Waits.action {doc : Document} {i : Nat} {ns : List Int} (h : doc.Waits i ns) {b : Action}
    (hb : doc.actions[i + ns.length]? = some b) : ∃ a, doc.actions[i]? = some a := by
  cases h with
  | nil => exact ⟨b, hb⟩
  | cons action => exact ⟨_, action⟩

end Document

namespace Session

variable {s : Session} {b : Action}

theorem tick_of_rest {line beats : Nat} {d : Directive} (hf : s.Faces ⟨line, .obey d⟩)
    (hr : s.head.rest = 0) (ho : d.order s.document.tags = .ok (.rest beats)) :
    Ticked s ⟨.more,
      { s.running with head := { s.head with rest := beats, cursor := s.head.cursor + 1 } },
      [.noted (.obeying line d)]⟩ :=
  .obeyed hf hr ho rfl

theorem rests_of_order {line beats : Nat} {d : Directive} (hf : s.Faces ⟨line, .obey d⟩)
    (hr : s.head.rest = 0) (ho : d.order s.document.tags = .ok (.rest beats))
    (hb : s.document.actions[s.head.cursor + 1]? = some b) :
    s.Rests (1 + beats) beats b { s.head with cursor := s.head.cursor + 1 } := by
  have hticked := tick_of_rest hf hr ho
  have hone : s.Rests 1 0 b { s.head with rest := beats, cursor := s.head.cursor + 1 } :=
    hticked.rests ⟨rfl, hf.free, hb⟩ (sounds_of_obey hf hr) fun _ => ⟨rfl, by rw [Nat.zero_mul]; rfl⟩
  have hout := rests_sitOut hone.faces
  rw [hone.head] at hout
  have hall := hone.trans rfl hout
  rw [Nat.zero_add] at hall
  dsimp only at hall ⊢
  rw [hr]
  exact hall

theorem rests_waits {ns : List Int} (hp : s.phase.ending? = none) (hc : s.stage.cancelled = false)
    (hr : s.head.rest = 0) (hw : s.document.Waits s.head.cursor ns)
    (hb : s.document.actions[s.head.cursor + ns.length]? = some b) :
    s.Rests (ns.length + (ns.map Int.toNat).sum) (ns.map Int.toNat).sum b
      { s.head with cursor := s.head.cursor + ns.length } := by
  induction ns generalizing s with
  | nil => exact .refl ⟨hp, hc, hb⟩
  | cons n ns ih =>
      cases hw with
      | cons action literal fits rest =>
          have hcursor : s.head.cursor + (n :: ns).length = s.head.cursor + 1 + ns.length := by
            rw [List.length_cons]
            omega
          rw [hcursor] at hb
          -- What the first rest leads up to is the next of the rests, or the action behind them.
          obtain ⟨a, ha⟩ := rest.action hb
          have hfirst := rests_of_order ⟨hp, hc, action⟩ hr
            (Directive.order_wait rfl rfl literal fits) ha
          have hdocument := (frame_after s (Move.ticks (1 + n.toNat))).1
          have hlater := ih (s := s.after (Move.ticks (1 + n.toNat))) hfirst.faces.live
            hfirst.faces.free (by rw [hfirst.head, hr]) (by rw [hdocument, hfirst.head]; exact rest)
            (by rw [hdocument, hfirst.head]; exact hb)
          rw [hfirst.head] at hlater
          have hall := hfirst.trans rfl hlater
          have hticks : (n :: ns).length + ((n :: ns).map Int.toNat).sum =
              1 + n.toNat + (ns.length + (ns.map Int.toNat).sum) := by
            rw [List.length_cons, List.map_cons, List.sum_cons]
            omega
          rw [hticks, hcursor]
          exact hall

theorem finished_of_wait {line : Nat} {value : Text} {args : List Text} {n : Int}
    (hf : s.Faces ⟨line, .obey ⟨.wait, value :: args⟩⟩) (hr : s.head.rest = 0)
    (hn : Text.Literal value n) (hfits : n < 4294967296)
    (hlast : s.document.actions[s.head.cursor + 1]? = none) :
    (s.after (Move.ticks 1)).tick.verdict = .ended (.played .finished) ∧
      (s.after (Move.ticks 2)).stage.now = s.stage.now := by
  have hticked := tick_of_rest hf hr (Directive.order_wait rfl rfl hn hfits)
  have hfinished : Ticked (s.after (Move.ticks 1))
      ((s.after (Move.ticks 1)).running.finish (.played .finished) []) := by
    rw [hticked.after]
    exact .finished rfl hf.free hlast
  refine ⟨congrArg Turn.verdict hfinished.eq_tick, ?_⟩
  rw [after_ticks_succ, hfinished.eq_tick]
  change (s.after (Move.ticks 1)).stage.now = s.stage.now
  rw [hticked.after]
  rfl

/-- How the clock goes on with a session. -/
structure Advances (s : Session) : Prop where
  ended : s.tick.session.stage.cancelled = false → ∀ e, s.tick.verdict = .ended e →
    s.tick.session.stage.now = s.stage.now
  directive : ∀ line d, s.Faces ⟨line, .obey d⟩ → s.head.rest = 0 →
    s.tick.session.stage.now = s.stage.now
  rest : ∀ a, s.Faces a → 0 < s.head.rest → s.tick.verdict.panic? = none →
    s.tick.session.stage.now = s.stage.now + 60000 / s.head.tempo
  chords : ∀ line cs, s.Faces ⟨line, .play cs⟩ → s.head.rest = 0 →
    s.tick.session.stage.cancelled = false → s.tick.verdict.panic? = none →
    s.tick.session.stage.now =
      s.stage.now + (cs.map fun c => max (60000 / s.head.tempo) (c.time s.timing s.sink.cost)).sum
  fits : hits s.sink.panicAt s.stage.calls (s.due.flatMap Chord.block).length = false →
    s.tick.session.stage.cancelled = false →
    (s.tick.verdict.panic? = none ↔ s.stage.now + s.lasts < timeLimit)
  total : ∀ ms, s.Calm ms → (s.after ms).stage.cancelled = false →
    (s.after ms).stage.now = s.stage.now + s.lastsIn ms ∧
      Effect.events (s.doneIn ms) = ((s.soundsIn ms).filterMap Sound.chord?).flatMap Chord.block
  calm : s.sink.panicAt = none → ∀ ms, (s.after ms).stage.cancelled = false →
    (s.Calm ms ↔ s.stage.now + s.lastsIn ms < timeLimit)
  run : ∀ t, s.run = some t → t.session.stage.cancelled = false → t.verdict.panic? = none →
    ∃ n, t.session = s.after (Move.ticks n) ∧
      t.session.stage.now = s.stage.now + s.lastsIn (Move.ticks n)
  waits : s.phase.ending? = none → s.stage.cancelled = false → s.head.rest = 0 →
    ∀ ns b, s.document.Waits s.head.cursor ns →
      s.document.actions[s.head.cursor + ns.length]? = some b →
      s.Rests (ns.length + (ns.map Int.toNat).sum) (ns.map Int.toNat).sum b
        { s.head with cursor := s.head.cursor + ns.length }
  last : s.phase.ending? = none → s.stage.cancelled = false → s.head.rest = 0 →
    ∀ n, s.document.Waits s.head.cursor [n] → s.document.actions[s.head.cursor + 1]? = none →
      (s.after (Move.ticks 1)).tick.verdict = .ended (.played .finished) ∧
        (s.after (Move.ticks 2)).stage.now = s.stage.now

/-- As long as the token is not set, time passes for the chords and the beats of rests that are
played, each at the tempo at which it is played, and for nothing else. If the sink does not panic,
this goes on for as long as there is time left. -/
theorem clock_advances (document : Document) (config : Config) (sink : Sink) (ms : List Move) :
    let s := (start document config sink).after ms
    s.timing = config.timing ∧ s.sink = sink ∧ s.Advances := by
  intro s
  obtain ⟨-, hsink, htiming⟩ : s.document = document ∧ s.sink = sink ∧ s.timing = config.timing :=
    frame_after (start document config sink) ms
  have ht : 1 ≤ s.head.tempo :=
    tempo_pos_after (s := start document config sink) (Nat.le_max_right ..) ms
  refine ⟨htiming, hsink, ?_⟩
  constructor
  case ended => exact fun hc e he => s.ticked.now_of_ended he hc
  case directive =>
    intro line d hf hr
    rw [hf.tick hr]
    exact congrArg Stage.now (s.running.stage_obey line d)
  case rest =>
    intro a hf hr hv
    have hc : s.tick.session.stage.cancelled = false := (rests_beat hf hr).faces.free
    rw [s.ticked.now hv hc ht, lasts_of_rest hf hr ht, beat_eq ht]
  case chords =>
    intro line cs hf hr hc hv
    rw [s.ticked.now hv hc ht, lasts, sounds_of_play hf hr, List.map_map]
    rfl
  case fits => exact fun hp hc => s.ticked.fits_iff hp hc ht
  case total =>
    intro ns hcalm hc
    obtain ⟨hnow, hstruck⟩ := now_after hcalm hc ht
    exact ⟨hnow, by rw [(log_of_calm hcalm).1, hstruck]⟩
  case calm => exact fun hp ns hc => calm_iff hp hc ht
  case run =>
    intro t hrun hc hv
    obtain ⟨n, hn, rfl⟩ := runsFor_of_run hrun
    exact ⟨n + 1, rfl, (now_after (hn.calm hv) hc ht).1⟩
  case waits => exact fun hp hc hr ns b hw hb => rests_waits hp hc hr hw hb
  case last =>
    intro hp hc hr n hw hlast
    cases hw with
    | cons action literal fits => exact finished_of_wait ⟨hp, hc, action⟩ hr literal fits hlast

/-- Two rests in a row, a chord that overruns its beat, a tempo at which a beat takes no time, a rest
of less than no beats, and a rest at the end. -/
theorem clock_advances_rests :
    let c : Chord := ⟨['a', 'B'], by decide, by decide⟩
    let wait line (value : String) : Action := ⟨line, .obey ⟨.wait, [value.toList]⟩⟩
    let b : Action := ⟨2, .play [c, .single 'd']⟩
    let document : Document := .ofActions #[wait 1 "2", wait 1 "+3", b,
      ⟨3, .obey ⟨.bpm, ["60001".toList]⟩⟩, wait 4 "-1", ⟨5, .play [.single 'e']⟩, wait 6 "9"]
    let s := start document ⟨1000, 30, 2⟩ { cost := 7 }
    s.Rests 7 5 b { s.head with cursor := 2 } ∧
      s.Calm (Move.ticks 13) ∧ (s.after (Move.ticks 13)).stage.cancelled = false ∧
      s.soundsIn (Move.ticks 13) = List.replicate 5 (.rest 1000) ++
        [.chord 1000 c, .chord 1000 (.single 'd'), .chord 60001 (.single 'e')] ∧
      (s.after (Move.ticks 13)).stage.now = 5 * 60 + (74 + 60 + 44) := by
  intro c wait b document s
  have hfree : (s.after (Move.ticks 13)).stage.cancelled = false := by decide
  have hsounds : s.soundsIn (Move.ticks 13) = List.replicate 5 (.rest 1000) ++
      [.chord 1000 c, .chord 1000 (.single 'd'), .chord 60001 (.single 'e')] := by decide
  have htwo : Text.Literal "2".toList 2 := Text.integer?_eq_some.mp (by decide)
  have hthree : Text.Literal "+3".toList 3 := Text.integer?_eq_some.mp (by decide)
  have hwaits : document.Waits 0 [2, 3] :=
    .cons rfl htwo (by decide) (.cons rfl hthree (by decide) (.nil 2))
  have hadvances : s.Advances := (clock_advances document ⟨1000, 30, 2⟩ { cost := 7 } []).2.2
  have hlasts : s.lastsIn (Move.ticks 13) = 5 * 60 + (74 + 60 + 44) := by
    rw [lastsIn, hsounds]
    decide
  have hcalm : s.Calm (Move.ticks 13) :=
    (hadvances.calm rfl (Move.ticks 13) hfree).mpr (by rw [hlasts]; decide)
  refine ⟨hadvances.waits rfl rfl rfl [2, 3] b hwaits rfl, hcalm, hfree, hsounds, ?_⟩
  exact ((hadvances.total (Move.ticks 13) hcalm hfree).1.trans (congrArg (0 + ·) hlasts)).trans
    (Nat.zero_add _)

/-- Notes that are held as long as can be: the clock does not come to the end of their time. -/
theorem clock_stands :
    let chords := List.replicate 1001 (Chord.single 'a')
    let s := start (.ofActions #[⟨1, .play chords⟩]) { keyHoldMs := 18446744073709551615 } {}
    s.Faces ⟨1, .play chords⟩ ∧ s.head.rest = 0 ∧ s.sink.panicAt = none ∧ s.sink.cancelAt = none ∧
      s.tick.verdict = .panicked .clock ∧ s.tick.session.stage.now ≠ s.stage.now +
        (chords.map fun c => max (60000 / s.head.tempo) (c.time s.timing s.sink.cost)).sum := by
  intro chords s
  have hf : s.Faces ⟨1, .play chords⟩ := ⟨rfl, rfl, rfl⟩
  have hv := (tick_overruns hf rfl rfl rfl rfl (by decide)).1
  refine ⟨hf, rfl, rfl, rfl, hv, fun hn => ?_⟩
  have hlt := s.tick.session.stage.now_lt
  rw [hn, List.map_replicate, List.sum_replicate_nat] at hlt
  exact absurd hlt (by decide)

end Session

end ChordScript
