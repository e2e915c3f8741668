import ChordScript.Proofs.Score
import ChordScript.Proofs.Sounds

namespace ChordScript

namespace Session

section Leads

variable {s s' s'' : Session} {es es' : List KeyEvent} {ms ms' : Nat} {p q : Session → Prop}

/-- Some ticks that all ask for more make one session of another, in so many milliseconds and with
the given events. -/
def Leads (s s' : Session) (es : List KeyEvent) (ms : Nat) : Prop :=
  ∃ n, s.GoesOn n ∧ s.after (Move.ticks n) = s' ∧ Effect.events (s.doneIn (Move.ticks n)) = es ∧
    s'.stage.now = s.stage.now + ms

theorem Leads.now (h : s.Leads s' es ms) : s'.stage.now = s.stage.now + ms := by
  obtain ⟨n, -, -, -, hnow⟩ := h
  exact hnow

theorem Leads.refl (s : Session) : s.Leads s [] 0 := ⟨0, trivial, rfl, rfl, rfl⟩

theorem Leads.trans (h : s.Leads s' es ms) (h' : s'.Leads s'' es' ms') :
    s.Leads s'' (es ++ es') (ms + ms') := by
  obtain ⟨m, hm, rfl, rfl, hnow⟩ := h
  obtain ⟨n, hn, rfl, rfl, hnow'⟩ := h'
  refine ⟨m + n, hm.add hn, ?_, ?_, ?_⟩
  · rw [Move.ticks_add, after_append]
  · rw [Move.ticks_add, doneIn_append, Effect.events_append]
  · rw [hnow', hnow, Nat.add_assoc]

theorem Ticked.leads {t : Turn} (h : Ticked s t) (hv : t.verdict = .more)
    (he : Effect.events t.done = es) (hnow : t.session.stage.now = s.stage.now + ms) :
    s.Leads t.session es ms := by
  obtain rfl := h.eq_tick
  exact ⟨1, ⟨hv, trivial⟩, rfl, (congrArg _ (List.append_nil _)).trans he, hnow⟩

theorem Leads.run (h : s.Leads s' es ms) (hv : s'.tick.verdict ≠ .more) :
    ∃ t, s.run = some t ∧ t.verdict = s'.tick.verdict ∧ t.session = s'.tick.session ∧
      Effect.events t.done = es ++ Effect.events s'.tick.done := by
  obtain ⟨n, hn, rfl, rfl, -⟩ := h
  refine ⟨_, run_of_runsFor ⟨hn, hv⟩, rfl, after_ticks_succ s n, ?_⟩
  rw [Effect.events_noted, doneIn_ticks_succ, Effect.events_append]

def Overruns (s : Session) : Prop :=
  ∃ n, s.GoesOn n ∧ (s.after (Move.ticks n)).tick.verdict = .panicked .clock

theorem overruns_of_tick (h : s.tick.verdict = .panicked .clock) : s.Overruns := ⟨0, trivial, h⟩

theorem Leads.overruns (h : s.Leads s' es ms) (h' : s'.Overruns) : s.Overruns := by
  obtain ⟨m, hm, rfl, -⟩ := h
  obtain ⟨n, hn, hv⟩ := h'
  exact ⟨m + n, hm.add hn, by rwa [Move.ticks_add, after_append]⟩

theorem Overruns.run (h : s.Overruns) : ∃ t, s.run = some t ∧ t.verdict = .panicked .clock := by
  obtain ⟨n, hn, hv⟩ := h
  exact ⟨_, run_of_runsFor ⟨hn, fun hm => nomatch hv.symm.trans hm⟩, hv⟩

/-- In so many milliseconds and with the given events the session comes to what is said, if there is
so much time left. If there is not, the clock panics on the way. -/
structure Spends (s : Session) (es : List KeyEvent) (ms : Nat) (p : Session → Prop) : Prop where
  intime : s.stage.now + ms < timeLimit → ∃ s', s.Leads s' es ms ∧ p s'
  late : timeLimit ≤ s.stage.now + ms → s.Overruns

theorem Spends.refl (h : p s) : s.Spends [] 0 p :=
  ⟨fun _ => ⟨s, .refl s, h⟩, fun hn => absurd s.stage.now_lt (Nat.not_lt_of_le hn)⟩

theorem Spends.trans (h : s.Spends es ms p) (h' : ∀ s', p s' → s'.Spends es' ms' q) :
    s.Spends (es ++ es') (ms + ms') q := by
  constructor
  · intro hn
    obtain ⟨s', hs', hp⟩ := h.intime (by omega)
    obtain ⟨s'', hs'', hq⟩ := (h' s' hp).intime (by rw [hs'.now]; omega)
    exact ⟨s'', hs'.trans hs'', hq⟩
  · intro hn
    by_cases hlt : s.stage.now + ms < timeLimit
    · obtain ⟨s', hs', hp⟩ := h.intime hlt
      exact hs'.overruns ((h' s' hp).late (by rw [hs'.now]; omega))
    · exact h.late (Nat.le_of_not_lt hlt)

end Leads

/-- The given actions are still to be played at a tempo that does not change any more, and nothing
is in their way. -/
structure Ahead (s : Session) (beat : Nat) (t : Timing) (as : List Action) : Prop where
  live : s.phase.ending? = none
  free : s.stage.cancelled = false
  sink : s.sink = {}
  beat : s.beat = beat
  timing : s.timing = t
  left : s.document.actions.toList.drop s.head.cursor = as

variable {s : Session} {beat line n : Nat} {t : Timing} {a : Action} {as : List Action}
  {chords cs : List Chord}

namespace Ahead

theorem faces (h : s.Ahead beat t (a :: as)) : s.Faces a where
  live := h.live
  free := h.free
  action := by
    rw [← Array.getElem?_toList, ← Nat.add_zero s.head.cursor, ← List.getElem?_drop, h.left]
    rfl

theorem left_next (h : s.Ahead beat t (a :: as)) :
    s.document.actions.toList.drop (s.head.cursor + 1) = as := by
  rw [← List.drop_drop, h.left]
  rfl

theorem play (h : s.Ahead beat t (⟨line, .play chords⟩ :: as)) (hr : s.head.rest = 0) :
    s.Spends (chords.flatMap Chord.block) (chords.map fun c => max beat (c.span t 0)).sum
      fun s' => s'.Ahead beat t as ∧ s'.head.rest = 0 := by
  obtain rfl := h.beat
  obtain rfl := h.timing
  have hcost : s.sink.cost = 0 := congrArg Sink.cost h.sink
  have hpanic : s.sink.panicAt = none := congrArg Sink.panicAt h.sink
  have hcancel : s.sink.cancelAt = none := congrArg Sink.cancelAt h.sink
  have hsum : (chords.map fun c => max s.beat (c.span s.timing 0)).sum =
      (chords.map fun c => max s.beat (c.span s.timing s.sink.cost)).sum := by rw [hcost]
  rw [hsum]
  constructor
  · intro hn
    obtain ⟨hstruck, hfree⟩ := strikeAll_struck s.timing s.beat h.free
      (by rw [hcancel]; rfl) (by rw [hpanic]; rfl) hn
    have htook := strikeAll_took h.free (congrArg Striking.panic? hstruck)
    have hall := htook.cancelled
    rw [hfree, eq_comm, Bool.or_eq_false_iff] at hall
    have hevents := htook.events
    rw [Sink.struck_eq_self s.sink hall.2] at hevents
    refine ⟨_, (Ticked.struck h.faces hr hstruck).leads rfl hevents (strikeAll_now hstruck hfree), ?_⟩
    exact ⟨⟨rfl, hfree, h.sink, rfl, rfl, h.left_next⟩, hr⟩
  · intro hn
    exact overruns_of_tick
      (tick_of_panicked h.faces hr (strikeAll_overruns hcost hpanic hcancel h.free hn)).1

theorem rest (h : s.Ahead beat t (.rest line n :: as)) (hr : s.head.rest = 0)
    (hn : n < UInt32.size) :
    s.Spends [] 0 fun s' => s'.Ahead beat t as ∧ s'.head.rest = n where
  intime _ := ⟨_, (Ticked.obeyed h.faces hr (Directive.order_rest hn _) rfl).leads rfl rfl rfl,
    ⟨rfl, h.free, h.sink, h.beat, h.timing, h.left_next⟩, rfl⟩
  late hlate := absurd s.stage.now_lt (Nat.not_lt_of_le hlate)

theorem sitOutBeat (h : s.Ahead beat t (a :: as)) (hr : 0 < s.head.rest) :
    s.Spends [] beat fun s' => s'.Ahead beat t (a :: as) ∧ s'.head.rest = s.head.rest - 1 := by
  obtain rfl := h.beat
  have hfits (hn : s.stage.now + s.beat < timeLimit) : s.pause.panic? = none :=
    Stage.waitBeat_fits (Nat.le_refl _) (by rwa [Nat.max_eq_right (Nat.le_add_right ..)])
  cases hw : s.pause.panic? with
  | none =>
      have hnow := Stage.waitBeat_now hw h.free (Nat.le_refl _)
      rw [Nat.max_eq_right (Nat.le_add_right ..)] at hnow
      have htook := s.stage.waitBeat_took s.sink s.stage.now s.beat
      have hfree := (s.stage.waitBeat_cancelled s.stage.now s.beat).trans h.free
      refine ⟨fun _ => ⟨_, (Ticked.rested h.faces hr hw).leads rfl htook.events hnow, ?_⟩, fun hlate => ?_⟩
      · exact ⟨⟨rfl, hfree, h.sink, rfl, h.timing, h.left⟩, rfl⟩
      · exact absurd (hnow ▸ s.pause.stage.now_lt) (Nat.not_lt_of_le hlate)
  | some cause =>
      have hc : s.pause.panic? = some .clock := congrArg Passage.panic? (Stage.waitBeat_panicked hw)
      refine ⟨fun hn => absurd (hw.symm.trans (hfits hn)) nofun, fun _ => overruns_of_tick ?_⟩
      exact congrArg Turn.verdict (Ticked.overslept h.faces hr hc).eq_tick

theorem sitOut (h : s.Ahead beat t as) (hne : as ≠ []) :
    s.Spends [] (beat * s.head.rest) fun s' => s'.Ahead beat t as ∧ s'.head.rest = 0 := by
  obtain ⟨a, as, rfl⟩ := List.exists_cons_of_ne_nil hne
  -- By induction on the beats of the rest, one of which is gone after each tick.
  induction hr : s.head.rest generalizing s with
  | zero => exact Spends.refl ⟨h, hr⟩
  | succ n ih =>
      rw [Nat.mul_succ, Nat.add_comm]
      refine (h.sitOutBeat (hr ▸ Nat.succ_pos n)).trans fun s' hs' => ih hs'.1 ?_
      rw [hs'.2, hr, Nat.add_sub_cancel]

theorem score (h : s.Ahead beat t as) (hr : s.head.rest = 0) (hs : Score as cs n) :
    s.Spends (cs.flatMap Chord.block) (beat * n + (cs.map fun c => max beat (c.span t 0)).sum)
      fun s' => s'.Ahead beat t [] := by
  induction hs generalizing s with
  | nil => exact .refl h
  | play line chords _ ih =>
      rw [List.flatMap_append, List.map_append, List.sum_append, Nat.add_left_comm]
      exact (h.play hr).trans fun s' hs' => ih hs'.1 hs'.2
  | rest line hn hne _ ih =>
      have hout := (h.rest hr hn).trans fun s' hs' => hs'.2 ▸ hs'.1.sitOut hne
      rw [Nat.mul_add, Nat.add_assoc]
      simpa using hout.trans fun s' hs' => ih hs'.1 hs'.2

theorem finish (h : s.Ahead beat t []) : Ticked s (s.running.finish (.played .finished) []) := by
  refine .finished h.live h.free ?_
  rw [← Array.getElem?_toList]
  exact List.getElem?_eq_none (List.drop_eq_nil_iff.mp h.left)

end Ahead

theorem ahead_start (document : Document) (config : Config) :
    (start document config {}).Ahead (60000 / config.tempo) config.timing
      document.actions.toList where
  live := rfl
  free := rfl
  sink := rfl
  beat := congrArg (60000 / ·) (Nat.max_eq_left (Nat.le_max_right ..))
  timing := rfl
  left := List.drop_zero ..

theorem spends_of_melodic {source : Text} (h : source.Melodic) (config : Config) :
    ∃ script, Script.compile source = .ok script ∧
      (start script.document config {}).Spends (source.chordsIn.flatMap Chord.block)
        (60000 / config.tempo * source.restsIn +
          (source.chordsIn.map fun c => max (60000 / config.tempo) (c.span config.timing 0)).sum)
        fun s => s.Ahead (60000 / config.tempo) config.timing [] := by
  obtain ⟨script, hc, hscore⟩ := Script.score_of_compile h
  exact ⟨script, hc, (ahead_start script.document config).score rfl hscore⟩

/-- A melody compiles and is played to its end, if there is the time for it. What it sends are the
blocks of all its chords in their order, and it takes a beat for each rest before a note and for each
chord its time, but a beat at least. If there is not, the clock panics. -/
theorem melody_plays (source : Text) (h : source.Melodic) (config : Config) :
    let beat := 60000 / config.tempo
    let time (c : Chord) := (c.keys.length - 1) * config.timing.stagger + config.timing.hold
    let total := beat * source.restsIn + (source.chordsIn.map fun c => max beat (time c)).sum
    ∃ script t, Script.compile source = .ok script ∧
      (start script.document config {}).run = some t ∧
      (total < timeLimit → t.verdict = .ended (.played .finished) ∧
        Effect.events t.done = source.chordsIn.flatMap Chord.block ∧ t.session.stage.now = total) ∧
      (timeLimit ≤ total → t.verdict = .panicked .clock) := by
  intro beat time total
  obtain ⟨script, hc, hspends⟩ := spends_of_melodic h config
  have htotal : (start script.document config {}).stage.now + (60000 / config.tempo * source.restsIn +
      (source.chordsIn.map fun c => max (60000 / config.tempo) (c.span config.timing 0)).sum) = total := by
    simp [start, total, beat, time, Chord.span]
  by_cases hlt : total < timeLimit
  · obtain ⟨s', hleads, hend⟩ := hspends.intime (htotal ▸ hlt)
    have hnow := hleads.now
    have htick := hend.finish.eq_tick
    obtain ⟨t, hrun, hv, hs, he⟩ := hleads.run (by rw [htick]; exact Verdict.noConfusion)
    rw [htick] at hv hs he
    refine ⟨script, t, hc, hrun, fun _ => ⟨hv, ?_, ?_⟩, fun hle => absurd hlt (Nat.not_lt_of_le hle)⟩
    · rw [he]
      exact List.append_nil _
    · rw [hs]
      exact hnow.trans htotal
  · obtain ⟨t, hrun, hv⟩ := (hspends.late (htotal ▸ Nat.le_of_not_lt hlt)).run
    exact ⟨script, t, hc, hrun, fun h => absurd h hlt, fun _ => hv⟩

theorem melodic_of_plain {l : Text} (ht : (NoteLine.tokens l).isOk = true) (hc : l.head? ≠ some ',')
    (hb : l.all (!isBrace ·) = true) (hl : l.length < UInt32.size) : Line.Melodic l := by
  refine .inr ⟨hc, by simpa [BraceFree] using hb, ?_, fun p hp _ => Nat.lt_of_le_of_lt hp.length_le hl⟩
  cases h : NoteLine.tokens l with
  | ok ts => exact ⟨ts, rfl⟩
  | error e =>
      rw [h] at ht
      cases ht

theorem melody_plays_lines :
    let source : Text := "# a.b\n.. a[bCb] .d.\n\n[ef] ".toList
    let config : Config := ⟨6000, 11, 2⟩
    source.Melodic ∧ source.chordsIn = [.single 'a', ⟨['b', 'C'], by decide, by decide⟩, .single 'd',
        ⟨['e', 'f'], by decide, by decide⟩] ∧ source.restsIn = 5 ∧
      ∃ script t, Script.compile source = .ok script ∧
        (start script.document config {}).run = some t ∧ t.verdict = .ended (.played .finished) ∧
          Effect.events t.done = source.chordsIn.flatMap Chord.block ∧
          t.session.stage.now = 10 * 5 + (11 + 13 + 11 + 13) := by
  intro source config
  have h : source.Melodic := by
    have hlines : source.lines =
        ["# a.b".toList, ".. a[bCb] .d.".toList, [], "[ef] ".toList] := rfl
    rw [Text.Melodic, hlines, List.forall_mem_cons, List.forall_mem_cons, List.forall_mem_cons,
      List.forall_mem_singleton]
    exact ⟨.inl rfl, melodic_of_plain rfl (by decide) rfl (by decide), .inl rfl,
      melodic_of_plain rfl (by decide) rfl (by decide)⟩
  obtain ⟨script, t, hc, hrun, hfits, -⟩ := melody_plays source h config
  obtain ⟨hv, he, hnow⟩ := hfits (by decide)
  exact ⟨h, rfl, rfl, script, t, hc, hrun, hv, he, hnow.trans (by decide)⟩

/-- So many notes on one line, held as long as can be. -/
theorem melody_overruns :
    let source : Text := List.replicate 1001 'a'
    let config : Config := { keyHoldMs := 18446744073709551615 }
    source.Melodic ∧ ∃ script t, Script.compile source = .ok script ∧
      (start script.document config {}).run = some t ∧ t.verdict = .panicked .clock := by
  intro source config
  have h : source.Melodic := by
    have hlines : source.lines = [source] := by decide +kernel
    rw [Text.Melodic, hlines, List.forall_mem_singleton]
    exact melodic_of_plain (by decide +kernel) (by decide +kernel) (by decide +kernel) (by decide +kernel)
  have hchords : source.chordsIn = List.replicate 1001 (.single 'a') := by decide +kernel
  obtain ⟨script, hc, hspends⟩ := spends_of_melodic h config
  have hlong : timeLimit ≤ 1001 * max (60000 / config.tempo) ((Chord.single 'a').span config.timing 0) := by
    decide
  rw [hchords, List.map_replicate, List.sum_replicate_nat] at hspends
  obtain ⟨t, hrun, hv⟩ :=
    (hspends.late (Nat.le_add_left_of_le (Nat.le_add_left_of_le hlong))).run
  exact ⟨h, script, t, hc, hrun, hv⟩

end Session

end ChordScript
