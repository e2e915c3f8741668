import ChordScript.Playback.Session
import ChordScript.Proofs.Strike

namespace ChordScript

def Phase.ending? : Phase → Option Ending
  | ended e => some e
  | _ => none

def Verdict.panic? : Verdict → Option Panic
  | panicked cause => some cause
  | _ => none

theorem Verdict.panic?_eq_some {v : Verdict} {cause : Panic} :
    v.panic? = some cause ↔ v = .panicked cause := by
  cases v <;> simp [panic?]

namespace Session

variable {s : Session} {t : Turn}

def running (s : Session) : Session := { s with phase := .running }

def strikes (s : Session) (chords : List Chord) : Strikes :=
  strikeAll s.sink s.timing s.beat chords s.stage

def pause (s : Session) : Passage := s.stage.waitBeat s.stage.now s.beat

def lessRest (s : Session) : Session :=
  { s.running with head := { s.head with rest := s.head.rest - 1 } }

/-- The session goes on with the given action under its cursor. -/
structure Faces (s : Session) (a : Action) : Prop where
  live : s.phase.ending? = none
  free : s.stage.cancelled = false
  action : s.document.actions[s.head.cursor]? = some a

/-- The turns that a tick can be, each with what leads to it. -/
inductive Ticked (s : Session) : Turn → Prop
  | past {e : Ending} (hp : s.phase = .ended e) : Ticked s ⟨.ended e, s, []⟩
  | stopped (hp : s.phase.ending? = none) (hc : s.stage.cancelled = true) :
      Ticked s (s.running.finish (.played .stopped) [])
  | finished (hp : s.phase.ending? = none) (hc : s.stage.cancelled = false)
      (ha : s.document.actions[s.head.cursor]? = none) :
      Ticked s (s.running.finish (.played .finished) [])
  | rested {a : Action} (hf : s.Faces a) (hr : 0 < s.head.rest) (hw : s.pause.panic? = none) :
      Ticked s ⟨.more, { s.lessRest with stage := s.pause.stage }, s.pause.done⟩
  | overslept {a : Action} (hf : s.Faces a) (hr : 0 < s.head.rest)
      (hw : s.pause.panic? = some .clock) : Ticked s ⟨.panicked .clock, s.lessRest, []⟩
  | struck {line : Nat} {chords : List Chord} (hf : s.Faces ⟨line, .play chords⟩)
      (hr : s.head.rest = 0) (hs : (s.strikes chords).striking = .struck) :
      Ticked s ⟨.more,
        { s.running with
          stage := (s.strikes chords).stage
          head := { s.head with cursor := s.head.cursor + 1 } },
        (s.strikes chords).done⟩
  | interrupted {line : Nat} {chords : List Chord} (hf : s.Faces ⟨line, .play chords⟩)
      (hr : s.head.rest = 0) (hs : (s.strikes chords).striking = .cancelled) :
      Ticked s (finish { s.running with stage := (s.strikes chords).stage } (.played .stopped)
        (s.strikes chords).done)
  | panicked {line : Nat} {chords : List Chord} {cause : Panic}
      (hf : s.Faces ⟨line, .play chords⟩) (hr : s.head.rest = 0)
      (hs : (s.strikes chords).striking = .panicked cause) :
      Ticked s ⟨.panicked cause, { s.running with stage := (s.strikes chords).stage },
        (s.strikes chords).done⟩
  | refused {line : Nat} {d : Directive} {cause : RuntimeError.Cause}
      (hf : s.Faces ⟨line, .obey d⟩) (hr : s.head.rest = 0)
      (ho : d.order s.document.tags = .error cause) :
      Ticked s (s.running.finish (.failed ⟨line, cause⟩) [.noted (.obeying line d)])
  | halted {line : Nat} {d : Directive} {order : Order} (hf : s.Faces ⟨line, .obey d⟩)
      (hr : s.head.rest = 0) (ho : d.order s.document.tags = .ok order)
      (hn : s.head.follow line order = none) :
      Ticked s (s.running.finish (.played .finished) [.noted (.obeying line d)])
  | obeyed {line : Nat} {d : Directive} {order : Order} {head : Playhead} {notices : List Notice}
      (hf : s.Faces ⟨line, .obey d⟩) (hr : s.head.rest = 0)
      (ho : d.order s.document.tags = .ok order)
      (hn : s.head.follow line order = some (head, notices)) :
      Ticked s ⟨.more, { s.running with head }, .noted (.obeying line d) :: notices.map .noted⟩

theorem events_finish (s : Session) (e : Ending) (done : List Effect) :
    Effect.events (s.finish e done).done = Effect.events done := by
  change Effect.events (done ++ [.noted _]) = Effect.events done
  rw [Effect.events_append, Effect.events_noted, Effect.events_nil, List.append_nil]

theorem sitOut_of_calm (hw : s.pause.panic? = none) : s.running.sitOut =
    ⟨.more, { s.lessRest with stage := s.pause.stage }, s.pause.done⟩ := by
  have hw' : (s.running.stage.waitBeat s.running.stage.now s.running.beat).panic? = none := hw
  simp only [sitOut, hw']
  rfl

theorem sitOut_of_panic (hw : s.pause.panic? = some .clock) :
    s.running.sitOut = ⟨.panicked .clock, s.lessRest, []⟩ := by
  have hp : s.running.stage.waitBeat s.running.stage.now s.running.beat =
      ⟨s.stage, [], some .clock⟩ := Stage.waitBeat_panicked hw
  simp only [sitOut, hp]
  rfl

theorem sitOut_ticked {a : Action} (hf : s.Faces a) (hr : 0 < s.head.rest) :
    Ticked s s.running.sitOut := by
  cases hw : s.pause.panic? with
  | none =>
      rw [sitOut_of_calm hw]
      exact .rested hf hr hw
  | some cause =>
      have hc : s.pause.panic? = some .clock := congrArg Passage.panic? (Stage.waitBeat_panicked hw)
      rw [sitOut_of_panic hc]
      exact .overslept hf hr hc

theorem panic?_play (s : Session) (chords : List Chord) :
    (s.play chords).verdict.panic? = (s.strikes chords).striking.panic? := by
  unfold play strikes
  dsimp only
  split <;> simp only [*] <;> rfl

theorem stage_play (s : Session) (chords : List Chord) :
    (s.play chords).session.stage = (s.strikes chords).stage := by
  unfold play
  dsimp only
  split <;> rfl

theorem stage_obey (s : Session) (line : Nat) (d : Directive) :
    (s.obey line d).session.stage = s.stage := by
  unfold obey
  dsimp only
  split
  · rfl
  · split <;> rfl

theorem play_ticked {line : Nat} {chords : List Chord}
    (hf : s.Faces ⟨line, .play chords⟩) (hr : s.head.rest = 0) :
    Ticked s (s.running.play chords) := by
  unfold play
  dsimp only
  split
  · next hs => exact .struck hf hr hs
  · next hs => exact .interrupted hf hr hs
  · next hs => exact .panicked hf hr hs

theorem obey_ticked {line : Nat} {d : Directive} (hf : s.Faces ⟨line, .obey d⟩)
    (hr : s.head.rest = 0) : Ticked s (s.running.obey line d) := by
  unfold obey
  dsimp only
  split
  · next ho => exact .refused hf hr ho
  · next ho =>
      split
      · next hn => exact .halted hf hr ho hn
      · next hn => exact .obeyed hf hr ho hn

theorem advance_ticked (hp : s.phase.ending? = none) : Ticked s s.running.advance := by
  rw [advance]
  split
  · next hc => exact .stopped hp hc
  · next hc =>
      replace hc : s.stage.cancelled = false := by simpa [running] using hc
      split
      · next ha => exact .finished hp hc ha
      · next a ha =>
          have hf : s.Faces a := ⟨hp, hc, ha⟩
          split
          · next hr => exact sitOut_ticked hf hr
          · next hr =>
              replace hr : s.head.rest = 0 := Nat.eq_zero_of_not_pos hr
              obtain ⟨line, step⟩ := a
              cases step with
              | play chords => exact play_ticked hf hr
              | obey d => exact obey_ticked hf hr

theorem ticked (s : Session) : Ticked s s.tick := by
  rw [tick]
  cases hp : s.phase with
  | idle => exact advance_ticked (by rw [hp]; rfl)
  | running => exact advance_ticked (by rw [hp]; rfl)
  | ended e => exact .past hp

theorem tick_of_live (hp : s.phase.ending? = none) : s.tick = s.running.advance := by
  rw [tick]
  split
  · next h => simp [h, Phase.ending?] at hp
  · rfl
  · rfl

theorem Faces.tick_of_rest {a : Action} (hf : s.Faces a) (hr : 0 < s.head.rest) :
    s.tick = s.running.sitOut := by
  rw [tick_of_live hf.live, advance]
  have hc : s.running.stage.cancelled = false := hf.free
  have ha : s.running.document.actions[s.running.head.cursor]? = some a := hf.action
  have hr : 0 < s.running.head.rest := hr
  simp only [hc, ha, hr, Bool.false_eq_true, if_false, if_true]

theorem Faces.tick {a : Action} (hf : s.Faces a) (hr : s.head.rest = 0) :
    s.tick = match a.step with
      | .play chords => s.running.play chords
      | .obey d => s.running.obey a.line d := by
  obtain ⟨line, step⟩ := a
  rw [tick_of_live hf.live]
  cases step <;>
    simp only [advance, running, hf.free, hf.action, hr, Nat.lt_irrefl, Bool.false_eq_true, if_false]

theorem Ticked.eq_tick (h : Ticked s t) : s.tick = t := by
  cases h with
  | past hp => simp only [Session.tick, hp]
  | stopped hp hc =>
      rw [tick_of_live hp]
      simp only [advance, running, hc, if_true]
  | finished hp hc ha =>
      rw [tick_of_live hp]
      simp only [advance, running, hc, ha, Bool.false_eq_true, if_false]
  | rested hf hr hw => rw [hf.tick_of_rest hr, sitOut_of_calm hw]
  | overslept hf hr hw => rw [hf.tick_of_rest hr, sitOut_of_panic hw]
  | struck hf hr hs | interrupted hf hr hs | panicked hf hr hs =>
      rw [hf.tick hr]
      simp only [play, running, strikes, beat] at hs ⊢
      simp only [hs]
  | refused hf hr ho =>
      rw [hf.tick hr]
      simp only [obey, running, ho]
  | halted hf hr ho hn | obeyed hf hr ho hn =>
      rw [hf.tick hr]
      simp only [obey, running, ho, hn]

theorem tick_of_struck {line : Nat} {chords : List Chord} (hf : s.Faces ⟨line, .play chords⟩)
    (hr : s.head.rest = 0) (hs : (s.strikes chords).striking = .struck) :
    s.tick.verdict = .more ∧ s.tick.session.head.cursor = s.head.cursor + 1 := by
  rw [(Ticked.struck hf hr hs).eq_tick]
  exact ⟨rfl, rfl⟩

theorem tick_of_panicked {line : Nat} {chords : List Chord} {cause : Panic}
    (hf : s.Faces ⟨line, .play chords⟩) (hr : s.head.rest = 0)
    (hs : (s.strikes chords).striking = .panicked cause) :
    s.tick.verdict = .panicked cause ∧ s.tick.session.head = s.head := by
  rw [(Ticked.panicked hf hr hs).eq_tick]
  exact ⟨rfl, rfl⟩

theorem Ticked.ending (h : Ticked s t) (e : Ending) :
    t.verdict = .ended e ↔ t.session.phase = .ended e := by
  cases h <;> simp [finish, lessRest, running, *]

def due (s : Session) : List Chord :=
  match s.phase.ending?, s.stage.cancelled, s.document.actions[s.head.cursor]?, s.head.rest with
  | none, false, some ⟨_, .play chords⟩, 0 => chords
  | _, _, _, _ => []

/-- The chords that a tick strikes if the sink does not panic. -/
def struck (s : Session) : List Chord := s.sink.struck s.stage.calls s.due

theorem due_eq {line : Nat} {chords : List Chord}
    (hf : s.Faces ⟨line, .play chords⟩) (hr : s.head.rest = 0) : s.due = chords := by
  simp [due, hf.live, hf.free, hf.action, hr]

theorem struck_eq_nil (h : s.due = []) : s.struck = [] := by
  rw [struck, h, Sink.struck]

theorem Ticked.frame (h : Ticked s t) :
    t.session.document = s.document ∧ t.session.sink = s.sink ∧ t.session.timing = s.timing := by
  cases h <;> exact ⟨rfl, rfl, rfl⟩

theorem strikes_took {chords : List Chord} (hc : s.stage.cancelled = false)
    (h : (s.strikes chords).striking.panic? = none) :
    Took s.sink s.stage ((s.sink.struck s.stage.calls chords).flatMap Chord.block)
      (s.strikes chords).stage (s.strikes chords).done :=
  strikeAll_took hc h

theorem Ticked.took (h : Ticked s t) (hv : t.verdict.panic? = none) :
    Took s.sink s.stage (s.struck.flatMap Chord.block) t.session.stage t.done := by
  cases h with
  | past hp =>
      rw [struck_eq_nil (by simp [due, hp, Phase.ending?])]
      exact .refl _ _
  | stopped hp hc =>
      rw [struck_eq_nil (by simp [due, hp, hc])]
      exact .silent _ _ rfl
  | finished hp hc ha =>
      rw [struck_eq_nil (by simp [due, hp, hc, ha])]
      exact .silent _ _ rfl
  | rested hf hr hw =>
      obtain ⟨n, hn⟩ := Nat.exists_eq_add_of_lt hr
      rw [struck_eq_nil (by simp [due, hf.live, hf.free, hf.action, hn])]
      exact s.stage.waitBeat_took s.sink s.stage.now s.beat
  | struck hf hr hs =>
      rw [Session.struck, due_eq hf hr]
      exact strikes_took hf.free (by rw [hs]; rfl)
  | interrupted hf hr hs =>
      rw [Session.struck, due_eq hf hr]
      exact (strikes_took hf.free (by rw [hs]; rfl)).note _
  | overslept | panicked => cases hv
  | refused hf hr ho =>
      rw [struck_eq_nil (by simp [due, hf.live, hf.free, hf.action])]
      exact .silent _ _ rfl
  | halted hf hr ho hn =>
      rw [struck_eq_nil (by simp [due, hf.live, hf.free, hf.action])]
      exact .silent _ _ rfl
  | obeyed hf hr ho hn =>
      rw [struck_eq_nil (by simp [due, hf.live, hf.free, hf.action])]
      exact .silent _ _ (by simp)

theorem Ticked.panic (h : Ticked s t) (hv : t.verdict = .panicked .sink) :
    ∃ left c right before e after, s.due = left ++ c :: right ∧ c.block = before ++ e :: after ∧
      s.sink.panicAt =
        some (s.stage.calls + (left.flatMap Chord.block).length + before.length + 1) ∧
      s.stage.calls + (left.flatMap Chord.block).length + before.length < t.session.stage.calls ∧
      Effect.events t.done = left.flatMap Chord.block ++
        (before ++ Cue.events ((before ++ [e]).foldl Hand.after {}).letGo) := by
  cases h with
  | panicked hf hr hs =>
      obtain rfl := Verdict.panicked.inj hv
      obtain ⟨left, c, right, s', done, hd, ht, -, hp, hst, hdone⟩ := strikeAll_panicked hs
      obtain ⟨hp, heq⟩ | ⟨-, hc, -⟩ := strikeBeat_panicked hp
      · obtain ⟨before, e, after, hb, hk, hc, he, -⟩ := strike_refused hp
        rw [ht.calls] at hk hc
        refine ⟨left, c, right, before, e, after, by rw [due_eq hf hr, hd], hb, hk, ?_, ?_⟩
        · have hcalls := congrArg Stage.calls (hst.trans (congrArg Passage.stage heq))
          exact Nat.lt_of_lt_of_eq (by omega) hcalls.symm
        · refine (congrArg Effect.events hdone).trans ?_
          rw [Effect.events_append, ht.events, heq, he]
      · cases hc
  | past | stopped | finished | rested | overslept | struck | interrupted | refused | halted
    | obeyed => cases hv

theorem Ticked.calm (h : Ticked s t) (hp : s.sink.panicAt = none) : t.verdict ≠ .panicked .sink := by
  intro hv
  obtain ⟨left, c, right, before, e, after, -, -, hk, -⟩ := h.panic hv
  rw [hp] at hk
  cases hk

theorem Ticked.reaches (h : Ticked s t) : s.stage.Reaches s.sink t.session.stage := by
  cases h with
  | rested => exact s.stage.waitBeat_reaches s.sink ..
  | struck | interrupted | panicked => exact strikeAll_reaches ..
  | _ => exact .refl s.sink s.stage

end Session

end ChordScript
