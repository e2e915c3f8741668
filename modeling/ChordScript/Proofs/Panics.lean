import ChordScript.Proofs.Steady
import ChordScript.Proofs.Strokes

namespace ChordScript

open KeyEvent (heldKeys shiftHeld)
open Sink (hits)

section

variable {sink : Sink} {t : Timing} {beat : Nat} {c : Chord} {s : Stage}

theorem strikeBeat_refused_at {before after : List KeyEvent} {e : KeyEvent}
    (hb : c.block = before ++ e :: after) (hk : sink.panicAt = some (s.calls + before.length + 1))
    (hi : InTime (strikeBeat sink t beat c s).panic?) :
    (strikeBeat sink t beat c s).panic? = some .sink ∧
      s.calls + before.length < (strikeBeat sink t beat c s).stage.calls ∧
      Effect.events (strikeBeat sink t beat c s).done = before ++ Hand.wayOut before e ∧
      ∃ taken, Effect.events taken = before ∧ (strikeBeat sink t beat c s).done =
        taken ++ .noted (.sending e) :: (Hand.wayOut before e).flatMap sink.taking := by
  obtain hp | hp := hi
  · have hhit : hits sink.panicAt s.calls c.block.length = true := by
      rw [hb, Sink.hits_eq_true]
      refine ⟨_, hk, by omega, ?_⟩
      rw [List.length_append, List.length_cons]
      omega
    exact absurd ((strikeBeat_took hp).calm.symm.trans hhit) nofun
  · obtain ⟨hstrike, heq⟩ | ⟨-, hclock, -⟩ := strikeBeat_panicked hp
    · obtain ⟨before', e', after', hb', hk', hcalls, hrest⟩ := strike_refused hstrike
      have hlength : before.length = before'.length := by
        rw [hk, Option.some.injEq] at hk'
        omega
      obtain ⟨rfl, hcons⟩ := List.append_inj (hb.symm.trans hb') hlength
      obtain ⟨rfl, rfl⟩ := List.cons.inj hcons
      rw [heq]
      exact ⟨hstrike, by omega, hrest⟩
    · cases hclock

end

namespace Session

/-- In the tick after some moves the sink panics at the event `e` of a chord. No stroke before it is
broken, and `rest` is sent on the way out. -/
structure BreaksOff (s : Session) (ms : List Move) (left : List Chord) (c : Chord)
    (before : List KeyEvent) (e : KeyEvent) (after rest : List KeyEvent) : Prop where
  due : ∃ right, (s.after ms).due = left ++ c :: right
  block : c.block = before ++ e :: after
  call : s.sink.panicAt = some
    ((s.after ms).stage.calls + (left.flatMap Chord.block).length + before.length + 1)
  unbroken : ∀ x ∈ s.strokesIn ms, x.Unbroken
  whole : s.Calm ms → ∀ x ∈ s.strokesIn ms, x.Whole
  log : Effect.events (s.doneIn (ms ++ [.tick])) =
    (s.strokesIn ms).flatMap Stroke.log ++ left.flatMap Chord.block ++ (before ++ rest)

/-- The release guard of a chord at work: the keys pressed and the shift are released whenever the
sink panics, except for the keys that come after one whose release panics. -/
theorem guard_releases (document : Document) (config : Config) (sink : Sink) (ms : List Move)
    (hl : (start document config sink).Lives ms)
    (hv : ((start document config sink).after ms).tick.verdict = .panicked .sink) :
    let s := start document config sink
    let log := Effect.events (s.doneIn (ms ++ [.tick]))
    ∃ left c before e after rest, s.BreaksOff ms left c before e after rest ∧
      (Released before e rest ↔ ∀ k l, e = .release k → .release l ∉ after) ∧
      heldKeys log = stuck e after ∧ shiftHeld log = decide (e = .shiftUp) := by
  intro s log
  obtain ⟨left, c, right, before, e, after, hdue, hb, hk, -, he⟩ := (s.after ms).ticked.panic hv
  rw [(frame_after s ms).2.1] at hk
  have hlate : ¬ (s.after ms).Late := not_late (by rw [hv]; nofun) (by simp [hdue])
  have hunbroken : ∀ x ∈ s.strokesIn ms, x.Unbroken := unbroken_strokesIn hl hlate fun k hp _ => by
    rw [hk, Option.some.injEq] at hp
    omega
  have hlog : log =
      (s.strokesIn ms).flatMap Stroke.log ++ left.flatMap Chord.block ++
        (before ++ Hand.wayOut before e) := by
    have hlast : (s.after ms).doneIn [.tick] = (s.after ms).tick.done := List.append_nil _
    change Effect.events (s.doneIn (ms ++ [.tick])) = _
    rw [doneIn_append, Effect.events_append, events_strokesIn, hlast, he, List.append_assoc]
    rfl
  have hsplits := Chord.splits_of_block hb
  have hbal := (Stroke.balanced_of_unbroken hunbroken).append (Chord.balanced_blocks left)
  refine ⟨left, c, before, e, after, Hand.wayOut before e,
    ⟨⟨right, hdue⟩, hb, hk, hunbroken, whole_strokesIn, hlog⟩, hsplits.released_iff, ?_, ?_⟩
  · rw [hlog, hbal.heldKeys_append, hsplits.heldKeys_wayOut]
  · rw [hlog, hbal.shiftHeld_append, hsplits.shiftHeld_wayOut]

theorem guard_releases_press :
    let s := start (.ofActions #[⟨1, .play [⟨['a', 'B'], by decide, by decide⟩]⟩]) {}
      { panicAt := some 3 }
    s.Lives [] ∧ s.tick.verdict = .panicked .sink ∧
      ∃ left c before e after rest, s.BreaksOff [] left c before e after rest ∧
        (Released before e rest ↔ ∀ k l, e = .release k → .release l ∉ after) ∧
        heldKeys (Effect.events (s.doneIn [.tick])) = stuck e after ∧
        shiftHeld (Effect.events (s.doneIn [.tick])) = decide (e = .shiftUp) :=
  ⟨trivial, rfl, guard_releases (.ofActions #[⟨1, .play [⟨['a', 'B'], by decide, by decide⟩]⟩]) {}
    { panicAt := some 3 } [] trivial rfl⟩

/-- The release of the first of two keys panics, and the second key stays down. -/
theorem guard_loses_key :
    let c : Chord := ⟨['a', 'b'], by decide, by decide⟩
    let s := start (.ofActions #[⟨1, .play [c]⟩]) {} { panicAt := some 3 }
    s.tick.verdict = .panicked .sink ∧
      s.BreaksOff [] [] c [.press 'a', .press 'b'] (.release 'a') [.release 'b'] [] ∧
      ¬ Released [.press 'a', .press 'b'] (.release 'a') [] ∧
      heldKeys (Effect.events s.tick.done) = ['a', 'b'] := by
  refine ⟨rfl, ⟨⟨[], rfl⟩, rfl, rfl, nofun, nofun, rfl⟩, ?_, rfl⟩
  intro hr
  have hk := hr.keys 'b' (by decide)
  revert hk
  decide

/-- The next tick comes to the chord `c` of the action under the cursor, and the sink panics at the
event `e` of that chord. Neither before nor after does the tick come to the end of the time. -/
structure PanicsAt (s : Session) (left : List Chord) (c : Chord) (right : List Chord)
    (before : List KeyEvent) (e : KeyEvent) (after : List KeyEvent) : Prop where
  action : ∃ line, s.Faces ⟨line, .play (left ++ c :: right)⟩
  rest : s.head.rest = 0
  free : hits s.sink.cancelAt s.stage.calls (left.flatMap Chord.block).length = false
  block : c.block = before ++ e :: after
  call : s.sink.panicAt =
    some (s.stage.calls + (left.flatMap Chord.block).length + before.length + 1)
  intime : InTime s.tick.verdict.panic?

/-- What a tick comes to if the sink panics at the event `e` of the chord `c`. -/
structure GivesUp (s : Session) (left : List Chord) (c : Chord) (right : List Chord)
    (before : List KeyEvent) (e : KeyEvent) : Prop where
  verdict : s.tick.verdict = .panicked .sink
  log : ∃ broken, c.Broken e broken ∧
    Effect.events s.tick.done = left.flatMap Chord.block ++ broken
  awake : ∃ (taken : List Effect) (rest : List KeyEvent), Effect.events taken = left.flatMap Chord.block ++ before ∧
    s.tick.done = taken ++ .noted (.sending e) :: rest.flatMap s.sink.taking
  kept : s.tick.session = { s with phase := .running, stage := s.tick.session.stage }
  again : s.tick.session.stage.cancelled = false →
    s.tick.session.due = left ++ c :: right ∧ s.tick.session.tick.verdict ≠ .panicked .sink ∧
    (s.tick.session.tick.verdict.panic? = none → Effect.events s.tick.session.tick.done =
      (s.sink.struck s.tick.session.stage.calls (left ++ c :: right)).flatMap Chord.block)
  steady : ∀ cs, s.tick.session.steady.history cs =
    (s.tick.session.history cs).map (List.map Turn.steady)

variable {s : Session} {left right : List Chord} {c : Chord} {before after : List KeyEvent}
  {e : KeyEvent}

theorem panicsAt_of_verdict (h : s.tick.verdict = .panicked .sink) :
    ∃ left c right before e after, s.PanicsAt left c right before e after := by
  have hi : InTime s.tick.verdict.panic? := .inr (Verdict.panic?_eq_some.mpr h)
  generalize ht : s.tick = t at h
  have hticked : Ticked s t := ht ▸ s.ticked
  cases hticked with
  | @panicked line chords cause hf hr hs =>
      obtain rfl := Verdict.panicked.inj h
      obtain ⟨left, c, right, s', done, rfl, htook, hfree, hp, -⟩ := strikeAll_panicked hs
      obtain ⟨hp, -⟩ | ⟨-, hclock, -⟩ := strikeBeat_panicked hp
      · obtain ⟨before, e, after, hb, hk, -⟩ := strike_refused hp
        have hc := htook.cancelled
        rw [hfree, hf.free, Bool.false_or] at hc
        rw [htook.calls] at hk
        exact ⟨left, c, right, before, e, after, ⟨line, hf⟩, hr, hc.symm, hb, hk, hi⟩
      · cases hclock
  | past | stopped | finished | rested | overslept | struck | interrupted | refused | halted
    | obeyed => cases h

theorem PanicsAt.strikes (h : s.PanicsAt left c right before e after) :
    (s.strikes (left ++ c :: right)).striking = .panicked .sink ∧
      s.stage.calls + (left.flatMap Chord.block).length + before.length <
        (s.strikes (left ++ c :: right)).stage.calls ∧
      Effect.events (s.strikes (left ++ c :: right)).done =
        left.flatMap Chord.block ++ (before ++ Hand.wayOut before e) ∧
      ∃ taken, Effect.events taken = left.flatMap Chord.block ++ before ∧
        (s.strikes (left ++ c :: right)).done =
          taken ++ .noted (.sending e) :: (Hand.wayOut before e).flatMap s.sink.taking := by
  obtain ⟨line, hf⟩ := h.action
  have htick : s.tick = s.running.play (left ++ c :: right) := hf.tick h.rest
  have hi : InTime (s.strikes (left ++ c :: right)).striking.panic? := by
    have hintime := h.intime
    rwa [htick, panic?_play] at hintime
  -- A panic of the sink in one of the first chords would be one at an earlier call.
  have hleft : (strikeAll s.sink s.timing s.beat left s.stage).striking.panic? = none := by
    cases hl : (strikeAll s.sink s.timing s.beat left s.stage).striking with
    | struck | cancelled => rfl
    | panicked cause =>
        rw [Session.strikes, strikeAll_append_of_panic hl, hl] at hi
        obtain hi | hi := hi
        · cases hi
        · obtain rfl : cause = .sink := Option.some.inj hi
          obtain ⟨xs, d, ys, s', done, rfl, htook, -, hp, -⟩ := strikeAll_panicked hl
          obtain ⟨hp, -⟩ | ⟨-, hclock, -⟩ := strikeBeat_panicked hp
          · obtain ⟨pre, d', post, hb, hk, -⟩ := strike_refused hp
            have hlength := congrArg List.length hb
            rw [htook.calls, h.call, Option.some.injEq] at hk
            simp only [List.length_append, List.length_cons, List.flatMap_append,
              List.flatMap_cons] at hk hlength
            omega
          · cases hclock
  obtain ⟨htook, hfree, hall⟩ := strikeAll_append (c :: right) hf.free hleft h.free
  generalize strikeAll s.sink s.timing s.beat left s.stage = p at htook hfree hall
  have hk := h.call
  rw [← htook.calls] at hk
  have hib : InTime (strikeBeat s.sink s.timing s.beat c p.stage).panic? := by
    rw [Session.strikes, hall] at hi
    cases hp : (strikeBeat s.sink s.timing s.beat c p.stage).panic? with
    | none => exact .inl rfl
    | some cause => rwa [strikeAll_of_panic hfree hp] at hi
  obtain ⟨hp, hcalls, hevents, taken, htaken, hdone⟩ := strikeBeat_refused_at h.block hk hib
  rw [strikeAll_of_panic hfree hp] at hall
  rw [Session.strikes, hall]
  refine ⟨rfl, ?_, ?_, p.done ++ taken, ?_, ?_⟩
  · rw [← htook.calls]
    exact hcalls
  · rw [Effect.events_append, htook.events, hevents]
  · rw [Effect.events_append, htook.events, htaken]
  · rw [hdone, List.append_assoc]

theorem PanicsAt.givesUp (h : s.PanicsAt left c right before e after) :
    s.GivesUp left c right before e := by
  obtain ⟨line, hf⟩ := h.action
  obtain ⟨hs, hcalls, hevents, hdone⟩ := h.strikes
  have htick := (Ticked.panicked hf h.rest hs).eq_tick
  have hspent : s.tick.session.Spent := by
    rw [htick]
    intro k hk
    change s.sink.panicAt = some k at hk
    rw [h.call, Option.some.injEq] at hk
    exact hk ▸ hcalls
  constructor
  · rw [htick]
  · refine ⟨_, (Chord.splits_of_block h.block).broken, ?_⟩
    rw [htick, hevents]
  · obtain ⟨taken, htaken, hdone⟩ := hdone
    refine ⟨taken, Hand.wayOut before e, htaken, ?_⟩
    rw [htick, hdone]
  · rw [htick]
    rfl
  · intro hfree
    have hdue : s.tick.session.due = left ++ c :: right := by
      rw [htick] at hfree ⊢
      exact due_eq ⟨rfl, hfree, hf.action⟩ h.rest
    refine ⟨hdue, (s.tick.session.ticked.steady hspent).calm rfl, fun hcalm => ?_⟩
    have htook := s.tick.session.ticked.took hcalm
    rw [htook.events, struck, hdue, s.ticked.frame.2.1]
  · exact history_steady hspent

end Session

end ChordScript
