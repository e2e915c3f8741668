import ChordScript.Proofs.Lockstep
import ChordScript.Proofs.Sounds

namespace ChordScript

open Sink (hits)

def Sink.untimed (sink : Sink) : Sink := { sink with cost := 0 }

def Stage.untimed (s : Stage) : Stage := { s with now := 0, now_lt := Nat.zero_lt_of_lt s.now_lt }

def Passage.untimed (p : Passage) : Passage :=
  ⟨p.stage.untimed, (Effect.events p.done).map .sent, p.panic?⟩

def Strikes.untimed (r : Strikes) : Strikes :=
  ⟨r.striking, r.stage.untimed, (Effect.events r.done).map .sent⟩

def Playhead.untimed (h : Playhead) : Playhead := { h with tempo := 0 }

def Session.untimed (s : Session) : Session :=
  { s with timing := ⟨0, 0⟩, sink := s.sink.untimed, head := s.head.untimed, stage := s.stage.untimed }

theorem Effect.map_sent_inj {es es' : List KeyEvent} : es.map sent = es'.map sent ↔ es = es' :=
  (List.map_injective_iff.mpr fun _ _ => sent.inj).eq_iff

theorem Sink.untimed_inj {sink sink' : Sink} : sink.untimed = sink'.untimed ↔
    sink.cancelAt = sink'.cancelAt ∧ sink.panicAt = sink'.panicAt := by
  simp [untimed]

theorem Stage.untimed_inj {s s' : Stage} :
    s.untimed = s'.untimed ↔ s.calls = s'.calls ∧ s.cancelled = s'.cancelled := by
  simp [untimed]

theorem Passage.untimed_inj {p p' : Passage} : p.untimed = p'.untimed ↔
    p.stage.untimed = p'.stage.untimed ∧ Effect.events p.done = Effect.events p'.done ∧
      p.panic? = p'.panic? := by
  rw [untimed, untimed, Passage.mk.injEq, Effect.map_sent_inj]

theorem Strikes.untimed_inj {r r' : Strikes} : r.untimed = r'.untimed ↔
    r.striking = r'.striking ∧ r.stage.untimed = r'.stage.untimed ∧
      Effect.events r.done = Effect.events r'.done := by
  rw [untimed, untimed, Strikes.mk.injEq, Effect.map_sent_inj]

theorem Playhead.untimed_inj {h h' : Playhead} : h.untimed = h'.untimed ↔
    h.cursor = h'.cursor ∧ h.rest = h'.rest ∧ h.jumps = h'.jumps := by
  simp [untimed]

theorem Session.untimed_inj {s u : Session} : s.untimed = u.untimed ↔
    s.document = u.document ∧ s.sink.untimed = u.sink.untimed ∧ s.head.untimed = u.head.untimed ∧
      s.stage.untimed = u.stage.untimed ∧ s.phase = u.phase := by
  simp [untimed]

theorem Stage.waitBeat_untimed (s : Stage) (started beat : Nat) :
    (s.waitBeat started beat).stage.untimed = s.untimed ∧
      Effect.events (s.waitBeat started beat).done = [] := by
  have ht := s.waitBeat_took {} started beat
  exact ⟨Stage.untimed_inj.mpr ⟨ht.calls, s.waitBeat_cancelled started beat⟩, ht.events⟩

section Strike

variable {sink sink' : Sink} {s s' : Stage} {t t' : Timing} {beat beat' : Nat} {c : Chord}
  {cs : List Chord}

theorem panic?_strike (h : InTime (strike sink t c s).panic?) : (strike sink t c s).panic? =
    if hits sink.panicAt s.calls c.block.length then some .sink else none := by
  obtain hp | hp := h
  · rw [hp, (strike_took hp).calm, if_neg nofun]
  · obtain ⟨before, e, after, hb, hk, -⟩ := strike_refused hp
    have hlength := congrArg List.length hb
    rw [List.length_append, List.length_cons] at hlength
    rw [hp, if_pos]
    exact Sink.hits_eq_true.mpr ⟨_, hk, by omega, by omega⟩

/-- Whether the sink panics, and when, has nothing to do with the time. -/
theorem strike_untimed (hsink : sink.untimed = sink'.untimed) (hs : s.untimed = s'.untimed)
    (h : InTime (strike sink t c s).panic?) (h' : InTime (strike sink' t' c s').panic?) :
    (strike sink t c s).untimed = (strike sink' t' c s').untimed := by
  obtain ⟨hcancel, hpanic⟩ := Sink.untimed_inj.mp hsink
  obtain ⟨hcalls, hcancelled⟩ := Stage.untimed_inj.mp hs
  have hp : (strike sink t c s).panic? = (strike sink' t' c s').panic? := by
    rw [panic?_strike h, panic?_strike h', hpanic, hcalls]
  have hmade : (strike sink t c s).stage.calls = (strike sink' t' c s').stage.calls ∧
      Effect.events (strike sink t c s).done = Effect.events (strike sink' t' c s').done := by
    obtain hc | hc := h
    · have ht := strike_took hc
      have ht' := strike_took (hp.symm.trans hc)
      exact ⟨by rw [ht.calls, ht'.calls, hcalls], ht.events.trans ht'.events.symm⟩
    · obtain ⟨before, e, after, hb, hk, hm, he, -⟩ := strike_refused hc
      obtain ⟨before', e', after', hb', hk', hm', he', -⟩ := strike_refused (hp.symm.trans hc)
      -- The number of the call tells the event.
      have hlength : before.length = before'.length := by
        rw [hpanic, hk', Option.some.injEq] at hk
        omega
      obtain ⟨rfl, hrest⟩ := List.append_inj (hb.symm.trans hb') hlength
      obtain ⟨rfl, -⟩ := List.cons.inj hrest
      exact ⟨by rw [hm, hm', hcalls], he.trans he'.symm⟩
  refine Passage.untimed_inj.mpr ⟨Stage.untimed_inj.mpr ⟨hmade.1, ?_⟩, hmade.2, hp⟩
  rw [(strike_reaches sink t c s).cancelled, (strike_reaches sink' t' c s').cancelled, hmade.1, hcancel,
    hcalls, hcancelled]

theorem strikeBeat_eq_strike (h : InTime (strikeBeat sink t beat c s).panic?) :
    (strikeBeat sink t beat c s).untimed = (strike sink t c s).untimed := by
  cases hp : (strikeBeat sink t beat c s).panic? with
  | none =>
      have hc := strike_calm_of_strikeBeat hp
      rw [strikeBeat_of_calm hc] at hp ⊢
      obtain ⟨hw, hn⟩ := (strike sink t c s).stage.waitBeat_untimed s.now beat
      refine Passage.untimed_inj.mpr ⟨hw, ?_, hp.trans hc.symm⟩
      rw [Effect.events_append, hn, List.append_nil]
  | some cause =>
      obtain ⟨-, he⟩ | ⟨-, rfl, -⟩ := strikeBeat_panicked hp
      · rw [he]
      · obtain hi | hi := h <;> cases hp.symm.trans hi

theorem strikeBeat_untimed (hsink : sink.untimed = sink'.untimed) (hs : s.untimed = s'.untimed)
    (h : InTime (strikeBeat sink t beat c s).panic?)
    (h' : InTime (strikeBeat sink' t' beat' c s').panic?) :
    (strikeBeat sink t beat c s).untimed = (strikeBeat sink' t' beat' c s').untimed := by
  have he := strikeBeat_eq_strike h
  have he' := strikeBeat_eq_strike h'
  rw [(Passage.untimed_inj.mp he).2.2] at h
  rw [(Passage.untimed_inj.mp he').2.2] at h'
  rw [he, he', strike_untimed hsink hs h h']

theorem strikeBeat_inTime (hs : s.cancelled = false)
    (h : InTime (strikeAll sink t beat (c :: cs) s).striking.panic?) :
    InTime (strikeBeat sink t beat c s).panic? := by
  cases hp : (strikeBeat sink t beat c s).panic? with
  | none => exact .inl rfl
  | some cause =>
      rw [strikeAll_of_panic hs hp] at h
      exact h

theorem strikeAll_untimed (hsink : sink.untimed = sink'.untimed) (hs : s.untimed = s'.untimed)
    (h : InTime (strikeAll sink t beat cs s).striking.panic?)
    (h' : InTime (strikeAll sink' t' beat' cs s').striking.panic?) :
    (strikeAll sink t beat cs s).untimed = (strikeAll sink' t' beat' cs s').untimed := by
  induction cs generalizing s s' with
  | nil => exact Strikes.untimed_inj.mpr ⟨rfl, hs, rfl⟩
  | cons c cs ih =>
      have hfree := (Stage.untimed_inj.mp hs).2
      cases hc : s.cancelled with
      | true =>
          simp only [strikeAll, hc, ← hfree, if_true]
          exact Strikes.untimed_inj.mpr ⟨rfl, hs, rfl⟩
      | false =>
          rw [hc, eq_comm] at hfree
          have hb := strikeBeat_untimed hsink hs (strikeBeat_inTime hc h) (strikeBeat_inTime hfree h')
          obtain ⟨hstage, hevents, hpanic⟩ := Passage.untimed_inj.mp hb
          cases hp : (strikeBeat sink t beat c s).panic? with
          | some cause =>
              rw [strikeAll_of_panic hc hp, strikeAll_of_panic hfree (hpanic.symm.trans hp)]
              exact Strikes.untimed_inj.mpr ⟨rfl, hstage, hevents⟩
          | none =>
              rw [strikeAll_of_calm hc hp] at h ⊢
              rw [strikeAll_of_calm hfree (hpanic.symm.trans hp)] at h' ⊢
              obtain ⟨hstriking, hstage', hevents'⟩ := Strikes.untimed_inj.mp (ih hstage h h')
              refine Strikes.untimed_inj.mpr ⟨hstriking, hstage', ?_⟩
              rw [Effect.events_append, Effect.events_append, hevents, hevents']

end Strike

theorem Playhead.follow_untimed {h h' : Playhead} (hh : h.untimed = h'.untimed) (line : Nat)
    (order : Order) : (h.follow line order).map (Prod.map untimed id) =
      (h'.follow line order).map (Prod.map untimed id) := by
  obtain ⟨hc, hr, hj⟩ := untimed_inj.mp hh
  cases order with
  | stop | tempo | rest | pass => simp [follow, untimed, hc, hr, hj]
  | repeatFrom tag target bound =>
      simp only [follow, hj]
      split <;> simp [untimed, hc, hr]

namespace Session

variable {s u : Session} {t : Turn}

/-- Everything but the times is paired with itself, until the clock panics. -/
def untimedPairing : Pairing where
  session s u := s.untimed = u.untimed
  verdict := Eq
  done xs ys := Effect.events xs = Effect.events ys
  lost v := ¬ InTime v.panic?

theorem finish_untimed (h : s.untimed = u.untimed) (e : Ending) {xs ys : List Effect}
    (hd : Effect.events xs = Effect.events ys) :
    untimedPairing.Turns (s.finish e xs) (u.finish e ys) := by
  obtain ⟨hdoc, hsink, hhead, hstage, -⟩ := untimed_inj.mp h
  refine ⟨rfl, untimed_inj.mpr ⟨hdoc, hsink, hhead, hstage, rfl⟩, ?_⟩
  change Effect.events _ = Effect.events _
  rw [events_finish, events_finish, hd]

theorem Faces.untimed {a : Action} (hf : s.Faces a) (h : s.untimed = u.untimed) : u.Faces a := by
  obtain ⟨hdoc, -, hhead, hstage, hphase⟩ := untimed_inj.mp h
  refine ⟨hphase ▸ hf.live, ?_, ?_⟩
  · rw [← (Stage.untimed_inj.mp hstage).2, hf.free]
  · rw [← hdoc, ← (Playhead.untimed_inj.mp hhead).1, hf.action]

theorem Ticked.untimed (ht : Ticked s t) (h : s.untimed = u.untimed) (hv : InTime t.verdict.panic?)
    (hv' : InTime u.tick.verdict.panic?) : ∃ t', Ticked u t' ∧ untimedPairing.Turns t t' := by
  obtain ⟨hdoc, hsink, hhead, hstage, hphase⟩ := untimed_inj.mp h
  obtain ⟨hcursor, hrest, hjumps⟩ := Playhead.untimed_inj.mp hhead
  have hcancelled := (Stage.untimed_inj.mp hstage).2
  have hrunning : s.running.untimed = u.running.untimed :=
    untimed_inj.mpr ⟨hdoc, hsink, hhead, hstage, rfl⟩
  have hstrikes {line : Nat} {chords : List Chord} (hf : s.Faces ⟨line, .play chords⟩)
      (hr : s.head.rest = 0) (hi : InTime (s.strikes chords).striking.panic?) :
      (s.strikes chords).untimed = (u.strikes chords).untimed := by
    refine strikeAll_untimed hsink hstage hi ?_
    rwa [(hf.untimed h).tick (hrest ▸ hr), panic?_play] at hv'
  cases ht with
  | past hp => exact ⟨_, .past (hphase ▸ hp), rfl, h, rfl⟩
  | stopped hp hc =>
      exact ⟨_, .stopped (hphase ▸ hp) (hcancelled ▸ hc), finish_untimed hrunning _ rfl⟩
  | finished hp hc ha =>
      exact ⟨_, .finished (hphase ▸ hp) (hcancelled ▸ hc) (hdoc ▸ hcursor ▸ ha),
        finish_untimed hrunning _ rfl⟩
  | rested hf hr hw =>
      obtain ⟨hstage', hn⟩ := s.stage.waitBeat_untimed s.stage.now s.beat
      obtain ⟨hstage'', hn'⟩ := u.stage.waitBeat_untimed u.stage.now u.beat
      -- The other session may be too late for the beat, which its own verdict rules out.
      cases hw' : u.pause.panic? with
      | some cause =>
          have hc : u.pause.panic? = some .clock := congrArg Passage.panic? (Stage.waitBeat_panicked hw')
          rw [(Ticked.overslept (hf.untimed h) (hrest ▸ hr) hc).eq_tick] at hv'
          obtain hi | hi := hv' <;> cases hi
      | none =>
          refine ⟨_, .rested (hf.untimed h) (hrest ▸ hr) hw', rfl, ?_, hn.trans hn'.symm⟩
          refine untimed_inj.mpr ⟨hdoc, hsink, ?_, hstage'.trans (hstage.trans hstage''.symm), rfl⟩
          exact Playhead.untimed_inj.mpr ⟨hcursor, congrArg (· - 1) hrest, hjumps⟩
  | overslept => obtain hi | hi := hv <;> cases hi
  | @struck line chords hf hr hs =>
      obtain ⟨hstriking, hstage', hevents⟩ :=
        Strikes.untimed_inj.mp (hstrikes hf hr (.inl (congrArg Striking.panic? hs)))
      refine ⟨_, .struck (hf.untimed h) (hrest ▸ hr) (hstriking ▸ hs), rfl, ?_, hevents⟩
      refine untimed_inj.mpr ⟨hdoc, hsink, ?_, hstage', rfl⟩
      exact Playhead.untimed_inj.mpr ⟨congrArg (· + 1) hcursor, hrest, hjumps⟩
  | @interrupted line chords hf hr hs =>
      obtain ⟨hstriking, hstage', hevents⟩ :=
        Strikes.untimed_inj.mp (hstrikes hf hr (.inl (congrArg Striking.panic? hs)))
      refine ⟨_, .interrupted (hf.untimed h) (hrest ▸ hr) (hstriking ▸ hs), ?_⟩
      refine finish_untimed ?_ _ hevents
      exact untimed_inj.mpr ⟨hdoc, hsink, hhead, hstage', rfl⟩
  | @panicked line chords cause hf hr hs =>
      obtain ⟨hstriking, hstage', hevents⟩ :=
        Strikes.untimed_inj.mp (hstrikes hf hr ((congrArg Striking.panic? hs).symm ▸ hv))
      refine ⟨_, .panicked (hf.untimed h) (hrest ▸ hr) (hstriking ▸ hs), rfl, ?_, hevents⟩
      exact untimed_inj.mpr ⟨hdoc, hsink, hhead, hstage', rfl⟩
  | refused hf hr ho =>
      exact ⟨_, .refused (hf.untimed h) (hrest ▸ hr) (hdoc ▸ ho), finish_untimed hrunning _ rfl⟩
  | @halted line d order hf hr ho hn =>
      have hn' := Playhead.follow_untimed hhead line order
      rw [hn, Option.map_none, eq_comm, Option.map_eq_none_iff] at hn'
      exact ⟨_, .halted (hf.untimed h) (hrest ▸ hr) (hdoc ▸ ho) hn', finish_untimed hrunning _ rfl⟩
  | @obeyed line d order head notices hf hr ho hn =>
      have hn' := Playhead.follow_untimed hhead line order
      rw [hn, Option.map_some, eq_comm, Option.map_eq_some_iff] at hn'
      obtain ⟨⟨head', notices'⟩, hn', he⟩ := hn'
      obtain ⟨hhead', rfl⟩ := Prod.mk.inj he
      refine ⟨_, .obeyed (hf.untimed h) (hrest ▸ hr) (hdoc ▸ ho) hn', rfl, ?_, rfl⟩
      exact untimed_inj.mpr ⟨hdoc, hsink, hhead'.symm, hstage, rfl⟩

theorem untimed_lockstep : untimedPairing.Lockstep where
  tick {s u} h hl hl' := by
    obtain ⟨t, ht, hp⟩ := s.ticked.untimed h (not_not.mp hl) (not_not.mp hl')
    rwa [ht.eq_tick]
  cancel {s u} h := by
    obtain ⟨hdoc, hsink, hhead, hstage, hphase⟩ := untimed_inj.mp h
    refine untimed_inj.mpr ⟨hdoc, hsink, hhead, Stage.untimed_inj.mpr ?_, hphase⟩
    exact ⟨(Stage.untimed_inj.mp hstage).1, rfl⟩
  more := rfl
  more_iff h := by rw [h]
  abort_iff h := by rw [h]
  not_lost h := h (.inl rfl)
  nil := rfl
  append h h' := (Effect.events_append ..).trans
    ((congrArg₂ (· ++ ·) h h').trans (Effect.events_append ..).symm)
  started _ := rfl

/-- After the one turn everything stands as after the other, and the log has grown by the same
events. -/
structure PlayedAlike (t u : Turn) : Prop where
  verdict : t.verdict = u.verdict
  phase : t.session.phase = u.session.phase
  cursor : t.session.head.cursor = u.session.head.cursor
  rest : t.session.head.rest = u.session.head.rest
  jumps : t.session.head.jumps = u.session.head.jumps
  calls : t.session.stage.calls = u.session.stage.calls
  cancelled : t.session.stage.cancelled = u.session.stage.cancelled
  events : Effect.events t.done = Effect.events u.done

theorem PlayedAlike.of_turns {t u : Turn} (h : untimedPairing.Turns t u) : PlayedAlike t u := by
  obtain ⟨-, -, hhead, hstage, hphase⟩ := untimed_inj.mp h.session
  obtain ⟨hcursor, hrest, hjumps⟩ := Playhead.untimed_inj.mp hhead
  obtain ⟨hcalls, hcancelled⟩ := Stage.untimed_inj.mp hstage
  exact ⟨h.verdict, hphase, hcursor, hrest, hjumps, hcalls, hcancelled, h.done⟩

/-- None of the controls comes back with a panic in which the clock has a part. -/
def KeepsTime (s : Session) (cs : List Control) : Prop := s.AvoidsAll (¬ InTime ·.panic?) cs

/-- As long as the clock does not panic, neither the settings of a player nor the cost of its sink
change what is played. Every control comes back with them or without them, and leaves the session in
the same state but for its times. -/
theorem played_alike (document : Document) (cancelAt panicAt : Option Nat) (config config' : Config)
    (cost cost' : Nat) (cs : List Control)
    (hk : (start document config ⟨cancelAt, panicAt, cost⟩).KeepsTime cs)
    (hk' : (start document config' ⟨cancelAt, panicAt, cost'⟩).KeepsTime cs) :
    Option.Rel (List.Forall₂ PlayedAlike)
      ((start document config ⟨cancelAt, panicAt, cost⟩).history cs)
      ((start document config' ⟨cancelAt, panicAt, cost'⟩).history cs) := by
  have h : (start document config ⟨cancelAt, panicAt, cost⟩).untimed =
      (start document config' ⟨cancelAt, panicAt, cost'⟩).untimed := rfl
  refine rel_imp (untimed_lockstep.history h hk hk') fun ts us hts => ?_
  exact hts.imp fun _ _ => PlayedAlike.of_turns

theorem keepsTime_of_history {cs : List Control} (vs : List Verdict)
    (h : (s.history cs).map (List.map Turn.verdict) = some vs) (hvs : ∀ v ∈ vs, InTime v.panic?) :
    s.KeepsTime cs := by
  obtain ⟨ts, hts, rfl⟩ := Option.map_eq_some_iff.mp h
  clear h
  induction cs generalizing s ts with
  | nil => trivial
  | cons c cs ih =>
      obtain ⟨t, us, hc, hu, rfl⟩ := history_cons.mp hts
      obtain ⟨ht, hus⟩ := List.forall_mem_cons.mp hvs
      refine ⟨?_, fun t' ht' => ?_⟩
      · cases c with
        | tick n =>
            obtain ⟨rfl, -⟩ := Turn.answer?_eq_some.mp hc
            exact not_not.mpr ht
        | run =>
            obtain ⟨u, hrun, ha⟩ := Option.bind_eq_some_iff.mp hc
            obtain ⟨rfl, -⟩ := Turn.answer?_eq_some.mp ha
            intro t' ht'
            obtain rfl := Option.some.inj (hrun.symm.trans ht')
            exact not_not.mpr ht
        | cancel => trivial
      · obtain rfl := Option.some.inj (hc.symm.trans ht')
        exact ih us hu hus

theorem played_alike_slower :
    let document : Document := .ofActions #[⟨1, .obey ⟨.wait, ["1".toList]⟩⟩,
      ⟨1, .play [.single 'a', .single 'B']⟩]
    let s := start document {} ⟨some 8, some 3, 0⟩
    let u := start document ⟨0, 5, 7⟩ ⟨some 8, some 3, 400⟩
    let cs := [Control.tick 3, .tick 1, .tick 9]
    s.KeepsTime cs ∧ u.KeepsTime cs ∧
      Option.Rel (List.Forall₂ PlayedAlike) (s.history cs) (u.history cs) := by
  intro document s u cs
  have hs : s.KeepsTime cs :=
    keepsTime_of_history [.panicked .sink, .more, .ended (.played .stopped)] (by decide) (by decide)
  have hu : u.KeepsTime cs :=
    keepsTime_of_history [.panicked .sink, .more, .ended (.played .stopped)] (by decide) (by decide)
  exact ⟨hs, hu, played_alike document (some 8) (some 3) {} ⟨0, 5, 7⟩ 0 400 cs hs hu⟩

/-- Notes that are not held at all, and the same notes held as long as can be. -/
theorem played_apart :
    let document : Document := .ofActions #[⟨1, .play (List.replicate 1001 (.single 'a'))⟩]
    let s := start document { keyHoldMs := 0 } {}
    let u := start document { keyHoldMs := 18446744073709551615 } {}
    s.tick.verdict = .more ∧ s.tick.session.head.cursor = 1 ∧
      u.tick.verdict = .panicked .clock ∧ u.tick.session.head.cursor = 0 := by
  intro document s u
  have hsum (f : Chord → Nat) : ((List.replicate 1001 (Chord.single 'a')).map f).sum =
      1001 * f (.single 'a') := by
    rw [List.map_replicate, List.sum_replicate_nat]
  have hs : (s.strikes (List.replicate 1001 (.single 'a'))).striking = .struck :=
    (strikeAll_struck _ _ rfl rfl rfl (by rw [hsum]; decide)).1
  obtain ⟨hv, hc⟩ := tick_of_struck (s := s) ⟨rfl, rfl, rfl⟩ rfl hs
  obtain ⟨hv', hhead⟩ := tick_overruns (s := u) ⟨rfl, rfl, rfl⟩ rfl rfl rfl rfl (by decide)
  exact ⟨hv, hc, hv', congrArg Playhead.cursor hhead⟩

end Session

end ChordScript
