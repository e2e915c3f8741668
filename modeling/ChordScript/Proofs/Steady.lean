import ChordScript.Proofs.Lockstep

namespace ChordScript

open Sink (hits)

def Sink.steady (sink : Sink) : Sink := { sink with panicAt := none }

/-- The call at which the sink is to panic, if there is one, has been made. -/
def Stage.Spent (s : Stage) (sink : Sink) : Prop := ∀ k, sink.panicAt = some k → k ≤ s.calls

variable (sink : Sink) (t : Timing) (beat : Nat)

theorem Stage.Spent.mono {s s' : Stage} (h : s.Spent sink) (hle : s.Precedes s') :
    s'.Spent sink := fun k hk => Nat.le_trans (h k hk) hle.calls

theorem Cue.heed_steady {s : Stage} (h : s.Spent sink) (cue : Cue) :
    cue.heed s sink.steady = cue.heed s sink := by
  cases cue with
  | wait ms => rfl
  | send e =>
      have hn : sink.panicAt ≠ some (s.called sink).calls := fun hk =>
        Nat.not_succ_le_self _ (h _ hk)
      have ha : (s.called sink).attempt sink.steady = (s.called sink).attempt sink :=
        (if_neg nofun).trans (if_neg hn).symm
      rw [heed, heed, Stage.send, Stage.send, ← ha]
      rfl

theorem perform_steady {s : Stage} (hp : s.Spent sink) (cues : List Cue) (h : Hand) :
    perform sink.steady cues h s = perform sink cues h s := by
  induction cues generalizing h s with
  | nil => rfl
  | cons cue cues ih =>
      simp only [perform, cue.heed_steady sink hp, ih (hp.mono sink (cue.heed_reaches s sink).toPrecedes)]

theorem strike_steady {s : Stage} (h : s.Spent sink) (c : Chord) :
    strike sink.steady t c s = strike sink t c s := by
  simp only [strike, perform_steady sink h, perform_steady sink (h.mono sink (perform_reaches ..).toPrecedes)]

theorem strikeBeat_steady {s : Stage} (h : s.Spent sink) (c : Chord) :
    strikeBeat sink.steady t beat c s = strikeBeat sink t beat c s := by
  rw [strikeBeat, strikeBeat, strike_steady sink t h]

theorem strikeAll_steady {s : Stage} (h : s.Spent sink) (cs : List Chord) :
    strikeAll sink.steady t beat cs s = strikeAll sink t beat cs s := by
  induction cs generalizing s with
  | nil => rfl
  | cons c cs ih =>
      simp only [strikeAll, strikeBeat_steady sink t beat h,
        ih (h.mono sink (strikeBeat_reaches ..).toPrecedes)]

namespace Session

def steady (s : Session) : Session := { s with sink := s.sink.steady }

def Spent (s : Session) : Prop := s.stage.Spent s.sink

variable {s : Session} {t : Turn}

theorem Faces.steady {a : Action} (hf : s.Faces a) : s.steady.Faces a :=
  ⟨hf.live, hf.free, hf.action⟩

theorem strikes_steady (h : s.Spent) (chords : List Chord) :
    s.steady.strikes chords = s.strikes chords :=
  strikeAll_steady s.sink s.timing s.beat h chords

theorem Ticked.spent (h : Ticked s t) (hp : s.Spent) : t.session.Spent := by
  rw [Spent, h.frame.2.1]
  exact hp.mono s.sink h.reaches.toPrecedes

theorem Ticked.steady (h : Ticked s t) (hp : s.Spent) :
    Ticked s.steady ⟨t.verdict, t.session.steady, t.done⟩ := by
  have hs := strikes_steady hp
  cases h with
  | past he => exact .past he
  | stopped hl hc => exact .stopped hl hc
  | finished hl hc ha => exact .finished hl hc ha
  | rested hf hr hw => exact .rested hf.steady hr hw
  | overslept hf hr hw => exact .overslept hf.steady hr hw
  | @struck line chords hf hr hq =>
      have h := Ticked.struck hf.steady hr (by rw [hs, hq])
      rwa [hs] at h
  | @interrupted line chords hf hr hq =>
      have h := Ticked.interrupted hf.steady hr (by rw [hs, hq])
      rwa [hs] at h
  | @panicked line chords cause hf hr hq =>
      have h := Ticked.panicked hf.steady hr (by rw [hs, hq])
      rwa [hs] at h
  | refused hf hr ho => exact .refused hf.steady hr ho
  | halted hf hr ho hn => exact .halted hf.steady hr ho hn
  | obeyed hf hr ho hn => exact .obeyed hf.steady hr ho hn

end Session

def Turn.steady (t : Turn) : Turn := { t with session := t.session.steady }

namespace Session

def steadyPairing : Pairing where
  session s u := s.Spent ∧ u = s.steady
  verdict := Eq
  done := Eq

theorem steadyPairing_turns {t u : Turn} (h : steadyPairing.Turns t u) : u = t.steady := by
  obtain ⟨verdict, session, done⟩ := u
  obtain ⟨rfl, ⟨-, rfl⟩, rfl⟩ := h
  rfl

theorem steady_lockstep : steadyPairing.Lockstep where
  tick {s u} h _ _ := by
    obtain ⟨hp, rfl⟩ := h
    rw [(s.ticked.steady hp).eq_tick]
    exact ⟨rfl, ⟨s.ticked.spent hp, rfl⟩, rfl⟩
  cancel {s u} h := by
    obtain ⟨hp, rfl⟩ := h
    exact ⟨hp, rfl⟩
  more := rfl
  more_iff h := by rw [h]
  abort_iff h := by rw [h]
  not_lost := id
  nil := rfl
  append h h' := congrArg₂ (· ++ ·) h h'
  started {s u} h := by
    obtain ⟨-, rfl⟩ := h
    rfl

theorem history_steady {s : Session} (h : s.Spent) (cs : List Control) :
    s.steady.history cs = (s.history cs).map (List.map Turn.steady) :=
  steady_lockstep.history_eq_map (fun _ _ => steadyPairing_turns) ⟨h, rfl⟩
    (avoidsAll_false s cs) (avoidsAll_false s.steady cs)

end Session

end ChordScript
