import ChordScript.Proofs.Tick

namespace ChordScript

def Sink.undisturbed (sink : Sink) : Sink := { sink with cancelAt := none }

def Stage.undisturbed (s : Stage) : Stage := { s with cancelled := false }

def Passage.undisturbed (p : Passage) : Passage := { p with stage := p.stage.undisturbed }

variable (sink : Sink) (t : Timing) (beat : Nat)

theorem Stage.undisturbed_eq {s : Stage} (h : s.cancelled = false) : s.undisturbed = s := by
  cases s
  cases h
  rfl

theorem Stage.sleep_undisturbed (s : Stage) (ms : Nat) :
    s.undisturbed.sleep ms = (s.sleep ms).undisturbed := by
  unfold sleep undisturbed
  dsimp only
  split <;> rfl

theorem Passage.andThen_undisturbed (p : Passage) (next next' : Stage → Passage)
    (h : ∀ s, next' s.undisturbed = (next s).undisturbed) :
    p.undisturbed.andThen next' = (p.andThen next).undisturbed := by
  have hstage := h p.stage
  cases hp : p.panic? with
  | some cause => rw [andThen_of_panic _ hp, andThen_of_panic (p := p.undisturbed) _ hp]
  | none =>
      rw [andThen_of_calm _ hp, andThen_of_calm (p := p.undisturbed) _ hp]
      simp only [undisturbed, hstage]

theorem Stage.attempt_undisturbed (s : Stage) :
    s.undisturbed.attempt sink.undisturbed = (s.attempt sink).undisturbed := by
  have hpanic : sink.undisturbed.panicAt = sink.panicAt := rfl
  have hcost : sink.undisturbed.cost = sink.cost := rfl
  have hcalls : s.undisturbed.calls = s.calls := rfl
  unfold attempt spend
  rw [hpanic, hcost, hcalls]
  split
  · rfl
  · split
    · rfl
    · exact s.sleep_undisturbed sink.cost

theorem Cue.heed_undisturbed (cue : Cue) (s : Stage) :
    cue.heed s.undisturbed sink.undisturbed = (cue.heed s sink).undisturbed := by
  cases cue with
  | wait ms => exact s.sleep_undisturbed ms
  | send e =>
      have h := ((s.called sink).attempt sink).andThen_undisturbed
        (fun s => ⟨s, [.sent e], none⟩) (fun s => ⟨s, [.sent e], none⟩) fun _ => rfl
      rw [← Stage.attempt_undisturbed] at h
      exact congrArg (fun p : Passage => { p with done := .noted (.sending e) :: p.done }) h

theorem perform_undisturbed (cues : List Cue) (h : Hand) (s : Stage) :
    perform sink.undisturbed cues h s.undisturbed =
      ((perform sink cues h s).1, (perform sink cues h s).2.undisturbed) := by
  induction cues generalizing h s with
  | nil => rfl
  | cons cue cues ih =>
      have hu := cue.heed_undisturbed sink s
      cases hp : (cue.heed s sink).panic? with
      | some cause =>
          rw [perform_of_panic sink cues h s hp,
            perform_of_panic _ cues h _ ((congrArg Passage.panic? hu).trans hp), hu]
      | none =>
          rw [perform_of_calm sink cues h s hp,
            perform_of_calm _ cues h _ ((congrArg Passage.panic? hu).trans hp), hu]
          have hrest := ih (cue.hand h) (cue.heed s sink).stage
          simp only [Passage.undisturbed] at hrest ⊢
          rw [hrest]

theorem strike_undisturbed (c : Chord) (s : Stage) :
    strike sink.undisturbed t c s.undisturbed = (strike sink t c s).undisturbed := by
  have hu := perform_undisturbed sink (c.cues t) {} s
  cases hp : (perform sink (c.cues t) {} s).2.panic? with
  | none =>
      rw [strike_of_calm hp, strike_of_calm (by rw [hu]; exact hp), hu]
  | some cause =>
      rw [strike_of_panic hp, strike_of_panic ((congrArg (·.2.panic?) hu).trans hp), hu]
      simp only [Passage.undisturbed, perform_undisturbed]

theorem cancelled_strikeBeat (c : Chord) (s : Stage) :
    (strikeBeat sink t beat c s).stage.cancelled = (strike sink t c s).stage.cancelled := by
  cases hp : (strike sink t c s).panic? with
  | some cause => rw [strikeBeat_of_panic hp]
  | none =>
      rw [strikeBeat_of_calm hp]
      exact Stage.waitBeat_cancelled ..

theorem strikeBeat_undisturbed {c : Chord} {s : Stage} (hs : s.cancelled = false)
    (hc : (strikeBeat sink t beat c s).stage.cancelled = false) :
    strikeBeat sink.undisturbed t beat c s = strikeBeat sink t beat c s := by
  rw [cancelled_strikeBeat] at hc
  have hu := strike_undisturbed sink t c s
  rw [Stage.undisturbed_eq hs, Passage.undisturbed, Stage.undisturbed_eq hc] at hu
  rw [strikeBeat, strikeBeat, hu]

theorem strikeBeat_cut {c : Chord} {s : Stage}
    (hc : (strikeBeat sink t beat c s).stage.cancelled = true) :
    strikeBeat sink t beat c s = strike sink t c s := by
  rw [cancelled_strikeBeat] at hc
  cases hp : (strike sink t c s).panic? with
  | some cause => exact strikeBeat_of_panic hp
  | none =>
      have hw : (strike sink t c s).stage.waitBeat s.now beat = ⟨(strike sink t c s).stage, [], none⟩ := by
        simp [Stage.waitBeat, Stage.sleepUnlessCancelled, hc]
      rw [strikeBeat_of_calm hp]
      simp only [hw, ← hp, List.append_nil]

theorem Chord.cues_last (c : Chord) (t : Timing) : ∃ cues e, c.cues t = cues ++ [.send e] := by
  cases hs : c.needsShift with
  | true =>
      refine ⟨[.send .shiftDown] ++ c.presses t.stagger ++ [.wait t.hold] ++ c.releases, .shiftUp, ?_⟩
      simp only [cues, hs, if_true]
  | false =>
      obtain ⟨ks, k, hk⟩ : ∃ ks k, c.keys = ks ++ [k] :=
        ⟨_, _, (List.dropLast_concat_getLast c.nonempty).symm⟩
      refine ⟨c.presses t.stagger ++ [.wait t.hold] ++ ks.map fun k => .send (.release k),
        .release k, ?_⟩
      simp only [cues, hs, releases, hk, List.map_append, List.map_cons, List.map_nil,
        Bool.false_eq_true, if_false, List.nil_append, List.append_nil, List.append_assoc]

theorem strike_last {c : Chord} {s : Stage} (h : (strike sink t c s).panic? = none) :
    ∃ done e, (strike sink t c s).done = done ++ [.sent e] := by
  obtain ⟨cues, e, hc⟩ := c.cues_last t
  have hp := perform_calm_of_strike h
  have htaking : ∃ done, sink.taking e = done ++ [.sent e] := by
    unfold Sink.taking
    split
    · exact ⟨[_], rfl⟩
    · exact ⟨[_, _], rfl⟩
  obtain ⟨done, hd⟩ := htaking
  refine ⟨cues.flatMap (Cue.heeded sink) ++ done, e, ?_⟩
  rw [strike_of_calm hp, perform_done sink _ _ _ hp, hc, List.flatMap_append, List.flatMap_singleton,
    Cue.heeded, hd, List.append_assoc]

theorem strikeAll_undisturbed {cs : List Chord} {s : Stage} (hs : s.cancelled = false)
    (hc : (strikeAll sink t beat cs s).stage.cancelled = false) :
    strikeAll sink.undisturbed t beat cs s = strikeAll sink t beat cs s := by
  induction cs generalizing s with
  | nil => rfl
  | cons c cs ih =>
      cases hp : (strikeBeat sink t beat c s).panic? with
      | some cause =>
          rw [strikeAll_of_panic hs hp] at hc ⊢
          have hu := strikeBeat_undisturbed sink t beat hs hc
          rw [strikeAll_of_panic hs (hu ▸ hp), hu]
      | none =>
          rw [strikeAll_of_calm hs hp] at hc ⊢
          cases hst : (strikeBeat sink t beat c s).stage.cancelled with
          | true =>
              simp only [(strikeAll_of_cancelled sink t beat cs hst).2, hst] at hc
              cases hc
          | false =>
              have hu := strikeBeat_undisturbed sink t beat hs hst
              rw [strikeAll_of_calm hs (hu ▸ hp), hu, ih hst hc]

theorem strikeAll_cut {cs : List Chord} {s : Stage} (hs : s.cancelled = false)
    (hc : (strikeAll sink t beat cs s).stage.cancelled = true) :
    (strikeAll sink t beat cs s).done <+: (strikeAll sink.undisturbed t beat cs s).done ∧
      ((strikeAll sink t beat cs s).striking.panic? = none →
        ∃ done e, (strikeAll sink t beat cs s).done = done ++ [.sent e]) := by
  induction cs generalizing s with
  | nil => simp [strikeAll, hs] at hc
  | cons c cs ih =>
      cases hst : (strikeBeat sink t beat c s).stage.cancelled with
      | false =>
          have hu := strikeBeat_undisturbed sink t beat hs hst
          cases hp : (strikeBeat sink t beat c s).panic? with
          | some cause =>
              rw [strikeAll_of_panic hs hp] at hc
              cases hst.symm.trans hc
          | none =>
              rw [strikeAll_of_calm hs hp] at hc ⊢
              rw [strikeAll_of_calm hs (hu ▸ hp), hu]
              obtain ⟨hpre, hlast⟩ := ih hst hc
              refine ⟨(List.prefix_append_right_inj _).mpr hpre, fun hcalm => ?_⟩
              obtain ⟨done, e, hd⟩ := hlast hcalm
              exact ⟨(strikeBeat sink t beat c s).done ++ done, e, by rw [hd, List.append_assoc]⟩
      | true =>
          -- The token is set in this chord.
          have hcut := strikeBeat_cut sink t beat hst
          have hu := strike_undisturbed sink t c s
          rw [Stage.undisturbed_eq hs] at hu
          cases hp : (strike sink t c s).panic? with
          | some cause =>
              have hpu : (strike sink.undisturbed t c s).panic? = some cause :=
                (congrArg Passage.panic? hu).trans hp
              have hbu : strikeBeat sink.undisturbed t beat c s = _ := strikeBeat_of_panic hpu
              rw [strikeAll_of_panic hs (hcut ▸ hp), strikeAll_of_panic hs (hbu ▸ hpu), hcut, hbu, hu]
              refine ⟨List.prefix_rfl, fun hcalm => ?_⟩
              cases hcalm
          | none =>
              have hpu : (strike sink.undisturbed t c s).panic? = none :=
                (congrArg Passage.panic? hu).trans hp
              have hpre : (strike sink t c s).done <+:
                  (strikeBeat sink.undisturbed t beat c s).done := by
                rw [strikeBeat_of_calm hpu, hu]
                exact List.prefix_append ..
              have hdone : (strikeAll sink t beat (c :: cs) s).done = (strike sink t c s).done := by
                rw [strikeAll_of_calm hs (hcut ▸ hp), (strikeAll_of_cancelled sink t beat cs hst).1,
                  hcut, List.append_nil]
              rw [hdone]
              refine ⟨?_, fun _ => strike_last sink t hp⟩
              cases hb : (strikeBeat sink.undisturbed t beat c s).panic? with
              | some cause =>
                  rw [strikeAll_of_panic hs hb]
                  exact hpre
              | none =>
                  rw [strikeAll_of_calm hs hb]
                  exact hpre.trans (List.prefix_append ..)

namespace Session

/-- The session whose token is not set and never will be. -/
def undisturbed (s : Session) : Session :=
  { s with sink := s.sink.undisturbed, stage := s.stage.undisturbed }

variable {s : Session} {t : Turn}

theorem undisturbed_eq (h : s.stage.cancelled = false) :
    s.undisturbed = { s with sink := s.sink.undisturbed } := by
  rw [undisturbed, Stage.undisturbed_eq h]

theorem strikes_undisturbed {chords : List Chord} (hs : s.stage.cancelled = false)
    (hc : (s.strikes chords).stage.cancelled = false) :
    { s with sink := s.sink.undisturbed }.strikes chords = s.strikes chords :=
  strikeAll_undisturbed s.sink s.timing s.beat hs hc

theorem Ticked.undisturbed (h : Ticked s t) (hs : s.stage.cancelled = false)
    (ht : t.session.stage.cancelled = false) :
    Ticked s.undisturbed ⟨t.verdict, t.session.undisturbed, t.done⟩ := by
  rw [undisturbed_eq hs, undisturbed_eq ht]
  have hf' {a : Action} (hf : s.Faces a) : { s with sink := s.sink.undisturbed }.Faces a :=
    ⟨hf.live, hf.free, hf.action⟩
  cases h with
  | past hp => exact .past hp
  | stopped hp hc => rw [hs] at hc; cases hc
  | finished hp hc ha => exact .finished hp hs ha
  | rested hf hr hw => exact .rested (hf' hf) hr hw
  | overslept hf hr hw => exact .overslept (hf' hf) hr hw
  | struck hf hr hq =>
      have hu := strikes_undisturbed hs ht
      have h := Ticked.struck (hf' hf) hr (by rw [hu, hq])
      rwa [hu] at h
  | interrupted hf hr hq =>
      have hu := strikes_undisturbed hs ht
      have h := Ticked.interrupted (hf' hf) hr (by rw [hu, hq])
      rwa [hu] at h
  | panicked hf hr hq =>
      have hu := strikes_undisturbed hs ht
      have h := Ticked.panicked (hf' hf) hr (by rw [hu, hq])
      rwa [hu] at h
  | refused hf hr ho => exact .refused (hf' hf) hr ho
  | halted hf hr ho hn => exact .halted (hf' hf) hr ho hn
  | obeyed hf hr ho hn => exact .obeyed (hf' hf) hr ho hn

theorem timeline_finish (s : Session) (e : Ending) (done : List Effect) :
    Effect.timeline (s.finish e done).done = Effect.timeline done := by
  change Effect.timeline (done ++ [.noted _]) = Effect.timeline done
  rw [Effect.timeline_append]
  exact List.append_nil _

theorem timeline_play (s : Session) (chords : List Chord) :
    Effect.timeline (s.play chords).done = Effect.timeline (s.strikes chords).done := by
  unfold play
  dsimp only
  split
  · rfl
  · exact timeline_finish ..
  · rfl

theorem strikes_cut {line : Nat} {chords : List Chord} (hf : s.Faces ⟨line, .play chords⟩)
    (hr : s.head.rest = 0) (hc : (s.strikes chords).stage.cancelled = true) :
    Effect.timeline (s.strikes chords).done <+: Effect.timeline s.undisturbed.tick.done ∧
      ((s.strikes chords).striking.panic? = none →
        ∃ e, (Effect.timeline (s.strikes chords).done).getLast? = some (.sent e)) := by
  have hf' : s.undisturbed.Faces ⟨line, .play chords⟩ := ⟨hf.live, rfl, hf.action⟩
  obtain ⟨hpre, hlast⟩ := strikeAll_cut s.sink s.timing s.beat hf.free hc
  refine ⟨?_, fun hp => ?_⟩
  · rw [hf'.tick hr, timeline_play, undisturbed_eq hf.free]
    exact hpre.filter _
  · obtain ⟨done, e, hd⟩ := hlast hp
    refine ⟨e, ?_⟩
    rw [strikes, hd, Effect.timeline_append]
    exact List.getLast?_concat

/-- The tick in which the token is set breaks off after a whole chord, unless it panics. -/
theorem Ticked.cut (h : Ticked s t) (hs : s.stage.cancelled = false)
    (ht : t.session.stage.cancelled = true) :
    Effect.timeline t.done <+: Effect.timeline s.undisturbed.tick.done ∧
      (t.verdict.panic? = none →
        (∃ e, (Effect.timeline t.done).getLast? = some (.sent e)) ∧
          (t.verdict = .more ∨ t.verdict = .ended (.played .stopped))) := by
  cases h with
  | struck hf hr hq =>
      obtain ⟨hpre, hlast⟩ := strikes_cut hf hr ht
      exact ⟨hpre, fun _ => ⟨hlast (by rw [hq]; rfl), .inl rfl⟩⟩
  | interrupted hf hr hq =>
      obtain ⟨hpre, hlast⟩ := strikes_cut hf hr ht
      rw [timeline_finish]
      exact ⟨hpre, fun _ => ⟨hlast (by rw [hq]; rfl), .inr rfl⟩⟩
  | panicked hf hr hq => exact ⟨(strikes_cut hf hr ht).1, nofun⟩
  | rested hf hr =>
      have hw := s.stage.waitBeat_cancelled s.stage.now s.beat
      exact absurd (hs.symm.trans (hw.symm.trans ht)) nofun
  | past | stopped | finished | overslept | refused | halted | obeyed =>
      exact absurd (hs.symm.trans ht) nofun

end Session

end ChordScript
