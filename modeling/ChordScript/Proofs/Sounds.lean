import ChordScript.Proofs.Log
import ChordScript.Proofs.Orders
import ChordScript.Proofs.Timing

namespace ChordScript

open Sink (hits)

/-- A chord or a beat of a rest, with the tempo at which it is played. -/
inductive Sound
  | chord (tempo : Nat) (c : Chord)
  | rest (tempo : Nat)
deriving DecidableEq

def Sound.chord? : Sound → Option Chord
  | chord _ c => some c
  | rest _ => none

def Chord.time (c : Chord) (t : Timing) (cost : Nat) : Nat :=
  cost * (2 * c.keys.length + 2 * c.needsShift.toNat) + (c.keys.length - 1) * t.stagger + t.hold

def Sound.time (t : Timing) (cost : Nat) : Sound → Nat
  | chord tempo c => max (60000 / tempo) (c.time t cost)
  | rest tempo => 60000 / tempo

theorem Chord.span_eq_time (c : Chord) (t : Timing) (cost : Nat) : c.span t cost = c.time t cost := by
  rw [span, time, length_block, Nat.add_assoc]

theorem Sound.filterMap_chords (tempo : Nat) (cs : List Chord) :
    (cs.map (chord tempo)).filterMap chord? = cs := by
  rw [List.filterMap_map]
  exact List.filterMap_some

theorem Playhead.tempo_pos_of_follow {h head : Playhead} {d : Directive} {tags : TagIndex}
    {line : Nat} {order : Order} {notices : List Notice} (ho : d.order tags = .ok order)
    (hn : h.follow line order = some (head, notices)) (ht : 1 ≤ h.tempo) : 1 ≤ head.tempo := by
  cases Directive.order_eq_ok.mp ho with
  | tempo hk hm hr =>
      obtain ⟨rfl, -⟩ := Prod.mk.inj (Option.some.inj hn)
      exact Int.lt_toNat.mpr (by omega)
  | rest | pass =>
      obtain ⟨rfl, -⟩ := Prod.mk.inj (Option.some.inj hn)
      exact ht
  | stop => cases hn
  | jump =>
      unfold Playhead.follow at hn
      dsimp only at hn
      split at hn <;>
        · obtain ⟨rfl, -⟩ := Prod.mk.inj (Option.some.inj hn)
          exact ht

namespace Session

variable {s : Session} {t : Turn} {a : Action} {ms : List Move}

theorem Ticked.tempo_pos (h : Ticked s t) (ht : 1 ≤ s.head.tempo) : 1 ≤ t.session.head.tempo := by
  cases h with
  | obeyed hf hr ho hn => exact Playhead.tempo_pos_of_follow ho hn ht
  | past | stopped | finished | rested | overslept | struck | interrupted | panicked | refused
    | halted =>
      exact ht

theorem tempo_pos_after (ht : 1 ≤ s.head.tempo) (ms : List Move) : 1 ≤ (s.after ms).head.tempo := by
  induction ms generalizing s with
  | nil => exact ht
  | cons m ms ih =>
      cases m with
      | tick => exact ih (s.ticked.tempo_pos ht)
      | cancel => exact ih (s := s.cancel) ht

theorem beat_eq (ht : 1 ≤ s.head.tempo) : s.beat = 60000 / s.head.tempo :=
  congrArg (60000 / ·) (Nat.max_eq_left ht)

/-- What a tick spends its time on if the token is not set. -/
def sounds (s : Session) : List Sound :=
  match s.phase.ending?, s.stage.cancelled, s.document.actions[s.head.cursor]?, s.head.rest with
  | none, false, some ⟨_, .play chords⟩, 0 => chords.map (.chord s.head.tempo)
  | none, false, some _, _ + 1 => [.rest s.head.tempo]
  | _, _, _, _ => []

def soundsBy (s : Session) : Move → List Sound
  | .tick => s.sounds
  | .cancel => []

def soundsIn (s : Session) : List Move → List Sound
  | [] => []
  | m :: ms => s.soundsBy m ++ (s.move m).session.soundsIn ms

theorem soundsIn_append (s : Session) (ms ns : List Move) :
    s.soundsIn (ms ++ ns) = s.soundsIn ms ++ (s.after ms).soundsIn ns := by
  induction ms generalizing s with
  | nil => rfl
  | cons m ms ih => simp only [List.cons_append, soundsIn, ih, after, List.append_assoc]

theorem sounds_of_rest (hf : s.Faces a) (hr : 0 < s.head.rest) :
    s.sounds = [.rest s.head.tempo] := by
  obtain ⟨n, hn⟩ := Nat.exists_eq_add_of_lt hr
  simp [sounds, hf.live, hf.free, hf.action, hn]

theorem sounds_of_play {line : Nat} {chords : List Chord} (hf : s.Faces ⟨line, .play chords⟩)
    (hr : s.head.rest = 0) : s.sounds = chords.map (.chord s.head.tempo) := by
  simp [sounds, hf.live, hf.free, hf.action, hr]

theorem sounds_of_obey {line : Nat} {d : Directive} (hf : s.Faces ⟨line, .obey d⟩)
    (hr : s.head.rest = 0) : s.sounds = [] := by
  simp [sounds, hf.live, hf.free, hf.action, hr]

theorem sounds_of_none (ha : s.document.actions[s.head.cursor]? = none) : s.sounds = [] := by
  simp [sounds, ha]

def lasts (s : Session) : Nat := (s.sounds.map (Sound.time s.timing s.sink.cost)).sum

def lastsIn (s : Session) (ms : List Move) : Nat :=
  ((s.soundsIn ms).map (Sound.time s.timing s.sink.cost)).sum

theorem lastsIn_tick (s : Session) (ms : List Move) :
    s.lastsIn (.tick :: ms) = s.lasts + s.tick.session.lastsIn ms := by
  obtain ⟨-, hsink, htiming⟩ := s.ticked.frame
  rw [lastsIn, soundsIn, List.map_append, List.sum_append, lastsIn, hsink, htiming]
  rfl

theorem lasts_of_rest (hf : s.Faces a) (hr : 0 < s.head.rest) (ht : 1 ≤ s.head.tempo) :
    s.lasts = s.beat := by
  rw [lasts, sounds_of_rest hf hr, List.map_singleton, List.sum_singleton, beat_eq ht]
  rfl

theorem lasts_of_play {line : Nat} {chords : List Chord} (hf : s.Faces ⟨line, .play chords⟩)
    (hr : s.head.rest = 0) (ht : 1 ≤ s.head.tempo) :
    s.lasts = (chords.map fun c => max s.beat (c.span s.timing s.sink.cost)).sum := by
  have htime : Sound.time s.timing s.sink.cost ∘ Sound.chord s.head.tempo =
      fun c => max s.beat (c.span s.timing s.sink.cost) := by
    funext c
    rw [beat_eq ht, Chord.span_eq_time]
    rfl
  rw [lasts, sounds_of_play hf hr, List.map_map, htime]

theorem lasts_of_obey {line : Nat} {d : Directive} (hf : s.Faces ⟨line, .obey d⟩)
    (hr : s.head.rest = 0) : s.lasts = 0 := by
  rw [lasts, sounds_of_obey hf hr]
  rfl

theorem free_of_after (hc : (s.after ms).stage.cancelled = false) : s.stage.cancelled = false := by
  rw [cancelled_after, Bool.or_eq_false_iff, Bool.or_eq_false_iff] at hc
  exact hc.1.1

theorem Ticked.now (h : Ticked s t) (hv : t.verdict.panic? = none)
    (hc : t.session.stage.cancelled = false) (ht : 1 ≤ s.head.tempo) :
    t.session.stage.now = s.stage.now + s.lasts := by
  cases h with
  | past hp =>
      rw [lasts, show s.sounds = [] by simp [sounds, hp, Phase.ending?]]
      rfl
  | stopped hp hcancelled => cases hcancelled.symm.trans hc
  | finished hp hfree ha =>
      rw [lasts, sounds_of_none ha]
      rfl
  | rested hf hr hw =>
      have hnow := Stage.waitBeat_now hw hf.free (Nat.le_refl _)
      rw [Nat.max_eq_right (Nat.le_add_right ..)] at hnow
      rw [lasts_of_rest hf hr ht]
      exact hnow
  | struck hf hr hs =>
      rw [lasts_of_play hf hr ht]
      exact strikeAll_now hs hc
  | interrupted hf hr hs =>
      -- The token is set whenever chords are left out.
      cases (cancelled_of_strikeAll hs).symm.trans hc
  | overslept | panicked => cases hv
  | refused hf hr | halted hf hr | obeyed hf hr =>
      rw [lasts_of_obey hf hr]
      rfl

theorem Ticked.fits (h : Ticked s t)
    (hp : hits s.sink.panicAt s.stage.calls (s.due.flatMap Chord.block).length = false)
    (ht : 1 ≤ s.head.tempo) (hn : s.stage.now + s.lasts < timeLimit) : t.verdict.panic? = none := by
  cases h with
  | overslept hf hr hw =>
      rw [lasts_of_rest hf hr ht] at hn
      rw [pause, Stage.waitBeat_fits (Nat.le_refl _) (by omega)] at hw
      cases hw
  | panicked hf hr hs =>
      rw [due_eq hf hr] at hp
      rw [lasts_of_play hf hr ht] at hn
      have hcalm := strikeAll_fits hp hn
      rw [show strikeAll s.sink s.timing s.beat _ s.stage = s.strikes _ from rfl, hs] at hcalm
      cases hcalm
  | past | stopped | finished | rested | struck | interrupted | refused | halted | obeyed => rfl

/-- Unless the sink panics, a tick panics when the time for it is not left. -/
theorem Ticked.fits_iff (h : Ticked s t)
    (hp : hits s.sink.panicAt s.stage.calls (s.due.flatMap Chord.block).length = false)
    (hc : t.session.stage.cancelled = false) (ht : 1 ≤ s.head.tempo) :
    t.verdict.panic? = none ↔ s.stage.now + s.lasts < timeLimit :=
  ⟨fun hv => h.now hv hc ht ▸ t.session.stage.now_lt, h.fits hp ht⟩

theorem Ticked.late (h : Ticked s t) (hv : t.verdict = .panicked .clock) (ht : 1 ≤ s.head.tempo) :
    ∃ a, s.Faces a ∧ (0 < s.head.rest ∨ ∃ chords, a.step = .play chords) ∧
      t.session.head.cursor = s.head.cursor ∧ timeLimit ≤ s.stage.now + s.lasts := by
  cases h with
  | @overslept a hf hr hw =>
      refine ⟨a, hf, .inl hr, rfl, Nat.le_of_not_lt fun hlt => ?_⟩
      rw [lasts_of_rest hf hr ht] at hlt
      rw [pause, Stage.waitBeat_fits (Nat.le_refl _) (by omega)] at hw
      cases hw
  | @panicked line chords cause hf hr hs =>
      obtain rfl := Verdict.panicked.inj hv
      refine ⟨_, hf, .inr ⟨chords, rfl⟩, rfl, ?_⟩
      rw [lasts_of_play hf hr ht]
      exact strikeAll_late hs
  | past | stopped | finished | rested | struck | interrupted | refused | halted | obeyed => cases hv

theorem tick_overruns {line n : Nat} {c : Chord}
    (hf : s.Faces ⟨line, .play (List.replicate n c)⟩) (hr : s.head.rest = 0)
    (hc : s.sink.cost = 0) (hp : s.sink.panicAt = none) (hcancel : s.sink.cancelAt = none)
    (hn : timeLimit ≤ s.stage.now + n * max s.beat (c.span s.timing 0)) :
    s.tick.verdict = .panicked .clock ∧ s.tick.session.head = s.head := by
  refine tick_of_panicked hf hr (strikeAll_overruns hc hp hcancel hf.free ?_)
  rwa [List.map_replicate, List.sum_replicate_nat, hc]

theorem Ticked.now_of_ended {e : Ending} (h : Ticked s t) (he : t.verdict = .ended e)
    (hc : t.session.stage.cancelled = false) : t.session.stage.now = s.stage.now := by
  cases h with
  | past | stopped | finished | refused | halted => rfl
  | interrupted hf hr hs => cases (cancelled_of_strikeAll hs).symm.trans hc
  | rested | overslept | struck | panicked | obeyed => cases he

theorem Ticked.struck_eq (h : Ticked s t) (hv : t.verdict.panic? = none)
    (hc : t.session.stage.cancelled = false) : s.struck = s.sounds.filterMap Sound.chord? := by
  have hdue : s.due = s.sounds.filterMap Sound.chord? := by
    unfold due sounds
    split
    · next hp hfree ha hr => simp only [hp, hfree, ha, hr, Sound.filterMap_chords]
    · next hne =>
        split
        · next hp hfree ha hr => exact absurd hr (hne _ _ hp hfree ha)
        · rfl
        · rfl
  rw [(h.took hv).cancelled, Bool.or_eq_false_iff] at hc
  rw [← hdue]
  exact Sink.struck_eq_self s.sink hc.2

/-- Time passes for what is played, and for nothing else. -/
theorem now_after (hcalm : s.Calm ms) (hc : (s.after ms).stage.cancelled = false)
    (ht : 1 ≤ s.head.tempo) : (s.after ms).stage.now = s.stage.now + s.lastsIn ms ∧
      s.struckIn ms = (s.soundsIn ms).filterMap Sound.chord? := by
  induction ms generalizing s with
  | nil => exact ⟨rfl, rfl⟩
  | cons m ms ih =>
      -- The token is not set after the first move either, so that move is no cancellation.
      have hfree := free_of_after (s := (s.move m).session) hc
      cases m with
      | cancel => cases hfree
      | tick =>
          obtain ⟨hnow, hstruck⟩ := ih hcalm.2 hc (s.ticked.tempo_pos ht)
          rw [move, s.ticked.now hcalm.1 hfree ht, Nat.add_assoc, ← lastsIn_tick] at hnow
          refine ⟨hnow, ?_⟩
          rw [struckIn, soundsIn, List.filterMap_append, hstruck]
          exact congrArg (· ++ _) (s.ticked.struck_eq hcalm.1 hfree)

/-- At a sink that does not panic, moves panic when the time for all that is played in them is not
left. -/
theorem calm_iff (hp : s.sink.panicAt = none) (hc : (s.after ms).stage.cancelled = false)
    (ht : 1 ≤ s.head.tempo) : s.Calm ms ↔ s.stage.now + s.lastsIn ms < timeLimit := by
  induction ms generalizing s with
  | nil => exact iff_of_true trivial s.stage.now_lt
  | cons m ms ih =>
      have hfree := free_of_after (s := (s.move m).session) hc
      cases m with
      | cancel => cases hfree
      | tick =>
          have hiff := s.ticked.fits_iff (by rw [hp]; rfl) hfree ht
          rw [lastsIn_tick, ← Nat.add_assoc]
          by_cases hv : s.tick.verdict.panic? = none
          · have hrest := ih (s := s.tick.session) (s.ticked.frame.2.1 ▸ hp) hc (s.ticked.tempo_pos ht)
            rw [s.ticked.now hv hfree ht] at hrest
            exact (and_iff_right hv).trans hrest
          · refine iff_of_false (fun h => hv h.1) fun h => hv (hiff.mpr ?_)
            omega

end Session

end ChordScript
