import ChordScript.Proofs.Moves

namespace ChordScript

namespace Session

open KeyEvent (Balanced heldKeys shiftHeld)

variable {s : Session} {ms : List Move}

theorem precedes_after (s : Session) (ms : List Move) : s.stage.Precedes (s.after ms).stage := by
  induction ms generalizing s with
  | nil => exact .refl _
  | cons m ms ih =>
      cases m with
      | tick => exact s.ticked.reaches.toPrecedes.trans (ih _)
      | cancel => exact ⟨(ih s.cancel).calls, (ih s.cancel).now⟩

theorem GoesOn.calm {n : Nat} (h : s.GoesOn n) : s.Calm (Move.ticks n) := by
  induction n generalizing s with
  | zero => trivial
  | succ n ih => exact ⟨congrArg Verdict.panic? h.1, ih h.2⟩

theorem RunsFor.calm {n : Nat} (h : s.RunsFor n)
    (hv : (s.after (Move.ticks n)).tick.verdict.panic? = none) : s.Calm (Move.ticks (n + 1)) := by
  rw [Move.ticks, List.replicate_succ']
  exact answers_append.mpr ⟨h.1.calm, hv, trivial⟩

/-- The log of calm moves is made of the blocks of the chords struck, and counts the calls. -/
theorem log_of_calm (h : s.Calm ms) :
    Effect.events (s.doneIn ms) = (s.struckIn ms).flatMap Chord.block ∧
      (s.after ms).stage.calls = s.stage.calls + (Effect.events (s.doneIn ms)).length := by
  induction ms generalizing s with
  | nil => exact ⟨rfl, rfl⟩
  | cons m ms ih =>
      obtain ⟨he, hc⟩ := ih h.2
      cases m with
      | cancel => exact ⟨he, hc⟩
      | tick =>
          have ht := s.ticked.took h.1
          have hd : Effect.events (s.doneIn (.tick :: ms)) =
              s.struck.flatMap Chord.block ++ Effect.events (s.tick.session.doneIn ms) := by
            rw [doneIn, Effect.events_append, move, ht.events]
          refine ⟨?_, ?_⟩
          · rw [hd, struckIn, List.flatMap_append]
            exact congrArg _ he
          · rw [hd, List.length_append, ← Nat.add_assoc, ← ht.calls]
            exact hc

theorem cancelled_after (s : Session) (ms : List Move) : (s.after ms).stage.cancelled =
    (s.stage.cancelled || decide (.cancel ∈ ms) ||
      Sink.hits s.sink.cancelAt s.stage.calls ((s.after ms).stage.calls - s.stage.calls)) := by
  induction ms generalizing s with
  | nil => simp [after, Sink.hits_zero]
  | cons m ms ih =>
      have hm := ih (s.move m).session
      cases m with
      | cancel =>
          rw [after, hm]
          simp [move, cancel, Stage.cancel]
      | tick =>
          have ht := s.ticked.reaches
          have hle := ht.calls
          have hle' := (precedes_after s.tick.session ms).calls
          have hcalls : (s.tick.session.after ms).stage.calls - s.stage.calls =
              (s.tick.session.stage.calls - s.stage.calls) +
                ((s.tick.session.after ms).stage.calls - s.tick.session.stage.calls) := by omega
          rw [after, hm, move, hcalls, Sink.hits_add, Nat.add_sub_cancel' hle, ht.cancelled,
            s.ticked.frame.2.1]
          simp [Bool.or_assoc, Bool.or_left_comm]

theorem balanced_of_calm (h : s.Calm ms) : Balanced (Effect.events (s.doneIn ms)) := by
  rw [(log_of_calm h).1]
  exact Chord.balanced_blocks _

/-- A history comes down to moves: to what they do, up to the notices that open a run, and to what
becomes of the session. -/
structure ComesTo (s : Session) (ts : List Turn) (ms : List Move) : Prop where
  last : s.last ts = s.after ms
  timeline : Effect.timeline (ts.flatMap Turn.done) = Effect.timeline (s.doneIn ms)
  events : Effect.events (ts.flatMap Turn.done) = Effect.events (s.doneIn ms)
  lives : s.Lives ms
  calm : (∀ t ∈ ts, t.verdict.panic? = none) → s.Calm ms

theorem history_comesTo {cs : List Control} {ts : List Turn} (h : s.history cs = some ts) :
    ∃ ms, s.ComesTo ts ms := by
  obtain ⟨hv, ms, hl, hd, ha⟩ := history_moves h Effect.isHeard (fun _ _ => rfl)
  refine ⟨ms, hl, hd, ?_, ha _ nofun hv, ha (·.panic? = none) rfl⟩
  rw [← Effect.events_timeline, Effect.timeline, hd, ← Effect.timeline, Effect.events_timeline]

end Session

end ChordScript
