import ChordScript.Proofs.Strokes

namespace ChordScript

open KeyEvent (shiftDepth shiftHeld)

theorem KeyEvent.shiftDepth_eq_count (log : List KeyEvent) :
    shiftDepth log = (log.count .shiftDown : Int) - log.count .shiftUp := by
  induction log with
  | nil => rfl
  | cons e log ih =>
      rw [← List.singleton_append, shiftDepth_append, ih, List.count_append, List.count_append]
      cases e <;> simp [shiftDepth, shift] <;> omega

namespace Chord

variable {c : Chord} {e : KeyEvent} {log : List KeyEvent}

theorem Broken.shiftDepth (h : c.Broken e log) :
    KeyEvent.shiftDepth log = - KeyEvent.shiftDepth [e] := by
  cases h with
  | shiftDown => rfl
  | press | release =>
      simp only [KeyEvent.shiftDepth_append, KeyEvent.shiftDepth_press, KeyEvent.shiftDepth_release,
        shiftDepth_ifShift]
      split <;> rfl
  | shiftUp hs =>
      simp only [KeyEvent.shiftDepth_append, KeyEvent.shiftDepth_press, KeyEvent.shiftDepth_release,
        ifShift_of_needsShift hs]
      rfl

theorem not_mem_ifShift {d : KeyEvent} (h : d ≠ e) : d ∉ c.ifShift e :=
  fun hd => h (mem_ifShift.mp hd).2

theorem count_shiftDown_of_eq {rest : List KeyEvent} (h : .shiftDown ∉ rest) :
    (c.ifShift .shiftDown ++ rest).count .shiftDown ≤ 1 := by
  rw [List.count_append, List.count_eq_zero.mpr h, ifShift]
  split <;> simp

theorem count_shiftDown_part (c : Chord) (ks : List Key) : (c.part ks).count .shiftDown ≤ 1 := by
  rw [part, List.append_assoc, List.append_assoc]
  exact count_shiftDown_of_eq (by simp [not_mem_ifShift])

theorem Broken.count_shiftDown (h : c.Broken e log) : log.count .shiftDown ≤ 1 := by
  cases h with
  | shiftDown => decide
  | press | release | shiftUp =>
      simp only [List.append_assoc]
      exact count_shiftDown_of_eq (by simp [not_mem_ifShift])

end Chord

namespace Stroke

variable {x : Stroke}

theorem Sound.count_shiftDown (h : x.Sound) : x.log.count .shiftDown ≤ 1 := by
  obtain ⟨left, right, -, -, hlog⟩ | ⟨e, h⟩ := h
  · rw [hlog]
    exact x.chord.count_shiftDown_part left
  · exact h.count_shiftDown

theorem Sound.shiftDepth_nonneg_iff (h : x.Sound) :
    0 ≤ KeyEvent.shiftDepth x.log ↔ ¬ x.BrokenAt .shiftDown := by
  constructor
  · intro hle hbroken
    rw [Chord.Broken.shiftDepth hbroken] at hle
    exact absurd hle (by decide)
  · intro hbroken
    rcases h with h | ⟨e, h⟩
    · exact Int.le_of_eq h.balanced.shift.symm
    · rw [Chord.Broken.shiftDepth h]
      cases e with
      | shiftDown => exact absurd h hbroken
      | press | release => exact Int.le_refl 0
      | shiftUp => decide

theorem Sound.shiftDepth_inside (h : x.Sound) {inside outside : List KeyEvent}
    (hx : x.log = inside ++ outside) (hdown : .shiftDown ∈ inside) (hup : .shiftUp ∉ inside) :
    KeyEvent.shiftDepth inside = 1 := by
  have hle := h.count_shiftDown
  have hpos := List.count_pos_iff.mpr hdown
  rw [hx, List.count_append] at hle
  rw [KeyEvent.shiftDepth_eq_count, List.count_eq_zero.mpr hup]
  omega

/-- Where one stroke at most is broken, the depth falls below 0 just by a shift that was not
pressed. -/
theorem shiftDepth_nonneg_iff {xs : List Stroke} (hsound : ∀ x ∈ xs, x.Sound)
    (honce : xs.Pairwise fun x y => x.Unbroken ∨ y.Unbroken) :
    0 ≤ KeyEvent.shiftDepth (xs.flatMap log) ↔ ∀ x ∈ xs, ¬ x.BrokenAt .shiftDown := by
  induction xs with
  | nil => simp [KeyEvent.shiftDepth]
  | cons x xs ih =>
      obtain ⟨hx, hxs⟩ := List.forall_mem_cons.mp hsound
      obtain ⟨hfirst, honce⟩ := List.pairwise_cons.mp honce
      rw [List.flatMap_cons, KeyEvent.shiftDepth_append, List.forall_mem_cons,
        ← hx.shiftDepth_nonneg_iff]
      by_cases hu : x.Unbroken
      · rw [hu.balanced.shift, Int.zero_add, ih hxs honce]
        exact (and_iff_right (Int.le_refl 0)).symm
      · have hrest : ∀ y ∈ xs, y.Unbroken := fun y hy => (hfirst y hy).resolve_left hu
        rw [← ih hxs honce, (balanced_of_unbroken hrest).shift, Int.add_zero]
        exact (and_iff_left (Int.le_refl 0)).symm

end Stroke

namespace Session

/-- How the log of a session tells of the shift. -/
structure Shifts (s : Session) (ms : List Move) : Prop where
  log : Effect.events (s.doneIn ms) = (s.strokesIn ms).flatMap Stroke.log
  sound : ∀ x ∈ s.strokesIn ms, x.Sound
  once : ∀ before x after, s.strokesIn ms = before ++ x :: after →
    before.Pairwise fun y z => y.Unbroken ∨ z.Unbroken
  held_iff : ∀ before x after inside outside, s.strokesIn ms = before ++ x :: after →
    x.log = inside ++ outside → .shiftDown ∈ inside → .shiftUp ∉ inside →
    (shiftHeld (before.flatMap Stroke.log ++ inside) = true ↔ ∀ y ∈ before, ¬ y.BrokenAt .shiftDown)

/-- The log of a session is made of strokes, and of those before another one at most is broken.
While the shift of a stroke is down, the log says so, unless an earlier stroke was broken off at its
shift: the release that follows it counts against the shift ever after. -/
theorem shift_known (document : Document) (config : Config) (sink : Sink) :
    let s := start document config sink
    (∀ ms : List Move, s.Lives ms → s.Shifts ms) ∧
    ∀ (cs : List Control) (ts : List Turn), s.history cs = some ts →
      ∃ ms, s.ComesTo ts ms := by
  intro s
  refine ⟨fun ms hl => ?_, fun cs ts h => history_comesTo h⟩
  have hsound := sound_strokesIn hl
  refine ⟨s.events_strokesIn ms, hsound, fun _ _ _ => once_before hl, ?_⟩
  intro before x after inside outside hstrokes hlog hdown hup
  have honce := once_before hl hstrokes
  rw [hstrokes, List.forall_mem_append, List.forall_mem_cons] at hsound
  have hinside := hsound.2.1.shiftDepth_inside hlog hdown hup
  rw [← Stroke.shiftDepth_nonneg_iff hsound.1 honce, shiftHeld, KeyEvent.shiftDepth_append,
    hinside, decide_eq_true_iff]
  omega

theorem shift_known_after_panic :
    let c : Chord := .single 'A'
    let s := start (.ofActions #[⟨1, .play [c]⟩, ⟨2, .play [c]⟩]) {} { panicAt := some 4 }
    let first : Stroke := ⟨c, [.shiftDown, .press 'A', .release 'A']⟩
    s.Lives [.tick, .tick] ∧ s.strokesIn [.tick, .tick] = [first, ⟨c, c.block⟩] ∧
      shiftHeld (first.log ++ [.shiftDown]) = true := by
  intro c s first
  have hlives : s.Lives [.tick, .tick] := ⟨by decide +kernel, by decide +kernel, trivial⟩
  have hstrokes : s.strokesIn [.tick, .tick] = [first, ⟨c, c.block⟩] := by decide +kernel
  have hshifts := (shift_known (.ofActions #[⟨1, .play [c]⟩, ⟨2, .play [c]⟩]) {}
    { panicAt := some 4 }).1 [.tick, .tick] hlives
  have hfirst : first.Sound := hshifts.sound first (hstrokes ▸ List.mem_cons_self)
  have hlog : c.block = [.shiftDown] ++ [.press 'A', .release 'A', .shiftUp] := rfl
  refine ⟨hlives, hstrokes, ?_⟩
  refine (hshifts.held_iff [first] _ [] _ _ hstrokes hlog (by decide) (by decide)).mpr ?_
  intro y hy
  obtain rfl := List.mem_singleton.mp hy
  exact hfirst.shiftDepth_nonneg_iff.mp (by decide)

/-- The sink panics as the shift of the first stroke goes down. In the next stroke the shift is down
from the second event of the log to the last but one, and the log does not say so. -/
theorem shift_forgotten :
    let c : Chord := .single 'A'
    let s := start (.ofActions #[⟨1, .play [c]⟩]) {} { panicAt := some 1 }
    Stroke.BrokenAt ⟨c, [.shiftUp]⟩ .shiftDown ∧
      s.strokesIn [.tick, .tick] = [⟨c, [.shiftUp]⟩, ⟨c, c.block⟩] ∧
      c.block = [.shiftDown, .press 'A', .release 'A', .shiftUp] ∧
      ∀ inside ∈ [[.shiftDown], [.shiftDown, .press 'A'], [.shiftDown, .press 'A', .release 'A']],
        shiftHeld ([.shiftUp] ++ inside) = false := by
  exact ⟨.shiftDown rfl, by decide +kernel, rfl, by decide⟩

end Session

end ChordScript
