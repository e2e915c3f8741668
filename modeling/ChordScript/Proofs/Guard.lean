import ChordScript.Proofs.Perform

namespace ChordScript

open KeyEvent (heldKeys shiftHeld shiftDepth hold)

def KeyEvent.released? : KeyEvent → Option Key
  | release k => some k
  | _ => none

/-- Of a chord that the sink broke off at the event `e`, all keys pressed and the shift are released
among the events `rest` at the latest. The one that may be missing is `e` itself. -/
structure Released (before : List KeyEvent) (e : KeyEvent) (rest : List KeyEvent) : Prop where
  keys : ∀ k, .press k ∈ before ++ [e] → .release k ∈ before ++ rest ∨ e = .release k
  shift : .shiftDown ∈ before ++ [e] → .shiftUp ∈ rest ∨ e = .shiftUp

/-- The keys that stay down if the release of one of them panics, after which `after` was to come. -/
def stuck : KeyEvent → List KeyEvent → List Key
  | .release k, after => k :: after.filterMap KeyEvent.released?
  | _, _ => []

namespace Hand

theorem foldl_press (ks : List Key) (h : Hand) :
    (ks.map KeyEvent.press).foldl after h = { h with keys := h.keys ++ ks } := by
  induction ks generalizing h with
  | nil => simp
  | cons k ks ih => simp [after, ih]

theorem foldl_release {ks : List Key} (hk : ks ≠ []) (h : Hand) :
    (ks.map KeyEvent.release).foldl after h = ⟨[], h.shift⟩ := by
  cases ks with
  | nil => exact absurd rfl hk
  | cons k ks =>
      -- The first release empties the hand, the others find it empty.
      clear hk
      change (ks.map KeyEvent.release).foldl after ⟨[], h.shift⟩ = _
      induction ks with
      | nil => rfl
      | cons l ks ih => exact ih

theorem foldl_presses (c : Chord) (ks : List Key) :
    (c.ifShift .shiftDown ++ ks.map KeyEvent.press).foldl after {} = ⟨ks, c.needsShift⟩ := by
  rw [List.foldl_append, foldl_press]
  rw [Chord.ifShift]
  split
  · next hs => simp [after, hs]
  · next hs => simp [hs]

def wayOut (before : List KeyEvent) (e : KeyEvent) : List KeyEvent :=
  Cue.events ((before ++ [e]).foldl after {}).letGo

variable (c : Chord) (ks : List Key) (k : Key)

theorem wayOut_press : wayOut (c.ifShift .shiftDown ++ ks.map .press) (.press k) =
    (ks ++ [k]).map .release ++ c.ifShift .shiftUp := by
  rw [wayOut, List.foldl_append, foldl_presses, List.foldl_cons, List.foldl_nil, after, events_letGo]
  rfl

theorem wayOut_release :
    wayOut (c.ifShift .shiftDown ++ c.keys.map .press ++ ks.map .release) (.release k) =
      c.ifShift .shiftUp := by
  have hk : ks.map KeyEvent.release ++ [.release k] = (ks ++ [k]).map .release := by simp
  rw [wayOut, List.append_assoc, hk, List.foldl_append, foldl_presses, foldl_release (by simp),
    events_letGo]
  rfl

theorem wayOut_shiftUp :
    wayOut (c.ifShift .shiftDown ++ c.keys.map .press ++ c.keys.map .release) .shiftUp = [] := by
  rw [wayOut, List.foldl_append, List.foldl_append, foldl_presses, foldl_release c.nonempty,
    List.foldl_cons, List.foldl_nil, after, events_letGo]
  rfl

end Hand

open Hand (wayOut)

namespace Chord

variable {c : Chord} {before after : List KeyEvent} {e : KeyEvent}

theorem mem_ifShift {d : KeyEvent} : d ∈ c.ifShift e ↔ c.needsShift = true ∧ d = e := by
  rw [ifShift]
  split <;> simp [*]

theorem ifShift_of_needsShift (hs : c.needsShift = true) (e : KeyEvent) : c.ifShift e = [e] :=
  if_pos hs

theorem released_rest (right : List Key) :
    (right.map KeyEvent.release ++ c.ifShift .shiftUp).filterMap KeyEvent.released? = right := by
  have hu : (c.ifShift .shiftUp).filterMap KeyEvent.released? = [] := by
    rw [ifShift]
    split <;> rfl
  rw [List.filterMap_append, hu, List.append_nil]
  induction right with
  | nil => rfl
  | cons k right ih => exact congrArg (k :: ·) ih

theorem Splits.heldKeys_wayOut (h : c.Splits before e after) :
    heldKeys (before ++ wayOut before e) = stuck e after := by
  cases h with
  | shiftDown => rfl
  | @press left k right =>
      have hl : (left.map KeyEvent.release).foldl hold left = [] := by
        simpa using KeyEvent.foldl_hold_release left []
      rw [Hand.wayOut_press, KeyEvent.heldKeys_append, heldKeys_presses, List.foldl_append,
        heldKeys_ifShift c _ (.inr rfl), List.map_append, List.foldl_append, hl]
      rfl
  | release hk =>
      rw [Hand.wayOut_release, KeyEvent.heldKeys_append, heldKeys_releases hk,
        heldKeys_ifShift c _ (.inr rfl), stuck, released_rest]
  | shiftUp =>
      rw [Hand.wayOut_shiftUp, List.append_nil, heldKeys_releases (List.append_nil _).symm]
      rfl

theorem shiftDepth_ifShift (c : Chord) (e : KeyEvent) :
    shiftDepth (c.ifShift e) = if c.needsShift then shiftDepth [e] else 0 := by
  rw [ifShift]
  split <;> rfl

theorem Splits.shiftHeld_wayOut (h : c.Splits before e after) :
    shiftHeld (before ++ wayOut before e) = decide (e = .shiftUp) := by
  rw [shiftHeld, KeyEvent.shiftDepth_append]
  cases h with
  | shiftDown => rfl
  | press =>
      rw [Hand.wayOut_press]
      simp only [KeyEvent.shiftDepth_append, KeyEvent.shiftDepth_press, KeyEvent.shiftDepth_release,
        shiftDepth_ifShift]
      split <;> rfl
  | release =>
      rw [Hand.wayOut_release]
      simp only [KeyEvent.shiftDepth_append, KeyEvent.shiftDepth_press, KeyEvent.shiftDepth_release,
        shiftDepth_ifShift]
      split <;> rfl
  | shiftUp hs =>
      rw [Hand.wayOut_shiftUp]
      simp only [KeyEvent.shiftDepth_append, KeyEvent.shiftDepth_press, KeyEvent.shiftDepth_release,
        ifShift_of_needsShift hs]
      rfl

theorem mem_rest {right : List Key} {l : Key} :
    .release l ∈ right.map KeyEvent.release ++ c.ifShift .shiftUp ↔ l ∈ right := by
  simp [mem_ifShift]

theorem Splits.released (h : c.Splits before e after) (he : ∀ k, e ≠ .release k) :
    Released before e (wayOut before e) := by
  cases h with
  | shiftDown => exact ⟨by simp, fun _ => .inl (by decide)⟩
  | press =>
      rw [Hand.wayOut_press]
      constructor
      · intro k hk
        left
        apply List.mem_append_right
        rw [mem_rest]
        simpa [mem_ifShift] using hk
      · intro hd
        left
        apply List.mem_append_right
        apply mem_ifShift.mpr
        simpa [mem_ifShift] using hd
  | release => exact absurd rfl (he _)
  | shiftUp =>
      constructor
      · intro k hk
        have hk : k ∈ c.keys := by simpa [mem_ifShift] using hk
        left
        simp [hk]
      · intro _
        exact .inr rfl

theorem released_release {left right : List Key} {k : Key} (hk : c.keys = left ++ k :: right) :
    Released (c.ifShift .shiftDown ++ c.keys.map .press ++ left.map .release) (.release k)
      (c.ifShift .shiftUp) ↔ right = [] := by
  have hn := c.nodup
  rw [hk, List.nodup_append, List.nodup_cons] at hn
  constructor
  · intro hr
    apply List.eq_nil_iff_forall_not_mem.mpr
    intro l hl
    have hp := hr.keys l (by simp [hk, hl])
    have hp : l ∈ left ∨ k = l := by simpa [mem_ifShift] using hp
    rcases hp with hp | rfl
    · exact hn.2.2 l hp l (List.mem_cons_of_mem k hl) rfl
    · exact hn.2.1.1 hl
  · rintro rfl
    constructor
    · intro x hx
      have hx : x ∈ left ∨ x = k := by simpa [mem_ifShift, hk] using hx
      rcases hx with hx | rfl
      · left
        simp [hx]
      · exact .inr rfl
    · intro hd
      left
      apply mem_ifShift.mpr
      simpa [mem_ifShift] using hd

theorem Splits.released_iff (h : c.Splits before e after) :
    Released before e (wayOut before e) ↔ ∀ k l, e = .release k → .release l ∉ after := by
  by_cases he : ∃ k, e = .release k
  · obtain ⟨k, rfl⟩ := he
    cases h with
    | @release left _ right hk =>
        rw [Hand.wayOut_release, released_release hk, List.eq_nil_iff_forall_not_mem]
        constructor
        · intro hr _ l _
          rw [mem_rest]
          exact hr l
        · intro hr l hl
          exact hr k l rfl (mem_rest.mpr hl)
  · constructor
    · intro _ k l hk
      exact absurd ⟨k, hk⟩ he
    · intro _
      exact h.released fun k hk => he ⟨k, hk⟩

/-- What a chord leaves in the log if the sink panics at the given event. -/
inductive Broken (c : Chord) : KeyEvent → List KeyEvent → Prop
  | shiftDown (hs : c.needsShift = true) : Broken c .shiftDown [.shiftUp]
  | press {left : List Key} {k : Key} {right : List Key} (hk : c.keys = left ++ k :: right) :
      Broken c (.press k) (c.ifShift .shiftDown ++ left.map .press ++
        ((left ++ [k]).map .release ++ c.ifShift .shiftUp))
  | release {left : List Key} {k : Key} {right : List Key} (hk : c.keys = left ++ k :: right) :
      Broken c (.release k) (c.ifShift .shiftDown ++ c.keys.map .press ++ left.map .release ++
        c.ifShift .shiftUp)
  | shiftUp (hs : c.needsShift = true) :
      Broken c .shiftUp (c.ifShift .shiftDown ++ c.keys.map .press ++ c.keys.map .release)

theorem Splits.broken (h : c.Splits before e after) : c.Broken e (before ++ wayOut before e) := by
  cases h with
  | shiftDown hs => exact .shiftDown hs
  | press hk =>
      rw [Hand.wayOut_press]
      exact .press hk
  | release hk =>
      rw [Hand.wayOut_release]
      exact .release hk
  | shiftUp hs =>
      rw [Hand.wayOut_shiftUp, List.append_nil]
      exact .shiftUp hs

end Chord

end ChordScript
