import ChordScript.Playback.Strike

namespace ChordScript

theorem append_eq_mid {α : Type} {xs ys before after : List α} {e : α}
    (h : xs ++ ys = before ++ e :: after) :
    (∃ mid, xs = before ++ e :: mid ∧ after = mid ++ ys) ∨
      ∃ mid, before = xs ++ mid ∧ ys = mid ++ e :: after := by
  rcases List.append_eq_append_iff.mp h with ⟨mid, hb, hy⟩ | ⟨mid, hx, hm⟩
  · exact .inr ⟨mid, hb, hy⟩
  · cases mid with
    | nil => exact .inr ⟨[], by simpa using hx.symm, by simpa using hm.symm⟩
    | cons a mid =>
        obtain ⟨rfl, rfl⟩ := List.cons.inj hm
        exact .inl ⟨mid, hx, rfl⟩

theorem map_eq_mid {α β : Type} {f : α → β} {xs : List α} {before after : List β} {e : β}
    (h : xs.map f = before ++ e :: after) :
    ∃ left x right, xs = left ++ x :: right ∧ before = left.map f ∧ e = f x ∧
      after = right.map f := by
  obtain ⟨left, rest, rfl, rfl, hr⟩ := List.map_eq_append_iff.mp h
  obtain ⟨x, right, rfl, rfl, rfl⟩ := List.map_eq_cons_iff.mp hr
  exact ⟨left, x, right, rfl, rfl, rfl, rfl⟩

namespace KeyEvent

/-- Nothing is down at the end of the log, and on the way no key is pressed while it is down or
released while it is up. -/
structure Balanced (log : List KeyEvent) : Prop where
  keys : heldKeys log = []
  shift : shiftDepth log = 0
  press : ∀ before k after, log = before ++ .press k :: after → k ∉ heldKeys before
  release : ∀ before k after, log = before ++ .release k :: after → k ∈ heldKeys before

theorem heldKeys_append (xs ys : List KeyEvent) :
    heldKeys (xs ++ ys) = ys.foldl hold (heldKeys xs) := List.foldl_append

theorem foldl_shift (ys : List KeyEvent) (depth : Int) :
    ys.foldl shift depth = depth + shiftDepth ys := by
  induction ys generalizing depth with
  | nil => simp [shiftDepth]
  | cons e ys ih =>
      have hs : shiftDepth (e :: ys) = shift 0 e + shiftDepth ys := ih (shift 0 e)
      rw [List.foldl_cons, ih, hs]
      cases e <;> simp only [shift] <;> omega

theorem shiftDepth_append (xs ys : List KeyEvent) :
    shiftDepth (xs ++ ys) = shiftDepth xs + shiftDepth ys := by
  rw [shiftDepth, List.foldl_append, foldl_shift]
  rfl

theorem foldl_hold_press (ks held : List Key) : (ks.map press).foldl hold held = held ++ ks := by
  induction ks generalizing held with
  | nil => simp
  | cons k ks ih => simp [hold, ih]

theorem foldl_hold_release (ks held : List Key) :
    (ks.map release).foldl hold (ks ++ held) = held := by
  induction ks with
  | nil => rfl
  | cons k ks ih => simpa [hold] using ih

theorem shiftDepth_press (ks : List Key) : shiftDepth (ks.map press) = 0 := by
  induction ks with
  | nil => rfl
  | cons k ks ih => exact ih

theorem shiftDepth_release (ks : List Key) : shiftDepth (ks.map release) = 0 := by
  induction ks with
  | nil => rfl
  | cons k ks ih => exact ih

theorem Balanced.shiftHeld {log : List KeyEvent} (h : Balanced log) : shiftHeld log = false := by
  simp [KeyEvent.shiftHeld, h.shift]

theorem Balanced.heldKeys_append {xs : List KeyEvent} (h : Balanced xs) (ys : List KeyEvent) :
    heldKeys (xs ++ ys) = heldKeys ys := by
  rw [KeyEvent.heldKeys_append, h.keys]
  rfl

theorem Balanced.shiftHeld_append {xs : List KeyEvent} (h : Balanced xs) (ys : List KeyEvent) :
    KeyEvent.shiftHeld (xs ++ ys) = KeyEvent.shiftHeld ys := by
  simp [KeyEvent.shiftHeld, shiftDepth_append, h.shift]

theorem balanced_nil : Balanced [] := ⟨rfl, rfl, by simp, by simp⟩

theorem balanced_keys {ks : List Key} (hn : ks.Nodup) :
    Balanced (ks.map press ++ ks.map release) where
  keys := by
    have h := foldl_hold_release ks []
    rw [List.append_nil] at h
    rw [heldKeys_append, heldKeys, foldl_hold_press]
    exact h
  shift := by
    rw [shiftDepth_append, shiftDepth_press, shiftDepth_release]
    rfl
  press := by
    intro before k after h
    rcases append_eq_mid h with ⟨mid, hp, -⟩ | ⟨mid, -, hr⟩
    · obtain ⟨left, l, right, rfl, rfl, he, -⟩ := map_eq_mid hp
      obtain rfl := KeyEvent.press.inj he
      have hheld : heldKeys (left.map KeyEvent.press) = left := foldl_hold_press left []
      rw [hheld]
      exact fun hk => (List.nodup_append.mp hn).2.2 k hk k List.mem_cons_self rfl
    · obtain ⟨left, l, right, -, -, he, -⟩ := map_eq_mid hr
      cases he
  release := by
    intro before k after h
    rcases append_eq_mid h with ⟨mid, hp, -⟩ | ⟨mid, rfl, hr⟩
    · obtain ⟨left, l, right, -, -, he, -⟩ := map_eq_mid hp
      cases he
    · obtain ⟨left, l, right, hks, rfl, he, -⟩ := map_eq_mid hr
      obtain rfl := KeyEvent.release.inj he
      have hheld : heldKeys (ks.map KeyEvent.press) = left ++ k :: right :=
        (foldl_hold_press ks []).trans hks
      rw [heldKeys_append, hheld, foldl_hold_release]
      exact List.mem_cons_self

theorem Balanced.append {xs ys : List KeyEvent} (hx : Balanced xs) (hy : Balanced ys) :
    Balanced (xs ++ ys) where
  keys := by rw [hx.heldKeys_append, hy.keys]
  shift := by rw [shiftDepth_append, hx.shift, hy.shift]; rfl
  press := by
    intro before k after h
    rcases append_eq_mid h with ⟨mid, rfl, -⟩ | ⟨mid, rfl, rfl⟩
    · exact hx.press before k mid rfl
    · rw [hx.heldKeys_append]
      exact hy.press mid k after rfl
  release := by
    intro before k after h
    rcases append_eq_mid h with ⟨mid, rfl, -⟩ | ⟨mid, rfl, rfl⟩
    · exact hx.release before k mid rfl
    · rw [hx.heldKeys_append]
      exact hy.release mid k after rfl

/-- What stands between two shifts stays balanced, for no key is a shift. -/
theorem Balanced.within {log : List KeyEvent} (h : Balanced log) :
    Balanced ([.shiftDown] ++ log ++ [.shiftUp]) where
  keys := by
    rw [KeyEvent.heldKeys_append]
    exact h.keys
  shift := by
    rw [shiftDepth_append, shiftDepth_append, h.shift]
    rfl
  press := by
    intro before k after he
    rcases append_eq_mid he with ⟨mid, hx, -⟩ | ⟨mid, -, hu⟩
    · rcases append_eq_mid hx with ⟨mid, hd, -⟩ | ⟨mid, rfl, hlog⟩
      · simp [List.singleton_eq_append_iff] at hd
      · exact h.press mid k _ hlog
    · simp [List.singleton_eq_append_iff] at hu
  release := by
    intro before k after he
    rcases append_eq_mid he with ⟨mid, hx, -⟩ | ⟨mid, -, hu⟩
    · rcases append_eq_mid hx with ⟨mid, hd, -⟩ | ⟨mid, rfl, hlog⟩
      · simp [List.singleton_eq_append_iff] at hd
      · exact h.release mid k _ hlog
    · simp [List.singleton_eq_append_iff] at hu

end KeyEvent

namespace Chord

open KeyEvent

def ifShift (c : Chord) (e : KeyEvent) : List KeyEvent := if c.needsShift then [e] else []

def block (c : Chord) : List KeyEvent :=
  c.ifShift .shiftDown ++ c.keys.map .press ++ c.keys.map .release ++ c.ifShift .shiftUp

/-- The four places at which an event can stand in a block. -/
inductive Splits (c : Chord) : List KeyEvent → KeyEvent → List KeyEvent → Prop
  | shiftDown (hs : c.needsShift = true) :
      Splits c [] .shiftDown (c.keys.map .press ++ c.keys.map .release ++ c.ifShift .shiftUp)
  | press {before : List Key} {k : Key} {after : List Key} (hk : c.keys = before ++ k :: after) :
      Splits c (c.ifShift .shiftDown ++ before.map .press) (.press k)
        (after.map .press ++ c.keys.map .release ++ c.ifShift .shiftUp)
  | release {before : List Key} {k : Key} {after : List Key} (hk : c.keys = before ++ k :: after) :
      Splits c (c.ifShift .shiftDown ++ c.keys.map .press ++ before.map .release) (.release k)
        (after.map .release ++ c.ifShift .shiftUp)
  | shiftUp (hs : c.needsShift = true) :
      Splits c (c.ifShift .shiftDown ++ c.keys.map .press ++ c.keys.map .release) .shiftUp []

theorem ifShift_eq_mid {c : Chord} {e d : KeyEvent} {before after : List KeyEvent}
    (h : c.ifShift e = before ++ d :: after) :
    c.needsShift = true ∧ before = [] ∧ d = e ∧ after = [] := by
  rw [ifShift] at h
  split at h
  · next hs =>
      rcases List.cons_eq_append_iff.mp h with ⟨rfl, he⟩ | ⟨mid, rfl, hm⟩
      · obtain ⟨rfl, rfl⟩ := List.cons.inj he
        exact ⟨hs, rfl, rfl, rfl⟩
      · simp at hm
  · simp at h

theorem splits_of_block {c : Chord} {before after : List KeyEvent} {e : KeyEvent}
    (h : c.block = before ++ e :: after) : c.Splits before e after := by
  rcases append_eq_mid h with ⟨mid, h₁, rfl⟩ | ⟨mid, rfl, hu⟩
  · rcases append_eq_mid h₁ with ⟨mid, h₂, rfl⟩ | ⟨mid, rfl, hr⟩
    · rcases append_eq_mid h₂ with ⟨mid, hd, rfl⟩ | ⟨mid, rfl, hp⟩
      · obtain ⟨hs, rfl, rfl, rfl⟩ := ifShift_eq_mid hd
        exact .shiftDown hs
      · obtain ⟨left, k, right, hk, rfl, rfl, rfl⟩ := map_eq_mid hp
        exact .press hk
    · obtain ⟨left, k, right, hk, rfl, rfl, rfl⟩ := map_eq_mid hr
      exact .release hk
  · obtain ⟨hs, rfl, rfl, rfl⟩ := ifShift_eq_mid hu
    simpa using Splits.shiftUp hs

theorem heldKeys_ifShift (c : Chord) (e : KeyEvent) (h : e = .shiftDown ∨ e = .shiftUp)
    (held : List Key) : (c.ifShift e).foldl hold held = held := by
  rw [ifShift]
  split
  · rcases h with rfl | rfl <;> rfl
  · rfl

theorem heldKeys_presses (c : Chord) (ks : List Key) :
    heldKeys (c.ifShift .shiftDown ++ ks.map .press) = ks := by
  rw [heldKeys_append, heldKeys, heldKeys_ifShift c _ (.inl rfl), foldl_hold_press]
  rfl

theorem heldKeys_releases {c : Chord} {before after : List Key} (h : c.keys = before ++ after) :
    heldKeys (c.ifShift .shiftDown ++ c.keys.map .press ++ before.map .release) = after := by
  rw [heldKeys_append, heldKeys_presses, h, foldl_hold_release]

def part (c : Chord) (ks : List Key) : List KeyEvent :=
  c.ifShift .shiftDown ++ (ks.map .press ++ ks.map .release) ++ c.ifShift .shiftUp

theorem block_eq_part (c : Chord) : c.block = c.part c.keys := by
  simp only [block, part, List.append_assoc]

theorem balanced_part {c : Chord} {left right : List Key} (h : c.keys = left ++ right) :
    Balanced (c.part left) := by
  have hn := c.nodup
  rw [h, List.nodup_append] at hn
  have hkeys := balanced_keys hn.1
  rw [part, ifShift, ifShift]
  split
  · exact hkeys.within
  · simpa using hkeys

theorem balanced_block (c : Chord) : Balanced c.block := by
  rw [block_eq_part]
  exact balanced_part (List.append_nil _).symm

theorem balanced_blocks (cs : List Chord) : Balanced (cs.flatMap block) := by
  induction cs with
  | nil => exact balanced_nil
  | cons c cs ih => exact c.balanced_block.append ih

end Chord

end ChordScript
