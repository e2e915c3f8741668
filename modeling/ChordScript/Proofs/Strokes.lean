import ChordScript.Proofs.Guard
import ChordScript.Proofs.Log

namespace ChordScript

open KeyEvent (Balanced heldKeys shiftDepth shiftHeld)

structure Stroke where
  chord : Chord
  log : List KeyEvent
deriving DecidableEq

namespace Cue

variable {t : Timing} {c : Chord} {ms : Nat} {before after : List Cue}

theorem presses_eq_wait {stagger : Nat} {ks : List Key}
    (h : [wait stagger].intercalate (ks.map fun k => [send (.press k)]) = before ++ wait ms :: after) :
    ∃ left right, left ≠ [] ∧ ks = left ++ right ∧ events before = left.map .press := by
  induction ks generalizing before with
  | nil => simp [List.intercalate] at h
  | cons k ks ih =>
      cases ks with
      | nil => simp [List.intercalate, List.singleton_eq_append_iff] at h
      | cons l ks =>
          have hcons : [wait stagger].intercalate ((k :: l :: ks).map fun k => [send (.press k)]) =
              send (.press k) :: wait stagger ::
                [wait stagger].intercalate ((l :: ks).map fun k => [send (.press k)]) :=
            List.intercalate_cons_cons
          rw [hcons] at h
          cases before with
          | nil => simp at h
          | cons cue before =>
              obtain ⟨rfl, htail⟩ := List.cons.inj h
              cases before with
              | nil => exact ⟨[k], l :: ks, by simp, rfl, rfl⟩
              | cons cue before =>
                  obtain ⟨rfl, hrest⟩ := List.cons.inj htail
                  obtain ⟨left, right, -, hks, he⟩ := ih hrest
                  exact ⟨k :: left, right, by simp, by rw [hks]; rfl, by simp [he]⟩

theorem cues_eq_wait (h : c.cues t = before ++ wait ms :: after) : ∃ left right, left ≠ [] ∧
    c.keys = left ++ right ∧ events before = c.ifShift .shiftDown ++ left.map .press := by
  have hnone {e : KeyEvent} {before after : List Cue} :
      (if c.needsShift then [send e] else []) ≠ before ++ wait ms :: after := by
    split <;> simp [List.singleton_eq_append_iff]
  have hdown : events (if c.needsShift then [send .shiftDown] else []) = c.ifShift .shiftDown := by
    rw [Chord.ifShift]
    split <;> rfl
  rcases append_eq_mid h with ⟨mid, h, -⟩ | ⟨mid, -, hu⟩
  · rcases append_eq_mid h with ⟨mid, h, -⟩ | ⟨mid, -, hr⟩
    · rcases append_eq_mid h with ⟨mid, h, -⟩ | ⟨mid, rfl, hw⟩
      · rcases append_eq_mid h with ⟨mid, hd, -⟩ | ⟨mid, rfl, hp⟩
        · exact absurd hd hnone
        · obtain ⟨left, right, hl, hk, he⟩ := presses_eq_wait hp
          exact ⟨left, right, hl, hk, by rw [events_append, hdown, he]⟩
      · obtain rfl : mid = [] := by
          cases mid with
          | nil => rfl
          | cons x mid => simp at hw
        refine ⟨c.keys, [], c.nonempty, (List.append_nil _).symm, ?_⟩
        rw [List.append_nil, events_append, hdown, c.events_presses]
    · obtain ⟨left, k, right, -, -, he, -⟩ := map_eq_mid hr
      cases he
  · exact absurd hu hnone

theorem heed_late {sink : Sink} {s : Stage} (hl : timeLimit ≤ s.now + sink.cost) (e : KeyEvent) :
    (heed s sink (send e)).panic? ≠ none ∧ (heed s sink (send e)).stage.now = s.now := by
  have hp : (heed s sink (send e)).panic? ≠ none := by
    rw [panic?_heed, lasts, if_neg (Nat.not_lt_of_le hl)]
    split <;> simp
  exact ⟨hp, by rw [now_heed, if_neg hp, Nat.add_zero]⟩

end Cue

theorem perform_of_late {sink : Sink} {s : Stage} (hl : timeLimit ≤ s.now + sink.cost)
    (e : KeyEvent) (cues : List Cue) (h : Hand) :
    (perform sink (.send e :: cues) h s).1 = h.after e ∧
      (perform sink (.send e :: cues) h s).2.panic? ≠ none ∧
      (perform sink (.send e :: cues) h s).2.stage.now = s.now := by
  obtain ⟨hp, hnow⟩ := Cue.heed_late hl e
  obtain ⟨cause, hc⟩ := Option.ne_none_iff_exists'.mp hp
  rw [perform_of_panic sink cues h s hc]
  exact ⟨rfl, hp, hnow⟩

section Strike

variable {sink : Sink} {t : Timing} {beat : Nat} {c : Chord} {s : Stage}

/-- A stage at which every call of the sink would end too late is the end of the next stroke, and of
the program. -/
theorem strike_of_late (hl : timeLimit ≤ s.now + sink.cost) (t : Timing) (c : Chord) :
    (strike sink t c s).panic? = some .abort := by
  obtain ⟨e, cues, hcues, he⟩ : ∃ e cues, c.cues t = .send e :: cues ∧
      (Hand.after {} e).letGo ≠ [] := by
    obtain ⟨k, ks, hk⟩ := List.exists_cons_of_ne_nil c.nonempty
    cases hs : c.needsShift with
    | true => exact ⟨.shiftDown, _, by simp only [Chord.cues, hs, if_true]; rfl, by decide⟩
    | false =>
        refine ⟨.press k, ?_⟩
        cases ks <;>
          simp [Chord.cues, Chord.presses, hs, hk, List.intercalate, Hand.after, Hand.letGo]
  have hlate := perform_of_late hl e cues {}
  rw [← hcues] at hlate
  obtain ⟨hhand, hp, hnow⟩ := hlate
  obtain ⟨cause, hc⟩ := Option.ne_none_iff_exists'.mp hp
  rw [strike_of_panic hc]
  -- The way out begins with a call that ends too late as well.
  rw [← hhand, Hand.letGo_eq] at he
  obtain ⟨d, ds, hd⟩ := List.exists_cons_of_ne_nil (mt (congrArg (List.map Cue.send)) he)
  have hq := (perform_of_late (hnow.symm ▸ hl) d (ds.map .send) {}).2.1
  rw [← List.map_cons, ← hd, ← Hand.letGo_eq] at hq
  simp only [Option.isSome_iff_ne_none.mpr hq, if_true]

/-- If the clock panics in a wait, what is down goes up. If it does in a call of the sink, then there
is nothing left to be sent, and after that every call would end too late. -/
theorem strike_clock (h : (strike sink t c s).panic? = some .clock) :
    (∃ left right, left ≠ [] ∧ c.keys = left ++ right ∧
      Effect.events (strike sink t c s).done = c.part left) ∨
    (∃ e, c.Broken e (Effect.events (strike sink t c s).done)) ∧
      timeLimit ≤ (strike sink t c s).stage.now + sink.cost := by
  obtain ⟨hp, hq, hstage, hdone⟩ := strike_panicked h nofun
  obtain ⟨before, cue, after, s', taken, hcues, ht, hc, hh, hpass⟩ :=
    perform_panicked sink (c.cues t) {} s hp
  have hevents : Effect.events (strike sink t c s).done = Cue.events before ++
      Cue.events (perform sink (c.cues t) {} s).1.letGo := by
    rw [hdone, Effect.events_append, (perform_took sink _ {} _ hq).2.events, hpass,
      Effect.events_append, ht.events, Cue.events_tried, List.append_nil]
  cases cue with
  | wait ms =>
      obtain ⟨left, right, hl, hk, he⟩ := Cue.cues_eq_wait hcues
      refine .inl ⟨left, right, hl, hk, ?_⟩
      rw [hevents, hh, Cue.events_wait, Cue.events_nil, List.append_nil, he, Hand.foldl_presses,
        Hand.events_letGo, Chord.part, Chord.ifShift, Chord.ifShift]
      simp only [List.append_assoc]
  | send e =>
      have hlate : timeLimit ≤ s'.now + sink.cost := by
        cases (Cue.send e).heeds s' sink with
        | followed calm intime eq => simp [eq] at hc
        | refused hit eq => simp [eq] at hc
        | late calm spent eq => exact spent
      have hnow := (Cue.heed_late hlate e).2
      have hblock := c.events_cues t
      rw [hcues, Cue.events_append, Cue.events_send] at hblock
      -- A call on the way out would end too late as well, so there is none.
      have hout : (perform sink (c.cues t) {} s).1.letGo = [] := by
        rw [Hand.letGo_eq] at hq ⊢
        cases hd : Cue.events (perform sink (c.cues t) {} s).1.letGo with
        | nil => rfl
        | cons d ds =>
            rw [hd, hpass] at hq
            exact absurd hq (perform_of_late (hnow.symm ▸ hlate) d (ds.map .send) {}).2.1
      refine .inr ⟨⟨e, ?_⟩, ?_⟩
      · rw [hevents, hh]
        exact (Chord.splits_of_block hblock.symm).broken
      · rw [hstage, hout, hpass]
        exact hnow.symm ▸ hlate

end Strike

namespace Stroke

variable {x : Stroke}

def Whole (x : Stroke) : Prop := x.log = x.chord.block

/-- What went down has gone up again: all keys of the chord, or the first of them. -/
def Unbroken (x : Stroke) : Prop :=
  ∃ left right, left ≠ [] ∧ x.chord.keys = left ++ right ∧ x.log = x.chord.part left

/-- The sink did not come to the end of its call at the given event of the chord. -/
def BrokenAt (x : Stroke) (e : KeyEvent) : Prop := x.chord.Broken e x.log

def Sound (x : Stroke) : Prop := x.Unbroken ∨ ∃ e, x.BrokenAt e

theorem Whole.unbroken (h : x.Whole) : x.Unbroken :=
  ⟨x.chord.keys, [], x.chord.nonempty, (List.append_nil _).symm, h.trans x.chord.block_eq_part⟩

theorem Unbroken.balanced (h : x.Unbroken) : Balanced x.log := by
  obtain ⟨left, right, -, hk, hlog⟩ := h
  rw [hlog]
  exact Chord.balanced_part hk

theorem balanced_of_unbroken {xs : List Stroke} (h : ∀ x ∈ xs, x.Unbroken) :
    Balanced (xs.flatMap log) := by
  induction xs with
  | nil => exact KeyEvent.balanced_nil
  | cons x xs ih =>
      obtain ⟨hx, hxs⟩ := List.forall_mem_cons.mp h
      exact hx.balanced.append (ih hxs)

def ofChord (c : Chord) : Stroke := ⟨c, c.block⟩

def ofChords (sink : Sink) (t : Timing) (beat : Nat) : List Chord → Stage → List Stroke
  | [], _ => []
  | c :: cs, s =>
    if s.cancelled then []
    else
      let p := strikeBeat sink t beat c s
      ⟨c, Effect.events p.done⟩ :: if p.panic?.isSome then [] else ofChords sink t beat cs p.stage

section

variable {sink : Sink} {t : Timing} {beat : Nat} {c : Chord} {cs : List Chord} {s : Stage}
  {cause : Panic}

theorem ofChords_of_calm (hs : s.cancelled = false)
    (hp : (strikeBeat sink t beat c s).panic? = none) : ofChords sink t beat (c :: cs) s =
      ofChord c :: ofChords sink t beat cs (strikeBeat sink t beat c s).stage := by
  simp only [ofChords, hs, hp, Option.isSome_none, Bool.false_eq_true, if_false, ofChord,
    (strikeBeat_took hp).events]

theorem ofChords_of_panic (hs : s.cancelled = false)
    (hp : (strikeBeat sink t beat c s).panic? = some cause) : ofChords sink t beat (c :: cs) s =
      [⟨c, Effect.events (strikeBeat sink t beat c s).done⟩] := by
  simp only [ofChords, hs, hp, Option.isSome_some, Bool.false_eq_true, if_false, if_true]

theorem whole_ofChords (h : (strikeAll sink t beat cs s).striking.panic? = none) :
    ∀ x ∈ ofChords sink t beat cs s, x.Whole := by
  induction cs generalizing s with
  | nil => simp [ofChords]
  | cons c cs ih =>
      cases hs : s.cancelled with
      | true => simp [ofChords, hs]
      | false =>
          cases hp : (strikeBeat sink t beat c s).panic? with
          | some cause =>
              rw [strikeAll_of_panic hs hp] at h
              cases h
          | none =>
              rw [strikeAll_of_calm hs hp] at h
              rw [ofChords_of_calm hs hp]
              exact List.forall_mem_cons.mpr ⟨rfl, ih h⟩

theorem ofChords_panicked (h : (strikeAll sink t beat cs s).striking = .panicked cause) :
    ∃ (left : List Chord) (c : Chord) (s' : Stage), ofChords sink t beat cs s =
        left.map ofChord ++ [⟨c, Effect.events (strikeBeat sink t beat c s').done⟩] ∧
      (strikeBeat sink t beat c s').panic? = some cause ∧
      (strikeAll sink t beat cs s).stage = (strikeBeat sink t beat c s').stage := by
  induction cs generalizing s with
  | nil => cases h
  | cons c cs ih =>
      cases hs : s.cancelled with
      | true => simp [strikeAll, hs] at h
      | false =>
          cases hp : (strikeBeat sink t beat c s).panic? with
          | some first =>
              rw [strikeAll_of_panic hs hp] at h ⊢
              rw [ofChords_of_panic hs hp]
              obtain rfl := Striking.panicked.inj h
              exact ⟨[], c, s, rfl, hp, rfl⟩
          | none =>
              rw [strikeAll_of_calm hs hp] at h ⊢
              rw [ofChords_of_calm hs hp]
              obtain ⟨left, d, s', hl, hd, hst⟩ := ih h
              exact ⟨c :: left, d, s', by rw [hl]; rfl, hd, hst⟩

theorem events_strikeAll (sink : Sink) (t : Timing) (beat : Nat) (cs : List Chord) (s : Stage) :
    Effect.events (strikeAll sink t beat cs s).done =
      (ofChords sink t beat cs s).flatMap log := by
  induction cs generalizing s with
  | nil => rfl
  | cons c cs ih =>
      cases hs : s.cancelled with
      | true => simp [strikeAll, ofChords, hs]
      | false =>
          cases hp : (strikeBeat sink t beat c s).panic? with
          | some cause =>
              rw [strikeAll_of_panic hs hp, ofChords_of_panic hs hp]
              exact (List.append_nil _).symm
          | none =>
              rw [strikeAll_of_calm hs hp, ofChords_of_calm hs hp, Effect.events_append, ih,
                (strikeBeat_took hp).events]
              rfl

theorem strikeBeat_stroke (hp : (strikeBeat sink t beat c s).panic? = some cause)
    (ha : cause ≠ .abort) :
    let x : Stroke := ⟨c, Effect.events (strikeBeat sink t beat c s).done⟩
    (x.Unbroken ∧ cause = .clock) ∨ (∃ e, x.BrokenAt e) ∧
      (cause = .clock → timeLimit ≤ (strikeBeat sink t beat c s).stage.now + sink.cost) := by
  obtain ⟨hstrike, heq⟩ | ⟨hstrike, rfl, heq⟩ := strikeBeat_panicked hp
  · rw [heq]
    cases cause with
    | sink =>
        obtain ⟨before, e, after, hb, -, -, hevents, -⟩ := strike_refused hstrike
        refine .inr ⟨⟨e, ?_⟩, nofun⟩
        rw [BrokenAt, hevents]
        exact (Chord.splits_of_block hb).broken
    | clock =>
        obtain hcut | ⟨hbroken, hlate⟩ := strike_clock hstrike
        · exact .inl ⟨hcut, rfl⟩
        · exact .inr ⟨hbroken, fun _ => hlate⟩
    | abort => exact absurd rfl ha
  · rw [heq]
    exact .inl ⟨Whole.unbroken (x := ⟨c, _⟩) (strike_took hstrike).events, rfl⟩

end

end Stroke

namespace Session

def strokes (s : Session) : List Stroke :=
  Stroke.ofChords s.sink s.timing s.beat s.due s.stage

def strokesBy (s : Session) : Move → List Stroke
  | .tick => s.strokes
  | .cancel => []

def strokesIn (s : Session) : List Move → List Stroke
  | [] => []
  | m :: ms => s.strokesBy m ++ (s.move m).session.strokesIn ms

/-- Every call of the sink would end too late. -/
def Late (s : Session) : Prop := timeLimit ≤ s.stage.now + s.sink.cost

variable {s : Session} {ms : List Move}

theorem faces_due (h : s.due ≠ []) : ∃ line, s.Faces ⟨line, .play s.due⟩ ∧ s.head.rest = 0 := by
  unfold due at h ⊢
  split
  · next line chords hl hc ha hr => exact ⟨line, ⟨hl, hc, ha⟩, hr⟩
  · next hn => simp at h

theorem tick_of_due (h : s.due ≠ []) : s.tick = s.running.play s.due := by
  obtain ⟨line, hf, hr⟩ := faces_due h
  exact hf.tick hr

theorem events_tick (s : Session) : Effect.events s.tick.done = s.strokes.flatMap Stroke.log := by
  by_cases h : s.due = []
  · rw [strokes, h]
    generalize ht : s.tick = t
    have hticked : Ticked s t := ht ▸ s.ticked
    have hn {line : Nat} {chords : List Chord} (hf : s.Faces ⟨line, .play chords⟩)
        (hr : s.head.rest = 0) : Effect.events (s.strikes chords).done = [] := by
      obtain rfl : chords = [] := (due_eq hf hr).symm.trans h
      rfl
    cases hticked with
    | past | stopped | finished | refused | halted | overslept => rfl
    | rested => exact (s.stage.waitBeat_took s.sink s.stage.now s.beat).events
    | struck hf hr | panicked hf hr => exact hn hf hr
    | interrupted hf hr =>
        rw [events_finish]
        exact hn hf hr
    | obeyed => simp [Stroke.ofChords]
  · have hevents := Stroke.events_strikeAll s.sink s.timing s.beat s.due s.stage
    rw [tick_of_due h, strokes, ← hevents]
    unfold play
    dsimp only
    split
    · rfl
    · exact (Effect.events_append ..).trans (List.append_nil _)
    · rfl

theorem strokes_of_panicked {cause : Panic} (hd : s.due ≠ [])
    (hv : s.tick.verdict = .panicked cause) : ∃ (left : List Chord) (c : Chord) (s' : Stage),
      s.strokes = left.map Stroke.ofChord ++
        [⟨c, Effect.events (strikeBeat s.sink s.timing s.beat c s').done⟩] ∧
      (strikeBeat s.sink s.timing s.beat c s').panic? = some cause ∧
      s.tick.session.stage = (strikeBeat s.sink s.timing s.beat c s').stage := by
  have hs := s.running.panic?_play s.due
  rw [← tick_of_due hd, hv] at hs
  obtain ⟨left, c, s', hstrokes, hp, hst⟩ :=
    Stroke.ofChords_panicked (Striking.panic?_eq_some.mp hs.symm)
  refine ⟨left, c, s', hstrokes, hp, ?_⟩
  rw [tick_of_due hd, stage_play]
  exact hst

theorem strokes_of_due (h : s.due = []) : s.strokes = [] := by
  rw [strokes, h, Stroke.ofChords]

theorem whole_of_calm (hv : s.tick.verdict.panic? = none) : ∀ x ∈ s.strokes, x.Whole := by
  by_cases hd : s.due = []
  · simp [strokes_of_due hd]
  · rw [tick_of_due hd, panic?_play] at hv
    exact Stroke.whole_ofChords hv

theorem whole_strokes (s : Session) : s.strokes.Pairwise fun x _ => x.Whole := by
  cases hv : s.tick.verdict.panic? with
  | none => exact List.pairwise_of_forall_mem_list fun x hx _ _ => whole_of_calm hv x hx
  | some cause =>
      by_cases hd : s.due = []
      · rw [strokes_of_due hd]
        exact .nil
      · obtain ⟨left, c, s', hstrokes, -⟩ := strokes_of_panicked hd (Verdict.panic?_eq_some.mp hv)
        rw [hstrokes, List.pairwise_append]
        refine ⟨?_, List.pairwise_singleton .., fun x hx _ _ => ?_⟩
        · rw [List.pairwise_map]
          exact List.pairwise_of_forall fun _ _ => rfl
        · obtain ⟨c, -, rfl⟩ := List.mem_map.mp hx
          rfl

/-- A stroke of a tick is broken by the sink, or else by the clock in a call that ends too late. -/
theorem sound_strokes (hv : s.tick.verdict ≠ .panicked .abort) : ∀ x ∈ s.strokes, x.Sound ∧
    (x.Unbroken ∨ s.tick.verdict = .panicked .sink ∨ s.tick.session.Late) := by
  intro x hx
  have hw {x : Stroke} (h : x.Whole) : x.Sound ∧
      (x.Unbroken ∨ s.tick.verdict = .panicked .sink ∨ s.tick.session.Late) :=
    ⟨.inl h.unbroken, .inl h.unbroken⟩
  cases hq : s.tick.verdict with
  | more | ended => exact hq ▸ hw (whole_of_calm (by rw [hq]; rfl) x hx)
  | panicked cause =>
      by_cases hd : s.due = []
      · rw [strokes_of_due hd] at hx
        cases hx
      · obtain ⟨left, c, s', hstrokes, hp, hst⟩ := strokes_of_panicked hd hq
        rw [hstrokes, List.mem_append, List.mem_map, List.mem_singleton] at hx
        -- Only the last stroke of the tick can be broken.
        rcases hx with ⟨c, -, rfl⟩ | rfl
        · exact hq ▸ hw rfl
        · obtain ⟨hu, -⟩ | ⟨hbroken, hlate⟩ := Stroke.strikeBeat_stroke hp (by rintro rfl; exact hv hq)
          · exact ⟨.inl hu, .inl hu⟩
          · refine ⟨.inr hbroken, .inr ?_⟩
            cases cause with
            | sink => exact .inl rfl
            | clock =>
                refine .inr ?_
                rw [Late, hst, s.ticked.frame.2.1]
                exact hlate rfl
            | abort => exact absurd hq hv

theorem abort_of_late (h : s.Late) (hd : s.due ≠ []) : s.tick.verdict = .panicked .abort := by
  obtain ⟨line, hf, -⟩ := faces_due hd
  cases hcs : s.due with
  | nil => exact absurd hcs hd
  | cons c cs =>
      have hp := strike_of_late h s.timing c
      have hb : (strikeBeat s.sink s.timing s.beat c s.stage).panic? = some .abort :=
        (congrArg Passage.panic? (strikeBeat_of_panic hp)).trans hp
      have hs : (s.running.strikes (c :: cs)).striking = .panicked .abort :=
        congrArg Strikes.striking (strikeAll_of_panic hf.free hb)
      rw [← Verdict.panic?_eq_some, tick_of_due hd, panic?_play, hcs, hs]
      rfl

theorem Late.after (h : s.Late) (ms : List Move) : (s.after ms).Late := by
  rw [Late, (frame_after s ms).2.1]
  exact Nat.le_trans h (Nat.add_le_add_right (precedes_after s ms).now _)

theorem events_strokesIn (s : Session) (ms : List Move) :
    Effect.events (s.doneIn ms) = (s.strokesIn ms).flatMap Stroke.log := by
  induction ms generalizing s with
  | nil => rfl
  | cons m ms ih =>
      rw [doneIn, strokesIn, Effect.events_append, List.flatMap_append, ih]
      cases m with
      | tick => rw [move, events_tick, strokesBy]
      | cancel => rfl

theorem whole_strokesIn (h : s.Calm ms) : ∀ x ∈ s.strokesIn ms, x.Whole := by
  induction ms generalizing s with
  | nil => simp [strokesIn]
  | cons m ms ih =>
      rw [strokesIn, List.forall_mem_append]
      refine ⟨?_, ih h.2⟩
      cases m with
      | tick => exact whole_of_calm h.1
      | cancel => simp [strokesBy]

theorem sound_strokesIn (hl : s.Lives ms) : ∀ x ∈ s.strokesIn ms, x.Sound := by
  induction ms generalizing s with
  | nil => simp [strokesIn]
  | cons m ms ih =>
      rw [strokesIn, List.forall_mem_append]
      refine ⟨?_, ih hl.2⟩
      cases m with
      | tick => exact fun x hx => (sound_strokes hl.1 x hx).1
      | cancel => simp [strokesBy]

theorem unbroken_strokesIn (hl : s.Lives ms) (hlate : ¬ (s.after ms).Late)
    (hk : ∀ k, s.sink.panicAt = some k → s.stage.calls < k → (s.after ms).stage.calls < k) :
    ∀ x ∈ s.strokesIn ms, x.Unbroken := by
  induction ms generalizing s with
  | nil => simp [strokesIn]
  | cons m ms ih =>
      have hle := precedes_after (s.move m).session ms
      rw [strokesIn, List.forall_mem_append]
      cases m with
      | cancel => exact ⟨by simp [strokesBy], ih hl.2 hlate hk⟩
      | tick =>
          refine ⟨fun x hx => ?_, ih hl.2 hlate fun k hp hlt => ?_⟩
          · obtain hu | hv | ht := (sound_strokes hl.1 x hx).2
            · exact hu
            · obtain ⟨left, c, right, before, e, after, -, -, hp, hcalls, -⟩ := s.ticked.panic hv
              have hlt := hk _ hp (by omega)
              have hle := hle.calls
              simp only [Session.after, move] at hlt hle
              omega
            · exact absurd (ht.after ms) hlate
          · rw [move, s.ticked.frame.2.1] at hp
            exact hk k hp (Nat.lt_of_le_of_lt s.ticked.reaches.calls hlt)

theorem balanced_doneIn (hl : s.Lives ms) (hlate : ¬ (s.after ms).Late)
    (hk : ∀ k, s.sink.panicAt = some k → s.stage.calls < k → (s.after ms).stage.calls < k) :
    Balanced (Effect.events (s.doneIn ms)) := by
  rw [events_strokesIn]
  exact Stroke.balanced_of_unbroken (unbroken_strokesIn hl hlate hk)

theorem not_late (hv : s.tick.verdict ≠ .panicked .abort) (hd : s.due ≠ []) : ¬ s.Late :=
  fun hlate => hv (abort_of_late hlate hd)

/-- One stroke at most is broken as long as no call ends too late, for the sink panics once. -/
theorem once_strokesIn (hl : s.Lives ms) (hlate : ¬ (s.after ms).Late) :
    (s.strokesIn ms).Pairwise fun x y => x.Unbroken ∨ y.Unbroken := by
  induction ms generalizing s with
  | nil => exact .nil
  | cons m ms ih =>
      cases m with
      | cancel => exact ih hl.2 hlate
      | tick =>
          rw [strokesIn, List.pairwise_append]
          refine ⟨s.whole_strokes.imp fun h => .inl h.unbroken, ih hl.2 hlate, fun x hx y hy => ?_⟩
          obtain hu | hv | ht := (sound_strokes hl.1 x hx).2
          · exact .inl hu
          · obtain ⟨left, c, right, before, e, after, -, -, hp, hcalls, -⟩ := s.ticked.panic hv
            refine .inr (unbroken_strokesIn hl.2 hlate (fun k hk hlt => ?_) y hy)
            rw [move, s.ticked.frame.2.1, hp, Option.some.injEq] at hk
            simp only [move] at hlt
            omega
          · exact absurd (ht.after ms) hlate

theorem strokesIn_eq_mid {before after : List Stroke} {x : Stroke}
    (h : s.strokesIn ms = before ++ x :: after) : ∃ ms₁ ms₂ left right, ms = ms₁ ++ .tick :: ms₂ ∧
      before = s.strokesIn ms₁ ++ left ∧ (s.after ms₁).strokes = left ++ x :: right := by
  induction ms generalizing s before with
  | nil => simp [strokesIn] at h
  | cons m ms ih =>
      rcases append_eq_mid h with ⟨mid, hx, -⟩ | ⟨mid, rfl, hrest⟩
      · cases m with
        | cancel => simp [strokesBy] at hx
        | tick => exact ⟨[], ms, before, mid, rfl, rfl, hx⟩
      · obtain ⟨ms₁, ms₂, left, right, rfl, rfl, hx⟩ := ih hrest
        exact ⟨m :: ms₁, ms₂, left, right, rfl, (List.append_assoc ..).symm, hx⟩

theorem once_before {before after : List Stroke} {x : Stroke} (hl : s.Lives ms)
    (h : s.strokesIn ms = before ++ x :: after) :
    before.Pairwise fun y z => y.Unbroken ∨ z.Unbroken := by
  obtain ⟨ms₁, ms₂, left, right, rfl, rfl, hx⟩ := strokesIn_eq_mid h
  obtain ⟨hl₁, hl₂⟩ := answers_append.mp hl
  have hlate : ¬ (s.after ms₁).Late := not_late hl₂.1 fun hd => by simp [strokes_of_due hd] at hx
  have hw := (s.after ms₁).whole_strokes
  rw [hx, List.pairwise_append] at hw
  rw [List.pairwise_append]
  refine ⟨once_strokesIn hl₁ hlate, hw.1.imp fun h => .inl h.unbroken, fun y _ z hz => ?_⟩
  exact .inr (hw.2.2 z hz x List.mem_cons_self).unbroken

end Session

end ChordScript
