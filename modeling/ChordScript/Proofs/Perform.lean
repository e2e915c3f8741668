import ChordScript.Proofs.Block

namespace ChordScript

namespace Effect

@[simp] theorem events_nil : events [] = [] := rfl

@[simp] theorem events_append (xs ys : List Effect) : events (xs ++ ys) = events xs ++ events ys :=
  List.filterMap_append

@[simp] theorem events_noted (n : Notice) (done : List Effect) :
    events (.noted n :: done) = events done := rfl

@[simp] theorem events_map_noted (ns : List Notice) : events (ns.map .noted) = [] := by
  induction ns with
  | nil => rfl
  | cons n ns ih => exact ih

def isHeard : Effect → Bool
  | noted _ => false
  | _ => true

def timeline (done : List Effect) : List Effect := done.filter isHeard

@[simp] theorem timeline_append (xs ys : List Effect) :
    timeline (xs ++ ys) = timeline xs ++ timeline ys := List.filter_append ..

theorem events_timeline (done : List Effect) : events (timeline done) = events done := by
  rw [events, timeline, List.filterMap_filter]
  congr 1
  funext e
  cases e <;> rfl

theorem sleeps_timeline (done : List Effect) : sleeps (timeline done) = sleeps done := by
  rw [sleeps, timeline, List.filterMap_filter]
  congr 1
  funext e
  cases e <;> rfl

theorem events_prefix {xs ys : List Effect} (h : timeline xs <+: timeline ys) :
    events xs <+: events ys := by
  rw [← events_timeline xs, ← events_timeline ys]
  exact h.filterMap event?

theorem sleeps_prefix {xs ys : List Effect} (h : timeline xs <+: timeline ys) :
    sleeps xs <+: sleeps ys := by
  rw [← sleeps_timeline xs, ← sleeps_timeline ys]
  exact h.filterMap sleep?

end Effect

namespace Sink

def hits (number : Option Nat) (calls count : Nat) : Bool :=
  number.any fun k => calls < k && k ≤ calls + count

theorem hits_eq_true {number : Option Nat} {calls count : Nat} :
    hits number calls count = true ↔ ∃ k, number = some k ∧ calls < k ∧ k ≤ calls + count := by
  cases number <;> simp [hits]

theorem hits_zero (number : Option Nat) (calls : Nat) : hits number calls 0 = false := by
  cases number with
  | none => rfl
  | some k =>
      simp only [hits, Option.any_some, Nat.add_zero, Bool.and_eq_false_iff, decide_eq_false_iff_not]
      omega

theorem hits_one (number : Option Nat) (calls : Nat) :
    hits number calls 1 = decide (number = some (calls + 1)) := by
  cases number with
  | none => rfl
  | some k =>
      rw [Bool.eq_iff_iff]
      simp only [hits, Option.any_some, Bool.and_eq_true, decide_eq_true_eq, Option.some.injEq]
      omega

theorem hits_add (number : Option Nat) (calls m n : Nat) :
    hits number calls (m + n) = (hits number calls m || hits number (calls + m) n) := by
  cases number with
  | none => rfl
  | some k =>
      rw [Bool.eq_iff_iff]
      simp only [hits, Option.any_some, Bool.or_eq_true, Bool.and_eq_true, decide_eq_true_eq]
      omega

def taking (sink : Sink) (e : KeyEvent) : List Effect :=
  .noted (.sending e) :: if sink.cost = 0 then [.sent e] else [.slept sink.cost, .sent e]

end Sink

open Sink (hits)

/-- From one stage to another the sink takes the given events and does not panic. -/
structure Took (sink : Sink) (s : Stage) (es : List KeyEvent) (s' : Stage)
    (done : List Effect) : Prop where
  events : Effect.events done = es
  calls : s'.calls = s.calls + es.length
  cancelled : s'.cancelled = (s.cancelled || hits sink.cancelAt s.calls es.length)
  calm : hits sink.panicAt s.calls es.length = false

namespace Took

variable {sink : Sink} {s s' s'' : Stage} {es es' : List KeyEvent} {done done' : List Effect}

theorem silent (sink : Sink) (s : Stage) (h : Effect.events done = []) : Took sink s [] s done :=
  ⟨h, rfl, by simp [Sink.hits_zero], Sink.hits_zero ..⟩

theorem refl (sink : Sink) (s : Stage) : Took sink s [] s [] := silent sink s rfl

theorem trans (h : Took sink s es s' done) (h' : Took sink s' es' s'' done') :
    Took sink s (es ++ es') s'' (done ++ done') where
  events := by rw [Effect.events_append, h.events, h'.events]
  calls := by rw [h'.calls, h.calls, List.length_append, Nat.add_assoc]
  cancelled := by
    rw [h'.cancelled, h.cancelled, h.calls, List.length_append, Sink.hits_add, Bool.or_assoc]
  calm := by
    rw [List.length_append, Sink.hits_add, h.calm, ← h.calls, h'.calm]
    rfl

theorem note (h : Took sink s es s' done) (n : Notice) : Took sink s es s' (done ++ [.noted n]) := by
  simpa using h.trans (.silent sink s' (Effect.events_noted n []))

end Took

/-- There is no panic in which the clock has a part. -/
def InTime (panic? : Option Panic) : Prop := panic? = none ∨ panic? = some .sink

instance : DecidablePred InTime := fun _ => inferInstanceAs (Decidable (_ ∨ _))

namespace Passage

variable {p : Passage} {cause : Panic} (next : Stage → Passage)

theorem andThen_of_panic (h : p.panic? = some cause) : p.andThen next = p := by
  simp only [andThen, h]

theorem andThen_of_calm (h : p.panic? = none) : p.andThen next =
    { next p.stage with done := p.done ++ (next p.stage).done } := by
  simp only [andThen, h]

theorem panic?_andThen : (p.andThen next).panic? = p.panic?.or (next p.stage).panic? := by
  cases h : p.panic? with
  | none => rw [andThen_of_calm next h, Option.none_or]
  | some cause => rw [andThen_of_panic next h, h, Option.some_or]

end Passage

namespace Stage

structure Precedes (s s' : Stage) : Prop where
  calls : s.calls ≤ s'.calls
  now : s.now ≤ s'.now

theorem Precedes.refl (s : Stage) : s.Precedes s := ⟨Nat.le_refl _, Nat.le_refl _⟩

theorem Precedes.trans {s s' s'' : Stage} (h : s.Precedes s') (h' : s'.Precedes s'') :
    s.Precedes s'' := ⟨Nat.le_trans h.calls h'.calls, Nat.le_trans h.now h'.now⟩

/-- The token is set at the call that is to set it. -/
structure Reaches (sink : Sink) (s s' : Stage) : Prop extends s.Precedes s' where
  cancelled : s'.cancelled = (s.cancelled || hits sink.cancelAt s.calls (s'.calls - s.calls))

theorem Reaches.trans {sink : Sink} {s s' s'' : Stage} (h : s.Reaches sink s')
    (h' : s'.Reaches sink s'') : s.Reaches sink s'' where
  toPrecedes := h.toPrecedes.trans h'.toPrecedes
  cancelled := by
    have hle := h.calls
    have hle' := h'.calls
    have hcalls : s''.calls - s.calls = (s'.calls - s.calls) + (s''.calls - s'.calls) := by omega
    rw [h'.cancelled, h.cancelled, hcalls, Sink.hits_add, Nat.add_sub_cancel' hle, Bool.or_assoc]

theorem Reaches.refl (sink : Sink) (s : Stage) : s.Reaches sink s :=
  ⟨.refl s, by rw [Nat.sub_self, Sink.hits_zero, Bool.or_false]⟩

variable (s : Stage) (sink : Sink) (ms : Nat)

theorem sleep_of_lt {s : Stage} {ms : Nat} (h : s.now + ms < timeLimit) :
    s.sleep ms = ⟨{ s with now := s.now + ms, now_lt := h }, [.slept ms], none⟩ := dif_pos h

theorem sleep_of_le {s : Stage} {ms : Nat} (h : timeLimit ≤ s.now + ms) :
    s.sleep ms = ⟨s, [], some .clock⟩ := dif_neg (Nat.not_lt_of_le h)

theorem sleep_took : Took sink s [] (s.sleep ms).stage (s.sleep ms).done := by
  unfold sleep
  split
  · exact ⟨rfl, rfl, by simp [Sink.hits_zero], Sink.hits_zero ..⟩
  · exact .refl sink s

theorem sleep_reaches : s.Reaches sink (s.sleep ms).stage := by
  unfold sleep
  split
  · exact ⟨⟨Nat.le_refl _, Nat.le_add_right ..⟩, by simp [Sink.hits_zero]⟩
  · exact .refl sink s

theorem waitBeat_panicked {s : Stage} {started beat : Nat} {cause : Panic}
    (h : (s.waitBeat started beat).panic? = some cause) :
    s.waitBeat started beat = ⟨s, [], some .clock⟩ := by
  unfold waitBeat sleepUnlessCancelled sleep at h ⊢
  dsimp only at h ⊢
  split at h
  · cases h
  · next hr =>
      rw [if_neg hr]
      split at h
      · cases h
      · next hc =>
          rw [if_neg hc]
          split at h
          · cases h
          · next hn => rw [dif_neg hn]

theorem waitBeat_reaches (started beat : Nat) :
    s.Reaches sink (s.waitBeat started beat).stage := by
  unfold waitBeat sleepUnlessCancelled
  dsimp only
  split
  · exact .refl sink s
  · split
    · exact .refl sink s
    · exact s.sleep_reaches sink _

theorem waitBeat_took (started beat : Nat) :
    Took sink s [] (s.waitBeat started beat).stage (s.waitBeat started beat).done := by
  unfold waitBeat sleepUnlessCancelled
  dsimp only
  split
  · exact .refl sink s
  · split
    · exact .refl sink s
    · exact s.sleep_took sink _

theorem waitBeat_cancelled (started beat : Nat) :
    (s.waitBeat started beat).stage.cancelled = s.cancelled := by
  have h := (s.waitBeat_took {} started beat).cancelled
  rwa [List.length_nil, Sink.hits_zero, Bool.or_false] at h

end Stage

namespace Cue

def event? : Cue → Option KeyEvent
  | send e => some e
  | wait _ => none

def events (cues : List Cue) : List KeyEvent := cues.filterMap event?

@[simp] theorem events_append (xs ys : List Cue) : events (xs ++ ys) = events xs ++ events ys :=
  List.filterMap_append

@[simp] theorem events_send (e : KeyEvent) (cues : List Cue) :
    events (.send e :: cues) = e :: events cues := rfl

@[simp] theorem events_wait (ms : Nat) (cues : List Cue) : events (.wait ms :: cues) = events cues := rfl

@[simp] theorem events_nil : events [] = [] := rfl

theorem events_map_send (f : Key → KeyEvent) (ks : List Key) :
    events (ks.map fun k => .send (f k)) = ks.map f := by
  induction ks with
  | nil => rfl
  | cons k ks ih => simp [ih]

end Cue

theorem Chord.events_presses (c : Chord) (stagger : Nat) :
    Cue.events (c.presses stagger) = c.keys.map .press := by
  rw [presses]
  induction c.keys with
  | nil => rfl
  | cons k ks ih =>
      cases ks with
      | nil => rfl
      | cons l ks => simpa [List.intercalate, List.intersperse] using ih

theorem Chord.events_cues (c : Chord) (t : Timing) : Cue.events (c.cues t) = c.block := by
  simp only [cues, releases, Cue.events_append, events_presses, Cue.events_map_send, Cue.events_wait,
    Cue.events_nil, List.append_nil, block, ifShift]
  cases c.needsShift <;> rfl

theorem Hand.events_letGo (h : Hand) :
    Cue.events h.letGo = h.keys.map .release ++ if h.shift then [.shiftUp] else [] := by
  rw [letGo, Cue.events_append, Cue.events_map_send]
  cases h.shift <;> rfl

namespace Cue

theorem events_cons (cue : Cue) (cues : List Cue) :
    events (cue :: cues) = events [cue] ++ events cues := events_append [cue] cues

def lasts (sink : Sink) : Cue → Nat
  | send _ => sink.cost
  | wait ms => ms

def heeded (sink : Sink) : Cue → List Effect
  | send e => sink.taking e
  | wait ms => [.slept ms]

def tried : Cue → List Effect
  | send e => [.noted (.sending e)]
  | wait _ => []

/-- The stage at the moment at which a cue is come to, before anything takes time. -/
def meet (s : Stage) (sink : Sink) : Cue → Stage
  | send _ => s.called sink
  | wait _ => s

variable (s : Stage) (sink : Sink) (cue : Cue)

theorem calls_meet : (cue.meet s sink).calls = s.calls + (events [cue]).length := by
  cases cue <;> rfl

theorem cancelled_meet : (cue.meet s sink).cancelled =
    (s.cancelled || hits sink.cancelAt s.calls (events [cue]).length) := by
  cases cue with
  | wait ms => simp [meet, Sink.hits_zero]
  | send e => exact congrArg (s.cancelled || ·) (Sink.hits_one ..).symm

theorem now_meet : (cue.meet s sink).now = s.now := by
  cases cue <;> rfl

/-- What becomes of a cue: it is followed, or the sink panics, or the time is at its end. -/
inductive Heeds (p : Passage) : Prop
  | followed (calm : hits sink.panicAt s.calls (events [cue]).length = false)
      (intime : s.now + cue.lasts sink < timeLimit)
      (eq : p = ⟨{ cue.meet s sink with now := s.now + cue.lasts sink, now_lt := intime },
        cue.heeded sink, none⟩)
  | refused (hit : hits sink.panicAt s.calls (events [cue]).length = true)
      (eq : p = ⟨cue.meet s sink, cue.tried, some .sink⟩)
  | late (calm : hits sink.panicAt s.calls (events [cue]).length = false)
      (spent : timeLimit ≤ s.now + cue.lasts sink)
      (eq : p = ⟨cue.meet s sink, cue.tried, some .clock⟩)

theorem heeds : Heeds s sink cue (cue.heed s sink) := by
  cases cue with
  | wait ms =>
      by_cases hn : s.now + ms < timeLimit
      · exact .followed (Sink.hits_zero ..) hn (Stage.sleep_of_lt hn)
      · exact .late (Sink.hits_zero ..) (Nat.le_of_not_lt hn) (Stage.sleep_of_le (Nat.le_of_not_lt hn))
  | send e =>
      have hone : hits sink.panicAt s.calls (events [.send e]).length =
          decide (sink.panicAt = some (s.calls + 1)) := Sink.hits_one ..
      -- The call has been counted by the time at which the sink panics or sleeps.
      by_cases hp : sink.panicAt = some (s.calls + 1)
      · refine .refused (by rw [hone, decide_eq_true hp]) ?_
        simp only [heed, Stage.send, Stage.attempt]
        rw [if_pos (show sink.panicAt = some (s.called sink).calls from hp)]
        rfl
      · have hcalm := hone.trans (decide_eq_false hp)
        have hspend : (s.called sink).attempt sink = (s.called sink).spend sink := if_neg hp
        by_cases hn : s.now + sink.cost < timeLimit
        · refine .followed hcalm hn ?_
          simp only [heed, Stage.send, hspend, Stage.spend]
          by_cases hc : sink.cost = 0
          · simp [hc, Passage.andThen, lasts, heeded, Sink.taking, meet, Stage.called]
          · rw [if_neg hc, Stage.sleep_of_lt (s := s.called sink) hn]
            simp only [Passage.andThen, lasts, heeded, Sink.taking, meet, if_neg hc,
              List.singleton_append]
            rfl
        · have hc : sink.cost ≠ 0 := fun hc => hn (by rw [hc]; exact s.now_lt)
          refine .late hcalm (Nat.le_of_not_lt hn) ?_
          simp only [heed, Stage.send, hspend, Stage.spend, if_neg hc]
          rw [Stage.sleep_of_le (s := s.called sink) (Nat.le_of_not_lt hn)]
          rfl

theorem panic?_heed : (cue.heed s sink).panic? =
    if hits sink.panicAt s.calls (events [cue]).length then some .sink
    else if s.now + cue.lasts sink < timeLimit then none else some .clock := by
  cases cue.heeds s sink with
  | followed calm intime eq => simp [eq, calm, intime]
  | refused hit eq => simp [eq, hit]
  | late calm spent eq => simp [eq, calm, Nat.not_lt_of_le spent]

theorem calls_heed : (cue.heed s sink).stage.calls = s.calls + (events [cue]).length := by
  rw [← calls_meet s sink]
  cases cue.heeds s sink with
  | followed calm intime eq => rw [eq]
  | refused hit eq => rw [eq]
  | late calm spent eq => rw [eq]

theorem cancelled_heed : (cue.heed s sink).stage.cancelled =
    (s.cancelled || hits sink.cancelAt s.calls (events [cue]).length) := by
  rw [← cancelled_meet s sink]
  cases cue.heeds s sink with
  | followed calm intime eq => rw [eq]
  | refused hit eq => rw [eq]
  | late calm spent eq => rw [eq]

theorem now_heed : (cue.heed s sink).stage.now =
    s.now + if (cue.heed s sink).panic? = none then cue.lasts sink else 0 := by
  cases cue.heeds s sink with
  | followed calm intime eq => simp [eq]
  | refused hit eq => simp [eq, now_meet]
  | late calm spent eq => simp [eq, now_meet]

theorem heed_reaches : s.Reaches sink (cue.heed s sink).stage where
  calls := calls_heed s sink cue ▸ Nat.le_add_right ..
  now := now_heed s sink cue ▸ Nat.le_add_right ..
  cancelled := by rw [cancelled_heed, calls_heed, Nat.add_sub_cancel_left]

theorem done_heed : (cue.heed s sink).done =
    if (cue.heed s sink).panic? = none then cue.heeded sink else cue.tried := by
  cases cue.heeds s sink with
  | followed calm intime eq => simp [eq]
  | refused hit eq => simp [eq]
  | late calm spent eq => simp [eq]

theorem events_heeded : Effect.events (cue.heeded sink) = events [cue] := by
  cases cue with
  | wait ms => rfl
  | send e =>
      simp only [heeded, Sink.taking]
      split <;> rfl

theorem heed_took (h : (cue.heed s sink).panic? = none) :
    Took sink s (events [cue]) (cue.heed s sink).stage (cue.heed s sink).done where
  events := by rw [done_heed, if_pos h, events_heeded]
  calls := cue.calls_heed s sink
  cancelled := cue.cancelled_heed s sink
  calm := by
    rw [panic?_heed] at h
    rw [← Bool.not_eq_true]
    intro hp
    rw [if_pos hp] at h
    cases h

theorem events_tried : Effect.events cue.tried = [] := by
  cases cue <;> rfl

theorem foldl_hand (h : Hand) : (events [cue]).foldl Hand.after h = cue.hand h := by
  cases cue <;> rfl

end Cue

section Perform

variable (sink : Sink) {cue : Cue} (cues : List Cue) (h : Hand) (s : Stage) {cause : Panic}

theorem perform_of_calm (hp : (cue.heed s sink).panic? = none) :
    perform sink (cue :: cues) h s =
      ((perform sink cues (cue.hand h) (cue.heed s sink).stage).1,
        { (perform sink cues (cue.hand h) (cue.heed s sink).stage).2 with
          done := (cue.heed s sink).done ++
            (perform sink cues (cue.hand h) (cue.heed s sink).stage).2.done }) := by
  simp only [perform, hp]

theorem perform_of_panic (hp : (cue.heed s sink).panic? = some cause) :
    perform sink (cue :: cues) h s = (cue.hand h, cue.heed s sink) := by
  simp only [perform, hp]

theorem perform_took (hp : (perform sink cues h s).2.panic? = none) :
    (perform sink cues h s).1 = (Cue.events cues).foldl Hand.after h ∧
      Took sink s (Cue.events cues) (perform sink cues h s).2.stage (perform sink cues h s).2.done := by
  induction cues generalizing h s with
  | nil => exact ⟨rfl, .refl sink s⟩
  | cons cue cues ih =>
      cases hc : (cue.heed s sink).panic? with
      | some cause =>
          rw [perform_of_panic sink cues h s hc, hc] at hp
          cases hp
      | none =>
          rw [perform_of_calm sink cues h s hc] at hp ⊢
          obtain ⟨hh, ht⟩ := ih (cue.hand h) (cue.heed s sink).stage hp
          rw [Cue.events_cons, List.foldl_append, Cue.foldl_hand]
          exact ⟨hh, (cue.heed_took s sink hc).trans ht⟩

/-- The cues before a panic have been followed. The hand counts the cue at which it happens. -/
theorem perform_panicked (hp : (perform sink cues h s).2.panic? = some cause) :
    ∃ before cue after s' taken, cues = before ++ cue :: after ∧
      Took sink s (Cue.events before) s' taken ∧ (cue.heed s' sink).panic? = some cause ∧
      (perform sink cues h s).1 = (Cue.events before ++ Cue.events [cue]).foldl Hand.after h ∧
      (perform sink cues h s).2 = ⟨(cue.heed s' sink).stage, taken ++ cue.tried, some cause⟩ := by
  induction cues generalizing h s with
  | nil => cases hp
  | cons cue cues ih =>
      cases hc : (cue.heed s sink).panic? with
      | some c =>
          have hdone := cue.done_heed s sink
          rw [hc, if_neg nofun] at hdone
          rw [perform_of_panic sink cues h s hc] at hp ⊢
          rw [hc] at hp
          obtain rfl := Option.some.inj hp
          refine ⟨[], cue, cues, s, [], rfl, .refl sink s, hc, (cue.foldl_hand h).symm, ?_⟩
          rw [← hc, List.nil_append, ← hdone]
      | none =>
          rw [perform_of_calm sink cues h s hc] at hp ⊢
          obtain ⟨before, d, after, s', taken, rfl, ht, hd, hh, hq⟩ := ih _ _ hp
          refine ⟨cue :: before, d, after, s', (cue.heed s sink).done ++ taken, rfl, ?_, hd, ?_, ?_⟩
          · rw [Cue.events_cons]
            exact (cue.heed_took s sink hc).trans ht
          · rw [hh, ← Cue.foldl_hand, ← List.foldl_append, Cue.events_cons cue before,
              List.append_assoc]
          · simp only [hq, List.append_assoc]

theorem perform_reaches : s.Reaches sink (perform sink cues h s).2.stage := by
  induction cues generalizing h s with
  | nil => exact .refl sink s
  | cons cue cues ih =>
      cases hc : (cue.heed s sink).panic? with
      | some cause =>
          rw [perform_of_panic sink cues h s hc]
          exact cue.heed_reaches s sink
      | none =>
          rw [perform_of_calm sink cues h s hc]
          exact (cue.heed_reaches s sink).trans (ih _ _)

theorem perform_refused (hp : (perform sink cues h s).2.panic? = some .sink) :
    ∃ before e after s' taken, Cue.events cues = before ++ e :: after ∧
      Took sink s before s' taken ∧ sink.panicAt = some (s.calls + before.length + 1) ∧
      (perform sink cues h s).2.stage.calls = s.calls + before.length + 1 ∧
      (perform sink cues h s).1 = (before ++ [e]).foldl Hand.after h ∧
      (perform sink cues h s).2.done = taken ++ [.noted (.sending e)] := by
  obtain ⟨before, cue, after, s', taken, rfl, ht, hc, hh, hq⟩ := perform_panicked sink cues h s hp
  have hcalls := cue.calls_heed s' sink
  rw [hq]
  cases cue.heeds s' sink with
  | followed calm intime eq =>
      rw [eq] at hc
      cases hc
  | late calm spent eq =>
      rw [eq] at hc
      cases hc
  | refused hit eq =>
      cases cue with
      | wait ms => exact absurd (hit.symm.trans (Sink.hits_zero ..)) nofun
      | send e =>
          rw [Cue.events_send, Cue.events_nil, List.length_singleton, Sink.hits_one,
            decide_eq_true_eq, ht.calls] at hit
          refine ⟨Cue.events before, e, Cue.events after, s', taken, ?_, ht, hit, ?_, hh, rfl⟩
          · rw [Cue.events_append, Cue.events_send]
          · rw [← ht.calls]
            exact hcalls

end Perform

theorem Hand.letGo_eq (h : Hand) : h.letGo = (Cue.events h.letGo).map .send := by
  rw [events_letGo, letGo]
  cases h.shift <;> simp

theorem perform_done (sink : Sink) (cues : List Cue) (h : Hand) (s : Stage)
    (hp : (perform sink cues h s).2.panic? = none) :
    (perform sink cues h s).2.done = cues.flatMap (Cue.heeded sink) := by
  induction cues generalizing h s with
  | nil => rfl
  | cons cue cues ih =>
      cases hc : (cue.heed s sink).panic? with
      | some cause =>
          rw [perform_of_panic sink cues h s hc, hc] at hp
          cases hp
      | none =>
          rw [perform_of_calm sink cues h s hc] at hp ⊢
          rw [List.flatMap_cons, ih _ _ hp, cue.done_heed s sink, if_pos hc]

theorem perform_sends (sink : Sink) (es : List KeyEvent) (h : Hand) (s : Stage)
    (hp : (perform sink (es.map .send) h s).2.panic? = none) :
    (perform sink (es.map .send) h s).2.done = es.flatMap sink.taking := by
  rw [perform_done sink _ h s hp, List.flatMap_map]
  rfl

end ChordScript
