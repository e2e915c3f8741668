import ChordScript.Proofs.Jumps
import ChordScript.Proofs.WellFormed

namespace ChordScript

def Effect.obeys (line : Nat) : Effect → Bool
  | noted (.obeying l _) => l = line
  | _ => false

theorem Effect.obeys_of_ofStage {done : List Effect} (h : done.all ofStage = true) (line : Nat) :
    done.countP (obeys line) = 0 := by
  refine countP_of_ofStage h fun x hx => ?_
  unfold obeys at hx
  split at hx
  · rfl
  · cases hx

theorem Playhead.follow_notices {h head : Playhead} {l : Nat} {order : Order}
    {notices : List Notice} (hn : h.follow l order = some (head, notices)) (line : Nat) :
    (notices.map .noted).countP (Effect.obeys line) = 0 := by
  rcases follow_eq_some hn with ⟨rfl, -⟩ | ⟨tag, target, bound, -, -, rfl, -⟩
  · rfl
  · rfl

theorem Playhead.follow_elsewhere {h head : Playhead} {l line : Nat} {order : Order}
    {notices : List Notice} (hl : l ≠ line) (hn : h.follow l order = some (head, notices)) :
    head.jumps.lookup line = h.jumps.lookup line := by
  cases order with
  | stop => cases hn
  | tempo bpm | rest beats | pass =>
      obtain ⟨rfl, rfl⟩ := Prod.mk.inj (Option.some.inj hn)
      rfl
  | repeatFrom tag target bound =>
      unfold follow at hn
      dsimp only at hn
      split at hn <;>
        · obtain ⟨rfl, rfl⟩ := Prod.mk.inj (Option.some.inj hn)
          rw [JumpCounts.lookup_set, if_neg hl.symm]

/-- A jump that stands alone on its line, with the place that it leads to and its bound, which its
counter may not be able to hold. -/
structure Document.LeapAt (doc : Document) (i line : Nat) (d : Directive) (tag : Text)
    (target : Nat) (bound : Int) : Prop where
  action : doc.actions[i]? = some ⟨line, .obey d⟩
  order : d.order doc.tags = .ok (.repeatFrom tag target bound)
  alone : ∀ (j : Nat) (b : Action), doc.actions[j]? = some b → b.line = line → j = i

structure Document.JumpAt (doc : Document) (i line : Nat) (d : Directive) (tag : Text)
    (target : Nat) (bound : Int) : Prop extends doc.LeapAt i line d tag target bound where
  fits : bound < UInt32.size

namespace Session

/-- The next tick carries out the action at the index. -/
def arrives (s : Session) (i : Nat) : Bool :=
  s.phase.ending? = none && !s.stage.cancelled && s.head.rest = 0 && s.head.cursor = i

def arrived (s : Session) (i : Nat) : Move → Nat
  | .tick => if s.arrives i then 1 else 0
  | .cancel => 0

def arrivals (s : Session) (i : Nat) : List Move → Nat
  | [] => 0
  | m :: ms => s.arrived i m + (s.move m).session.arrivals i ms

def Counted (s : Session) (line : Nat) (bound : Int) (count : Nat) : Prop :=
  s.head.jumps.lookup line = if count = 0 then none else some (min count bound.toNat)

variable {s : Session} {t : Turn} {i line : Nat} {d : Directive} {tag : Text} {target : Nat}
  {bound : Int} {count : Nat}

theorem arrives_eq_true : s.arrives i = true ↔ s.phase.ending? = none ∧
    s.stage.cancelled = false ∧ s.head.rest = 0 ∧ s.head.cursor = i := by
  simp [arrives, and_assoc]

theorem Counted.get (h : s.Counted line bound count) :
    s.head.jumps.get line = min count bound.toNat := by
  rw [JumpCounts.get, h]
  split
  · next hc => rw [hc, Nat.zero_min, Option.getD_none]
  · rw [Option.getD_some]

theorem counted_set {jumps : JumpCounts} {n : Nat} (hj : s.head.jumps = jumps.set line n)
    (hn : n = min (count + 1) bound.toNat) : s.Counted line bound (count + 1) := by
  rw [Counted, hj, JumpCounts.lookup_set, if_pos rfl, if_neg (Nat.succ_ne_zero count), hn]

theorem tick_of_arrives (hj : s.document.JumpAt i line d tag target bound)
    (ha : s.arrives i = true) (hc : s.Counted line bound count) :
    s.tick.verdict = .more ∧
      s.tick.session.head.cursor = (if count < bound.toNat then target else i + 1) ∧
      s.tick.session.Counted line bound (count + 1) ∧
      s.tick.done.countP (Effect.obeys line) = 1 := by
  obtain ⟨hlive, hfree, hr, rfl⟩ := arrives_eq_true.mp ha
  have hf : s.Faces ⟨line, .obey d⟩ := ⟨hlive, hfree, hj.action⟩
  have hget := hc.get
  obtain ⟨head, notices, hn, -, -, hjump⟩ := s.head.follow_repeatFrom line tag target hj.fits
  have hone : (Effect.noted (.obeying line d) :: notices.map .noted).countP (Effect.obeys line) = 1 := by
    rw [List.countP_cons_of_pos (by simp [Effect.obeys]), Playhead.follow_notices hn]
  rw [(Ticked.obeyed hf hr hj.order hn).eq_tick]
  rcases hjump with ⟨hlt, hcursor, hset⟩ | ⟨hge, hcursor, hset⟩
  · rw [if_pos (by omega)]
    exact ⟨rfl, hcursor, counted_set hset (by omega), hone⟩
  · rw [if_neg (by omega)]
    exact ⟨rfl, hcursor, counted_set hset (by omega), hone⟩

theorem Ticked.untouched (h : Ticked s t)
    (halone : ∀ (j : Nat) (b : Action), s.document.actions[j]? = some b → b.line = line → j = i)
    (ha : s.arrives i = false) :
    t.session.head.jumps.lookup line = s.head.jumps.lookup line ∧
      t.done.countP (Effect.obeys line) = 0 := by
  have hline {l : Nat} {e : Directive} (hf : s.Faces ⟨l, .obey e⟩) (hr : s.head.rest = 0) :
      l ≠ line := by
    intro hl
    rw [arrives_eq_true.mpr ⟨hf.live, hf.free, hr, halone _ _ hf.action hl⟩] at ha
    cases ha
  cases h with
  | past | stopped | finished | overslept => exact ⟨rfl, rfl⟩
  | rested => exact ⟨rfl, Effect.obeys_of_ofStage ((heeding_ofStage {}).waitBeat ..) line⟩
  | struck | panicked => exact ⟨rfl, Effect.obeys_of_ofStage ((heeding_ofStage _).strikeAll ..) line⟩
  | interrupted =>
      refine ⟨rfl, List.countP_append.trans ?_⟩
      rw [strikes, Effect.obeys_of_ofStage ((heeding_ofStage _).strikeAll ..)]
      rfl
  | refused hf hr | halted hf hr =>
      exact ⟨rfl, by simp [finish, Effect.obeys, hline hf hr]⟩
  | @obeyed l e order head notices hf hr ho hn =>
      refine ⟨Playhead.follow_elsewhere (hline hf hr) hn, ?_⟩
      rw [List.countP_cons_of_neg (by simpa [Effect.obeys] using hline hf hr),
        Playhead.follow_notices hn]

theorem counted_move (hj : s.document.JumpAt i line d tag target bound)
    (hc : s.Counted line bound count) (m : Move) :
    (s.move m).session.Counted line bound (count + s.arrived i m) ∧
      (s.move m).done.countP (Effect.obeys line) = s.arrived i m := by
  cases m with
  | cancel => exact ⟨hc, rfl⟩
  | tick =>
      rw [arrived]
      cases ha : s.arrives i with
      | true =>
          obtain ⟨-, -, hc', ho⟩ := tick_of_arrives hj ha hc
          exact ⟨hc', ho⟩
      | false =>
          obtain ⟨hl, ho⟩ := s.ticked.untouched hj.alone ha
          exact ⟨hl.trans hc, ho⟩

theorem counted_after (hj : s.document.JumpAt i line d tag target bound)
    (hc : s.Counted line bound count) (ms : List Move) :
    (s.after ms).Counted line bound (count + s.arrivals i ms) ∧
      (s.doneIn ms).countP (Effect.obeys line) = s.arrivals i ms := by
  induction ms generalizing s count with
  | nil => exact ⟨hc, rfl⟩
  | cons m ms ih =>
      obtain ⟨hc', ho⟩ := counted_move hj hc m
      have hd : (s.move m).session.document = s.document := (frame_after s [m]).1
      obtain ⟨hcs, hos⟩ := ih (by rwa [hd]) hc'
      rw [after, doneIn, List.countP_append, ho, hos, arrivals, ← Nat.add_assoc]
      exact ⟨hcs, rfl⟩

end Session

theorem Script.leapAt_of_compile {source : Text} {script : Script}
    (h : compile source = .ok script) {i line : Nat} {d : Directive} {name value : Text}
    {target : Nat} {bound : Int} (ha : script.document.actions[i]? = some ⟨line, .obey d⟩)
    (hk : d.keyword = .goto) (hname : d.args[0]? = some name) (hvalue : d.args[1]? = some value)
    (htag : script.document.tags.get? name = some target)
    (hbound : Text.integer? value = some bound) :
    script.document.LeapAt i line d name target bound where
  action := ha
  order := Directive.order_goto hk hname hvalue htag hbound
  alone j b hb hl :=
    (alone_of_goto h ha hb (by simp [Step.isDirective, Step.directive?, hk]) hl.symm).symm

namespace Session

/-- What the arrivals at a jump come to, whatever else is done with the session. -/
structure CountsArrivals (s : Session) (i line target : Nat) (bound : Int) : Prop where
  jumps : ∀ ms, (s.after ms).arrives i = true → (s.after ms).tick.verdict = .more ∧
    (s.after ms).tick.session.head.cursor =
      if s.arrivals i ms < bound.toNat then target else i + 1
  counter : ∀ ms, (s.after ms).head.jumps.get line = min (s.arrivals i ms) bound.toNat
  entry : ∀ ms, (s.after ms).head.jumps.lookup line =
    if s.arrivals i ms = 0 then none else some (min (s.arrivals i ms) bound.toNat)
  untouched : ∀ ms m, (s.after ms).arrived i m = 0 →
    ((s.after ms).move m).session.head.jumps.lookup line = (s.after ms).head.jumps.lookup line
  shown : ∀ ms, (s.doneIn ms).countP (Effect.obeys line) = s.arrivals i ms
  history : ∀ cs ts, s.history cs = some ts → (s.last ts).head.jumps.get line =
    min ((ts.flatMap Turn.done).countP (Effect.obeys line)) bound.toNat

/-- A jump of a script leads to its tag as often as its bound says, and no more, in whatever order
the jumps of the script are arrived at. -/
theorem jumps_by_arrivals (source : Text) (script : Script) (h : Script.compile source = .ok script)
    (i line : Nat) (d : Directive) (name value : Text) (target : Nat) (bound : Int)
    (ha : script.document.actions[i]? = some ⟨line, .obey d⟩) (hk : d.keyword = .goto)
    (hname : d.args[0]? = some name) (hvalue : d.args[1]? = some value)
    (htag : script.document.tags.get? name = some target)
    (hbound : Text.integer? value = some bound) (hfits : bound < UInt32.size)
    (config : Config) (sink : Sink) :
    (start script.document config sink).CountsArrivals i line target bound := by
  set s := start script.document config sink
  have hj (ms : List Move) : (s.after ms).document.JumpAt i line d name target bound := by
    rw [(frame_after s ms).1]
    exact { Script.leapAt_of_compile h ha hk hname hvalue htag hbound with fits := hfits }
  have hcount (ms : List Move) : (s.after ms).Counted line bound (s.arrivals i ms) ∧
      (s.doneIn ms).countP (Effect.obeys line) = s.arrivals i ms := by
    have hnone : s.Counted line bound 0 := rfl
    simpa [after] using counted_after (hj []) hnone ms
  constructor
  case jumps =>
    intro ms harr
    obtain ⟨hv, hc, -⟩ := tick_of_arrives (hj ms) harr (hcount ms).1
    exact ⟨hv, hc⟩
  case counter => exact fun ms => (hcount ms).1.get
  case entry => exact fun ms => (hcount ms).1
  case untouched =>
    intro ms m hm
    cases m with
    | cancel => rfl
    | tick =>
        have hn : (s.after ms).arrives i = false := by simpa [arrived] using hm
        exact ((s.after ms).ticked.untouched (hj ms).alone hn).1
  case shown => exact fun ms => (hcount ms).2
  case history =>
    intro cs ts hts
    obtain ⟨-, ms, hl, hf, -⟩ := history_moves hts (Effect.obeys line) (fun _ _ => rfl)
    rw [hl, (hcount ms).1.get, List.countP_eq_length_filter, hf, ← List.countP_eq_length_filter,
      (hcount ms).2]

/-- Two loops about the same tag, one within the other. The inner jump is taken at the first arrival
and passed by at the third. -/
theorem jumps_by_arrivals_nested :
    let source := ",TAG t\na\n,GOTO t 2\nb\n,GOTO t 1".toList
    let d : Directive := ⟨.goto, [['t'], ['2']]⟩
    ∃ script, Script.compile source = .ok script ∧
      script.document.actions[2]? = some ⟨3, .obey d⟩ ∧
      script.document.tags.get? ['t'] = some 0 ∧ Text.integer? ['2'] = some 2 ∧
      let s := start script.document {} {}
      (s.after (Move.ticks 2)).arrives 2 = true ∧
        (s.after (Move.ticks 2)).tick.session.head.cursor = 0 ∧
        (s.after (Move.ticks 8)).arrives 2 = true ∧
        (s.after (Move.ticks 8)).tick.session.head.cursor = 3 ∧
        (s.after (Move.ticks 8)).head.jumps.get 3 = 2 ∧
        ∀ cs ts, s.history cs = some ts → (s.last ts).head.jumps.get 3 =
          min ((ts.flatMap Turn.done).countP (Effect.obeys 3)) 2 := by
  intro source d
  have h : Script.compile source = .ok _ := rfl
  have hcounts := jumps_by_arrivals source _ h 2 3 d ['t'] ['2'] 0 2 rfl rfl rfl rfl rfl (by decide)
    (by decide) {} {}
  refine ⟨_, h, rfl, rfl, by decide, by decide, (hcounts.jumps (Move.ticks 2) (by decide)).2, by decide,
    (hcounts.jumps (Move.ticks 8) (by decide)).2.trans (by decide), ?_, hcounts.history⟩
  rw [hcounts.counter]
  decide

end Session

end ChordScript
