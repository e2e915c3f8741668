import ChordScript.Proofs.Arrivals

namespace ChordScript

/-- The counter of a jump after so many arrivals at it. -/
def tally (bound : Int) : Nat → Nat
  | 0 => 0
  | n + 1 => if tally bound n < bound then (tally bound n + 1) % UInt32.size else tally bound n

section Tally

variable {bound : Int}

theorem tally_of_fits (hb : bound < UInt32.size) (n : Nat) : tally bound n = min n bound.toNat := by
  induction n with
  | zero => exact (Nat.zero_min _).symm
  | succ n ih =>
      rw [tally, ih]
      split
      · rw [Nat.mod_eq_of_lt (by omega)]
        omega
      · omega

theorem tally_of_wraps (hb : UInt32.size ≤ bound) (n : Nat) : tally bound n = n % UInt32.size := by
  induction n with
  | zero => rfl
  | succ n ih =>
      have hlt : n % UInt32.size < UInt32.size := Nat.mod_lt n (by decide)
      rw [tally, ih, if_pos (by omega), Nat.mod_add_mod]

theorem tally_lt_of_wraps (hb : UInt32.size ≤ bound) (n : Nat) : tally bound n < bound := by
  have hlt : n % UInt32.size < UInt32.size := Nat.mod_lt n (by decide)
  rw [tally_of_wraps hb]
  omega

end Tally

/-- No line has a jump but the one of the action at the index, which does not lead forwards. -/
structure Document.OnlyLoop (doc : Document) (i line target : Nat) : Prop where
  only : ∀ a ∈ doc.actions, a.step.isDirective .goto = true → a.line = line
  backwards : target ≤ i

namespace Session

variable {s : Session} {t : Turn} {i line : Nat} {d : Directive} {tag : Text} {target : Nat}
  {bound : Int} {n : Nat}

structure Leaps (s : Session) (i line target : Nat) (bound : Int) : Prop where
  goesOn : s.tick.verdict = .more
  taken : s.head.jumps.get line < bound → s.tick.session.arrives target = true ∧
    s.tick.session.head.jumps.get line = (s.head.jumps.get line + 1) % UInt32.size
  passed : bound ≤ s.head.jumps.get line → s.tick.session.arrives (i + 1) = true ∧
    s.tick.session.head.jumps.get line = s.head.jumps.get line

theorem leaps_of_arrives (hj : s.document.LeapAt i line d tag target bound)
    (ha : s.arrives i = true) : s.Leaps i line target bound := by
  obtain ⟨hlive, hfree, hr, rfl⟩ := arrives_eq_true.mp ha
  have hf : s.Faces ⟨line, .obey d⟩ := ⟨hlive, hfree, hj.action⟩
  obtain ⟨head, notices, hn, -, hrest, hjump⟩ := s.head.follow_jump line tag target bound
  have ht := (Ticked.obeyed hf hr hj.order hn).eq_tick
  have hnext {j : Nat} (hc : head.cursor = j) : s.tick.session.arrives j = true := by
    rw [ht]
    exact arrives_eq_true.mpr ⟨rfl, hfree, hrest.trans hr, hc⟩
  have hcount {m : Nat} (hset : head.jumps = s.head.jumps.set line m) :
      s.tick.session.head.jumps.get line = m := by
    rw [ht]
    change head.jumps.get line = m
    rw [hset, JumpCounts.get_set, if_pos rfl]
  refine ⟨by rw [ht], fun hlt => ?_, fun hge => ?_⟩
  · rcases hjump with ⟨-, hcursor, hset⟩ | ⟨hge, -⟩
    · exact ⟨hnext hcursor, hcount hset⟩
    · exact absurd hlt (Int.not_lt.mpr hge)
  · rcases hjump with ⟨hlt, -⟩ | ⟨-, hcursor, hset⟩
    · exact absurd hlt (Int.not_lt.mpr hge)
    · exact ⟨hnext hcursor, hcount hset⟩

theorem Leaps.tally (h : s.Leaps i line target bound)
    (hc : s.head.jumps.get line = tally bound n) :
    s.tick.session.head.jumps.get line = ChordScript.tally bound (n + 1) := by
  rw [ChordScript.tally, ← hc]
  split
  · next hlt => exact (h.taken hlt).2
  · next hge => exact (h.passed (Int.not_lt.mp hge)).2

theorem tally_move (hj : s.document.LeapAt i line d tag target bound)
    (hc : s.head.jumps.get line = tally bound n) (m : Move) :
    (s.move m).session.head.jumps.get line = tally bound (n + s.arrived i m) := by
  cases m with
  | cancel => exact hc
  | tick =>
      rw [arrived]
      cases ha : s.arrives i with
      | true => exact (leaps_of_arrives hj ha).tally hc
      | false =>
          obtain ⟨hlookup, -⟩ := s.ticked.untouched hj.alone ha
          have hsame : s.tick.session.head.jumps.get line = s.head.jumps.get line :=
            congrArg (Option.getD · 0) hlookup
          exact hsame.trans hc

theorem tally_after (hj : s.document.LeapAt i line d tag target bound)
    (hc : s.head.jumps.get line = tally bound n) (ms : List Move) :
    (s.after ms).head.jumps.get line = tally bound (n + s.arrivals i ms) := by
  induction ms generalizing s n with
  | nil => exact hc
  | cons m ms ih =>
      have hd : (s.move m).session.document = s.document := (frame_after s [m]).1
      rw [after, arrivals, ← Nat.add_assoc]
      exact ih (by rwa [hd]) (tally_move hj hc m)

/-- A loop that has been arrived at so often: either the jump has been taken every time, or it has
been passed by the last time, and the loop is over. -/
inductive Loops (s : Session) (i : Nat) (bound : Int) : Nat → Prop
  | within {n : Nat} (hc : s.head.cursor ≤ i) (hn : ∀ m < n, tally bound m < bound) :
      Loops s i bound n
  | past {n : Nat} (hc : i < s.head.cursor) (hn : ∀ m < n, tally bound m < bound)
      (hlast : bound ≤ tally bound n) : Loops s i bound (n + 1)

theorem Ticked.cursor_elsewhere (h : Ticked s t) (hj : s.document.LeapAt i line d tag target bound)
    (ho : s.document.OnlyLoop i line target) (ha : s.arrives i = false) :
    t.session.head.cursor = s.head.cursor ∨
      s.head.cursor ≠ i ∧ t.session.head.cursor = s.head.cursor + 1 := by
  have hne {a : Action} (hf : s.Faces a) (hr : s.head.rest = 0) : s.head.cursor ≠ i := by
    intro hc
    rw [arrives_eq_true.mpr ⟨hf.live, hf.free, hr, hc⟩] at ha
    cases ha
  cases h with
  | past | stopped | finished | rested | overslept | interrupted | panicked | refused | halted =>
      exact .inl rfl
  | struck hf hr => exact .inr ⟨hne hf hr, rfl⟩
  | obeyed hf hr horder hn =>
      rcases Playhead.follow_eq_some hn with ⟨-, hc, -⟩ | ⟨tag, target, bound, rfl, -⟩
      · exact .inr ⟨hne hf hr, hc⟩
      · cases Directive.order_eq_ok.mp horder with
        | jump hk =>
            have hline := ho.only _ (Array.mem_of_getElem? hf.action)
              (by simp [Step.isDirective, Step.directive?, hk])
            exact absurd (hj.alone _ _ hf.action hline) (hne hf hr)

theorem Loops.move (h : s.Loops i bound n) (hj : s.document.LeapAt i line d tag target bound)
    (ho : s.document.OnlyLoop i line target) (hc : s.head.jumps.get line = tally bound n) (m : Move) :
    (s.move m).session.Loops i bound (n + s.arrived i m) := by
  cases m with
  | cancel =>
      cases h with
      | within hcursor hn => exact .within hcursor hn
      | past hcursor hn hlast => exact .past hcursor hn hlast
  | tick =>
      rw [arrived]
      cases ha : s.arrives i with
      | true =>
          have hleaps := leaps_of_arrives hj ha
          obtain ⟨-, -, -, hcursor⟩ := arrives_eq_true.mp ha
          cases h with
          | past hpast => exact absurd hcursor (Nat.ne_of_gt hpast)
          | within _ hn =>
              -- The jump leads back into the loop, or the loop is over.
              rcases lt_or_ge (tally bound n : Int) bound with hlt | hge
              · obtain ⟨-, -, -, hnext⟩ := arrives_eq_true.mp (hleaps.taken (hc ▸ hlt)).1
                refine .within (hnext.le.trans ho.backwards) fun m hm => ?_
                rcases Nat.lt_succ_iff_lt_or_eq.mp hm with hm | rfl
                · exact hn m hm
                · exact hlt
              · obtain ⟨-, -, -, hnext⟩ := arrives_eq_true.mp (hleaps.passed (hc ▸ hge)).1
                exact .past (Nat.lt_of_lt_of_eq (Nat.lt_succ_self i) hnext.symm) hn hge
      | false =>
          have hcursor := s.ticked.cursor_elsewhere hj ho ha
          cases h with
          | within hle hn =>
              have hnext : s.tick.session.head.cursor ≤ i := by omega
              exact .within hnext hn
          | past hlt hn hlast =>
              have hnext : i < s.tick.session.head.cursor := by omega
              exact .past hnext hn hlast

theorem Loops.after (h : s.Loops i bound n) (hj : s.document.LeapAt i line d tag target bound)
    (ho : s.document.OnlyLoop i line target) (hc : s.head.jumps.get line = tally bound n)
    (ms : List Move) : (s.after ms).Loops i bound (n + s.arrivals i ms) := by
  induction ms generalizing s n with
  | nil => exact h
  | cons m ms ih =>
      have hd : (s.move m).session.document = s.document := (frame_after s [m]).1
      rw [Session.after, arrivals, ← Nat.add_assoc]
      exact ih (h.move hj ho hc m) (by rwa [hd]) (by rwa [hd]) (tally_move hj hc m)

theorem Loops.arrivals_of_fits (h : s.Loops i bound n) (hb : bound < UInt32.size)
    (hpast : i < s.head.cursor) : n = bound.toNat + 1 := by
  cases h with
  | within hc => exact absurd hpast (Nat.not_lt.mpr hc)
  | @past n _ hn hlast =>
      rw [tally_of_fits hb] at hlast
      have hle : n ≤ bound.toNat := by
        by_contra hlt
        have hfull := hn bound.toNat (Nat.lt_of_not_le hlt)
        rw [tally_of_fits hb] at hfull
        omega
      omega

theorem Loops.cursor_of_wraps (h : s.Loops i bound n) (hb : UInt32.size ≤ bound) :
    s.head.cursor ≤ i := by
  cases h with
  | within hc => exact hc
  | @past n _ _ hlast => exact absurd (tally_lt_of_wraps hb n) (Int.not_lt.mpr hlast)

section BareLoop

variable {l : Nat} {e : Directive}

theorem arrives_pass (ha : s.arrives i = true) (hact : s.document.actions[i]? = some ⟨l, .obey e⟩)
    (ho : e.order s.document.tags = .ok .pass) :
    s.tick.verdict = .more ∧ s.tick.session.arrives (i + 1) = true ∧
      s.tick.session.head.jumps = s.head.jumps := by
  obtain ⟨hlive, hfree, hr, rfl⟩ := arrives_eq_true.mp ha
  rw [(Ticked.obeyed ⟨hlive, hfree, hact⟩ hr ho rfl).eq_tick]
  exact ⟨rfl, arrives_eq_true.mpr ⟨rfl, hfree, hr, rfl⟩, rfl⟩

/-- A loop about nothing is gone through in two ticks, for ever if its counter cannot hold its
bound. -/
theorem goesOn_of_wraps (hact : s.document.actions[0]? = some ⟨l, .obey e⟩)
    (ho : e.order s.document.tags = .ok .pass) (hj : s.document.LeapAt 1 line d tag 0 bound)
    (hb : UInt32.size ≤ bound) (ha : s.arrives 0 = true)
    (hc : s.head.jumps.get line = tally bound n) (k : Nat) :
    s.GoesOn (2 * k) ∧ (s.after (Move.ticks (2 * k))).arrives 0 = true ∧
      (s.after (Move.ticks (2 * k))).head.jumps.get line = tally bound (n + k) := by
  induction k generalizing s n with
  | zero => exact ⟨trivial, ha, hc⟩
  | succ k ih =>
      obtain ⟨hmore, hnext, hsame⟩ := arrives_pass ha hact ho
      have hd : s.tick.session.document = s.document := s.ticked.frame.1
      have hleaps := leaps_of_arrives (hd ▸ hj) hnext
      have hcount : s.tick.session.head.jumps.get line = tally bound n := by rw [hsame, hc]
      have hlt : s.tick.session.head.jumps.get line < bound := hcount ▸ tally_lt_of_wraps hb n
      have hd' : s.tick.session.tick.session.document = s.document :=
        s.tick.session.ticked.frame.1.trans hd
      obtain ⟨hgoes, harr, hget⟩ := ih (s := s.tick.session.tick.session) (n := n + 1)
        (by rwa [hd']) (by rwa [hd']) (by rwa [hd']) (hleaps.taken hlt).1 (hleaps.tally hcount)
      rw [Nat.add_assoc, Nat.add_comm 1] at hget
      exact ⟨⟨hmore, hleaps.goesOn, hgoes⟩, harr, hget⟩

end BareLoop

/-- How a jump is counted, by a counter that can hold its bound and by one that cannot. -/
structure CountsJumps (s : Session) (i line target : Nat) (bound : Int) : Prop where
  leaps : ∀ ms, (s.after ms).arrives i = true → (s.after ms).Leaps i line target bound
  grows : bound < UInt32.size → ∀ ms, (s.after ms).arrives i = true →
    (s.after ms).head.jumps.get line < bound →
      (s.after ms).head.jumps.get line + 1 < UInt32.size ∧
      (s.after ms).tick.session.head.jumps.get line = (s.after ms).head.jumps.get line + 1
  counter : bound < UInt32.size →
    ∀ ms, (s.after ms).head.jumps.get line = min (s.arrivals i ms) bound.toNat
  leaves : bound < UInt32.size → s.document.OnlyLoop i line target →
    ∀ ms, i < (s.after ms).head.cursor → s.arrivals i ms = bound.toNat + 1
  returns : UInt32.size ≤ bound → ∀ ms, (s.after ms).arrives i = true →
    (s.after ms).tick.session.head.cursor = target
  wraps : UInt32.size ≤ bound →
    ∀ ms, (s.after ms).head.jumps.get line = s.arrivals i ms % UInt32.size
  stays : UInt32.size ≤ bound → s.document.OnlyLoop i line target →
    ∀ ms, (s.after ms).head.cursor ≤ i

/-- A jump is taken whenever its counter is below its bound. A counter that can hold the bound grows
by one with every jump, and a loop about it is gone through once more than the bound says. One that
cannot starts again from 0 as soon as it is full, and the loop is never left. -/
theorem repeats_counted (source : Text) (script : Script) (h : Script.compile source = .ok script)
    (i line : Nat) (d : Directive) (name value : Text) (target : Nat) (bound : Int)
    (ha : script.document.actions[i]? = some ⟨line, .obey d⟩) (hk : d.keyword = .goto)
    (hname : d.args[0]? = some name) (hvalue : d.args[1]? = some value)
    (htag : script.document.tags.get? name = some target)
    (hbound : Text.integer? value = some bound) (config : Config) (sink : Sink) :
    (start script.document config sink).CountsJumps i line target bound := by
  set s := start script.document config sink
  have hj : s.document.LeapAt i line d name target bound :=
    Script.leapAt_of_compile h ha hk hname hvalue htag hbound
  have hcount (ms : List Move) :
      (s.after ms).head.jumps.get line = tally bound (s.arrivals i ms) := by
    simpa using tally_after hj (n := 0) rfl ms
  have hloops (ho : s.document.OnlyLoop i line target) (ms : List Move) :
      (s.after ms).Loops i bound (s.arrivals i ms) := by
    have hstart : s.Loops i bound 0 := .within (Nat.zero_le i) nofun
    simpa using hstart.after hj ho rfl ms
  have hleaps (ms : List Move) (harr : (s.after ms).arrives i = true) :
      (s.after ms).Leaps i line target bound :=
    leaps_of_arrives (by rwa [(frame_after s ms).1]) harr
  constructor
  case leaps => exact hleaps
  case grows =>
    intro hb ms harr hlt
    have hfits : (s.after ms).head.jumps.get line + 1 < UInt32.size := by omega
    refine ⟨hfits, ?_⟩
    rw [((hleaps ms harr).taken hlt).2, Nat.mod_eq_of_lt hfits]
  case counter =>
    intro hb ms
    rw [hcount, tally_of_fits hb]
  case leaves => exact fun hb ho ms => (hloops ho ms).arrivals_of_fits hb
  case returns =>
    intro hb ms harr
    have hlt := tally_lt_of_wraps hb (s.arrivals i ms)
    rw [← hcount ms] at hlt
    exact (arrives_eq_true.mp ((hleaps ms harr).taken hlt).1).2.2.2
  case wraps =>
    intro hb ms
    rw [hcount, tally_of_wraps hb]
  case stays => exact fun hb ho ms => (hloops ho ms).cursor_of_wraps hb

theorem repeats_counted_twice :
    let source := ",TAG t\na\n,GOTO t 2\nb".toList
    let d : Directive := ⟨.goto, [['t'], ['2']]⟩
    ∃ script, Script.compile source = .ok script ∧
      script.document.actions[2]? = some ⟨3, .obey d⟩ ∧ script.document.OnlyLoop 2 3 0 ∧
      let s := start script.document {} {}
      (s.after (Move.ticks 10)).head.cursor = 4 ∧ s.arrivals 2 (Move.ticks 10) = 3 ∧
        (s.after (Move.ticks 10)).head.jumps.get 3 = 2 := by
  intro source d
  let script : Script := ⟨⟨#[⟨1, .obey ⟨.tag, [['t']]⟩⟩, ⟨2, .play [.single 'a']⟩, ⟨3, .obey d⟩,
    ⟨4, .play [.single 'b']⟩], ⟨[(['t'], 0)]⟩⟩, {}, none⟩
  have h : Script.compile source = .ok script := rfl
  have hloop : script.document.OnlyLoop 2 3 0 := ⟨by decide, by decide⟩
  have hcursor : ((start script.document {} {}).after (Move.ticks 10)).head.cursor = 4 := by
    decide +kernel
  have hcounts := repeats_counted source script h 2 3 d ['t'] ['2'] 0 2 rfl rfl rfl rfl rfl
    (by decide) {} {}
  have hthree := hcounts.leaves (by decide) hloop (Move.ticks 10) (by rw [hcursor]; decide)
  refine ⟨script, h, rfl, hloop, hcursor, hthree, ?_⟩
  rw [hcounts.counter (by decide), hthree]
  rfl

/-- A loop that is to be gone through 4294967297 times. Its counter is full after 4294967295 jumps,
the next jump makes it 0, and playback never ends. -/
theorem counter_starts_again :
    let source := ",TAG t\n,GOTO t 4294967296".toList
    let d : Directive := ⟨.goto, [['t'], "4294967296".toList]⟩
    ∃ script n, Script.compile source = .ok script ∧
      script.document.actions[1]? = some ⟨2, .obey d⟩ ∧
      Text.integer? "4294967296".toList = some 4294967296 ∧
      let s := start script.document {} {}
      (s.after (Move.ticks n)).arrives 1 = true ∧
        (s.after (Move.ticks n)).head.jumps.get 2 = 4294967295 ∧
        (s.after (Move.ticks n)).tick.session.head.cursor = 0 ∧
        (s.after (Move.ticks n)).tick.session.head.jumps.get 2 = 0 ∧ s.run = none := by
  intro source d
  let script : Script := ⟨⟨#[⟨1, .obey ⟨.tag, [['t']]⟩⟩, ⟨2, .obey d⟩], ⟨[(['t'], 0)]⟩⟩, {}, none⟩
  have h : Script.compile source = .ok script := rfl
  have hbound : Text.integer? "4294967296".toList = some 4294967296 := by decide
  have hj : script.document.LeapAt 1 2 d ['t'] 0 4294967296 :=
    Script.leapAt_of_compile h rfl rfl rfl rfl rfl hbound
  have hb : (UInt32.size : Int) ≤ 4294967296 := by decide
  have hlaps (k : Nat) := goesOn_of_wraps (s := start script.document {} {}) (n := 0) rfl rfl hj hb
    rfl rfl k
  have hendless (n : Nat) : (start script.document {} {}).GoesOn n := by
    have hn := (hlaps n).1
    rw [Nat.two_mul] at hn
    exact hn.of_add
  obtain ⟨-, harr, hfull⟩ := hlaps 4294967295
  -- The session once the counter is full, before the tag and behind it.
  set before := (start script.document {} {}).after (Move.ticks (2 * 4294967295)) with hbefore
  have hd : before.document = script.document := (frame_after _ _).1
  obtain ⟨-, hnext, hsame⟩ := arrives_pass (l := 1) (e := ⟨.tag, [['t']]⟩) harr (by rw [hd]; rfl)
    (by rw [hd]; rfl)
  have hleaps := leaps_of_arrives (s := before.tick.session)
    (by rw [before.ticked.frame.1, hd]; exact hj) hnext
  have hcount : before.tick.session.head.jumps.get 2 = 4294967295 := by
    rw [hsame, hfull, tally_of_wraps hb]
    decide
  obtain ⟨hback, hzero⟩ := hleaps.taken (by rw [hcount]; decide)
  refine ⟨script, 2 * 4294967295 + 1, h, rfl, hbound, ?_⟩
  dsimp only
  rw [after_ticks_succ, ← hbefore]
  refine ⟨hnext, hcount, (arrives_eq_true.mp hback).2.2.2, ?_, run_eq_none hendless⟩
  rw [hzero, hcount]
  decide

end Session

end ChordScript
