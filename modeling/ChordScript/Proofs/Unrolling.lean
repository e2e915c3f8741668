import ChordScript.Proofs.Jumps
import ChordScript.Proofs.Undisturbed

namespace ChordScript

theorem getElem?_flatten_replicate {α : Type} (lap : List α) {m k i : Nat} (hk : k < m)
    (hi : i < lap.length) : (List.replicate m lap).flatten[k * lap.length + i]? = lap[i]? := by
  induction k generalizing m with
  | zero =>
      obtain ⟨m, rfl⟩ := Nat.exists_eq_add_one_of_ne_zero (Nat.ne_zero_of_lt hk)
      rw [List.replicate_succ, List.flatten_cons, Nat.zero_mul, Nat.zero_add,
        List.getElem?_append_left hi]
  | succ k ih =>
      obtain ⟨m, rfl⟩ := Nat.exists_eq_add_one_of_ne_zero (Nat.ne_zero_of_lt hk)
      have hlap : (k + 1) * lap.length + i - lap.length = k * lap.length + i := by
        rw [Nat.succ_mul]
        omega
      rw [List.replicate_succ, List.flatten_cons, List.getElem?_append_right, hlap,
        ih (Nat.lt_of_succ_lt_succ hk)]
      rw [Nat.succ_mul]
      omega

/-- A part of a script between a tag and the only jump of the script, which leads back to it. -/
structure Loop where
  before : List Action
  body : List Action
  after : List Action
  tagLine : Nat
  jumpLine : Nat
  name : Text
  bound : Text
  repeats : Nat
  free : ∀ a ∈ before ++ body ++ after, a.step.isDirective .goto = false
  reads : Text.integer? bound = some repeats
  fits : repeats < UInt32.size

namespace Loop

def top (L : Loop) : Action := ⟨L.tagLine, .obey ⟨.tag, [L.name]⟩⟩

def jump (L : Loop) : Action := ⟨L.jumpLine, .obey ⟨.goto, [L.name, L.bound]⟩⟩

def actions (L : Loop) : List Action := L.before ++ (L.top :: L.body) ++ (L.jump :: L.after)

def lap (L : Loop) : List Action := L.top :: L.body ++ [L.top]

def unrolled (L : Loop) : List Action :=
  L.before ++ (List.replicate (L.repeats + 1) L.lap).flatten ++ L.after

def turn (L : Loop) : Nat := (L.before ++ (L.top :: L.body)).length

/-- The places that the player comes to after so many jumps. -/
structure Pass (L : Loop) (i jumps : Nat) : Prop where
  le : jumps ≤ L.repeats
  early : i < L.before.length → jumps = 0
  late : L.turn < i → jumps = L.repeats

variable {L : Loop} {i k : Nat}

theorem length_lap (L : Loop) : L.lap.length = L.body.length + 2 := by simp [lap]

theorem turn_eq (L : Loop) : L.turn = L.before.length + (L.body.length + 1) := by simp [turn]

theorem actions_turn (L : Loop) : L.actions[L.turn]? = some L.jump := by
  rw [actions, turn, List.getElem?_append_right (Nat.le_refl _), Nat.sub_self]
  rfl

theorem Pass.next (h : L.Pass i k) (hi : i ≠ L.turn) : L.Pass (i + 1) k where
  le := h.le
  early hlt := h.early (Nat.lt_of_succ_lt hlt)
  late hlt := h.late (Nat.lt_of_le_of_ne (Nat.le_of_lt_succ hlt) hi.symm)

theorem Pass.again (hk : k < L.repeats) : L.Pass L.before.length (k + 1) where
  le := hk
  early hlt := absurd hlt (Nat.lt_irrefl _)
  late hlt := by
    rw [turn_eq] at hlt
    omega

theorem Pass.leave : L.Pass (L.turn + 1) L.repeats where
  le := Nat.le_refl _
  early hlt := by
    rw [turn_eq] at hlt
    omega
  late _ := rfl

theorem unrolled_lap (hk : k ≤ L.repeats) (hi : i < L.lap.length) :
    L.unrolled[L.before.length + i + k * L.lap.length]? = L.lap[i]? := by
  have hlaps := getElem?_flatten_replicate L.lap (Nat.lt_succ_of_le hk) hi
  have hlt : k * L.lap.length + i < (List.replicate (L.repeats + 1) L.lap).flatten.length := by
    rw [List.getElem?_eq_getElem hi] at hlaps
    exact (List.getElem?_eq_some_iff.mp hlaps).1
  rw [Nat.add_right_comm, Nat.add_assoc, unrolled, List.append_assoc,
    List.getElem?_append_right (Nat.le_add_right ..), Nat.add_sub_cancel_left,
    List.getElem?_append_left hlt, hlaps]

theorem unrolled_turn (hk : k ≤ L.repeats) :
    L.unrolled[L.turn + k * L.lap.length]? = some L.top := by
  have hi : L.body.length + 1 < L.lap.length := by rw [length_lap]; omega
  rw [turn_eq, unrolled_lap hk hi]
  simp [lap]

theorem actions_after (L : Loop) (j : Nat) : L.actions[L.turn + 1 + j]? = L.after[j]? := by
  have hj : L.turn + 1 + j - L.turn = j + 1 := by omega
  rw [turn] at hj ⊢
  rw [actions, List.getElem?_append_right (by omega), hj, List.getElem?_cons_succ]

theorem unrolled_after (L : Loop) (j : Nat) :
    L.unrolled[L.turn + 1 + j + L.repeats * L.lap.length]? = L.after[j]? := by
  have hlen : (L.before ++ (List.replicate (L.repeats + 1) L.lap).flatten).length =
      L.turn + 1 + L.repeats * L.lap.length := by
    rw [List.length_append, List.length_flatten, List.map_replicate, List.sum_replicate_nat,
      Nat.succ_mul, turn_eq, length_lap]
    omega
  rw [Nat.add_right_comm, ← hlen, unrolled, List.getElem?_append_right (Nat.le_add_right ..),
    Nat.add_sub_cancel_left]

theorem unrolled_pass (h : L.Pass i k) (hi : i ≠ L.turn) :
    L.unrolled[i + k * L.lap.length]? = L.actions[i]? := by
  have hturn := L.turn_eq
  have hlap := L.length_lap
  rcases Nat.lt_or_ge i L.before.length with hlt | hge
  · rw [h.early hlt, Nat.zero_mul, Nat.add_zero, unrolled, actions, List.append_assoc,
      List.append_assoc, List.getElem?_append_left hlt, List.getElem?_append_left hlt]
  · rcases Nat.lt_or_gt_of_ne hi with hlt | hgt
    · obtain ⟨j, rfl⟩ := Nat.exists_eq_add_of_le hge
      have hj : j < (L.top :: L.body).length := by
        rw [List.length_cons]
        omega
      rw [unrolled_lap h.le (by omega), actions, List.append_assoc,
        List.getElem?_append_right hge, Nat.add_sub_cancel_left, lap,
        List.getElem?_append_left hj, List.getElem?_append_left hj]
    · obtain ⟨j, rfl⟩ := Nat.exists_eq_add_of_le (Nat.succ_le_of_lt hgt)
      rw [h.late hgt, unrolled_after, actions_after]

theorem free_of_ne_turn {a : Action} (ha : L.actions[i]? = some a) (hi : i ≠ L.turn) :
    a.step.isDirective .goto = false := by
  rcases Nat.lt_or_gt_of_ne hi with hlt | hgt
  · rw [actions, List.getElem?_append_left hlt] at ha
    have hm := List.mem_of_getElem? ha
    rw [List.mem_append, List.mem_cons] at hm
    rcases hm with hm | rfl | hm
    · exact L.free a (by simp [hm])
    · rfl
    · exact L.free a (by simp [hm])
  · obtain ⟨j, rfl⟩ := Nat.exists_eq_add_of_le (Nat.succ_le_of_lt hgt)
    rw [actions_after] at ha
    exact L.free a (by simp [List.mem_of_getElem? ha])

end Loop

theorem Directive.order_congr {d : Directive} (h : d.keyword ≠ .goto) (tags tags' : TagIndex) :
    d.order tags = d.order tags' := by
  unfold order
  split <;> first | rfl | contradiction

theorem Directive.keyword_of_free {d : Directive} (h : (Step.obey d).isDirective .goto = false) :
    d.keyword ≠ .goto := by
  simpa [Step.isDirective, Step.directive?] using h

theorem Directive.order_of_free {d : Directive} {tags : TagIndex} {order : Order}
    (h : (Step.obey d).isDirective .goto = false) (ho : d.order tags = .ok order) (tag : Text)
    (target : Nat) (bound : Int) : order ≠ .repeatFrom tag target bound := by
  rintro rfl
  have hb := bound_of_order ho 0
  rw [Action.bound?, h] at hb
  cases hb

namespace Loop

variable {L : Loop} {u : Document} {s : Session} {t : Turn}

def straightHead (L : Loop) (h : Playhead) : Playhead :=
  ⟨h.cursor + h.jumps.get L.jumpLine * L.lap.length, h.tempo, h.rest, []⟩

def straight (L : Loop) (u : Document) (s : Session) : Session :=
  { s with document := u, head := L.straightHead s.head }

/-- The session plays the loop, and the document is the loop written out. -/
structure Plays (L : Loop) (u : Document) (s : Session) : Prop where
  looped : s.document.actions.toList = L.actions
  tag : s.document.tags.get? L.name = some L.before.length
  unrolled : u.actions.toList = L.unrolled
  pass : L.Pass s.head.cursor (s.head.jumps.get L.jumpLine)

theorem straightHead_next {h head : Playhead} (ht : head.tempo = h.tempo) (hr : head.rest = h.rest)
    (hc : head.cursor + head.jumps.get L.jumpLine * L.lap.length =
      h.cursor + h.jumps.get L.jumpLine * L.lap.length + 1) :
    L.straightHead head = { L.straightHead h with cursor := (L.straightHead h).cursor + 1 } := by
  simp only [straightHead, hc, ht, hr]

theorem follow_straight {h head : Playhead} {line : Nat} {order : Order} {notices : List Notice}
    (ho : ∀ tag target bound, order ≠ .repeatFrom tag target bound)
    (hn : h.follow line order = some (head, notices)) :
    (L.straightHead h).follow line order = some (L.straightHead head, notices) ∧
      head.cursor = h.cursor + 1 ∧ head.jumps = h.jumps := by
  cases order with
  | stop => cases hn
  | repeatFrom tag target bound => exact absurd rfl (ho tag target bound)
  | tempo bpm | rest beats | pass =>
      obtain ⟨rfl, rfl⟩ := Prod.mk.inj (Option.some.inj hn)
      exact ⟨by simp only [Playhead.follow, straightHead, Nat.add_right_comm], rfl, rfl⟩

theorem Plays.faces (h : L.Plays u s) {a : Action} (hf : s.Faces a) :
    s.head.cursor = L.turn ∧ a = L.jump ∧ (L.straight u s).Faces L.top ∨
      s.head.cursor ≠ L.turn ∧ a.step.isDirective .goto = false ∧ (L.straight u s).Faces a := by
  have ha := hf.action
  rw [← Array.getElem?_toList, h.looped] at ha
  by_cases hi : s.head.cursor = L.turn
  · have hu := L.unrolled_turn h.pass.le
    rw [hi, actions_turn] at ha
    rw [← hi, ← h.unrolled, Array.getElem?_toList] at hu
    exact .inl ⟨hi, (Option.some.inj ha).symm, hf.live, hf.free, hu⟩
  · have hu := unrolled_pass h.pass hi
    rw [ha, ← h.unrolled, Array.getElem?_toList] at hu
    exact .inr ⟨hi, free_of_ne_turn ha hi, hf.live, hf.free, hu⟩

theorem Plays.faces_chords (h : L.Plays u s) {line : Nat} {chords : List Chord}
    (hf : s.Faces ⟨line, .play chords⟩) :
    s.head.cursor ≠ L.turn ∧ (L.straight u s).Faces ⟨line, .play chords⟩ := by
  rcases h.faces hf with ⟨-, ha, -⟩ | ⟨hi, -, hf'⟩
  · cases ha
  · exact ⟨hi, hf'⟩

theorem Plays.order_jump (h : L.Plays u s) :
    Directive.order ⟨.goto, [L.name, L.bound]⟩ s.document.tags =
      .ok (.repeatFrom L.name L.before.length L.repeats) :=
  Directive.order_goto rfl rfl rfl h.tag L.reads

/-- Where the jump leads, back or on, the loop written out goes on as well. -/
theorem Plays.follow_jump (h : L.Plays u s) (hi : s.head.cursor = L.turn) {head : Playhead}
    {notices : List Notice}
    (hn : s.head.follow L.jumpLine (.repeatFrom L.name L.before.length L.repeats) =
      some (head, notices)) :
    L.Pass head.cursor (head.jumps.get L.jumpLine) ∧
      (L.straightHead s.head).follow L.tagLine .pass = some (L.straightHead head, []) := by
  have hturn := L.turn_eq
  have hlap := L.length_lap
  have hle := h.pass.le
  obtain ⟨_, _, hf, ht, hr, hj⟩ := s.head.follow_repeatFrom L.jumpLine L.name L.before.length
    (Int.ofNat_lt.mpr L.fits)
  cases hf.symm.trans hn
  rcases hj with ⟨hlt, hc, hj⟩ | ⟨hge, hc, hj⟩
  · have hk : head.jumps.get L.jumpLine = s.head.jumps.get L.jumpLine + 1 := by
      rw [hj, JumpCounts.get_set, if_pos rfl]
    rw [straightHead_next ht hr (by rw [hc, hk, hi, Nat.succ_mul]; omega), hc, hk]
    exact ⟨.again (Int.ofNat_lt.mp hlt), rfl⟩
  · have hk : head.jumps.get L.jumpLine = s.head.jumps.get L.jumpLine := by
      rw [hj, JumpCounts.get_set, if_pos rfl]
    have heq : s.head.jumps.get L.jumpLine = L.repeats := by omega
    rw [straightHead_next ht hr (by rw [hc, hk, Nat.add_right_comm]), hc, hk, hi, heq]
    exact ⟨.leave, rfl⟩

theorem Plays.congr (h : L.Plays u s) {s' : Session} (hd : s'.document = s.document)
    (hp : L.Pass s'.head.cursor (s'.head.jumps.get L.jumpLine)) : L.Plays u s' where
  looped := by rw [hd, h.looped]
  tag := by rw [hd, h.tag]
  unrolled := h.unrolled
  pass := hp

end Loop

open Effect (timeline)

namespace Session

variable {L : Loop} {u : Document} {s : Session} {t : Turn}

theorem timeline_notes (n : Notice) (notices : List Notice) :
    timeline (.noted n :: notices.map .noted) = [] := by
  simp [timeline, Effect.isHeard]

theorem Ticked.struck_at {line : Nat} {chords : List Chord} {head : Playhead}
    (hf : s.Faces ⟨line, .play chords⟩) (hr : s.head.rest = 0)
    (hs : (s.strikes chords).striking = .struck)
    (hh : head = { s.head with cursor := s.head.cursor + 1 }) :
    Ticked s ⟨.more, { s.running with stage := (s.strikes chords).stage, head },
      (s.strikes chords).done⟩ := by
  rw [hh]
  exact .struck hf hr hs

theorem Ticked.straight (h : Ticked s t) (hs : L.Plays u s) :
    L.Plays u t.session ∧ ∃ done, Ticked (L.straight u s) ⟨t.verdict, L.straight u t.session, done⟩ ∧
      timeline done = timeline t.done := by
  cases h with
  | past hp => exact ⟨hs, _, .past hp, rfl⟩
  | stopped hp hc => exact ⟨hs.congr rfl hs.pass, _, .stopped hp hc, rfl⟩
  | finished hp hc ha =>
      refine ⟨hs.congr rfl hs.pass, _, .finished hp hc ?_, rfl⟩
      -- Where the jump stands, the script is not over.
      have hi : s.head.cursor ≠ L.turn := by
        intro hi
        rw [← Array.getElem?_toList, hs.looped, hi, Loop.actions_turn] at ha
        cases ha
      have hu := Loop.unrolled_pass hs.pass hi
      rwa [← hs.looped, ← hs.unrolled, Array.getElem?_toList, Array.getElem?_toList, ha] at hu
  | rested hf hr hw =>
      refine ⟨hs.congr rfl hs.pass, ?_⟩
      rcases hs.faces hf with ⟨-, -, hf'⟩ | ⟨-, -, hf'⟩
      · exact ⟨_, .rested hf' hr hw, rfl⟩
      · exact ⟨_, .rested hf' hr hw, rfl⟩
  | overslept hf hr hw =>
      refine ⟨hs.congr rfl hs.pass, ?_⟩
      rcases hs.faces hf with ⟨-, -, hf'⟩ | ⟨-, -, hf'⟩
      · exact ⟨_, .overslept hf' hr hw, rfl⟩
      · exact ⟨_, .overslept hf' hr hw, rfl⟩
  | struck hf hr hq =>
      obtain ⟨hi, hf'⟩ := hs.faces_chords hf
      have hnext : L.straightHead { s.head with cursor := s.head.cursor + 1 } =
          { L.straightHead s.head with cursor := (L.straightHead s.head).cursor + 1 } :=
        Loop.straightHead_next rfl rfl (Nat.add_right_comm ..)
      exact ⟨hs.congr rfl (hs.pass.next hi), _, .struck_at hf' hr hq hnext, rfl⟩
  | interrupted hf hr hq =>
      obtain ⟨-, hf'⟩ := hs.faces_chords hf
      refine ⟨hs.congr rfl hs.pass, _, .interrupted hf' hr hq, ?_⟩
      rw [timeline_finish, Effect.timeline_append]
      exact List.append_nil _
  | panicked hf hr hq =>
      obtain ⟨-, hf'⟩ := hs.faces_chords hf
      exact ⟨hs.congr rfl hs.pass, _, .panicked hf' hr hq, rfl⟩
  | refused hf hr ho =>
      refine ⟨hs.congr rfl hs.pass, ?_⟩
      rcases hs.faces hf with ⟨-, ha, -⟩ | ⟨-, hg, hf'⟩
      · cases ha
        rw [hs.order_jump] at ho
        cases ho
      · rw [Directive.order_congr (Directive.keyword_of_free hg) _ u.tags] at ho
        exact ⟨_, .refused hf' hr ho, rfl⟩
  | halted hf hr ho hn =>
      refine ⟨hs.congr rfl hs.pass, ?_⟩
      rcases hs.faces hf with ⟨-, ha, -⟩ | ⟨-, hg, hf'⟩
      · cases ha
        rw [hs.order_jump] at ho
        cases ho
        cases Playhead.follow_eq_none.mp hn
      · rw [Directive.order_congr (Directive.keyword_of_free hg) _ u.tags] at ho
        exact ⟨_, .halted hf' hr ho (Playhead.follow_eq_none.mpr (Playhead.follow_eq_none.mp hn)), rfl⟩
  | @obeyed line d order head notices hf hr ho hn =>
      rcases hs.faces hf with ⟨hi, ha, hf'⟩ | ⟨hi, hg, hf'⟩
      · cases ha
        rw [hs.order_jump] at ho
        cases ho
        obtain ⟨hp, hn'⟩ := hs.follow_jump hi hn
        refine ⟨hs.congr rfl hp, _, .obeyed hf' hr rfl hn', ?_⟩
        rw [timeline_notes, timeline_notes]
      · have hk := Directive.keyword_of_free hg
        obtain ⟨hn', hc, hj⟩ := Loop.follow_straight (Directive.order_of_free hg ho) hn
        have hp := hs.pass.next hi
        rw [Directive.order_congr hk _ u.tags] at ho
        rw [← hc, ← hj] at hp
        exact ⟨hs.congr rfl hp, _, .obeyed hf' hr ho hn', rfl⟩

theorem straight_after (hs : L.Plays u s) (ms : List Move) :
    L.Plays u (s.after ms) ∧ (L.straight u s).after ms = L.straight u (s.after ms) ∧
      timeline ((L.straight u s).doneIn ms) = timeline (s.doneIn ms) := by
  induction ms generalizing s with
  | nil => exact ⟨hs, rfl, rfl⟩
  | cons m ms ih =>
      have hm : L.Plays u (s.move m).session ∧
          ((L.straight u s).move m).session = L.straight u (s.move m).session ∧
          timeline ((L.straight u s).move m).done = timeline (s.move m).done := by
        cases m with
        | cancel => exact ⟨hs.congr rfl hs.pass, rfl, rfl⟩
        | tick =>
            obtain ⟨hp, done, ht, hd⟩ := s.ticked.straight hs
            rw [move, move, ht.eq_tick]
            exact ⟨hp, rfl, hd⟩
      obtain ⟨hp, he, hd⟩ := hm
      obtain ⟨hp', he', hd'⟩ := ih hp
      refine ⟨hp', ?_, ?_⟩
      · rw [after, he, he']
        rfl
      · rw [doneIn, Effect.timeline_append, he, hd, hd', doneIn, Effect.timeline_append]

theorem straight_verdict (hs : L.Plays u s) : (L.straight u s).tick.verdict = s.tick.verdict := by
  obtain ⟨-, done, ht, -⟩ := s.ticked.straight hs
  rw [ht.eq_tick]

theorem straight_goesOn (hs : L.Plays u s) {n : Nat} (h : s.GoesOn n) :
    (L.straight u s).GoesOn n := by
  induction n generalizing s with
  | zero => trivial
  | succ n ih =>
      obtain ⟨hp, done, ht, -⟩ := s.ticked.straight hs
      refine ⟨(straight_verdict hs).trans h.1, ?_⟩
      rw [ht.eq_tick]
      exact ih hp h.2

theorem straight_runsFor (hs : L.Plays u s) {n : Nat} (h : s.RunsFor n) :
    (L.straight u s).RunsFor n := by
  obtain ⟨hp, he, -⟩ := straight_after hs (Move.ticks n)
  refine ⟨straight_goesOn hs h.1, ?_⟩
  rw [he, straight_verdict hp]
  exact h.2

theorem straight_start {d : Document} (config : Config) (sink : Sink) :
    L.straight u (start d config sink) = start u config sink := by
  simp [Loop.straight, Loop.straightHead, start, JumpCounts.get]

end Session

theorem Loop.boundsFit {L : Loop} {d : Document} (hd : d.actions.toList = L.actions) :
    d.BoundsFit := by
  intro a ha n hn
  rw [← Array.mem_toList_iff, hd] at ha
  obtain ⟨i, hi⟩ := List.getElem?_of_mem ha
  by_cases ht : i = L.turn
  · rw [ht, actions_turn] at hi
    cases hi
    obtain rfl : (L.repeats : Int) = n := Option.some.inj (L.reads.symm.trans hn)
    exact Int.ofNat_lt.mpr L.fits
  · rw [Action.bound?, free_of_ne_turn hi ht] at hn
    cases hn

namespace Session

/-- A loop and the loop written out are played alike, at every moment and from every moment to the
end: the same events and sleeps, the same tempo, and the same outcome or error. -/
theorem unrolled_alike (L : Loop) (d u : Document) (hd : d.actions.toList = L.actions)
    (ht : d.tags.get? L.name = some L.before.length) (hu : u.actions.toList = L.unrolled)
    (config : Config) (sink : Sink) :
    let s := start d config sink
    let v := start u config sink
    (∀ ms, timeline (v.doneIn ms) = timeline (s.doneIn ms) ∧
      (v.after ms).stage = (s.after ms).stage ∧ (v.after ms).phase = (s.after ms).phase ∧
      (v.after ms).head.tempo = (s.after ms).head.tempo) ∧
    ∀ ms, ∃ t w, (s.after ms).run = some t ∧ (v.after ms).run = some w ∧
      w.verdict = t.verdict ∧ Effect.events w.done = Effect.events t.done ∧
      Effect.sleeps w.done = Effect.sleeps t.done ∧ timeline w.done = timeline t.done ∧
      w.session.stage = t.session.stage ∧ w.session.head.tempo = t.session.head.tempo := by
  intro s v
  have hv : v = L.straight u s := (straight_start config sink).symm
  have hs : L.Plays u s := ⟨hd, ht, hu, ⟨Nat.zero_le _, fun _ => rfl, fun h => absurd h (Nat.not_lt_zero _)⟩⟩
  rw [hv]
  constructor
  · intro ms
    obtain ⟨-, he, hdone⟩ := straight_after hs ms
    rw [he]
    exact ⟨hdone, rfl, rfl, rfl⟩
  · intro ms
    obtain ⟨hp, he, -⟩ := straight_after hs ms
    have hb : (s.after ms).document.BoundsFit := Loop.boundsFit hp.looped
    obtain ⟨n, hn⟩ := (s.after ms).exists_runsFor hb
    obtain ⟨hpn, hen, -⟩ := straight_after hp (Move.ticks n)
    obtain ⟨-, hen', hdone⟩ := straight_after hp (Move.ticks (n + 1))
    rw [he]
    have hline : timeline (.noted (L.straight u (s.after ms)).started ::
        (L.straight u (s.after ms)).doneIn (Move.ticks (n + 1))) =
        timeline (.noted (s.after ms).started :: (s.after ms).doneIn (Move.ticks (n + 1))) := hdone
    refine ⟨_, _, run_of_runsFor hn, run_of_runsFor (straight_runsFor hp hn), ?_, ?_, ?_, hline, ?_, ?_⟩
    · rw [hen, straight_verdict hpn]
    · rw [← Effect.events_timeline, hline, Effect.events_timeline]
    · rw [← Effect.sleeps_timeline, hline, Effect.sleeps_timeline]
    · rw [hen']
      rfl
    · rw [hen']
      rfl

theorem unrolled_alike_tempo :
    let body : List Action := [⟨2, .play [.single 'a']⟩, .rest 2 3, ⟨3, .obey ⟨.bpm, [['9']]⟩⟩]
    let L : Loop := ⟨[⟨1, .play [.single 'z']⟩], body, [⟨5, .play [.single 'b']⟩], 1, 4, ['t'], ['2'],
      2, by decide, by decide, by decide⟩
    let d : Document := .ofActions L.actions.toArray
    let u : Document := .ofActions L.unrolled.toArray
    d.tags.get? L.name = some L.before.length ∧
      ∃ t w, (start d {} { cancelAt := some 5 }).run = some t ∧
        (start u {} { cancelAt := some 5 }).run = some w ∧ w.verdict = t.verdict ∧
        Effect.events w.done = Effect.events t.done ∧ w.session.head.tempo = t.session.head.tempo := by
  intro body L d u
  obtain ⟨t, w, ht, hw, hv, he, -, -, -, htempo⟩ :=
    (unrolled_alike L d u rfl rfl rfl {} { cancelAt := some 5 }).2 []
  exact ⟨rfl, t, w, ht, hw, hv, he, htempo⟩

end Session

end ChordScript
