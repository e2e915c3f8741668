import Mathlib.Algebra.BigOperators.Group.Finset.Basic
import Mathlib.Data.List.MinMax
import ChordScript.Proofs.Sounds

namespace ChordScript

def Action.bound? (a : Action) : Option Int :=
  if a.step.isDirective .goto then (a.arg? 1).bind Text.integer? else none

namespace Document

def jumpLines (d : Document) : Finset Nat :=
  ((d.actions.toList.filter (·.step.isDirective .goto)).map Action.line).toFinset

def bounds (d : Document) (line : Nat) : List Int :=
  (d.actions.toList.filter (·.line = line)).filterMap Action.bound?

def jumpBound (d : Document) (line : Nat) : Nat := ((d.bounds line).map Int.toNat).foldr max 0

variable {d : Document} {a : Action} {n : Int}

theorem mem_jumpLines (ha : a ∈ d.actions) (hn : a.bound? = some n) : a.line ∈ d.jumpLines := by
  unfold Action.bound? at hn
  split at hn
  · next hg =>
      have hf : a ∈ d.actions.toList.filter (·.step.isDirective .goto) :=
        List.mem_filter.mpr ⟨Array.mem_toList_iff.mpr ha, hg⟩
      rw [jumpLines, List.mem_toFinset]
      exact List.mem_map_of_mem hf
  · cases hn

theorem le_jumpBound (ha : a ∈ d.actions) (hn : a.bound? = some n) :
    n.toNat ≤ d.jumpBound a.line := by
  have hf : a ∈ d.actions.toList.filter (·.line = a.line) :=
    List.mem_filter.mpr ⟨Array.mem_toList_iff.mpr ha, by simp⟩
  have hm : n ∈ d.bounds a.line := List.mem_filterMap.mpr ⟨a, hf, hn⟩
  apply List.le_max_of_le' 0 _ le_rfl
  exact List.mem_map_of_mem hm

end Document

namespace JumpCounts

theorem lookup_set (counts : JumpCounts) (line count l : Nat) :
    (counts.set line count).lookup l = if l = line then some count else counts.lookup l := by
  have hcons (m n : Nat) (counts : JumpCounts) :
      List.lookup l ((m, n) :: counts) = if l = m then some n else counts.lookup l := by
    by_cases h : l = m <;> simp [List.lookup_cons, h, beq_false_of_ne]
  induction counts with
  | nil => exact hcons ..
  | cons p counts ih =>
      obtain ⟨m, n⟩ := p
      rw [set]
      split
      · exact hcons ..
      · split
        · next hm =>
            rw [hcons, hcons, hm]
            split <;> rfl
        · next hm =>
            rw [hcons, hcons, ih]
            by_cases hl : l = m
            · rw [if_pos hl, if_pos hl, if_neg (hl ▸ Ne.symm hm)]
            · rw [if_neg hl, if_neg hl]

theorem get_set (counts : JumpCounts) (line count l : Nat) :
    (counts.set line count).get l = if l = line then count else counts.get l := by
  rw [get, lookup_set]
  split <;> rfl

end JumpCounts

theorem Directive.bound_of_order {d : Directive} {tags : TagIndex} {tag : Text} {target : Nat}
    {bound : Int} (h : d.order tags = .ok (.repeatFrom tag target bound)) (line : Nat) :
    Action.bound? ⟨line, .obey d⟩ = some bound := by
  cases order_eq_ok.mp h with
  | jump hk hname hbound htag =>
      simpa [Action.bound?, Step.isDirective, Step.directive?, Action.arg?, hk] using
        integerArg_eq_ok.mp hbound

namespace Playhead

/-- An order either moves the head on by one and leaves the jumps as they are, or it is a jump that
its bound allows. -/
theorem follow_eq_some {h head : Playhead} {line : Nat} {order : Order} {notices : List Notice}
    (hn : h.follow line order = some (head, notices)) :
    (notices = [] ∧ head.cursor = h.cursor + 1 ∧ ∀ l, head.jumps.get l = h.jumps.get l) ∨
      ∃ tag target bound, order = .repeatFrom tag target bound ∧ h.jumps.get line < bound ∧
        notices = [.jumping tag ((h.jumps.get line + 1) % UInt32.size) bound] ∧
        head.jumps = h.jumps.set line ((h.jumps.get line + 1) % UInt32.size) := by
  cases order with
  | stop => cases hn
  | tempo bpm | rest beats | pass =>
      obtain ⟨rfl, rfl⟩ := Prod.mk.inj (Option.some.inj hn)
      exact .inl ⟨rfl, rfl, fun _ => rfl⟩
  | repeatFrom tag target bound =>
      unfold follow at hn
      dsimp only at hn
      split at hn
      · next hlt =>
          obtain ⟨rfl, rfl⟩ := Prod.mk.inj (Option.some.inj hn)
          exact .inr ⟨tag, target, bound, rfl, hlt, rfl, rfl⟩
      · obtain ⟨rfl, rfl⟩ := Prod.mk.inj (Option.some.inj hn)
        refine .inl ⟨rfl, rfl, fun l => ?_⟩
        rw [JumpCounts.get_set]
        split
        · next hl => rw [hl]
        · rfl

theorem follow_jump (h : Playhead) (line : Nat) (tag : Text) (target : Nat) (bound : Int) :
    ∃ head notices, h.follow line (.repeatFrom tag target bound) = some (head, notices) ∧
      head.tempo = h.tempo ∧ head.rest = h.rest ∧
      (h.jumps.get line < bound ∧ head.cursor = target ∧
          head.jumps = h.jumps.set line ((h.jumps.get line + 1) % UInt32.size) ∨
        bound ≤ h.jumps.get line ∧ head.cursor = h.cursor + 1 ∧
          head.jumps = h.jumps.set line (h.jumps.get line)) := by
  unfold follow
  dsimp only
  split
  · next hlt => exact ⟨_, _, rfl, rfl, rfl, .inl ⟨hlt, rfl, rfl⟩⟩
  · next hge => exact ⟨_, _, rfl, rfl, rfl, .inr ⟨Int.not_lt.mp hge, rfl, rfl⟩⟩

theorem follow_repeatFrom (h : Playhead) (line : Nat) (tag : Text) (target : Nat) {bound : Int}
    (hb : bound < UInt32.size) :
    ∃ head notices, h.follow line (.repeatFrom tag target bound) = some (head, notices) ∧
      head.tempo = h.tempo ∧ head.rest = h.rest ∧
      (h.jumps.get line < bound ∧ head.cursor = target ∧
          head.jumps = h.jumps.set line (h.jumps.get line + 1) ∨
        bound ≤ h.jumps.get line ∧ head.cursor = h.cursor + 1 ∧
          head.jumps = h.jumps.set line (h.jumps.get line)) := by
  obtain ⟨head, notices, hn, htempo, hrest, ⟨hlt, hcursor, hset⟩ | hpassed⟩ :=
    h.follow_jump line tag target bound
  · rw [Nat.mod_eq_of_lt (by omega)] at hset
    exact ⟨head, notices, hn, htempo, hrest, .inl ⟨hlt, hcursor, hset⟩⟩
  · exact ⟨head, notices, hn, htempo, hrest, .inr hpassed⟩

theorem follow_eq_none {h : Playhead} {line : Nat} {order : Order} :
    h.follow line order = none ↔ order = .stop := by
  cases order with
  | repeatFrom tag target bound =>
      simp only [follow]
      split <;> simp
  | stop | tempo | rest | pass => simp [follow]

end Playhead

namespace Effect

def isJump : Effect → Bool
  | noted (.jumping _ _ _) => true
  | _ => false

def jumps (done : List Effect) : Nat := done.countP isJump

@[simp] theorem jumps_append (xs ys : List Effect) : jumps (xs ++ ys) = jumps xs + jumps ys :=
  List.countP_append

theorem jumps_of_ofStage {done : List Effect} (h : done.all ofStage = true) : jumps done = 0 := by
  refine countP_of_ofStage h fun x hj => ?_
  unfold isJump at hj
  split at hj
  · rfl
  · cases hj

end Effect

open Effect (jumps)

def Document.BoundsFit (d : Document) : Prop :=
  ∀ a ∈ d.actions, ∀ n ∈ a.bound?, n < UInt32.size

namespace Session

variable {s : Session} {t : Turn}

/-- The jumps that are left, on each line those that its bound still allows. -/
def left (s : Session) : Nat :=
  ∑ line ∈ s.document.jumpLines, (s.document.jumpBound line - s.head.jumps.get line)

theorem left_congr {s' : Session} (hd : s'.document = s.document)
    (hj : ∀ l, s'.head.jumps.get l = s.head.jumps.get l) : s'.left = s.left := by
  simp only [left, hd, hj]

theorem left_jump {a : Action} {bound : Int} {jumps : JumpCounts} (hb : s.document.BoundsFit)
    (ha : a ∈ s.document.actions) (hn : a.bound? = some bound)
    (hlt : s.head.jumps.get a.line < bound)
    (hj : jumps = s.head.jumps.set a.line ((s.head.jumps.get a.line + 1) % UInt32.size)) :
    (∑ line ∈ s.document.jumpLines, (s.document.jumpBound line - jumps.get line)) + 1 = s.left := by
  have hfit := hb a ha bound hn
  have hmod : (s.head.jumps.get a.line + 1) % UInt32.size = s.head.jumps.get a.line + 1 :=
    Nat.mod_eq_of_lt (by omega)
  have hle := Document.le_jumpBound ha hn
  have hmem := Document.mem_jumpLines ha hn
  have hother : ∀ l ∈ s.document.jumpLines.erase a.line,
      s.document.jumpBound l - jumps.get l = s.document.jumpBound l - s.head.jumps.get l := by
    intro l hl
    rw [hj, JumpCounts.get_set, if_neg (Finset.ne_of_mem_erase hl)]
  rw [left, ← Finset.add_sum_erase _ _ hmem, ← Finset.add_sum_erase _ _ hmem,
    Finset.sum_congr rfl hother, hj, JumpCounts.get_set, if_pos rfl, hmod]
  omega

theorem Ticked.jumps_left (h : Ticked s t) (hb : s.document.BoundsFit) :
    jumps t.done + t.session.left = s.left := by
  cases h with
  | past | stopped | finished | overslept | refused | halted => exact Nat.zero_add _
  | rested =>
      change jumps (s.stage.waitBeat s.stage.now s.beat).done + s.left = s.left
      rw [Effect.jumps_of_ofStage ((heeding_ofStage {}).waitBeat ..), Nat.zero_add]
  | struck | panicked =>
      change jumps (s.strikes _).done + s.left = s.left
      rw [strikes, Effect.jumps_of_ofStage ((heeding_ofStage _).strikeAll ..), Nat.zero_add]
  | interrupted =>
      change jumps ((s.strikes _).done ++ [.noted _]) + s.left = s.left
      rw [Effect.jumps_append, strikes, Effect.jumps_of_ofStage ((heeding_ofStage _).strikeAll ..)]
      exact Nat.zero_add _
  | @obeyed line d order head notices hf hr ho hn =>
      rcases Playhead.follow_eq_some hn with ⟨rfl, -, hj⟩ | ⟨tag, target, bound, rfl, hlt, rfl, hj⟩
      · exact (Nat.zero_add _).trans (left_congr rfl hj)
      · have hl := left_jump hb (Array.mem_of_getElem? hf.action) (Directive.bound_of_order ho line)
          hlt hj
        exact (Nat.add_comm ..).trans hl

/-- A tick after which there is more to do takes a jump, or moves on, or sits out a beat. -/
theorem Ticked.descends (h : Ticked s t) (hb : s.document.BoundsFit) (hv : t.verdict = .more) :
    t.session.left < s.left ∨ t.session.left = s.left ∧
      (s.head.cursor < s.document.actions.size ∧ t.session.head.cursor = s.head.cursor + 1 ∨
        t.session.head.cursor = s.head.cursor ∧ t.session.head.rest < s.head.rest) := by
  have hin {a : Action} (hf : s.Faces a) : s.head.cursor < s.document.actions.size :=
    (Array.getElem?_eq_some_iff.mp hf.action).1
  have hl := h.jumps_left hb
  cases h with
  | rested hf hr => exact .inr ⟨rfl, .inr ⟨rfl, Nat.sub_one_lt_of_lt hr⟩⟩
  | struck hf => exact .inr ⟨rfl, .inl ⟨hin hf, rfl⟩⟩
  | obeyed hf hr ho hn =>
      rcases Playhead.follow_eq_some hn with ⟨rfl, hc, hj⟩ | ⟨tag, target, bound, rfl, -, rfl, -⟩
      · exact .inr ⟨left_congr rfl hj, .inl ⟨hin hf, hc⟩⟩
      · exact .inl (Nat.lt_of_lt_of_eq (Nat.lt_add_of_pos_left Nat.one_pos) hl)
  | past | stopped | finished | overslept | interrupted | panicked | refused | halted => cases hv

theorem exists_runsFor (s : Session) (hb : s.document.BoundsFit) : ∃ n, s.RunsFor n := by
  by_cases hv : s.tick.verdict = .more
  · obtain ⟨n, hg, hn⟩ := exists_runsFor s.tick.session (by rw [s.ticked.frame.1]; exact hb)
    exact ⟨n + 1, ⟨hv, hg⟩, hn⟩
  · exact ⟨0, trivial, hv⟩
termination_by (s.left, s.document.actions.size - s.head.cursor, s.head.rest)
decreasing_by
  have hd := s.ticked.descends hb hv
  rw [s.ticked.frame.1]
  simp only [Prod.lex_def]
  omega

theorem jumps_doneIn (hb : s.document.BoundsFit) (ms : List Move) :
    jumps (s.doneIn ms) + (s.after ms).left = s.left := by
  induction ms generalizing s with
  | nil => exact Nat.zero_add _
  | cons m ms ih =>
      rw [doneIn, Effect.jumps_append, after]
      cases m with
      | tick =>
          have hb' : s.tick.session.document.BoundsFit := by rw [s.ticked.frame.1]; exact hb
          rw [← s.ticked.jumps_left hb, ← ih hb', Nat.add_assoc]
          rfl
      | cancel => exact (congrArg (· + _) (Nat.zero_add _)).trans (ih (s := s.cancel) hb)

theorem left_start (document : Document) (config : Config) (sink : Sink) :
    (start document config sink).left = ∑ line ∈ document.jumpLines, document.jumpBound line :=
  rfl

theorem ended_of_run (hp : s.sink.panicAt = none) (ht : 1 ≤ s.head.tempo) (h : s.run = some t) :
    ∃ n, t.session = s.after (Move.ticks (n + 1)) ∧
      jumps t.done = jumps (s.doneIn (Move.ticks (n + 1))) ∧
      let u := s.after (Move.ticks n)
      (∃ ending, t.verdict = .ended ending) ∨
        (∃ cause, t.verdict = .panicked cause) ∧ timeLimit ≤ u.stage.now + u.lasts := by
  obtain ⟨n, hn, rfl⟩ := runsFor_of_run h
  refine ⟨n, rfl, rfl, ?_⟩
  cases hv : (s.after (Move.ticks n)).tick.verdict with
  | more => exact absurd hv hn.2
  | ended ending => exact .inl ⟨ending, rfl⟩
  | panicked cause =>
      refine .inr ⟨⟨cause, rfl⟩, Nat.le_of_not_lt fun hlt => ?_⟩
      have hfits := (s.after (Move.ticks n)).ticked.fits (by rw [(frame_after ..).2.1, hp]; rfl)
        (tempo_pos_after ht _) hlt
      rw [hv] at hfits
      cases hfits

theorem exists_run (hb : s.document.BoundsFit) : ∃ t, s.run = some t := by
  obtain ⟨n, hn⟩ := s.exists_runsFor hb
  exact ⟨_, run_of_runsFor hn⟩

/-- Playback always ends, unless there is a panic because the clock has come to its end. Either way it
takes no more jumps than the bounds of all lines allow together. -/
theorem run_ends (document : Document) (config : Config) (sink : Sink)
    (hp : sink.panicAt = none) (hb : ∀ a ∈ document.actions, ∀ n ∈ a.bound?, n < UInt32.size) :
    let s := start document config sink
    (∀ ms, ∃ n t, (s.after ms).run = some t ∧
      t.session = (s.after ms).after (Move.ticks (n + 1)) ∧
      jumps (s.doneIn ms ++ t.done) ≤ ∑ line ∈ document.jumpLines, document.jumpBound line ∧
      let u := (s.after ms).after (Move.ticks n)
      (∃ ending, t.verdict = .ended ending) ∨
        (∃ cause, t.verdict = .panicked cause) ∧ timeLimit ≤ u.stage.now + u.lasts) ∧
    ∀ cs ts, s.history cs = some ts →
      jumps (ts.flatMap Turn.done) ≤ ∑ line ∈ document.jumpLines, document.jumpBound line := by
  intro s
  have hle (ms : List Move) :
      jumps (s.doneIn ms) ≤ ∑ line ∈ document.jumpLines, document.jumpBound line := by
    rw [← left_start document config sink, ← jumps_doneIn (s := s) hb ms]
    exact Nat.le_add_right ..
  constructor
  · intro ms
    obtain ⟨hd, hs, -⟩ := frame_after s ms
    have ht : 1 ≤ (s.after ms).head.tempo := tempo_pos_after (s := s) (Nat.le_max_right ..) ms
    obtain ⟨t, hr⟩ := exists_run (s := s.after ms) (by rw [hd]; exact hb)
    obtain ⟨n, hsession, hj, hv⟩ := ended_of_run (by rw [hs]; exact hp) ht hr
    refine ⟨n, t, hr, hsession, ?_, hv⟩
    rw [Effect.jumps_append, hj, ← Effect.jumps_append, ← doneIn_append]
    exact hle _
  · intro cs ts hts
    obtain ⟨-, ms, -, hf, -⟩ := history_moves hts Effect.isJump (fun _ _ => rfl)
    rw [jumps, List.countP_eq_length_filter, hf, ← List.countP_eq_length_filter]
    exact hle ms

theorem run_ends_loop :
    let d : Document := ⟨#[⟨1, .play [.single 'a']⟩, ⟨2, .obey ⟨.goto, [['x'], ['2']]⟩⟩],
      ⟨[(['x'], 0)]⟩⟩
    let s := start d {} {}
    (∀ a ∈ d.actions, ∀ n ∈ a.bound?, n < UInt32.size) ∧
      ∃ t, s.run = some t ∧ t.verdict = .ended (.played .finished) ∧ jumps t.done ≤ 2 := by
  intro d s
  have hb : ∀ a ∈ d.actions, ∀ n ∈ a.bound?, n < UInt32.size := by decide
  obtain ⟨-, t, hrun, -, hj, -⟩ := (run_ends d {} {} rfl hb).1 []
  have hsix : s.RunsFor 6 := by decide
  have hend : (s.after (Move.ticks 6)).tick.verdict = .ended (.played .finished) := by decide
  obtain rfl := Option.some.inj (hrun.symm.trans (run_of_runsFor hsix))
  exact ⟨hb, _, hrun, hend, hj⟩

/-- Notes that are held as long as can be. -/
theorem run_overruns :
    let s := start (.ofActions #[⟨1, .play (List.replicate 1001 (.single 'a'))⟩])
      { keyHoldMs := 18446744073709551615 } {}
    ∃ t, s.run = some t ∧ t.verdict = .panicked .clock := by
  intro s
  exact run_of_panicked (tick_overruns (s := s) ⟨rfl, rfl, rfl⟩ rfl rfl rfl rfl (by decide)).1

end Session

end ChordScript
