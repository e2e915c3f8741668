import ChordScript.Proofs.States

namespace ChordScript

namespace JumpCounts

def total : JumpCounts → Nat
  | [] => 0
  | (_, n) :: counts => n + total counts

structure Counting (counts : JumpCounts) : Prop where
  ordered : counts.Ordered
  below : ∀ line, counts.get line < UInt32.size

theorem get_cons (l n : Nat) (counts : JumpCounts) (line : Nat) :
    get ((l, n) :: counts) line = if line = l then n else counts.get line := by
  by_cases h : line = l <;> simp [get, List.lookup_cons, h, beq_false_of_ne]

theorem get_eq_zero {counts : JumpCounts} {line : Nat} (h : ∀ p ∈ counts, line < p.1) :
    counts.get line = 0 := by
  induction counts with
  | nil => rfl
  | cons p counts ih =>
      obtain ⟨l, n⟩ := p
      obtain ⟨hlt, hcounts⟩ := List.forall_mem_cons.mp h
      rw [get_cons, if_neg (Nat.ne_of_lt hlt), ih hcounts]

theorem Ordered.total_set {counts : JumpCounts} (h : counts.Ordered) (line count : Nat) :
    (counts.set line count).total + counts.get line = counts.total + count := by
  induction counts with
  | nil => exact Nat.add_comm ..
  | cons p counts ih =>
      obtain ⟨l, n⟩ := p
      obtain ⟨hl, hcounts⟩ := List.pairwise_cons.mp h
      rw [JumpCounts.set, get_cons]
      split
      · next hlt =>
          have hzero : JumpCounts.get counts line = 0 := get_eq_zero fun p hp => hlt.trans (hl p hp)
          rw [if_neg (Nat.ne_of_lt hlt), hzero]
          simp only [total]
          omega
      · split
        · simp only [total]
          omega
        · have hset := ih hcounts
          simp only [total]
          omega

theorem Counting.set {counts : JumpCounts} (h : counts.Counting) (line : Nat) {count : Nat}
    (hc : count < UInt32.size) : (counts.set line count).Counting where
  ordered := h.ordered.set line count
  below l := by
    rw [get_set]
    split
    · exact hc
    · exact h.below l

end JumpCounts

namespace Notice

def typed? : Notice → Option KeyEvent
  | typed e => some e
  | _ => none

def obeyed? : Notice → Option (Nat × Directive)
  | obeying line d => some (line, d)
  | _ => none

def isJump : Notice → Bool
  | jumping _ _ _ => true
  | _ => false

/-- A jump whose counter was full, and starts again from 0. -/
def restarts : Notice → Bool
  | jumping _ repeats _ => repeats = 0
  | _ => false

def isMeanwhile : Notice → Bool
  | sending _ | typed _ | obeying _ _ | jumping _ _ _ => true
  | _ => false

end Notice

open Notice (typed? obeyed? isJump restarts isMeanwhile)

def Paired (ns : List Notice) : Prop :=
  ∀ before e after, ns = before ++ .typed e :: after → ∃ earlier, before = earlier ++ [.sending e]

theorem paired_of_typed {ns : List Notice} (h : ns.filterMap typed? = []) : Paired ns := by
  rintro before e after rfl
  simp [typed?] at h

theorem Paired.append {xs ys : List Notice} (hx : Paired xs) (hy : Paired ys) :
    Paired (xs ++ ys) := by
  intro before e after h
  rcases append_eq_mid h with ⟨mid, hmid, -⟩ | ⟨mid, rfl, hmid⟩
  · exact hx before e mid hmid
  · obtain ⟨earlier, rfl⟩ := hy mid e after hmid
    exact ⟨xs ++ earlier, (List.append_assoc ..).symm⟩

theorem paired_sending (e : KeyEvent) : Paired [.sending e, .typed e] := by
  intro before e' after h
  rcases List.cons_eq_append_iff.mp h with ⟨-, he⟩ | ⟨mid, rfl, hmid⟩
  · cases he
  · rcases List.cons_eq_append_iff.mp hmid with ⟨rfl, he⟩ | ⟨rest, -, hrest⟩
    · obtain ⟨he, -⟩ := List.cons.inj he
      exact ⟨[], by rw [Notice.typed.inj he]; rfl⟩
    · simp at hrest

/-- The notices account for the events typed and the directives obeyed, and for what has become of
the counters. A counter that starts again from 0 has forgotten as many jumps as 32 bits can
count. -/
structure Account (doc : Document) (counts counts' : JumpCounts) (es : List KeyEvent)
    (ds : List (Nat × Directive)) (ns : List Notice) : Prop where
  keys : ns.filterMap typed? = es
  paired : Paired ns
  directives : ns.filterMap obeyed? = ds
  jumps : ns.countP isJump + counts.total = counts'.total + UInt32.size * ns.countP restarts
  fits : doc.BoundsFit → ns.countP restarts = 0
  meanwhile : ∀ n ∈ ns, n.isMeanwhile = true

namespace Account

variable {doc : Document} {counts counts' counts'' : JumpCounts} {es es' : List KeyEvent}
  {ds ds' : List (Nat × Directive)} {ns ns' : List Notice}

theorem trans (h : Account doc counts counts' es ds ns)
    (h' : Account doc counts' counts'' es' ds' ns') :
    Account doc counts counts'' (es ++ es') (ds ++ ds') (ns ++ ns') where
  keys := by rw [List.filterMap_append, h.keys, h'.keys]
  paired := h.paired.append h'.paired
  directives := by rw [List.filterMap_append, h.directives, h'.directives]
  jumps := by
    have hj := h.jumps
    have hj' := h'.jumps
    rw [List.countP_append, List.countP_append, Nat.mul_add]
    omega
  fits hfit := by rw [List.countP_append, h.fits hfit, h'.fits hfit]
  meanwhile := List.forall_mem_append.mpr ⟨h.meanwhile, h'.meanwhile⟩

theorem nil (h : counts'.total = counts.total) : Account doc counts counts' [] [] [] :=
  ⟨rfl, paired_of_typed rfl, rfl, by simp [h], fun _ => rfl, by simp⟩

theorem directive (line : Nat) (d : Directive) :
    Account doc counts counts [] [(line, d)] [.obeying line d] :=
  ⟨rfl, paired_of_typed rfl, rfl, Nat.zero_add _, fun _ => rfl, by simp [isMeanwhile]⟩

theorem jump (hc : counts.Counting) (line : Nat) (tag : Text) {bound : Int}
    (hlt : counts.get line < bound) (hfit : doc.BoundsFit → bound < UInt32.size) :
    Account doc counts (counts.set line ((counts.get line + 1) % UInt32.size)) [] []
      [.jumping tag ((counts.get line + 1) % UInt32.size) bound] := by
  have hbelow := hc.below line
  have htotal := hc.ordered.total_set line ((counts.get line + 1) % UInt32.size)
  refine ⟨rfl, paired_of_typed rfl, rfl, ?_, fun hb => ?_, by simp [isMeanwhile]⟩
  · rcases Nat.lt_or_eq_of_le (Nat.succ_le_of_lt hbelow) with hless | hfull
    · rw [Nat.mod_eq_of_lt hless] at htotal ⊢
      rw [List.countP_cons_of_pos rfl, List.countP_cons_of_neg (by simp [restarts])]
      simp only [List.countP_nil]
      omega
    · rw [Nat.succ_eq_add_one] at hfull
      rw [hfull, Nat.mod_self] at htotal ⊢
      rw [List.countP_cons_of_pos rfl, List.countP_cons_of_pos rfl]
      simp only [List.countP_nil]
      omega
  · have hb := hfit hb
    rw [Nat.mod_eq_of_lt (by omega)]
    simp [restarts]

end Account

namespace Effect

theorem notices_append (xs ys : List Effect) : notices (xs ++ ys) = notices xs ++ notices ys :=
  List.filterMap_append

theorem notices_map_noted (ns : List Notice) : notices (ns.map .noted) = ns := by
  induction ns with
  | nil => rfl
  | cons n ns ih => exact congrArg (n :: ·) ih

theorem paired_taking (sink : Sink) (e : KeyEvent) : Paired (notices (sink.taking e)) := by
  unfold Sink.taking
  split <;> exact paired_sending e

variable {done : List Effect}

theorem typed_of_ofStage (h : done.all ofStage = true) :
    (notices done).filterMap typed? = events done := by
  rw [notices, List.filterMap_filterMap]
  refine List.filterMap_congr fun x hx => ?_
  have ho := List.all_eq_true.mp h x hx
  unfold ofStage at ho
  split at ho
  · rfl
  · rfl
  · rfl
  · cases ho

theorem notice_of_ofStage (h : done.all ofStage = true) {n : Notice} (hn : n ∈ notices done) :
    n.obeyed? = none ∧ n.isJump = false ∧ n.restarts = false ∧ n.isMeanwhile = true := by
  obtain ⟨x, hx, hn⟩ := List.mem_filterMap.mp hn
  have ho := List.all_eq_true.mp h x hx
  unfold ofStage at ho
  split at ho
  · obtain rfl := Option.some.inj hn
    exact ⟨rfl, rfl, rfl, rfl⟩
  · cases hn
  · obtain rfl := Option.some.inj hn
    exact ⟨rfl, rfl, rfl, rfl⟩
  · cases ho

end Effect

theorem heeding_paired (sink : Sink) : Heeding sink fun done => Paired (Effect.notices done) where
  nil := paired_of_typed rfl
  append hx hy := by
    rw [Effect.notices_append]
    exact hx.append hy
  heed cue s := by
    rw [Cue.done_heed]
    cases cue with
    | wait ms => split <;> exact paired_of_typed rfl
    | send e =>
        split
        · exact Effect.paired_taking sink e
        · exact paired_of_typed rfl

theorem Account.events {doc : Document} {counts : JumpCounts} {done : List Effect}
    (hdone : done.all Effect.ofStage = true) (hpaired : Paired (Effect.notices done)) :
    Account doc counts counts (Effect.events done) [] (Effect.notices done) where
  keys := Effect.typed_of_ofStage hdone
  paired := hpaired
  directives := List.filterMap_eq_nil_iff.mpr fun n hn => (Effect.notice_of_ofStage hdone hn).1
  jumps := by
    have hj : (Effect.notices done).countP isJump = 0 :=
      List.countP_eq_zero.mpr fun n hn => by simp [(Effect.notice_of_ofStage hdone hn).2.1]
    have hr : (Effect.notices done).countP restarts = 0 :=
      List.countP_eq_zero.mpr fun n hn => by simp [(Effect.notice_of_ofStage hdone hn).2.2.1]
    rw [hj, hr, Nat.mul_zero, Nat.zero_add, Nat.add_zero]
  fits _ := List.countP_eq_zero.mpr fun n hn => by
    simp [(Effect.notice_of_ofStage hdone hn).2.2.1]
  meanwhile _ hn := (Effect.notice_of_ofStage hdone hn).2.2.2

namespace Playhead

variable {h head : Playhead} {doc : Document} {line : Nat} {order : Order} {notices : List Notice}

theorem follow_account (hn : h.follow line order = some (head, notices)) (hc : h.jumps.Counting)
    (hfit : ∀ tag target bound, order = .repeatFrom tag target bound → doc.BoundsFit →
      bound < UInt32.size) :
    Account doc h.jumps head.jumps [] [] notices ∧ head.jumps.Counting := by
  cases order with
  | stop => cases hn
  | tempo | rest | pass =>
      obtain ⟨rfl, rfl⟩ := Prod.mk.inj (Option.some.inj hn)
      exact ⟨.nil rfl, hc⟩
  | repeatFrom tag target bound =>
      unfold follow at hn
      dsimp only at hn
      split at hn
      · next hlt =>
          obtain ⟨rfl, rfl⟩ := Prod.mk.inj (Option.some.inj hn)
          exact ⟨.jump hc line tag hlt (hfit tag target bound rfl),
            hc.set line (Nat.mod_lt _ (by decide))⟩
      · obtain ⟨rfl, rfl⟩ := Prod.mk.inj (Option.some.inj hn)
        have htotal := hc.ordered.total_set line (h.jumps.get line)
        exact ⟨.nil (Nat.add_right_cancel htotal), hc.set line (hc.below line)⟩

end Playhead

def Ending.notice (cursor : Nat) : Ending → Notice
  | played outcome => .ended outcome cursor
  | failed error => .failed error

def Turn.closing (t : Turn) : List Notice :=
  match t.verdict with
  | .ended ending => [ending.notice t.session.head.cursor]
  | _ => []

namespace Session

variable {s : Session} {t : Turn} {ending : Ending} {done : List Effect}

/-- The directive that the next tick carries out, with its line. -/
def obeyed (s : Session) : List (Nat × Directive) :=
  match s.phase.ending?, s.stage.cancelled, s.document.actions[s.head.cursor]?, s.head.rest with
  | none, false, some ⟨line, .obey d⟩, 0 => [(line, d)]
  | _, _, _, _ => []

def obeyedIn (s : Session) : Nat → List (Nat × Directive)
  | 0 => []
  | n + 1 => s.obeyed ++ s.tick.session.obeyedIn n

theorem obeyedIn_succ (s : Session) (n : Nat) :
    s.obeyedIn (n + 1) = s.obeyedIn n ++ (s.after (Move.ticks n)).obeyed := by
  induction n generalizing s with
  | zero => exact List.append_nil _
  | succ n ih =>
      rw [obeyedIn, ih, obeyedIn, List.append_assoc]
      rfl

theorem obeyed_eq {line : Nat} {d : Directive} (hf : s.Faces ⟨line, .obey d⟩)
    (hr : s.head.rest = 0) : s.obeyed = [(line, d)] := by
  simp [obeyed, hf.live, hf.free, hf.action, hr]

theorem notices_finish (s : Session) (ending : Ending) (done : List Effect) :
    Effect.notices (s.finish ending done).done =
      Effect.notices done ++ (s.finish ending done).closing := by
  unfold finish
  rw [Effect.notices_append]
  cases ending <;> rfl

theorem account_strikes (s : Session) (chords : List Chord) (doc : Document) (counts : JumpCounts) :
    Account doc counts counts (Effect.events (s.strikes chords).done) []
      (Effect.notices (s.strikes chords).done) :=
  .events ((heeding_ofStage s.sink).strikeAll chords s.stage)
    ((heeding_paired s.sink).strikeAll chords s.stage)

theorem Ticked.live (h : Ticked s t) (hv : t.verdict = .more) :
    t.session.phase.ending? = none := by
  cases hp : t.session.phase with
  | idle | running => rfl
  | ended e => cases hv.symm.trans ((h.ending e).mpr hp)

theorem Ticked.account (h : Ticked s t) (hlive : s.phase.ending? = none)
    (hc : s.head.jumps.Counting) :
    ∃ ns, Effect.notices t.done = ns ++ t.closing ∧
      Account s.document s.head.jumps t.session.head.jumps (Effect.events t.done) s.obeyed ns ∧
      t.session.head.jumps.Counting := by
  cases h with
  | past he => simp [he, Phase.ending?] at hlive
  | stopped hl hcan =>
      have hnone : s.obeyed = [] := by simp [Session.obeyed, hcan]
      rw [notices_finish, events_finish, hnone]
      exact ⟨[], rfl, .nil rfl, hc⟩
  | finished hl hcan ha =>
      have hnone : s.obeyed = [] := by simp [Session.obeyed, ha]
      rw [notices_finish, events_finish, hnone]
      exact ⟨[], rfl, .nil rfl, hc⟩
  | rested hf hr hw =>
      obtain ⟨n, hn⟩ := Nat.exists_eq_add_of_lt hr
      have hnone : s.obeyed = [] := by simp [Session.obeyed, hn]
      have haccount : Account s.document s.head.jumps s.head.jumps (Effect.events s.pause.done) []
          (Effect.notices s.pause.done) :=
        .events ((heeding_ofStage s.sink).waitBeat s.stage s.stage.now s.beat)
          ((heeding_paired s.sink).waitBeat s.stage s.stage.now s.beat)
      rw [hnone]
      exact ⟨_, (List.append_nil _).symm, haccount, hc⟩
  | overslept hf hr hw =>
      obtain ⟨n, hn⟩ := Nat.exists_eq_add_of_lt hr
      have hnone : s.obeyed = [] := by simp [Session.obeyed, hn]
      rw [hnone]
      exact ⟨[], rfl, .nil rfl, hc⟩
  | struck hf hr hs | panicked hf hr hs =>
      have hnone : s.obeyed = [] := by simp [Session.obeyed, hf.action]
      rw [hnone]
      exact ⟨_, (List.append_nil _).symm, s.account_strikes .., hc⟩
  | interrupted hf hr hs =>
      have hnone : s.obeyed = [] := by simp [Session.obeyed, hf.action]
      rw [notices_finish, events_finish, hnone]
      exact ⟨_, rfl, s.account_strikes .., hc⟩
  | refused hf hr ho =>
      rw [notices_finish, events_finish, obeyed_eq hf hr]
      exact ⟨_, rfl, .directive .., hc⟩
  | halted hf hr ho hn =>
      rw [notices_finish, events_finish, obeyed_eq hf hr]
      exact ⟨_, rfl, .directive .., hc⟩
  | @obeyed line d order head notices hf hr ho hn =>
      -- A bound of the document is one of this order.
      have hfit (tag target bound) (he : order = .repeatFrom tag target bound)
          (hb : s.document.BoundsFit) : bound < UInt32.size :=
        hb _ (Array.mem_of_getElem? hf.action) bound (Directive.bound_of_order (he ▸ ho) line)
      obtain ⟨haccount, hcounting⟩ := Playhead.follow_account hn hc hfit
      rw [obeyed_eq hf hr]
      refine ⟨.obeying line d :: notices, ?_, ?_, hcounting⟩
      · exact congrArg (_ :: ·) ((Effect.notices_map_noted notices).trans (List.append_nil _).symm)
      · rw [Effect.events_noted, Effect.events_map_noted]
        exact (Account.directive line d).trans haccount

theorem GoesOn.account {n : Nat} (h : s.GoesOn n) (hlive : s.phase.ending? = none)
    (hc : s.head.jumps.Counting) :
    Account s.document s.head.jumps (s.after (Move.ticks n)).head.jumps
        (Effect.events (s.doneIn (Move.ticks n))) (s.obeyedIn n)
        (Effect.notices (s.doneIn (Move.ticks n))) ∧
      (s.after (Move.ticks n)).phase.ending? = none ∧
      (s.after (Move.ticks n)).head.jumps.Counting := by
  induction n generalizing s with
  | zero => exact ⟨.nil rfl, hlive, hc⟩
  | succ n ih =>
      obtain ⟨hmore, hrest⟩ := h
      obtain ⟨ns, hns, haccount, hcounting⟩ := s.ticked.account hlive hc
      have hclosing : s.tick.closing = [] := by rw [Turn.closing, hmore]
      obtain ⟨haccount', hfinal⟩ := ih hrest (s.ticked.live hmore) hcounting
      rw [hclosing, List.append_nil] at hns
      rw [s.ticked.frame.1] at haccount'
      refine ⟨?_, hfinal⟩
      have hboth := haccount.trans haccount'
      rwa [← hns, ← Effect.notices_append, ← Effect.events_append] at hboth

/-- A run notes its start, then all that it does, and then its end if it comes to it. -/
theorem run_account (hlive : s.phase.ending? = none) (hc : s.head.jumps.Counting)
    (h : s.run = some t) :
    ∃ n ns, t.session = s.after (Move.ticks n) ∧
      Effect.notices t.done = s.started :: ns ++ t.closing ∧
      Account s.document s.head.jumps t.session.head.jumps (Effect.events t.done) (s.obeyedIn n)
        ns := by
  obtain ⟨n, ⟨hgoes, -⟩, rfl⟩ := runsFor_of_run h
  obtain ⟨haccount, hlive', hcounting⟩ := hgoes.account hlive hc
  obtain ⟨ns, hns, hlast, -⟩ := (s.after (Move.ticks n)).ticked.account hlive' hcounting
  rw [(frame_after s (Move.ticks n)).1] at hlast
  refine ⟨n + 1, Effect.notices (s.doneIn (Move.ticks n)) ++ ns, rfl, ?_, ?_⟩
  · rw [doneIn_ticks_succ, after_ticks_succ]
    change s.started :: Effect.notices (s.doneIn (Move.ticks n) ++ _) = _
    rw [Effect.notices_append, hns, ← List.append_assoc]
    rfl
  · have hboth := haccount.trans hlast
    rwa [← Effect.events_append, ← doneIn_ticks_succ, ← after_ticks_succ, ← obeyedIn_succ] at hboth

end Session

end ChordScript
