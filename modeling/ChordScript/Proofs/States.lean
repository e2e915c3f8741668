import ChordScript.Proofs.Jumps
import ChordScript.Proofs.Tags
import ChordScript.Proofs.WellFormed

namespace ChordScript

namespace JumpCounts

theorem mem_set {counts : JumpCounts} {line count : Nat} {p : Nat × Nat}
    (h : p ∈ counts.set line count) : p = (line, count) ∨ p ∈ counts := by
  induction counts with
  | nil => exact .inl (List.mem_singleton.mp h)
  | cons q counts ih =>
      obtain ⟨l, n⟩ := q
      rw [set] at h
      split at h
      · exact List.mem_cons.mp h
      · split at h
        · rcases List.mem_cons.mp h with h | h
          · exact .inl h
          · exact .inr (List.mem_cons_of_mem _ h)
        · rcases List.mem_cons.mp h with h | h
          · exact .inr (h ▸ List.mem_cons_self)
          · exact (ih h).imp_right (List.mem_cons_of_mem _)

def Ordered (counts : JumpCounts) : Prop := counts.Pairwise fun p q => p.1 < q.1

theorem Ordered.set {counts : JumpCounts} (h : counts.Ordered) (line count : Nat) :
    (counts.set line count).Ordered := by
  induction counts with
  | nil => exact List.pairwise_singleton ..
  | cons q counts ih =>
      obtain ⟨l, n⟩ := q
      obtain ⟨hq, ho⟩ := List.pairwise_cons.mp h
      rw [JumpCounts.set]
      split
      · next hlt =>
          refine List.pairwise_cons.mpr ⟨List.forall_mem_cons.mpr ⟨hlt, fun p hp => ?_⟩, h⟩
          exact Nat.lt_trans hlt (hq p hp)
      · next hge =>
          split
          · next he => exact List.pairwise_cons.mpr ⟨fun p hp => he ▸ hq p hp, ho⟩
          · next hne =>
              refine List.pairwise_cons.mpr ⟨fun p hp => ?_, ih ho⟩
              rcases mem_set hp with rfl | hp
              · exact Nat.lt_of_le_of_ne (Nat.le_of_not_lt hge) (Ne.symm hne)
              · exact hq p hp

theorem mem_of_get_ne_zero {counts : JumpCounts} {line : Nat} (h : counts.get line ≠ 0) :
    (line, counts.get line) ∈ counts := by
  unfold get at h ⊢
  cases hl : counts.lookup line with
  | none => simp [hl] at h
  | some n =>
      obtain ⟨before, after, he, -⟩ := List.lookup_eq_some_iff.mp hl
      rw [he]
      exact List.mem_append_right _ List.mem_cons_self

end JumpCounts

theorem Action.isDirective_of_bound {a : Action} {n : Int} (h : a.bound? = some n) :
    a.step.isDirective .goto = true := by
  unfold bound? at h
  split at h
  · next hg => exact hg
  · cases h

namespace Document

/-- Tags lead to actions of the document, and no line has two jumps. -/
structure Orderly (doc : Document) : Prop where
  tags : ∀ name i, doc.tags.get? name = some i → i < doc.actions.size
  gotos : ∀ (i j : Nat) (a b : Action), doc.actions[i]? = some a → doc.actions[j]? = some b →
    a.step.isDirective .goto → b.step.isDirective .goto → a.line = b.line → i = j

structure SoleJump (doc : Document) (i line : Nat) (bound : Int) : Prop where
  action : ∃ a tag target, doc.actions[i]? = some a ∧ a.line = line ∧ a.bound? = some bound ∧
    a.arg? 0 = some tag ∧ doc.tags.get? tag = some target
  sole : ∀ (j : Nat) (b : Action), doc.actions[j]? = some b → b.step.isDirective .goto →
    b.line = line → j = i

variable {doc : Document} {i line : Nat} {bound : Int}

theorem SoleJump.bound_eq (h : doc.SoleJump i line bound) {j : Nat} {bound' : Int}
    (h' : doc.SoleJump j line bound') : bound = bound' := by
  obtain ⟨a, -, -, ha, hl, hb, -⟩ := h.action
  obtain ⟨b, -, -, hb', hl', hbound, -⟩ := h'.action
  obtain rfl := h'.sole i a ha (Action.isDirective_of_bound hb) hl
  cases ha.symm.trans hb'
  exact Option.some.inj (hb.symm.trans hbound)

end Document

namespace Playhead

/-- What holds of the playhead at every moment at which the document is played. -/
structure Consistent (h : Playhead) (doc : Document) : Prop where
  cursor : h.cursor ≤ doc.actions.size
  tempo : 1 ≤ h.tempo ∧ h.tempo < UInt32.size
  rest : 0 < h.rest → ∃ i a n, h.cursor = i + 1 ∧ doc.actions[i]? = some a ∧
    a.step.isDirective .wait ∧ (a.arg? 0).bind Text.integer? = some n ∧ h.rest ≤ n
  counters : h.jumps.Ordered
  jumps : ∀ p ∈ h.jumps, ∃ i bound, doc.SoleJump i p.1 bound ∧ p.2 ≤ bound.toNat

variable {h head : Playhead} {doc : Document} {line : Nat} {d : Directive} {order : Order}
  {notices : List Notice}

theorem Consistent.get_le (hc : h.Consistent doc) {i : Nat} {bound : Int}
    (hj : doc.SoleJump i line bound) : h.jumps.get line ≤ bound.toNat := by
  by_cases hz : h.jumps.get line = 0
  · omega
  · obtain ⟨j, bound', hj', hle⟩ := hc.jumps _ (JumpCounts.mem_of_get_ne_zero hz)
    rwa [hj.bound_eq hj']

theorem Consistent.next (hc : h.Consistent doc) (hlt : h.cursor < doc.actions.size)
    (hr : h.rest = 0) {tempo : Nat} (ht : 1 ≤ tempo ∧ tempo < UInt32.size) :
    Consistent { h with tempo, cursor := h.cursor + 1 } doc where
  cursor := hlt
  tempo := ht
  rest hpos := absurd hr (Nat.ne_of_gt hpos)
  counters := hc.counters
  jumps := hc.jumps

theorem Consistent.count (hc : h.Consistent doc) (hr : h.rest = 0) {i cursor count : Nat}
    {bound : Int} (hj : doc.SoleJump i line bound) (hle : count ≤ bound.toNat)
    (hcur : cursor ≤ doc.actions.size) :
    Consistent { h with cursor, jumps := h.jumps.set line count } doc where
  cursor := hcur
  tempo := hc.tempo
  rest hpos := absurd hr (Nat.ne_of_gt hpos)
  counters := hc.counters.set line count
  jumps p hp := by
    rcases JumpCounts.mem_set hp with rfl | hp
    · exact ⟨i, bound, hj, hle⟩
    · exact hc.jumps p hp

theorem Consistent.follow (hc : h.Consistent doc) (hd : doc.Orderly)
    (ha : doc.actions[h.cursor]? = some ⟨line, .obey d⟩) (hr : h.rest = 0)
    (ho : d.order doc.tags = .ok order) (hn : h.follow line order = some (head, notices)) :
    head.Consistent doc := by
  have hlt : h.cursor < doc.actions.size := (Array.getElem?_eq_some_iff.mp ha).1
  cases Directive.order_eq_ok.mp ho with
  | tempo hk hm hrange =>
      obtain ⟨rfl, -⟩ := Prod.mk.inj (Option.some.inj hn)
      exact hc.next hlt hr (by omega)
  | @rest n hk hm =>
      obtain ⟨rfl, -⟩ := Prod.mk.inj (Option.some.inj hn)
      refine { hc.next hlt hr hc.tempo with rest := fun hpos => ?_ }
      refine ⟨h.cursor, _, n, rfl, ha, ?_, ?_, ?_⟩
      · simp [Step.isDirective, Step.directive?, hk]
      · exact Directive.integerArg_eq_ok.mp hm
      · simp only at hpos ⊢
        omega
  | stop => cases hn
  | pass =>
      obtain ⟨rfl, -⟩ := Prod.mk.inj (Option.some.inj hn)
      exact hc.next hlt hr hc.tempo
  | @jump name target bound hk hname hbound htag =>
      have hj : doc.SoleJump h.cursor line bound := by
        refine ⟨⟨_, name, target, ha, rfl, Directive.bound_of_order ho line, ?_, htag⟩, ?_⟩
        · exact Directive.arg_eq_ok.mp hname
        · intro j b hb hg hl
          exact hd.gotos j h.cursor b _ hb ha hg (by simp [Step.isDirective, Step.directive?, hk]) hl
      have hle := hc.get_le hj
      unfold Playhead.follow at hn
      dsimp only at hn
      split at hn
      · next hlt' =>
          obtain ⟨rfl, -⟩ := Prod.mk.inj (Option.some.inj hn)
          -- A counter that starts again from 0 is below the bound as well.
          have hmod := Nat.mod_le (h.jumps.get line + 1) UInt32.size
          exact hc.count hr hj (by omega) (Nat.le_of_lt (hd.tags name target htag))
      · obtain ⟨rfl, -⟩ := Prod.mk.inj (Option.some.inj hn)
        exact hc.count hr hj hle hlt

end Playhead

namespace Session

variable {s : Session} {t : Turn}

theorem Ticked.consistent (h : Ticked s t) (hd : s.document.Orderly)
    (hc : s.head.Consistent s.document) : t.session.head.Consistent s.document := by
  cases h with
  | past | stopped | finished | interrupted | panicked | refused | halted => exact hc
  | rested hf hr | overslept hf hr =>
      refine { hc with rest := fun hpos => ?_ }
      obtain ⟨i, a, n, hi, ha, hk, hn, hle⟩ := hc.rest hr
      refine ⟨i, a, n, hi, ha, hk, hn, Int.le_trans (Int.ofNat_le.mpr ?_) hle⟩
      exact Nat.sub_le ..
  | struck hf hr hs =>
      exact hc.next (Array.getElem?_eq_some_iff.mp hf.action).1 hr hc.tempo
  | obeyed hf hr ho hn => exact hc.follow hd hf.action hr ho hn

theorem consistent_after (hd : s.document.Orderly) (hc : s.head.Consistent s.document)
    (ms : List Move) : (s.after ms).head.Consistent s.document := by
  induction ms generalizing s with
  | nil => exact hc
  | cons m ms ih =>
      cases m with
      | tick =>
          have hdoc := s.ticked.frame.1
          have ht := s.ticked.consistent hd hc
          rw [← hdoc] at hd ht ⊢
          exact ih hd ht
      | cancel => exact ih (s := s.cancel) hd hc

theorem consistent_start (document : Document) (config : Config) (sink : Sink) :
    (start document config sink).head.Consistent document where
  cursor := Nat.zero_le _
  tempo := ⟨Nat.le_max_right .., Nat.max_lt.mpr ⟨config.initialBpm.toNat_lt, by decide⟩⟩
  rest hpos := absurd hpos (Nat.lt_irrefl 0)
  counters := .nil
  jumps := nofun

end Session

theorem Script.orderly_of_compile {source : Text} {s : Script} (h : compile source = .ok s) :
    s.document.Orderly where
  tags name i ht := by
    obtain ⟨d, -, rfl⟩ := reads_of_compile h
    obtain ⟨a, args, ha, -⟩ := Document.action_of_tag ht
    exact (Array.getElem?_eq_some_iff.mp ha).1
  gotos _ _ _ _ ha hb hg _ := alone_of_goto h ha hb hg

theorem Playhead.Consistent.beat {h : Playhead} {doc : Document} (hc : h.Consistent doc) :
    beatInterval h.tempo = 60000 / h.tempo ∧ beatInterval h.tempo ≤ 60000 := by
  rw [beatInterval, Nat.max_eq_left hc.tempo.1]
  exact ⟨rfl, Nat.div_le_self ..⟩

namespace Session

/-- The playhead of a script that is played is consistent with the script at every moment, also
after a cancellation and after a panic of the sink, and its tempo makes a beat of a minute at most. -/
theorem states_consistent (source : Text) (script : Script) (h : Script.compile source = .ok script)
    (config : Config) (sink : Sink) :
    let s := start script.document config sink
    (∀ ms, (s.after ms).document = script.document ∧ (s.after ms).head.Consistent script.document ∧
      (s.after ms).beat = 60000 / (s.after ms).head.tempo ∧ (s.after ms).beat ≤ 60000) ∧
    ∀ cs ts, s.history cs = some ts → (s.last ts).head.Consistent script.document := by
  intro s
  have hc (ms : List Move) : (s.after ms).head.Consistent script.document :=
    consistent_after (s := s) (Script.orderly_of_compile h) (consistent_start _ config sink) ms
  refine ⟨fun ms => ⟨(frame_after s ms).1, hc ms, (hc ms).beat⟩, fun cs ts hts => ?_⟩
  obtain ⟨ms, hms⟩ := history_comesTo hts
  rw [hms.last]
  exact hc ms

theorem states_consistent_loop :
    let source : Text := ",TAG t\na\n,GOTO t 2\n,WAIT 3".toList
    ∃ script, Script.compile source = .ok script ∧
      let s := start script.document {} { panicAt := some 1 }
      (s.after [.tick]).tick.verdict = .panicked .sink ∧
        (s.after (Move.ticks 11)).head = ⟨4, 120, 3, [(3, 2)]⟩ ∧
        (s.after (Move.ticks 11)).head.Consistent script.document := by
  intro source
  have h : Script.compile source = .ok _ := rfl
  refine ⟨_, h, rfl, rfl, ?_⟩
  exact ((states_consistent source _ h {} { panicAt := some 1 }).1 (Move.ticks 11)).2.1

end Session

end ChordScript
