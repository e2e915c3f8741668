import Mathlib.Order.Monotone.Basic
import ChordScript.Proofs.Lockstep

namespace ChordScript

variable {f : Nat → Nat}

section Definitions

variable (f : Nat → Nat)

def Action.renumber (a : Action) : Action := { a with line := f a.line }

def TagPlace.renumber (p : TagPlace) : TagPlace := { p with line := f p.line }

def Document.renumber (d : Document) : Document := { d with actions := d.actions.map (·.renumber f) }

def CompileError.renumber (e : CompileError) : CompileError := { e with line := f e.line }

def RuntimeError.renumber (e : RuntimeError) : RuntimeError := { e with line := f e.line }

def Ending.renumber : Ending → Ending
  | played outcome => .played outcome
  | failed e => .failed (e.renumber f)

def Phase.renumber : Phase → Phase
  | idle => .idle
  | running => .running
  | ended e => .ended (e.renumber f)

def Verdict.renumber : Verdict → Verdict
  | more => .more
  | ended e => .ended (e.renumber f)
  | panicked cause => .panicked cause

def Notice.renumber : Notice → Notice
  | stopReached line => .stopReached (f line)
  | tagRepeated place previous => .tagRepeated (place.renumber f) previous
  | obeying line d => .obeying (f line) d
  | failed e => .failed (e.renumber f)
  | closed e => .closed (e.renumber f)
  | refused e => .refused (e.renumber f)
  | n => n

def Effect.renumber : Effect → Effect
  | noted n => .noted (n.renumber f)
  | e => e

def JumpCounts.renumber (counts : JumpCounts) : JumpCounts := counts.map (Prod.map f id)

def Playhead.renumber (h : Playhead) : Playhead := { h with jumps := h.jumps.renumber f }

def Session.renumber (s : Session) : Session :=
  { s with
    document := s.document.renumber f
    head := s.head.renumber f
    phase := s.phase.renumber f }

def Turn.renumber (t : Turn) : Turn :=
  ⟨t.verdict.renumber f, t.session.renumber f, t.done.map (·.renumber f)⟩

end Definitions

namespace JumpCounts

theorem get_renumber (hf : Function.Injective f) (counts : JumpCounts) (line : Nat) :
    (counts.renumber f).get (f line) = counts.get line := by
  rw [get, get, renumber]
  congr 1
  induction counts with
  | nil => rfl
  | cons p counts ih =>
      obtain ⟨l, n⟩ := p
      by_cases h : line = l
      · simp [h]
      · simpa [List.lookup_cons, beq_false_of_ne h, beq_false_of_ne (hf.ne h)] using ih

theorem set_renumber (hf : StrictMono f) (counts : JumpCounts) (line count : Nat) :
    (counts.renumber f).set (f line) count = renumber f (counts.set line count) := by
  induction counts with
  | nil => rfl
  | cons p counts ih =>
      obtain ⟨l, n⟩ := p
      rw [renumber] at ih ⊢
      simp only [List.map_cons, Prod.map, set, hf.lt_iff_lt, hf.injective.eq_iff, ih]
      split
      · rfl
      · split <;> rfl

end JumpCounts

namespace Effect

theorem renumber_of_ofStage {e : Effect} (h : e.ofStage = true) : e.renumber f = e := by
  unfold ofStage at h
  split at h
  · rfl
  · rfl
  · rfl
  · cases h

theorem map_renumber_of_ofStage {done : List Effect} (h : done.all ofStage = true) :
    done.map (·.renumber f) = done :=
  (List.map_congr_left fun e he => renumber_of_ofStage (List.all_eq_true.mp h e he)).trans
    (List.map_id done)

theorem timeline_renumber (f : Nat → Nat) (done : List Effect) :
    timeline (done.map (·.renumber f)) = timeline done := by
  induction done with
  | nil => rfl
  | cons e done ih =>
      cases e with
      | noted => exact ih
      | sent | slept => exact congrArg (_ :: ·) ih

end Effect

theorem Playhead.follow_renumber (hf : StrictMono f) (h : Playhead) (line : Nat) (order : Order) :
    (h.renumber f).follow (f line) order =
      (h.follow line order).map (Prod.map (·.renumber f) (·.map (·.renumber f))) := by
  cases order with
  | stop | tempo | rest | pass => rfl
  | repeatFrom tag target bound =>
      have hget := JumpCounts.get_renumber hf.injective h.jumps line
      have hset (count : Nat) := JumpCounts.set_renumber hf h.jumps line count
      simp only [follow, renumber, hget, hset]
      split <;> rfl

theorem Phase.ending?_renumber (p : Phase) :
    (p.renumber f).ending? = p.ending?.map (·.renumber f) := by
  cases p <;> rfl

theorem Document.actions_renumber (d : Document) (i : Nat) :
    (d.renumber f).actions[i]? = d.actions[i]?.map (·.renumber f) := Array.getElem?_map

namespace Session

variable {s : Session} {t : Turn}

theorem Faces.renumber {a : Action} (h : s.Faces a) (f : Nat → Nat) :
    (s.renumber f).Faces (a.renumber f) where
  live := (Phase.ending?_renumber s.phase).trans (congrArg _ h.live)
  free := h.free
  action := (s.document.actions_renumber s.head.cursor).trans (congrArg _ h.action)

theorem finish_renumber (s : Session) (e : Ending) (done : List Effect) :
    (s.renumber f).finish (e.renumber f) (done.map (·.renumber f)) = (s.finish e done).renumber f := by
  cases e <;> simp [finish, Ending.renumber, Turn.renumber, Verdict.renumber, Effect.renumber,
    Notice.renumber, Session.renumber, Phase.renumber, Playhead.renumber]

theorem strikes_renumber (s : Session) (chords : List Chord) :
    (s.strikes chords).done.map (·.renumber f) = (s.strikes chords).done :=
  Effect.map_renumber_of_ofStage ((heeding_ofStage _).strikeAll ..)

theorem Ticked.renumber (hf : StrictMono f) (h : Ticked s t) :
    Ticked (s.renumber f) (t.renumber f) := by
  have hending (hp : s.phase.ending? = none) : (s.renumber f).phase.ending? = none :=
    (Phase.ending?_renumber s.phase).trans (congrArg _ hp)
  cases h with
  | past hp => exact .past (congrArg (Phase.renumber f) hp)
  | stopped hp hc =>
      rw [← finish_renumber]
      exact .stopped (hending hp) hc
  | finished hp hc ha =>
      rw [← finish_renumber]
      exact .finished (hending hp) hc ((s.document.actions_renumber _).trans (congrArg _ ha))
  | rested hf hr hw =>
      have hd : s.pause.done.map (·.renumber f) = s.pause.done :=
        Effect.map_renumber_of_ofStage ((heeding_ofStage {}).waitBeat s.stage s.stage.now s.beat)
      rw [Turn.renumber, hd]
      exact .rested (hf.renumber f) hr hw
  | overslept hf hr hw => exact .overslept (hf.renumber f) hr hw
  | struck hf hr hs =>
      rw [Turn.renumber, strikes_renumber]
      exact .struck (hf.renumber f) hr hs
  | interrupted hf hr hs =>
      rw [← finish_renumber, strikes_renumber]
      exact .interrupted (hf.renumber f) hr hs
  | panicked hf hr hs =>
      rw [Turn.renumber, strikes_renumber]
      exact .panicked (hf.renumber f) hr hs
  | refused hf hr ho =>
      rw [← finish_renumber]
      exact .refused (hf.renumber f) hr ho
  | halted hf' hr ho hn =>
      rw [← finish_renumber]
      refine .halted (hf'.renumber f) hr ho ?_
      exact (s.head.follow_renumber hf _ _).trans (congrArg _ hn)
  | @obeyed line d order head notices hf' hr ho hn =>
      have hd : (notices.map Effect.noted).map (·.renumber f) =
          (notices.map (·.renumber f)).map .noted := by
        rw [List.map_map, List.map_map]
        rfl
      rw [Turn.renumber, List.map_cons, hd]
      refine .obeyed (hf'.renumber f) hr ho ?_
      exact (s.head.follow_renumber hf _ _).trans (congrArg _ hn)

def renumberPairing (f : Nat → Nat) : Pairing where
  session s u := u = s.renumber f
  verdict v w := w = v.renumber f
  done xs ys := ys = xs.map (·.renumber f)

theorem renumberPairing_turns {t u : Turn} (h : (renumberPairing f).Turns t u) : u = t.renumber f := by
  obtain ⟨verdict, session, done⟩ := u
  rw [Turn.renumber, ← h.verdict, ← h.session, ← h.done]

theorem renumber_lockstep (hf : StrictMono f) : (renumberPairing f).Lockstep where
  tick {s u} h _ _ := by
    rw [show u = s.renumber f from h, (s.ticked.renumber hf).eq_tick]
    exact ⟨rfl, rfl, rfl⟩
  cancel {s u} h := by
    rw [show u = s.renumber f from h]
    rfl
  more := rfl
  more_iff {v w} h := by
    rw [show w = v.renumber f from h]
    cases v <;> simp [Verdict.renumber]
  abort_iff {v w} h := by
    rw [show w = v.renumber f from h]
    cases v <;> simp [Verdict.renumber]
  not_lost := id
  nil := rfl
  append {xs ys xs' ys'} h h' := by
    rw [show ys = xs.map (·.renumber f) from h, show ys' = xs'.map (·.renumber f) from h']
    exact List.map_append.symm
  started {s u} h := by
    rw [show u = s.renumber f from h]
    simp [renumberPairing, started, Session.renumber, Document.renumber, Playhead.renumber,
      Effect.renumber, Notice.renumber]

/-- Under other numbers everything that is done with a session goes the same way. -/
theorem history_renumber (hf : StrictMono f) (s : Session) (cs : List Control) :
    (s.renumber f).history cs = (s.history cs).map (List.map (Turn.renumber f)) :=
  (renumber_lockstep hf).history_eq_map (fun _ _ => renumberPairing_turns) rfl
    (avoidsAll_false s cs) (avoidsAll_false _ cs)

end Session

namespace TagPlace

theorem all_renumber (f : Nat → Nat) (actions : List Action) :
    all (actions.map (·.renumber f)) = (all actions).map (·.renumber f) := by
  have hplace (a : Action) (i : Nat) :
      ofAction? (a.renumber f) i = (ofAction? a i).map (·.renumber f) := by
    unfold ofAction? Action.renumber
    dsimp only
    split <;> rfl
  rw [all, all, List.zipIdx_map, List.filterMap_map, List.map_filterMap]
  exact congrArg (List.filterMap · actions.zipIdx) (funext fun p => hplace p.1 p.2)

end TagPlace

theorem Document.ofActions_renumber (f : Nat → Nat) (actions : Array Action) :
    ofActions (actions.map (·.renumber f)) = (ofActions actions).renumber f := by
  rw [ofActions, Array.toList_map, TagPlace.all_renumber, TagIndex.ofPlaces, List.foldl_map]
  rfl

/-- The number of a line after another one has been put in below the first so many. -/
def pushDown (k n : Nat) : Nat := if n ≤ k then n else n + 1

theorem pushDown_of_le {k n : Nat} (h : n ≤ k) : pushDown k n = n := if_pos h

theorem pushDown_of_lt {k n : Nat} (h : k < n) : pushDown k n = n + 1 := if_neg (Nat.not_le_of_lt h)

theorem pushDown_strictMono (k : Nat) : StrictMono (pushDown k) := by
  intro m n h
  unfold pushDown
  split <;> split <;> omega

end ChordScript
