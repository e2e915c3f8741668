import ChordScript.Playback.Session

namespace ChordScript

namespace Session

def ticksAfter (done : Array Effect) : Nat → Session → Turn
  | 0, s => ⟨.more, s, done.toList⟩
  | n + 1, s =>
    let t := s.tick
    let done := done ++ t.done
    match t.verdict with
    | .more => ticksAfter done n t.session
    | v => ⟨v, t.session, done.toList⟩

def ticks (n : Nat) (s : Session) : Turn := s.ticksAfter #[] n

/-- What some ticks in a row have come to. -/
structure Progress (s : Session) where
  verdict : Verdict
  session : Session
  done : Array Effect
  reached : ∃ n, s.ticks n = ⟨verdict, session, done.toList⟩

theorem ticksAfter_succ {s u : Session} {done rest : Array Effect} {n : Nat}
    (h : s.ticksAfter done n = ⟨.more, u, rest.toList⟩) :
    s.ticksAfter done (n + 1) =
      ⟨u.tick.verdict, u.tick.session, (rest ++ u.tick.done).toList⟩ := by
  induction n generalizing s done with
  | zero =>
      obtain ⟨-, rfl, hd⟩ := Turn.mk.inj h
      obtain rfl := Array.toList_inj.mp hd
      cases hv : s.tick.verdict <;> simp only [ticksAfter, hv]
  | succ n ih =>
      rw [ticksAfter] at h ⊢
      cases hv : s.tick.verdict with
      | more =>
          simp only [hv] at h ⊢
          exact ih h
      | ended | panicked => simp [hv] at h

namespace Progress

variable {s : Session}

def outset (s : Session) : Progress s := ⟨.more, s, #[], 0, rfl⟩

instance : Nonempty (Progress s) := ⟨outset s⟩

def next (p : Progress s) (h : p.verdict = .more) : Progress s :=
  let t := p.session.tick
  ⟨t.verdict, t.session, p.done ++ t.done, by
    obtain ⟨n, hn⟩ := p.reached
    rw [h] at hn
    exact ⟨n + 1, ticksAfter_succ hn⟩⟩

def toEnd : Progress s → Progress s :=
  repeatM (m := Id) fun p => if h : p.verdict = .more then .inl (p.next h) else .inr p

end Progress

def started (s : Session) : Notice := .started s.document.actions.size s.head.tempo

/-- Ticks until the session has ended, or has panicked; none if it goes on for ever. -/
def run (s : Session) : Option Turn :=
  let p := (Progress.outset s).toEnd
  match p.verdict with
  | .more => none
  | v => some ⟨v, p.session, .noted s.started :: p.done.toList⟩

end Session

inductive Control
  | tick (n : Nat)
  | run
  | cancel
deriving DecidableEq

/-- There is nobody to answer after the end of the program. -/
def Turn.answer? (t : Turn) : Option Turn := if t.verdict = .panicked .abort then none else some t

namespace Session

def control (s : Session) : Control → Option Turn
  | .tick n => (s.ticks n).answer?
  | .run => s.run >>= Turn.answer?
  | .cancel => some ⟨.more, s.cancel, []⟩

def history (s : Session) : List Control → Option (List Turn)
  | [] => some []
  | c :: cs => do
    let t ← s.control c
    let ts ← t.session.history cs
    return t :: ts

end Session

end ChordScript
