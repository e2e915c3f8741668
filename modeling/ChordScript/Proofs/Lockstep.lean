import Mathlib.Data.List.Forall2
import ChordScript.Proofs.Moves

namespace ChordScript

theorem rel_bind {α β γ δ : Type} {r : α → β → Prop} {r' : γ → δ → Prop} {x : Option α}
    {y : Option β} {f : α → Option γ} {g : β → Option δ} (h : Option.Rel r x y)
    (hf : ∀ a b, x = some a → y = some b → r a b → Option.Rel r' (f a) (g b)) :
    Option.Rel r' (x >>= f) (y >>= g) := by
  cases h with
  | none => exact .none
  | some h => exact hf _ _ rfl rfl h

theorem rel_imp {α β : Type} {r r' : α → β → Prop} {x : Option α} {y : Option β}
    (h : Option.Rel r x y) (hr : ∀ a b, r a b → r' a b) : Option.Rel r' x y := by
  cases h with
  | none => exact .none
  | some h => exact .some (hr _ _ h)

theorem rel_map_left {α β γ : Type} {r : γ → β → Prop} {f : α → γ} {x : Option α} {y : Option β}
    (h : Option.Rel (fun a b => r (f a) b) x y) : Option.Rel r (x.map f) y := by
  cases h with
  | none => exact .none
  | some h => exact .some h

theorem eq_map_of_rel {α β : Type} {f : α → β} {x : Option α} {y : Option β}
    (h : Option.Rel (fun a b => b = f a) x y) : y = x.map f := by
  cases h with
  | none => rfl
  | some h => rw [h, Option.map_some]

open Session

/-- What it takes for two sessions, for what they say, and for what they do to be paired. At a
verdict that is lost a session is not paired with another any more. -/
structure Pairing where
  session : Session → Session → Prop
  verdict : Verdict → Verdict → Prop
  done : List Effect → List Effect → Prop
  lost : Verdict → Prop := fun _ => False

namespace Session

variable (p : Verdict → Prop)

/-- A control that does not end with one of the given verdicts. -/
def Avoids (s : Session) : Control → Prop
  | .tick n => ¬ p (s.ticks n).verdict
  | .run => ∀ t, s.run = some t → ¬ p t.verdict
  | .cancel => True

def AvoidsAll (s : Session) : List Control → Prop
  | [] => True
  | c :: cs => s.Avoids p c ∧ ∀ t, s.control c = some t → t.session.AvoidsAll cs

theorem avoidsAll_false (s : Session) (cs : List Control) : s.AvoidsAll (fun _ => False) cs := by
  induction cs generalizing s with
  | nil => trivial
  | cons c cs ih =>
      refine ⟨?_, fun t _ => ih t.session⟩
      cases c with
      | tick n => exact id
      | run => exact fun _ _ => id
      | cancel => trivial

end Session

namespace Pairing

structure Turns (P : Pairing) (t u : Turn) : Prop where
  verdict : P.verdict t.verdict u.verdict
  session : P.session t.session u.session
  done : P.done t.done u.done

/-- Two paired sessions take paired turns, up to a verdict that is lost. What is done is paired piece
by piece, and a verdict that asks for more, or ends the program, is paired with no other. -/
structure Lockstep (P : Pairing) : Prop where
  tick : ∀ {s u : Session}, P.session s u → ¬ P.lost s.tick.verdict → ¬ P.lost u.tick.verdict →
    P.Turns s.tick u.tick
  cancel : ∀ {s u : Session}, P.session s u → P.session s.cancel u.cancel
  more : P.verdict .more .more
  more_iff : ∀ {v w : Verdict}, P.verdict v w → (v = .more ↔ w = .more)
  abort_iff : ∀ {v w : Verdict}, P.verdict v w → (v = .panicked .abort ↔ w = .panicked .abort)
  not_lost : ¬ P.lost .more
  nil : P.done [] []
  append : ∀ {xs ys xs' ys' : List Effect}, P.done xs ys → P.done xs' ys' →
    P.done (xs ++ xs') (ys ++ ys')
  started : ∀ {s u : Session}, P.session s u → P.done [.noted s.started] [.noted u.started]

namespace Lockstep

variable {P : Pairing} {s u : Session}

theorem ticksAfter (h : P.Lockstep) (hs : P.session s u) {xs ys : Array Effect}
    (hd : P.done xs.toList ys.toList) (n : Nat) : P.lost (s.ticksAfter xs n).verdict ∨
      P.lost (u.ticksAfter ys n).verdict ∨ P.Turns (s.ticksAfter xs n) (u.ticksAfter ys n) := by
  induction n generalizing s u xs ys with
  | zero => exact .inr (.inr ⟨h.more, hs, hd⟩)
  | succ n ih =>
      by_cases hl : P.lost s.tick.verdict
      · rw [ticksAfter_of_ne_more fun hv => h.not_lost (hv ▸ hl)]
        exact .inl hl
      by_cases hl' : P.lost u.tick.verdict
      · rw [ticksAfter_of_ne_more (s := u) fun hv => h.not_lost (hv ▸ hl')]
        exact .inr (.inl hl')
      have ht := h.tick hs hl hl'
      have hdone : P.done (xs ++ s.tick.done).toList (ys ++ u.tick.done).toList := by
        simpa using h.append hd ht.done
      by_cases hv : s.tick.verdict = .more
      · simpa only [Session.ticksAfter, hv, (h.more_iff ht.verdict).mp hv] using ih ht.session hdone
      · rw [ticksAfter_of_ne_more hv, ticksAfter_of_ne_more (mt (h.more_iff ht.verdict).mpr hv)]
        exact .inr (.inr ⟨ht.verdict, ht.session, hdone⟩)

theorem ticks (h : P.Lockstep) (hs : P.session s u) (n : Nat) : P.lost (s.ticks n).verdict ∨
    P.lost (u.ticks n).verdict ∨ P.Turns (s.ticks n) (u.ticks n) :=
  h.ticksAfter hs h.nil n

theorem run (h : P.Lockstep) (hs : P.session s u) (hl : s.Avoids P.lost .run)
    (hl' : u.Avoids P.lost .run) : Option.Rel P.Turns s.run u.run := by
  have hmore {v : Verdict} (hv : P.lost v) : v ≠ .more := fun hm => h.not_lost (hm ▸ hv)
  have hturns (n : Nat) : P.Turns (s.ticks n) (u.ticks n) := by
    obtain hv | hv | ht := h.ticks hs n
    · exact (hl _ (run_eq_some_iff.mpr ⟨n, hmore hv, rfl⟩) hv).elim
    · exact (hl' _ (run_eq_some_iff.mpr ⟨n, hmore hv, rfl⟩) hv).elim
    · exact ht
  cases ht : s.run with
  | some t =>
      obtain ⟨n, hn, rfl⟩ := run_eq_some_iff.mp ht
      have hp := hturns n
      rw [run_eq_some_iff.mpr ⟨n, mt (h.more_iff hp.verdict).mpr hn, rfl⟩]
      exact .some ⟨hp.verdict, hp.session, h.append (h.started hs) hp.done⟩
  | none =>
      cases hu : u.run with
      | none => exact .none
      | some t =>
          obtain ⟨n, hn, -⟩ := run_eq_some_iff.mp hu
          rw [run_eq_some_iff.mpr ⟨n, mt (h.more_iff (hturns n).verdict).mp hn, rfl⟩] at ht
          cases ht

theorem answer? (h : P.Lockstep) {t t' : Turn} (ht : P.Turns t t') :
    Option.Rel P.Turns t.answer? t'.answer? := by
  by_cases hv : t.verdict = .panicked .abort
  · rw [Turn.answer?, if_pos hv, Turn.answer?, if_pos ((h.abort_iff ht.verdict).mp hv)]
    exact .none
  · rw [Turn.answer?, if_neg hv, Turn.answer?, if_neg (mt (h.abort_iff ht.verdict).mpr hv)]
    exact .some ht

theorem control (h : P.Lockstep) (hs : P.session s u) {c : Control} (hl : s.Avoids P.lost c)
    (hl' : u.Avoids P.lost c) : Option.Rel P.Turns (s.control c) (u.control c) := by
  cases c with
  | tick n =>
      obtain hv | hv | ht := h.ticks hs n
      · exact absurd hv hl
      · exact absurd hv hl'
      · exact h.answer? ht
  | run => exact rel_bind (h.run hs hl hl') fun t t' _ _ ht => h.answer? ht
  | cancel => exact .some ⟨h.more, h.cancel hs, h.nil⟩

theorem history (h : P.Lockstep) (hs : P.session s u) {cs : List Control}
    (hl : s.AvoidsAll P.lost cs) (hl' : u.AvoidsAll P.lost cs) :
    Option.Rel (List.Forall₂ P.Turns) (s.history cs) (u.history cs) := by
  induction cs generalizing s u with
  | nil => exact .some .nil
  | cons c cs ih =>
      refine rel_bind (h.control hs hl.1 hl'.1) fun t t' hc hc' ht => ?_
      refine rel_bind (ih ht.session (hl.2 t hc) (hl'.2 t' hc')) fun ts ts' _ _ hts => ?_
      exact .some (.cons ht hts)

theorem history_eq_map (h : P.Lockstep) {f : Turn → Turn} (hf : ∀ t u, P.Turns t u → u = f t)
    (hs : P.session s u) {cs : List Control} (hl : s.AvoidsAll P.lost cs)
    (hl' : u.AvoidsAll P.lost cs) : u.history cs = (s.history cs).map (List.map f) := by
  refine eq_map_of_rel (rel_imp (h.history hs hl hl') fun ts us hts => ?_)
  have hmap : List.Forall₂ Eq (ts.map f) us :=
    List.forall₂_map_left_iff.mpr (hts.imp fun t u ht => (hf t u ht).symm)
  rw [List.forall₂_eq_eq_eq] at hmap
  exact hmap.symm

end Lockstep

end Pairing

end ChordScript
