import ChordScript.Playback.Run
import ChordScript.Proofs.Tick

namespace ChordScript

inductive Move
  | tick
  | cancel
deriving DecidableEq

theorem Turn.answer?_eq_some {t u : Turn} :
    t.answer? = some u ↔ t = u ∧ t.verdict ≠ .panicked .abort := by
  rw [answer?]
  split
  · next h => simp [h]
  · next h => simp [h]

def Move.ticks (n : Nat) : List Move := List.replicate n .tick

theorem Move.ticks_add (m n : Nat) : ticks (m + n) = ticks m ++ ticks n :=
  List.replicate_append_replicate.symm

namespace Session

def move (s : Session) : Move → Turn
  | .tick => s.tick
  | .cancel => ⟨.more, s.cancel, []⟩

def after (s : Session) : List Move → Session
  | [] => s
  | m :: ms => (s.move m).session.after ms

def doneIn (s : Session) : List Move → List Effect
  | [] => []
  | m :: ms => (s.move m).done ++ (s.move m).session.doneIn ms

def struckBy (s : Session) : Move → List Chord
  | .tick => s.struck
  | .cancel => []

def struckIn (s : Session) : List Move → List Chord
  | [] => []
  | m :: ms => s.struckBy m ++ (s.move m).session.struckIn ms

def Answers (p : Verdict → Prop) (s : Session) : List Move → Prop
  | [] => True
  | m :: ms => p (s.move m).verdict ∧ (s.move m).session.Answers p ms

abbrev Lives (s : Session) (ms : List Move) : Prop := s.Answers (· ≠ .panicked .abort) ms

abbrev Calm (s : Session) (ms : List Move) : Prop := s.Answers (·.panic? = none) ms

variable {s : Session} {t : Turn} {p : Verdict → Prop}

theorem answers_append {ms ns : List Move} :
    s.Answers p (ms ++ ns) ↔ s.Answers p ms ∧ (s.after ms).Answers p ns := by
  induction ms generalizing s with
  | nil => exact (and_iff_right trivial).symm
  | cons m ms ih => exact (and_congr_right fun _ => ih).trans and_assoc.symm

theorem after_append (s : Session) (ms ns : List Move) :
    s.after (ms ++ ns) = (s.after ms).after ns := by
  induction ms generalizing s with
  | nil => rfl
  | cons m ms ih => exact ih _

theorem doneIn_append (s : Session) (ms ns : List Move) :
    s.doneIn (ms ++ ns) = s.doneIn ms ++ (s.after ms).doneIn ns := by
  induction ms generalizing s with
  | nil => rfl
  | cons m ms ih => simp only [List.cons_append, doneIn, ih, after, List.append_assoc]

theorem frame_after (s : Session) (ms : List Move) :
    (s.after ms).document = s.document ∧ (s.after ms).sink = s.sink ∧
      (s.after ms).timing = s.timing := by
  induction ms generalizing s with
  | nil => exact ⟨rfl, rfl, rfl⟩
  | cons m ms ih =>
      obtain ⟨hd, hs, ht⟩ := ih (s.move m).session
      cases m with
      | tick =>
          obtain ⟨hd', hs', ht'⟩ := s.ticked.frame
          exact ⟨hd.trans hd', hs.trans hs', ht.trans ht'⟩
      | cancel => exact ⟨hd, hs, ht⟩

theorem ticksAfter_of_ne_more (h : s.tick.verdict ≠ .more) (done : Array Effect) (n : Nat) :
    s.ticksAfter done (n + 1) =
      ⟨s.tick.verdict, s.tick.session, (done ++ s.tick.done).toList⟩ := by
  rw [ticksAfter]
  cases hv : s.tick.verdict with
  | more => exact absurd hv h
  | ended | panicked => rfl

def GoesOn (s : Session) : Nat → Prop
  | 0 => True
  | n + 1 => s.tick.verdict = .more ∧ s.tick.session.GoesOn n

instance GoesOn.decidable (s : Session) : (n : Nat) → Decidable (s.GoesOn n)
  | 0 => inferInstanceAs (Decidable True)
  | n + 1 => have := GoesOn.decidable s.tick.session n; inferInstanceAs (Decidable (_ ∧ _))

theorem ticksAfter_moves (s : Session) (done : Array Effect) (n : Nat) :
    ∃ k, (s.ticksAfter done n).session = s.after (Move.ticks k) ∧
      (s.ticksAfter done n).done = done.toList ++ s.doneIn (Move.ticks k) ∧
      ∀ p : Verdict → Prop, p .more → p (s.ticksAfter done n).verdict →
        s.Answers p (Move.ticks k) := by
  induction n generalizing s done with
  | zero => exact ⟨0, rfl, by simp [ticksAfter, Move.ticks, doneIn], fun _ _ _ => trivial⟩
  | succ n ih =>
      rw [ticksAfter]
      split
      · next hv =>
          obtain ⟨k, hs, hd, hl⟩ := ih s.tick.session (done ++ s.tick.done)
          refine ⟨k + 1, hs, by simp [hd, Move.ticks, List.replicate_succ, doneIn, move], ?_⟩
          exact fun p hm hp => ⟨hv.symm ▸ hm, hl p hm hp⟩
      · exact ⟨1, rfl, by simp [Move.ticks, doneIn, move], fun p hm hp => ⟨hp, trivial⟩⟩

theorem ticks_of_goesOn {n : Nat} (h : s.GoesOn n) (done : Array Effect) :
    s.ticksAfter done n =
      ⟨.more, s.after (Move.ticks n), done.toList ++ s.doneIn (Move.ticks n)⟩ := by
  induction n generalizing s done with
  | zero => simp [ticksAfter, Move.ticks, after, doneIn]
  | succ n ih =>
      rw [ticksAfter]
      simp only [h.1, ih h.2]
      simp [Move.ticks, List.replicate_succ, after, doneIn, move]

/-- A run is so many ticks that ask for more, and one that does not. -/
def RunsFor (s : Session) (n : Nat) : Prop :=
  s.GoesOn n ∧ (s.after (Move.ticks n)).tick.verdict ≠ .more

instance (s : Session) (n : Nat) : Decidable (s.RunsFor n) := inferInstanceAs (Decidable (_ ∧ _))

theorem after_ticks_succ (s : Session) (n : Nat) :
    s.after (Move.ticks (n + 1)) = (s.after (Move.ticks n)).tick.session := by
  rw [Move.ticks, List.replicate_succ', after_append]
  rfl

theorem doneIn_ticks_succ (s : Session) (n : Nat) :
    s.doneIn (Move.ticks (n + 1)) =
      s.doneIn (Move.ticks n) ++ (s.after (Move.ticks n)).tick.done := by
  rw [Move.ticks, List.replicate_succ', doneIn_append]
  simp [doneIn, move, Move.ticks]

theorem ticks_of_runsFor {n : Nat} (h : s.RunsFor n) :
    s.ticks (n + 1) = ⟨(s.after (Move.ticks n)).tick.verdict, s.after (Move.ticks (n + 1)),
      s.doneIn (Move.ticks (n + 1))⟩ := by
  have hg : s.ticksAfter #[] n =
      ⟨.more, s.after (Move.ticks n), (s.doneIn (Move.ticks n)).toArray.toList⟩ := by
    simpa using ticks_of_goesOn h.1 #[]
  rw [ticks, ticksAfter_succ hg, after_ticks_succ, doneIn_ticks_succ]
  simp

theorem Progress.toEnd_eq (p : Progress s) :
    p.toEnd = if h : p.verdict = .more then (p.next h).toEnd else p := by
  rw [toEnd]
  rw [repeatM_eq_of_monadTail]
  split
  · next h =>
      simp only [repeatM.body, h]
      rfl
  · next h =>
      simp only [repeatM.body, h]
      rfl

theorem Progress.toEnd_of_ticks {p : Progress s} (hp : p.verdict = .more) {n : Nat}
    (hn : (p.session.ticksAfter p.done n).verdict ≠ .more) :
    (⟨p.toEnd.verdict, p.toEnd.session, p.toEnd.done.toList⟩ : Turn) =
      p.session.ticksAfter p.done n := by
  induction n generalizing p with
  | zero => exact absurd rfl hn
  | succ n ih =>
      rw [toEnd_eq, dif_pos hp]
      rw [ticksAfter] at hn ⊢
      cases hv : p.session.tick.verdict with
      | more =>
          simp only [hv] at hn ⊢
          exact ih (p := p.next hp) hv hn
      | ended e | panicked =>
          have hq : (p.next hp).verdict ≠ .more := by simp [next, hv]
          rw [toEnd_eq, dif_neg hq]
          simp only [next, hv]

theorem run_eq_some_iff : s.run = some t ↔ ∃ n, (s.ticks n).verdict ≠ .more ∧
    t = ⟨(s.ticks n).verdict, (s.ticks n).session, .noted s.started :: (s.ticks n).done⟩ := by
  unfold run
  dsimp only
  constructor
  · intro h
    obtain ⟨n, hn⟩ := (Progress.outset s).toEnd.reached
    split at h
    · cases h
    · next hv =>
        refine ⟨n, ?_, ?_⟩
        · rw [hn]
          exact hv
        · rw [hn]
          exact (Option.some.inj h).symm
  · rintro ⟨n, hn, rfl⟩
    have he := Progress.toEnd_of_ticks (p := .outset s) rfl hn
    change _ = s.ticks n at he
    rw [← he] at hn ⊢
    split
    · next hv => exact absurd hv hn
    · rfl

theorem run_eq_none (h : ∀ n, s.GoesOn n) : s.run = none := by
  cases hr : s.run with
  | none => rfl
  | some t =>
      obtain ⟨n, hn, -⟩ := run_eq_some_iff.mp hr
      exact absurd (congrArg Turn.verdict (ticks_of_goesOn (h n) #[])) hn

theorem run_of_runsFor {n : Nat} (h : s.RunsFor n) :
    s.run = some ⟨(s.after (Move.ticks n)).tick.verdict, s.after (Move.ticks (n + 1)),
      .noted s.started :: s.doneIn (Move.ticks (n + 1))⟩ := by
  have ht := ticks_of_runsFor h
  refine run_eq_some_iff.mpr ⟨n + 1, ?_, ?_⟩
  · rw [ht]
    exact h.2
  · rw [ht]

theorem run_of_panicked {cause : Panic} (hv : s.tick.verdict = .panicked cause) :
    ∃ t, s.run = some t ∧ t.verdict = .panicked cause :=
  ⟨_, run_of_runsFor (n := 0) ⟨trivial, fun hm => nomatch hv.symm.trans hm⟩, hv⟩

theorem exists_runsFor_of_not_goesOn {n : Nat} (h : ¬ s.GoesOn n) : ∃ k, s.RunsFor k := by
  induction n generalizing s with
  | zero => exact absurd trivial h
  | succ n ih =>
      by_cases hv : s.tick.verdict = .more
      · obtain ⟨k, hg, hk⟩ := ih fun hn => h ⟨hv, hn⟩
        exact ⟨k + 1, ⟨hv, hg⟩, hk⟩
      · exact ⟨0, trivial, hv⟩

theorem runsFor_of_run (h : s.run = some t) :
    ∃ n, s.RunsFor n ∧ t = ⟨(s.after (Move.ticks n)).tick.verdict, s.after (Move.ticks (n + 1)),
      .noted s.started :: s.doneIn (Move.ticks (n + 1))⟩ := by
  obtain ⟨n, hn, -⟩ := run_eq_some_iff.mp h
  obtain ⟨k, hk⟩ := exists_runsFor_of_not_goesOn fun hg =>
    hn (congrArg Turn.verdict (ticks_of_goesOn hg #[]))
  exact ⟨k, hk, Option.some.inj (h.symm.trans (run_of_runsFor hk))⟩

theorem control_moves {c : Control} (h : s.control c = some t) :
    t.verdict ≠ .panicked .abort ∧ ∃ ms, t.session = s.after ms ∧
      (t.done = s.doneIn ms ∨ t.done = .noted s.started :: s.doneIn ms) ∧
      ∀ p : Verdict → Prop, p .more → p t.verdict → s.Answers p ms := by
  cases c with
  | tick n =>
      obtain ⟨rfl, hv⟩ := Turn.answer?_eq_some.mp h
      obtain ⟨k, hs, hd, hl⟩ := s.ticksAfter_moves #[] n
      exact ⟨hv, Move.ticks k, hs, .inl hd, hl⟩
  | run =>
      obtain ⟨u, hu, ha⟩ := Option.bind_eq_some_iff.mp h
      obtain ⟨rfl, hv⟩ := Turn.answer?_eq_some.mp ha
      obtain ⟨n, -, rfl⟩ := run_eq_some_iff.mp hu
      obtain ⟨k, hs, hd, hl⟩ := s.ticksAfter_moves #[] n
      exact ⟨hv, Move.ticks k, hs, .inr (congrArg _ hd), hl⟩
  | cancel =>
      obtain rfl := Option.some.inj h
      exact ⟨nofun, [.cancel], rfl, .inl rfl, fun p hm _ => ⟨hm, trivial⟩⟩

def last (s : Session) (ts : List Turn) : Session := (ts.getLast?.map Turn.session).getD s

theorem last_cons (s : Session) (t : Turn) (ts : List Turn) : s.last (t :: ts) = t.session.last ts := by
  cases ts with
  | nil => rfl
  | cons u us => simp [last, List.getLast?_cons]

theorem history_cons {c : Control} {cs : List Control} {ts : List Turn} :
    s.history (c :: cs) = some ts ↔
      ∃ t us, s.control c = some t ∧ t.session.history cs = some us ∧ ts = t :: us := by
  simp only [history, Option.bind_eq_bind, Option.pure_def, Option.bind_eq_some_iff,
    Option.some.injEq]
  constructor
  · rintro ⟨t, hc, us, hu, rfl⟩
    exact ⟨t, us, hc, hu, rfl⟩
  · rintro ⟨t, us, hc, hu, rfl⟩
    exact ⟨t, hc, us, hu, rfl⟩

/-- A history comes down to moves, up to the notices that open its runs. -/
theorem history_moves {cs : List Control} {ts : List Turn} (h : s.history cs = some ts)
    (p : Effect → Bool) (hp : ∀ actions tempo, p (.noted (.started actions tempo)) = false) :
    (∀ t ∈ ts, t.verdict ≠ .panicked .abort) ∧ ∃ ms, s.last ts = s.after ms ∧
      (ts.flatMap Turn.done).filter p = (s.doneIn ms).filter p ∧
      ∀ q : Verdict → Prop, q .more → (∀ t ∈ ts, q t.verdict) → s.Answers q ms := by
  induction cs generalizing s ts with
  | nil =>
      obtain rfl := Option.some.inj h
      exact ⟨by simp, [], rfl, rfl, fun _ _ _ => trivial⟩
  | cons c cs ih =>
      obtain ⟨t, us, hc, hu, rfl⟩ := history_cons.mp h
      obtain ⟨hv, ms, ht, hd, ha⟩ := control_moves hc
      obtain ⟨hvs, ns, hl, hn, has⟩ := ih hu
      refine ⟨List.forall_mem_cons.mpr ⟨hv, hvs⟩, ms ++ ns, ?_, ?_, fun q hm hq => ?_⟩
      · rw [last_cons, hl, ht, after_append]
      · have hf : t.done.filter p = (s.doneIn ms).filter p := by
          rcases hd with hd | hd
          · rw [hd]
          · rw [hd, List.filter_cons_of_neg (by simp [started, hp])]
        rw [List.flatMap_cons, List.filter_append, hf, hn, ht, doneIn_append, List.filter_append]
      · obtain ⟨hq, hqs⟩ := List.forall_mem_cons.mp hq
        exact answers_append.mpr ⟨ha q hm hq, ht ▸ has q hm hqs⟩

theorem GoesOn.add {m n : Nat} (h : s.GoesOn m) (h' : (s.after (Move.ticks m)).GoesOn n) :
    s.GoesOn (m + n) := by
  induction m generalizing s with
  | zero => rwa [Nat.zero_add]
  | succ m ih =>
      rw [Nat.succ_add]
      exact ⟨h.1, ih h.2 h'⟩

theorem GoesOn.of_add {m n : Nat} (h : s.GoesOn (m + n)) : s.GoesOn m := by
  induction m generalizing s with
  | zero => trivial
  | succ m ih =>
      rw [Nat.succ_add] at h
      exact ⟨h.1, ih h.2⟩

end Session

end ChordScript
