import Mathlib.Data.List.Forall2
import ChordScript.Proofs.Moves

namespace ChordScript

namespace Verdict

def phase : Verdict → Phase
  | more | panicked _ => .running
  | ended e => .ended e

def status : Verdict → String
  | more | panicked _ => "Running"
  | ended (.played .finished) => "Finished"
  | ended (.played .stopped) => "Stopped"
  | ended (.failed _) => "Failed"

theorem name_phase (v : Verdict) : v.phase.name = v.status := by
  cases v with
  | more | panicked => rfl
  | ended e => rcases e with (_ | _) | _ <;> rfl

theorem phase_ne_idle (v : Verdict) : v.phase ≠ .idle := by
  cases v <;> nofun

end Verdict

def Control.plays : Control → Bool
  | tick n => 0 < n
  | run => true
  | cancel => false

namespace Session

variable {s : Session} {t : Turn} {e : Ending} {c : Control} {cs : List Control} {ts : List Turn}

theorem Ticked.phase (h : Ticked s t) : t.session.phase = t.verdict.phase := by
  cases h with
  | past hp => exact hp
  | stopped | finished | rested | overslept | struck | interrupted | panicked | refused | halted
    | obeyed => rfl

theorem phase_ticksAfter (s : Session) (done : Array Effect) (n : Nat) :
    (s.ticksAfter done (n + 1)).session.phase = (s.ticksAfter done (n + 1)).verdict.phase := by
  induction n generalizing s done with
  | zero =>
      have hp := s.ticked.phase
      rw [ticksAfter]
      cases hv : s.tick.verdict <;> simpa only [ticksAfter, hv] using hp
  | succ n ih =>
      have hp := s.ticked.phase
      rw [ticksAfter]
      cases hv : s.tick.verdict with
      | more => exact ih ..
      | ended | panicked => simpa only [hv] using hp

theorem ticks_of_ended (h : s.phase = .ended e) (n : Nat) : s.ticks (n + 1) = ⟨.ended e, s, []⟩ := by
  rw [ticks, ticksAfter, (Ticked.past h).eq_tick]
  rfl

theorem run_of_ended (h : s.phase = .ended e) : s.run = some ⟨.ended e, s, [.noted s.started]⟩ := by
  have ht := ticks_of_ended h 0
  exact run_eq_some_iff.mpr ⟨1, by rw [ht]; nofun, by rw [ht]⟩

theorem phase_of_plays (h : s.control c = some t) (hp : c.plays = true) :
    t.session.phase = t.verdict.phase := by
  cases c with
  | tick n =>
      obtain ⟨rfl, -⟩ := Turn.answer?_eq_some.mp h
      obtain ⟨n, rfl⟩ := Nat.exists_eq_add_one_of_ne_zero (Nat.ne_of_gt (of_decide_eq_true hp))
      exact s.phase_ticksAfter #[] n
  | run =>
      obtain ⟨u, hu, ha⟩ := Option.bind_eq_some_iff.mp h
      obtain ⟨rfl, -⟩ := Turn.answer?_eq_some.mp ha
      obtain ⟨n, hn, rfl⟩ := run_eq_some_iff.mp hu
      cases n with
      | zero => exact absurd rfl hn
      | succ n => exact s.phase_ticksAfter #[] n
  | cancel => cases hp

theorem phase_of_not_plays (h : s.control c = some t) (hp : c.plays = false) :
    t.verdict = .more ∧ t.session.phase = s.phase := by
  cases c with
  | tick n =>
      obtain rfl : n = 0 := by simpa [Control.plays] using hp
      cases h
      exact ⟨rfl, rfl⟩
  | run => cases hp
  | cancel =>
      cases h
      exact ⟨rfl, rfl⟩

theorem phase_of_ended (h : s.control c = some t) (hv : t.verdict = .ended e) :
    t.session.phase = .ended e := by
  cases hp : c.plays with
  | true => rw [phase_of_plays h hp, hv, Verdict.phase]
  | false => exact absurd ((phase_of_not_plays h hp).1.symm.trans hv) nofun

def withToken (s : Session) (cancelled : Bool) : Session :=
  { s with stage := { s.stage with cancelled } }

/-- The turn says once more how the session has ended. It sends and sleeps nothing, and of the
session it can change the token and nothing else. -/
structure Repeats (s : Session) (e : Ending) (c : Control) (t : Turn) : Prop where
  verdict : c.plays = true → t.verdict = .ended e
  session : ∃ cancelled, t.session = s.withToken cancelled
  done : t.done = [] ∨ t.done = [.noted s.started]

theorem control_repeats (h : s.phase = .ended e) (c : Control) :
    ∃ t, s.control c = some t ∧ s.Repeats e c t := by
  cases c with
  | tick n =>
      cases n with
      | zero => exact ⟨⟨.more, s, []⟩, rfl, nofun, ⟨_, rfl⟩, .inl rfl⟩
      | succ n =>
          have ht := ticks_of_ended h n
          refine ⟨_, Turn.answer?_eq_some.mpr ⟨ht, by rw [ht]; nofun⟩, ?_⟩
          exact ⟨fun _ => rfl, ⟨_, rfl⟩, .inl rfl⟩
  | run =>
      refine ⟨_, Option.bind_eq_some_iff.mpr ⟨_, run_of_ended h, rfl⟩, ?_⟩
      exact ⟨fun _ => rfl, ⟨_, rfl⟩, .inr rfl⟩
  | cancel => exact ⟨_, rfl, nofun, ⟨true, rfl⟩, .inl rfl⟩

theorem Repeats.of_withToken {cancelled : Bool} (h : (s.withToken cancelled).Repeats e c t) :
    s.Repeats e c t := ⟨h.verdict, h.session, h.done⟩

theorem history_repeats (h : s.phase = .ended e) (cs : List Control) :
    ∃ ts, s.history cs = some ts ∧ List.Forall₂ (s.Repeats e) cs ts := by
  induction cs generalizing s with
  | nil => exact ⟨[], rfl, .nil⟩
  | cons c cs ih =>
      obtain ⟨t, ht, hr⟩ := control_repeats h c
      obtain ⟨cancelled, hs⟩ := hr.session
      obtain ⟨us, hu, hus⟩ := ih (s := s.withToken cancelled) h
      rw [← hs] at hu
      refine ⟨t :: us, history_cons.mpr ⟨t, us, ht, hu, rfl⟩, .cons hr ?_⟩
      exact hus.imp fun _ _ => Repeats.of_withToken

/-- What the ticks of a history have come to, control by control and up to its end. -/
def worked (s : Session) : List Control → List Turn → List Verdict
  | c :: cs, t :: ts =>
    (if c.plays && s.phase.ending?.isNone then [t.verdict] else []) ++ t.session.worked cs ts
  | _, _ => []

theorem control_phase (h : s.control c = some t) : t.session.phase =
    if c.plays && s.phase.ending?.isNone then t.verdict.phase else s.phase := by
  cases hp : c.plays with
  | false => exact (phase_of_not_plays h hp).2
  | true =>
      cases hs : s.phase with
      | idle | running => exact phase_of_plays h hp
      | ended e =>
          obtain ⟨t', ht, hr⟩ := control_repeats hs c
          obtain rfl := Option.some.inj (h.symm.trans ht)
          rw [phase_of_plays h hp, hr.verdict hp]
          rfl

theorem history_phase (h : s.history cs = some ts) :
    (s.last ts).phase = ((s.worked cs ts).getLast?.map Verdict.phase).getD s.phase := by
  induction cs generalizing s ts with
  | nil =>
      cases h
      rfl
  | cons c cs ih =>
      obtain ⟨t, us, hc, hu, rfl⟩ := history_cons.mp h
      rw [last_cons, ih hu, control_phase hc, worked, List.getLast?_append]
      cases (t.session.worked cs us).getLast? with
      | some v => rfl
      | none => split <;> rfl

theorem history_idle (hs : s.phase = .idle) (h : s.history cs = some ts) :
    (s.last ts).phase = .idle ↔ ∀ c ∈ cs, c.plays = false := by
  induction cs generalizing s ts with
  | nil =>
      cases h
      exact iff_of_true hs nofun
  | cons c cs ih =>
      obtain ⟨t, us, hc, hu, rfl⟩ := history_cons.mp h
      rw [last_cons, List.forall_mem_cons]
      cases hp : c.plays with
      | false => rw [ih ((phase_of_not_plays hc hp).2.trans hs) hu, and_iff_right rfl]
      | true =>
          refine iff_of_false ?_ nofun
          rw [history_phase hu, phase_of_plays hc hp]
          cases (t.session.worked cs us).getLast? with
          | none => exact t.verdict.phase_ne_idle
          | some v => exact v.phase_ne_idle

/-- A session ends once. Before the first tick it is idle, it is running if there was more to do after
the last tick or there was a panic in it, and else it has ended as that tick said. From then on
every tick and every run says so again, even if the token is set, and nothing happens any more. -/
theorem ends_once (document : Document) (config : Config) (sink : Sink) :
    let s := start document config sink
    (∀ cs ts, s.history cs = some ts →
      ((s.last ts).phase = .idle ↔ ∀ c ∈ cs, c.plays = false) ∧
      (s.last ts).phase = ((s.worked cs ts).getLast?.map Verdict.phase).getD .idle ∧
      (s.last ts).phase.name = ((s.worked cs ts).getLast?.map Verdict.status).getD "Idle") ∧
    ∀ cs ts c t e, s.history cs = some ts → (s.last ts).control c = some t → t.verdict = .ended e →
      t.session.phase = .ended e ∧
      ∀ cs', ∃ us, t.session.history cs' = some us ∧ List.Forall₂ (t.session.Repeats e) cs' us := by
  intro s
  refine ⟨fun cs ts h => ⟨history_idle rfl h, history_phase h, ?_⟩, fun cs ts c t e _ hc hv => ?_⟩
  · rw [history_phase h]
    cases (s.worked cs ts).getLast? with
    | none => rfl
    | some v => exact v.name_phase
  · have he := phase_of_ended hc hv
    exact ⟨he, history_repeats he⟩

theorem ends_once_stopped :
    let s := start (.ofActions #[⟨1, .play [.single 'a']⟩]) {} { panicAt := some 2 }
    let e := Ending.played .stopped
    ∃ ts t us, s.history [.tick 1, .cancel] = some ts ∧ (s.last ts).phase = .running ∧
      (s.last ts).control (.tick 1) = some t ∧ t.verdict = .ended e ∧
      t.session.phase.name = "Stopped" ∧ t.session.history [.cancel, .run, .tick 2] = some us ∧
      List.Forall₂ (t.session.Repeats e) [.cancel, .run, .tick 2] us := by
  intro s e
  obtain ⟨hphase, hend⟩ := ends_once (.ofActions #[⟨1, .play [.single 'a']⟩]) {} { panicAt := some 2 }
  have h : s.history [.tick 1, .cancel] = some _ := rfl
  obtain ⟨he, hrest⟩ := hend _ _ (.tick 1) _ e h rfl rfl
  obtain ⟨us, hu, hus⟩ := hrest [.cancel, .run, .tick 2]
  exact ⟨_, _, us, h, (hphase _ _ h).2.1, rfl, rfl, by rw [he]; rfl, hu, hus⟩

end Session

end ChordScript
