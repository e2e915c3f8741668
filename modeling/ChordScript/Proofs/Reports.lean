import ChordScript.Program
import ChordScript.Proofs.Jumps
import ChordScript.Proofs.Panics
import ChordScript.Proofs.Reading
import ChordScript.Proofs.Untimed

namespace ChordScript

open KeyEvent (heldKeys shiftHeld)

theorem Script.line_pos_of_compile {source : Text} {script : Script}
    (h : Script.compile source = .ok script) {a : Action} (ha : a ∈ script.document.actions) :
    0 < a.line := by
  obtain ⟨d, hd, rfl⟩ := reads_of_compile h
  exact (hd.line_bounds a ha.val).1

namespace Session

variable {s : Session}

theorem Faces.line_eq {a : Action} (hf : s.Faces a) : s.line = a.line := by
  rw [line, Document.lineAt, hf.action]

/-- What the callback is told of a session that ran to its end or to a panic. A panic is told with the
line of the action in which it happened. -/
inductive Told (s : Session) : Verdict → Call → Prop
  | ended {ending : Ending} {log : List KeyEvent} (keys : heldKeys log = [])
      (shift : shiftHeld log = false) : Told s (.ended ending) ⟨ending, log⟩
  | refused {line n : Nat} {left right : List Chord} {c : Chord} {before after : List KeyEvent}
      {e : KeyEvent} {log : List KeyEvent} (runs : s.RunsFor n)
      (action : (s.after (Move.ticks n)).Faces ⟨line, .play (left ++ c :: right)⟩)
      (panics : (s.after (Move.ticks n)).PanicsAt left c right before e after)
      (positive : 0 < line) : Told s (.panicked .sink) ⟨.failed ⟨line, .sinkPanicked⟩, log⟩
  | late {n : Nat} {a : Action} {log : List KeyEvent} (runs : s.RunsFor n)
      (action : (s.after (Move.ticks n)).Faces a)
      (busy : 0 < (s.after (Move.ticks n)).head.rest ∨ ∃ chords, a.step = .play chords)
      (spent : timeLimit ≤ (s.after (Move.ticks n)).stage.now + (s.after (Move.ticks n)).lasts)
      (positive : 0 < a.line) : Told s (.panicked .clock) ⟨.failed ⟨a.line, .sinkPanicked⟩, log⟩

theorem Faces.line_pos {a : Action} {ms : List Move} (hf : (s.after ms).Faces a)
    (hl : ∀ a ∈ s.document.actions, 0 < a.line) : 0 < a.line := by
  have hmem := Array.mem_of_getElem? hf.action
  rw [(frame_after s ms).1] at hmem
  exact hl a hmem

theorem Faces.line_tick {a : Action} (hf : s.Faces a)
    (hc : s.tick.session.head.cursor = s.head.cursor) : s.tick.session.line = a.line := by
  rw [line, hc, s.ticked.frame.1]
  exact hf.line_eq

theorem told_of_run {t : Turn} (h : s.run = some t) (ha : t.verdict ≠ .panicked .abort)
    (ht : 1 ≤ s.head.tempo) (hl : ∀ a ∈ s.document.actions, 0 < a.line) :
    s.Told t.verdict ⟨t.told, Effect.events t.done⟩ := by
  obtain ⟨n, hn, rfl⟩ := runsFor_of_run h
  cases hv : (s.after (Move.ticks n)).tick.verdict with
  | more => exact absurd hv hn.2
  | ended ending =>
      have hb := balanced_of_calm (hn.calm (by rw [hv]; rfl))
      exact .ended hb.keys hb.shiftHeld
  | panicked cause =>
      cases cause with
      | sink =>
          obtain ⟨left, c, right, before, e, after, hp⟩ := panicsAt_of_verdict hv
          obtain ⟨line, hf⟩ := hp.action
          have hline : (s.after (Move.ticks (n + 1))).line = line := by
            rw [after_ticks_succ]
            exact hf.line_tick (by rw [hp.givesUp.kept])
          rw [Turn.told, hline]
          exact .refused hn hf hp (hf.line_pos hl)
      | clock =>
          obtain ⟨a, hf, hbusy, hcursor, hover⟩ :=
            (s.after (Move.ticks n)).ticked.late hv (tempo_pos_after ht _)
          have hline : (s.after (Move.ticks (n + 1))).line = a.line := by
            rw [after_ticks_succ]
            exact hf.line_tick hcursor
          rw [Turn.told, hline]
          exact .late hn hf hbusy hover (hf.line_pos hl)
      | abort => exact absurd hv ha

theorem answer_of_avoids (h : s.Avoids (¬ InTime ·.panic?) .run) :
    s.run.bind Turn.answer? = s.run := by
  cases hr : s.run with
  | none => rfl
  | some t =>
      have hv : t.verdict ≠ .panicked .abort := fun ha => h t hr fun hi => by
        rw [ha] at hi
        obtain hi | hi := hi <;> cases hi
      rw [Option.bind_some, Turn.answer?, if_neg hv]

/-- What becomes of a session that is played for a report. -/
structure Reported (s : Session) (report : Option Report) : Prop where
  /-- There is nobody to report after a panic on the way out of another. -/
  run : report.map Report.toTurn = s.run.bind Turn.answer?
  /-- At other times, as long as they come to no end, the same is played. -/
  alike : ∀ u : Session, u.untimed = s.untimed → s.Avoids (¬ InTime ·.panic?) .run →
    u.Avoids (¬ InTime ·.panic?) .run → Option.Rel (fun r t => PlayedAlike r.toTurn t) report u.run
  answers : s.document.BoundsFit →
    (∃ r, report = some r) ∨ ∃ t, s.run = some t ∧ t.verdict = .panicked .abort
  called : ∀ r, report = some r → ∃ call, call.log = Effect.events r.done ∧ s.Told r.verdict call ∧
    ∀ n, (Report.stop^[n] r).calls = [call] ∧ (Report.stop^[n] r).verdict = r.verdict ∧
      (Report.stop^[n] r).done = r.done

end Session

namespace Report

theorem stop_iterate (r : Report) (n : Nat) :
    (stop^[n] r).verdict = r.verdict ∧ (stop^[n] r).done = r.done ∧ (stop^[n] r).calls = r.calls := by
  induction n generalizing r with
  | zero => exact ⟨rfl, rfl, rfl⟩
  | succ n ih => exact ih r.stop

end Report

namespace Player

open Session (PlayedAlike)

theorem play_of_run {p : Player} {document : Document} {sink : Sink} {t : Turn}
    (h : (Session.start document p.config sink).run = some t) (ha : t.verdict ≠ .panicked .abort) :
    p.play document sink false = some (.ofTurn t) := by
  have ht : t.answer? = some t := Turn.answer?_eq_some.mpr ⟨rfl, ha⟩
  change ((Session.start document p.config sink).run.bind Turn.answer?).map Report.ofTurn = _
  rw [h, Option.bind_some, ht, Option.map_some]

/-- A player runs the session of its document, its settings and its sink, and calls its callback
once: with the end of the session when nothing is held, or with the line of the action in which there
was a panic. Stops that come later change nothing. -/
theorem play_reports (source : Text) (script : Script) (h : Script.compile source = .ok script)
    (p : Player) (sink : Sink) (cancelled : Bool) :
    let s := Session.start script.document p.config sink
    (if cancelled then s.cancel else s).Reported (p.play script.document sink cancelled) := by
  intro s
  have hframe : (if cancelled then s.cancel else s).document = script.document ∧
      1 ≤ (if cancelled then s.cancel else s).head.tempo := by
    split <;> exact ⟨rfl, Nat.le_max_right ..⟩
  have hplay : p.play script.document sink cancelled =
      ((if cancelled then s.cancel else s).run.bind Turn.answer?).map Report.ofTurn := rfl
  generalize (if cancelled then s.cancel else s) = s at hframe hplay ⊢
  obtain ⟨hdoc, htempo⟩ := hframe
  rw [hplay]
  refine ⟨?_, ?_, ?_, ?_⟩
  · rw [Option.map_map]
    exact Option.map_id'
  · intro u hu hs hu'
    rw [Session.answer_of_avoids hs]
    refine rel_map_left (rel_imp (Session.untimed_lockstep.run hu.symm hs hu') fun t t' ht => ?_)
    exact PlayedAlike.of_turns ht
  · intro hb
    obtain ⟨t, ht⟩ := Session.exists_run hb
    by_cases ha : t.verdict = .panicked .abort
    · exact .inr ⟨t, ht, ha⟩
    · refine .inl ⟨.ofTurn t, ?_⟩
      rw [ht, Option.bind_some, Turn.answer?, if_neg ha, Option.map_some]
  · intro r hr
    obtain ⟨t, ht, rfl⟩ := Option.map_eq_some_iff.mp hr
    obtain ⟨u, hu, ha⟩ := Option.bind_eq_some_iff.mp ht
    obtain ⟨rfl, hv⟩ := Turn.answer?_eq_some.mp ha
    have htold := Session.told_of_run hu hv htempo fun a ha =>
      Script.line_pos_of_compile h (hdoc ▸ ha)
    refine ⟨_, rfl, htold, fun n => ?_⟩
    obtain ⟨hv, hd, hc⟩ := (Report.ofTurn u).stop_iterate n
    exact ⟨hc, hv, hd⟩

theorem play_reports_panic :
    ∃ script r call, Script.compile ",BPM 90\nab".toList = .ok script ∧
      script.document.BoundsFit ∧
      ({} : Player).play script.document { panicAt := some 3 } false = some r ∧
      r.verdict = .panicked .sink ∧ (∀ n, (Report.stop^[n] r).calls = [call]) ∧
      call.ending = .failed ⟨2, .sinkPanicked⟩ := by
  let d : Document := .ofActions
    #[⟨1, .obey ⟨.bpm, ["90".toList]⟩⟩, ⟨2, .play [.single 'a', .single 'b']⟩]
  obtain ⟨script, h, hd⟩ : ∃ script, Script.compile ",BPM 90\nab".toList = .ok script ∧
    script.document = d := ⟨_, rfl, rfl⟩
  have hb : ∀ a ∈ d.actions, ∀ n ∈ a.bound?, n < UInt32.size := by decide
  have hreported := play_reports _ script h {} { panicAt := some 3 } false
  rw [hd] at hreported
  -- One tick for the tempo, and a second one in which the sink panics.
  have hrun := Session.run_of_runsFor (n := 1) (s := Session.start d {} { panicAt := some 3 })
    (by decide)
  have hplay := play_of_run (p := {}) hrun (by decide)
  obtain ⟨call, -, -, hcalls⟩ := hreported.called _ hplay
  obtain rfl := List.singleton_inj.mp (hcalls 0).1
  refine ⟨script, _, _, h, ?_, ?_, by decide, fun n => (hcalls n).1, by decide⟩
  · rw [hd]
    exact hb
  · rw [hd]
    exact hplay

/-- Notes that are held as long as can be, up to a rest for which the time is not left. -/
theorem play_reports_rest :
    let source : Text := List.replicate 1000 'a' ++ "\n,WAIT 2\n,TAG t".toList
    let p : Player := ⟨{ keyHoldMs := 18446744073709551615 }⟩
    ∃ script r, Script.compile source = .ok script ∧ p.play script.document {} false = some r ∧
      r.verdict = .panicked .clock ∧ r.calls.map Call.ending = [.failed ⟨3, .sinkPanicked⟩] ∧
      script.document.actions[2]? = some ⟨3, .obey ⟨.tag, ["t".toList]⟩⟩ := by
  intro source p
  let d : Document := ⟨#[⟨1, .play (List.replicate 1000 (.single 'a'))⟩,
    ⟨2, .obey ⟨.wait, ["2".toList]⟩⟩, ⟨3, .obey ⟨.tag, ["t".toList]⟩⟩], ⟨[("t".toList, 2)]⟩⟩
  have hcompile : (Script.compile source).toOption.map Script.document = some d := by
    decide +kernel
  have hruns : (Session.start d p.config {}).RunsFor 3 := by decide +kernel
  obtain ⟨t, hrun, hv, hl⟩ : ∃ t, (Session.start d p.config {}).run = some t ∧
      t.verdict = .panicked .clock ∧ t.session.line = 3 :=
    ⟨_, Session.run_of_runsFor hruns, by decide +kernel, by decide +kernel⟩
  have hplay := play_of_run hrun (by rw [hv]; nofun)
  cases hc : Script.compile source with
  | error e =>
      rw [hc] at hcompile
      cases hcompile
  | ok script =>
      rw [hc] at hcompile
      have hd : script.document = d := Option.some.inj hcompile
      refine ⟨script, _, rfl, hd ▸ hplay, hv, ?_, ?_⟩
      · simp only [Report.ofTurn, Turn.told, hv, hl, List.map_singleton]
      · rw [hd]
        rfl

end Player

namespace Command

variable (log : List Notice → String) (path : String) {config : Config} {script : Script} {t : Turn}

theorem played_of_ended {ending : Ending}
    (h : (Session.start script.document config {}).run = some t) (hv : t.verdict = .ended ending) :
    ∃ output, played log path config (.ok script) = some { exit := exitCode ending, output } := by
  obtain ⟨verdict, session, done⟩ := t
  obtain rfl : verdict = .ended ending := hv
  simp only [played, Player.play_of_run (p := ⟨config⟩) h Verdict.noConfusion]
  exact ⟨_, rfl⟩

theorem played_of_panicked {cause : Panic}
    (h : (Session.start script.document config {}).run = some t) (hv : t.verdict = .panicked cause) :
    played log path config (.ok script) = none := by
  by_cases ha : t.verdict = .panicked .abort
  · have hplay : (Player.mk config).play script.document {} false = none := by
      have hbind : (Session.start script.document config {}).run.bind Turn.answer? = none := by
        rw [h, Option.bind_some, Turn.answer?, if_pos ha]
      exact congrArg (Option.map Report.ofTurn) hbind
    simp only [played, hplay]
    rfl
  · obtain ⟨verdict, session, done⟩ := t
    obtain rfl : verdict = .panicked cause := hv
    simp only [played, Player.play_of_run (p := ⟨config⟩) h ha]
    rfl

/-- The program plays a script to its end and says by its exit code how that was. It comes to nothing
only in a panic because the time is at its end. -/
theorem played_of_boundsFit (hb : script.document.BoundsFit) :
    let s := Session.start script.document config {}
    (∃ t ending transcript, s.run = some t ∧ t.verdict = .ended ending ∧
        played log path config (.ok script) = some transcript ∧
        (transcript.exit = 0 ↔ ∃ outcome, ending = .played outcome)) ∨
      played log path config (.ok script) = none ∧
        ∃ n, timeLimit ≤ (s.after (Move.ticks n)).stage.now + (s.after (Move.ticks n)).lasts := by
  intro s
  obtain ⟨t, ht⟩ := Session.exists_run (s := s) hb
  obtain ⟨n, -, -, hended⟩ := Session.ended_of_run (s := s) rfl (Nat.le_max_right ..) ht
  obtain ⟨ending, hv⟩ | ⟨⟨cause, hv⟩, hspent⟩ := hended
  · obtain ⟨output, hplayed⟩ := played_of_ended log path ht hv
    refine .inl ⟨t, ending, _, ht, hv, hplayed, ?_⟩
    cases ending <;> simp [exitCode]
  · exact .inr ⟨played_of_panicked log path ht hv, n, hspent⟩

end Command

end ChordScript
