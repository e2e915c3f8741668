import ChordScript.Proofs.Account
import ChordScript.Proofs.Jumps

namespace ChordScript

structure Record where
  level : Level
  message : String
  fields : List (String × String)
deriving DecidableEq

def FieldValue.plain : FieldValue → String
  | text s => String.ofList s
  | shown s => s

def Notice.record (n : Notice) : Record :=
  ⟨n.level, n.message, n.fields.map fun (name, value) => (name, value.plain)⟩

def Turn.log (t : Turn) (l : Level) : List Record :=
  (l.capture (Effect.notices t.done)).map Notice.record

namespace KeyEvent

def typedRecord : KeyEvent → Record
  | press k => ⟨.info, "press", [("key", k.toString)]⟩
  | release k => ⟨.info, "release", [("key", k.toString)]⟩
  | shiftDown => ⟨.info, "press", [("modifier", "Shift")]⟩
  | shiftUp => ⟨.info, "release", [("modifier", "Shift")]⟩

def sentRecord : KeyEvent → Record
  | press k => ⟨.trace, "key down", [("key", k.toString)]⟩
  | release k => ⟨.trace, "key up", [("key", k.toString)]⟩
  | shiftDown => ⟨.trace, "shift down", []⟩
  | shiftUp => ⟨.trace, "shift up", []⟩

/-- Records of the sink tell apart all that records of the player do. -/
theorem sentRecord_eq {e e' : KeyEvent} (h : e.typedRecord = e'.typedRecord) :
    e.sentRecord = e'.sentRecord := by
  cases e <;> cases e' <;> simp_all [typedRecord, sentRecord]

end KeyEvent

def Directive.record (line : Nat) (d : Directive) : Record :=
  ⟨.debug, "directive", [("line", toString line), ("kind", d.keyword.name),
    ("args", String.ofList (Text.quotedList d.args))]⟩

def Ending.record (cursor : Nat) : Ending → Record
  | played outcome =>
    ⟨.info, "playback ended", [("outcome", outcome.name), ("cursor", toString cursor)]⟩
  | failed error => ⟨.info, "playback failed", [("err", error.display)]⟩

namespace Record

def opening (actions tempo : Nat) : Record :=
  ⟨.info, "playback started", [("actions", toString actions), ("bpm", toString tempo)]⟩

def isKey (r : Record) : Bool := r.level = .info && (r.message = "press" || r.message = "release")

def isDirective (r : Record) : Bool := r.level = .debug && r.message = "directive"

def isJump (r : Record) : Bool := r.level = .debug && r.message = "jump"

/-- A jump that was too much for its counter. -/
def isLost (r : Record) : Bool := r.isJump && r.fields.contains ("repeat", "0")

def isOutermost (r : Record) : Bool :=
  ["playback started", "playback ended", "playback failed"].contains r.message

end Record

namespace Notice

variable {n : Notice}

theorem guard_isKey (h : n.isMeanwhile = true) :
    (if n.record.isKey then some n.record else none) = n.typed?.map KeyEvent.typedRecord := by
  cases n with
  | sending e | typed e => cases e <;> rfl
  | obeying line d | jumping tag repeats bound => rfl
  | _ => cases h

theorem guard_isDirective (h : n.isMeanwhile = true) :
    (if n.record.isDirective then some n.record else none) =
      n.obeyed?.map fun (line, d) => d.record line := by
  cases n with
  | sending e | typed e => cases e <;> rfl
  | obeying line d | jumping tag repeats bound => rfl
  | _ => cases h

theorem isJump_record (h : n.isMeanwhile = true) : n.record.isJump = n.isJump := by
  cases n with
  | sending e | typed e => cases e <;> rfl
  | obeying line d | jumping tag repeats bound => rfl
  | _ => cases h

theorem isOutermost_record (h : n.isMeanwhile = true) : n.record.isOutermost = false := by
  cases n with
  | sending e | typed e => cases e <;> rfl
  | obeying line d | jumping tag repeats bound => rfl
  | _ => cases h

theorem isLost_record (h : n.isMeanwhile = true) : n.record.isLost = n.restarts := by
  cases n with
  | sending e | typed e => cases e <;> rfl
  | obeying line d => rfl
  | jumping tag repeats bound =>
      have hwritten : "0" = String.ofList (Text.decimal 0) := rfl
      have hzero : repeats.repr = "0" ↔ repeats = 0 := by
        rw [hwritten]
        exact String.ofList_inj.trans Text.decimal_inj
      rw [Record.isLost, isJump_record h, Bool.eq_iff_iff]
      simpa [record, fields, FieldValue.plain, isJump, restarts, eq_comm] using hzero
  | _ => cases h

theorem record_typed (e : KeyEvent) : (Notice.typed e).record = e.typedRecord := by
  cases e <;> rfl

theorem record_sending (e : KeyEvent) : (Notice.sending e).record = e.sentRecord := by
  cases e <;> rfl

end Notice

theorem filter_records {α : Type} {p : Record → Bool} {f : Notice → Option α} {g : α → Record}
    {ns : List Notice}
    (h : ∀ n ∈ ns, (if p n.record then some n.record else none) = (f n).map g) :
    (ns.map Notice.record).filter p = (ns.filterMap f).map g := by
  rw [← List.filterMap_eq_filter, List.filterMap_map, List.map_filterMap]
  exact List.filterMap_congr fun n hn => h n hn

theorem count_records {p : Record → Bool} {q : Notice → Bool} {ns : List Notice}
    (h : ∀ n ∈ ns, p n.record = q n) : (ns.map Notice.record).countP p = ns.countP q := by
  rw [List.countP_map]
  exact List.countP_congr fun n hn => by simp [h n hn]

theorem record_notice (ending : Ending) (cursor : Nat) :
    (ending.notice cursor).record = ending.record cursor := by
  cases ending <;> rfl

theorem log_trace (t : Turn) : t.log .trace = (Effect.notices t.done).map Notice.record := by
  have hall (n : Notice) : decide (n.level.verbosity ≤ Level.trace.verbosity) = true := by
    cases n.level <;> rfl
  rw [Turn.log, Level.capture, List.filter_eq_self.mpr fun n _ => hall n]

theorem log_eq_filter (t : Turn) (l : Level) :
    t.log l = (t.log .trace).filter fun r => r.level.verbosity ≤ l.verbosity := by
  rw [log_trace, List.filter_map]
  rfl

theorem Turn.mem_closing {t : Turn} {n : Notice} (h : n ∈ t.closing) :
    ∃ ending cursor, n = Ending.notice cursor ending := by
  unfold closing at h
  split at h
  · exact ⟨_, _, List.mem_singleton.mp h⟩
  · cases h

theorem typed_of_record {s : Session} {t : Turn} {ns : List Notice} {n : Notice} {e : KeyEvent}
    (hns : ∀ n ∈ ns, n.isMeanwhile = true) (hn : n ∈ s.started :: ns ++ t.closing)
    (h : n.record = e.typedRecord) : ∃ e', n = .typed e' := by
  have hkey : n.record.isKey = true := by
    rw [h]
    cases e <;> rfl
  rcases List.mem_append.mp hn with hn | hn
  · rcases List.mem_cons.mp hn with rfl | hn
    · cases hkey
    · have hguard := Notice.guard_isKey (hns n hn)
      rw [if_pos hkey] at hguard
      cases n with
      | typed e' => exact ⟨e', rfl⟩
      | _ => cases hguard
  · obtain ⟨ending, cursor, rfl⟩ := t.mem_closing hn
    cases ending <;> cases hkey

theorem paired_run {s : Session} {ns : List Notice} (h : Paired ns) (t : Turn) :
    Paired (s.started :: ns ++ t.closing) := by
  have hfirst : Paired [s.started] := paired_of_typed rfl
  have hlast : Paired t.closing := by
    refine paired_of_typed (List.filterMap_eq_nil_iff.mpr fun n hn => ?_)
    obtain ⟨ending, cursor, rfl⟩ := t.mem_closing hn
    cases ending <;> rfl
  exact (hfirst.append h).append hlast

namespace Session

/-- What the log of a run tells of it. -/
structure Recorded (s : Session) (t : Turn) : Prop where
  ended : ∀ ending, t.verdict = .ended ending → ∃ middle,
    t.log .trace = Record.opening s.document.actions.size s.head.tempo :: middle ++
      [ending.record t.session.head.cursor] ∧ ∀ r ∈ middle, r.isOutermost = false
  panicked : ∀ cause, t.verdict = .panicked cause → ∃ middle,
    t.log .trace = Record.opening s.document.actions.size s.head.tempo :: middle ∧
      ∀ r ∈ middle, r.isOutermost = false
  keys : (t.log .trace).filter Record.isKey = (Effect.events t.done).map KeyEvent.typedRecord
  announced : ∀ (before : List Record) (e : KeyEvent) (after : List Record),
    t.log .trace = before ++ e.typedRecord :: after → ∃ earlier, before = earlier ++ [e.sentRecord]
  directives : ∃ n, t.session = s.after (Move.ticks n) ∧
    (t.log .trace).filter Record.isDirective = (s.obeyedIn n).map fun (line, d) => d.record line
  /-- All jumps are recorded, while a counter that starts again from 0 has lost those it counted. -/
  jumps : (t.log .trace).countP Record.isJump =
    t.session.head.jumps.total + UInt32.size * (t.log .trace).countP Record.isLost
  fits : s.document.BoundsFit → (t.log .trace).countP Record.isLost = 0
  coarser : ∀ l, t.log l = (t.log .trace).filter fun r => r.level.verbosity ≤ l.verbosity

variable {s : Session} {t : Turn} {ns : List Notice}

theorem log_of_notices (h : Effect.notices t.done = s.started :: ns ++ t.closing) :
    t.log .trace = Record.opening s.document.actions.size s.head.tempo ::
      ns.map Notice.record ++ t.closing.map Notice.record := by
  rw [log_trace, h, List.map_append]
  rfl

theorem filter_of_notices (h : Effect.notices t.done = s.started :: ns ++ t.closing)
    {p : Record → Bool} (ho : ∀ actions tempo, p (.opening actions tempo) = false)
    (he : ∀ ending cursor, p (Ending.record cursor ending) = false) :
    (t.log .trace).filter p = (ns.map Notice.record).filter p := by
  have hlast : (t.closing.map Notice.record).filter p = [] := by
    refine List.filter_eq_nil_iff.mpr fun r hr => ?_
    obtain ⟨n, hn, rfl⟩ := List.mem_map.mp hr
    obtain ⟨ending, cursor, rfl⟩ := t.mem_closing hn
    rw [record_notice, he]
    exact Bool.false_ne_true
  rw [log_of_notices h, List.filter_append, hlast, List.append_nil, List.filter_cons, ho,
    if_neg Bool.false_ne_true]

theorem count_of_notices (h : Effect.notices t.done = s.started :: ns ++ t.closing)
    {p : Record → Bool} (ho : ∀ actions tempo, p (.opening actions tempo) = false)
    (he : ∀ ending cursor, p (Ending.record cursor ending) = false) :
    (t.log .trace).countP p = (ns.map Notice.record).countP p := by
  rw [List.countP_eq_length_filter, filter_of_notices h ho he, List.countP_eq_length_filter]

theorem recorded_of_run (hlive : s.phase.ending? = none) (hj : s.head.jumps = [])
    (h : s.run = some t) : s.Recorded t := by
  have hcounting : s.head.jumps.Counting := by
    rw [hj]
    exact ⟨.nil, fun _ => Nat.two_pow_pos 32⟩
  obtain ⟨n, ns, hsession, hnotices, haccount⟩ := run_account hlive hcounting h
  have hmeanwhile := haccount.meanwhile
  have hmiddle : ∀ r ∈ ns.map Notice.record, r.isOutermost = false := by
    intro r hr
    obtain ⟨n, hn, rfl⟩ := List.mem_map.mp hr
    exact Notice.isOutermost_record (hmeanwhile n hn)
  have hlog := log_of_notices hnotices
  have hlost : (t.log .trace).countP Record.isLost = ns.countP Notice.restarts := by
    rw [count_of_notices hnotices (fun _ _ => rfl) (fun ending _ => by cases ending <;> rfl)]
    exact count_records fun n hn => Notice.isLost_record (hmeanwhile n hn)
  refine ⟨?_, ?_, ?_, ?_, ⟨n, hsession, ?_⟩, ?_, ?_, log_eq_filter t⟩
  · intro ending hv
    refine ⟨_, ?_, hmiddle⟩
    rw [hlog, Turn.closing, hv, List.map_singleton, record_notice]
  · intro cause hv
    refine ⟨_, ?_, hmiddle⟩
    rw [hlog, Turn.closing, hv, List.map_nil, List.append_nil]
  · rw [filter_of_notices hnotices (fun _ _ => rfl) (fun ending _ => by cases ending <;> rfl),
      filter_records fun n hn => Notice.guard_isKey (hmeanwhile n hn), haccount.keys]
  · intro before e after hsplit
    rw [log_trace, hnotices] at hsplit
    obtain ⟨left, n, right, hall, rfl, he, -⟩ := map_eq_mid hsplit
    have hn : n ∈ s.started :: ns ++ t.closing := by
      rw [hall]
      exact List.mem_append_right _ List.mem_cons_self
    obtain ⟨e', rfl⟩ := typed_of_record hmeanwhile hn he.symm
    obtain ⟨earlier, rfl⟩ := paired_run haccount.paired t _ _ _ hall
    rw [Notice.record_typed] at he
    exact ⟨earlier.map Notice.record, by
      rw [List.map_append, List.map_singleton, Notice.record_sending, KeyEvent.sentRecord_eq he]⟩
  · rw [filter_of_notices hnotices (fun _ _ => rfl) (fun ending _ => by cases ending <;> rfl),
      filter_records fun n hn => Notice.guard_isDirective (hmeanwhile n hn), haccount.directives]
  · rw [hlost, count_of_notices hnotices (fun _ _ => rfl) (fun ending _ => by cases ending <;> rfl),
      count_records fun n hn => Notice.isJump_record (hmeanwhile n hn), ← haccount.jumps, hj]
    rfl
  · exact fun hb => hlost.trans (haccount.fits hb)

/-- The log is an account of the run. It tells all events as the sink takes them, all directives as
they are carried out, and all jumps. The run is over at some time if its jumps can be counted, and
what is over has ended unless the time for the last tick was not left. -/
theorem log_accounts (document : Document) (config : Config) (sink : Sink)
    (hp : sink.panicAt = none) :
    let s := start document config sink
    (∀ t, s.run = some t → s.Recorded t ∧ ∃ n, t.session = s.after (Move.ticks (n + 1)) ∧
      let u := s.after (Move.ticks n)
      (∃ ending, t.verdict = .ended ending) ∨
        (∃ cause, t.verdict = .panicked cause) ∧ timeLimit ≤ u.stage.now + u.lasts) ∧
      (document.BoundsFit → ∃ t, s.run = some t ∧
        (t.log .trace).countP Record.isJump = t.session.head.jumps.total) := by
  intro s
  have hrecorded (t : Turn) (h : s.run = some t) : s.Recorded t := recorded_of_run rfl rfl h
  constructor
  · intro t h
    obtain ⟨n, hsession, -, hended⟩ := ended_of_run (s := s) hp (Nat.le_max_right ..) h
    exact ⟨hrecorded t h, n, hsession, hended⟩
  · intro hb
    obtain ⟨t, ht⟩ := exists_run (s := s) hb
    have h := hrecorded t ht
    refine ⟨t, ht, ?_⟩
    rw [h.jumps, h.fits hb]
    rfl

theorem log_accounts_twice :
    let d : Directive := ⟨.goto, [['x'], ['1']]⟩
    let doc : Document := ⟨#[⟨1, .play [.single 'A']⟩, ⟨2, .obey d⟩], ⟨[(['x'], 0)]⟩⟩
    doc.BoundsFit ∧ ∃ t, (start doc {} {}).run = some t ∧ (start doc {} {}).Recorded t ∧
      t.log .debug = [.opening 2 120] ++ (Chord.single 'A').block.map KeyEvent.typedRecord ++
        [d.record 2, ⟨.debug, "jump", [("tag", "x"), ("repeat", "1"), ("bound", "1")]⟩] ++
        (Chord.single 'A').block.map KeyEvent.typedRecord ++ [d.record 2] ++
        [Ending.record 2 (.played .finished)] := by
  intro d doc
  have hb : ∀ a ∈ doc.actions, ∀ n ∈ a.bound?, n < UInt32.size := by decide
  have hruns : (start doc {} {}).RunsFor 4 := by decide +kernel
  have hrun := run_of_runsFor hruns
  refine ⟨hb, _, hrun, ((log_accounts doc {} {} rfl).1 _ hrun).1, ?_⟩
  decide +kernel

/-- Notes that are held as long as can be. -/
theorem log_without_end :
    let s := start (.ofActions #[⟨1, .play (List.replicate 1001 (.single 'a'))⟩])
      { keyHoldMs := 18446744073709551615 } {}
    ∃ t, s.run = some t ∧ t.verdict = .panicked .clock ∧
      ∀ l, ∀ r ∈ t.log l, r.message ≠ "playback ended" ∧ r.message ≠ "playback failed" := by
  intro s
  have hv := (tick_overruns (s := s) ⟨rfl, rfl, rfl⟩ rfl rfl rfl rfl (by decide)).1
  obtain ⟨t, ht, hverdict⟩ := run_of_panicked hv
  have h := recorded_of_run rfl rfl ht
  obtain ⟨middle, hlog, hmiddle⟩ := h.panicked _ hverdict
  refine ⟨t, ht, hverdict, fun l r hr => ?_⟩
  rw [h.coarser, hlog] at hr
  rcases List.mem_cons.mp (List.mem_of_mem_filter hr) with rfl | hr
  · exact ⟨by simp [Record.opening], by simp [Record.opening]⟩
  · have ho := hmiddle r hr
    simp only [Record.isOutermost] at ho
    constructor <;>
      · intro he
        simp [he] at ho

end Session

end ChordScript
