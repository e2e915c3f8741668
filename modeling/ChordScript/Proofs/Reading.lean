import Mathlib.Data.List.Induction
import ChordScript.Script
import ChordScript.Proofs.Expansion
import ChordScript.Proofs.Success

namespace ChordScript

namespace Line

def actions (number : Nat) : Line → List Action
  | silent => []
  | notes tokens => tokens.map (·.action number)
  | directive d =>
    match d.keyword with
    | .stop | .set => []
    | _ => [⟨number, .obey d⟩]

def defining (vs : Variables) : Line → Except LineError Variables
  | directive d =>
    if d.keyword = .set then vs.define (d.args.headD []) (Text.joinFields d.args.tail) else .ok vs
  | _ => .ok vs

def stops : Line → Bool
  | directive d => d.keyword = .stop
  | _ => false

def through (vs : Variables) (raw : Text) : Except LineError Variables := read vs raw >>= (·.defining vs)

def isSilent (raw : Text) : Bool := raw = [] || raw.head? = some '#'

theorem read_of_silent {raw : Text} (h : isSilent raw = true) (vs : Variables) :
    read vs raw = .ok silent := by
  cases raw with
  | nil => rfl
  | cons c s =>
      obtain rfl : c = '#' := by simpa [isSilent] using h
      rfl

theorem read_of_not_silent {raw : Text} (h : isSilent raw = false) (vs : Variables) :
    read vs raw = (vs.expand raw >>= ofExpanded) := by
  rw [read]
  · rintro rfl
    cases h
  · rintro s rfl
    simp [isSilent] at h

theorem line_of_mem_actions {l : Line} {number : Nat} {a : Action} (h : a ∈ l.actions number) :
    a.line = number := by
  cases l with
  | silent => cases h
  | notes tokens =>
      obtain ⟨t, -, rfl⟩ := List.mem_map.mp h
      unfold Token.action
      split <;> rfl
  | directive d =>
      simp only [actions] at h
      split at h
      · cases h
      · cases h
      · rw [List.mem_singleton.mp h]

end Line

namespace Variables

variable {vs vs' : Variables}

theorem define_eq_ok {name value : Text} (h : vs.define name value = .ok vs') :
    vs.get? name = none ∧ vs'.entries = vs.entries ++ [(name, value)] := by
  unfold define at h
  split at h
  · cases h
  · next hg =>
      cases h
      exact ⟨hg, rfl⟩

theorem Extends.read {raw : Text} {l : Line} (h : vs'.Extends vs) (hl : Line.read vs raw = .ok l) :
    Line.read vs' raw = .ok l := by
  cases hs : Line.isSilent raw with
  | true => rwa [Line.read_of_silent hs] at hl ⊢
  | false =>
      rw [Line.read_of_not_silent hs] at hl ⊢
      obtain ⟨t, ht, hl⟩ := ok_of_bind hl
      rw [h.expand ht]
      exact hl

end Variables

theorem Line.defining_eq_ok {l : Line} {vs vs' : Variables} (h : l.defining vs = .ok vs') :
    vs' = vs ∨ ∃ d, l = directive d ∧
      vs'.entries = vs.entries ++ [(d.args.headD [], Text.joinFields d.args.tail)] := by
  cases l with
  | silent | notes tokens =>
      cases h
      exact .inl rfl
  | directive d =>
      simp only [defining] at h
      split at h
      · exact .inr ⟨d, rfl, (Variables.define_eq_ok h).2⟩
      · cases h
        exact .inl rfl

theorem Line.defining_extends {l : Line} {vs vs' : Variables} (h : l.defining vs = .ok vs') :
    vs'.Extends vs := by
  rcases defining_eq_ok h with rfl | ⟨d, -, he⟩
  · exact .refl _
  · exact ⟨_, he⟩

namespace Draft

def next (d : Draft) (l : Line) (vars : Variables) : Draft :=
  ⟨d.lines + 1, d.actions ++ l.actions (d.lines + 1), vars,
    if l.stops then some (d.lines + 1) else none⟩

/-- What reading a further line comes to. -/
inductive Added (d : Draft) (raw : Text) : Draft → Prop
  | past (hs : d.stoppedAt.isSome = true) : Added d raw d
  | read {l : Line} {vars : Variables} (hs : d.stoppedAt = none)
      (hl : Line.read d.vars raw = .ok l) (hv : l.defining d.vars = .ok vars) :
      Added d raw (d.next l vars)

variable {d d' : Draft} {raw : Text} {ls : List Text}

theorem take_eq (hs : d.stoppedAt = none) (l : Line) :
    d.take l = (l.defining d.vars).map fun vars =>
      ⟨d.lines, d.actions ++ l.actions d.lines, vars, if l.stops then some d.lines else none⟩ := by
  obtain ⟨lines, actions, vars, stoppedAt⟩ := d
  obtain rfl : stoppedAt = none := hs
  cases l with
  | silent => simp [take, Line.defining, Line.actions, Line.stops, Except.map]
  | notes tokens => simp [take, Line.defining, Line.actions, Line.stops, Except.map]
  | directive dir =>
      cases hk : dir.keyword <;>
        simp [take, Line.defining, Line.actions, Line.stops, Except.map, hk]

theorem add_eq (hs : d.stoppedAt = none) (raw : Text) : d.add raw =
    match Line.read d.vars raw with
    | .error e => .error (e.atLine (d.lines + 1))
    | .ok l =>
      match l.defining d.vars with
      | .error e => .error (e.atLine (d.lines + 1))
      | .ok vars => .ok (d.next l vars) := by
  rw [add, if_neg (by simp [hs])]
  cases Line.read d.vars raw with
  | error e => rfl
  | ok l =>
      have ht := take_eq (d := { d with lines := d.lines + 1 }) hs l
      simp only [Except.bind, ht]
      cases l.defining d.vars <;> rfl

theorem add_of_stopped (hs : d.stoppedAt.isSome = true) (raw : Text) : d.add raw = .ok d := by
  rw [add, if_pos hs]

theorem added_of_add (h : d.add raw = .ok d') : Added d raw d' := by
  cases hs : d.stoppedAt with
  | some n =>
      have hs' : d.stoppedAt.isSome = true := by rw [hs]; rfl
      rw [add_of_stopped hs'] at h
      cases h
      exact .past hs'
  | none =>
      rw [add_eq hs] at h
      split at h
      · cases h
      · next hl =>
          split at h
          · cases h
          · next hv =>
              cases h
              exact .read hs hl hv

theorem Added.add (h : Added d raw d') : d.add raw = .ok d' := by
  cases h with
  | past hs => exact add_of_stopped hs raw
  | read hs hl hv => simp only [add_eq hs, hl, hv]

/-- What is wrong with a further line. -/
inductive Refused (d : Draft) (raw : Text) : CompileError → Prop
  | unread {e : LineError} (hs : d.stoppedAt = none) (hl : Line.read d.vars raw = .error e) :
      Refused d raw (e.atLine (d.lines + 1))
  | undefined {l : Line} {e : LineError} (hs : d.stoppedAt = none)
      (hl : Line.read d.vars raw = .ok l) (hv : l.defining d.vars = .error e) :
      Refused d raw (e.atLine (d.lines + 1))

theorem refused_of_add {e : CompileError} (h : d.add raw = .error e) : Refused d raw e := by
  cases hs : d.stoppedAt with
  | some n =>
      rw [add_of_stopped (by rw [hs]; rfl)] at h
      cases h
  | none =>
      rw [add_eq hs] at h
      split at h
      · next hl =>
          cases h
          exact .unread hs hl
      · next hl =>
          split at h
          · next hv =>
              cases h
              exact .undefined hs hl hv
          · cases h

theorem Refused.add {e : CompileError} (h : Refused d raw e) : d.add raw = .error e := by
  cases h with
  | unread hs hl => simp only [add_eq hs, hl]
  | undefined hs hl hv => simp only [add_eq hs, hl, hv]

theorem add_eq_error_iff {e : CompileError} : d.add raw = .error e ↔
    d.stoppedAt = none ∧ Line.through d.vars raw = .error e.toLineError ∧ e.line = d.lines + 1 := by
  constructor
  · intro h
    cases refused_of_add h with
    | unread hs hl => exact ⟨hs, by rw [Line.through, hl]; rfl, rfl⟩
    | undefined hs hl hv => exact ⟨hs, by rw [Line.through, hl]; exact hv, rfl⟩
  · rintro ⟨hs, ht, hline⟩
    obtain ⟨e, line⟩ := e
    obtain rfl : line = d.lines + 1 := hline
    rcases error_of_bind ht with hl | ⟨l, hl, hv⟩
    · exact (Refused.unread hs hl).add
    · exact (Refused.undefined hs hl hv).add

theorem Added.stoppedAt_eq_none (h : Added d raw d') (hs : d'.stoppedAt = none) :
    d.stoppedAt = none := by
  cases h with
  | past => exact hs
  | read hn => exact hn

theorem foldlM_of_stopped (hs : d.stoppedAt.isSome = true) (ls : List Text) :
    ls.foldlM add d = .ok d := by
  induction ls with
  | nil => rfl
  | cons raw ls ih =>
      rw [List.foldlM_cons, (Added.past hs).add]
      exact ih

/-- What reading lines from the first on comes to. -/
inductive Reads : List Text → Draft → Prop
  | nil : Reads [] {}
  | snoc {ls : List Text} {raw : Text} {d d' : Draft} (h : Reads ls d) (ha : Added d raw d') :
      Reads (ls ++ [raw]) d'

theorem reads_of_foldlM (h : ls.foldlM add {} = .ok d) : Reads ls d := by
  induction ls using List.reverseRecOn generalizing d with
  | nil =>
      cases h
      exact .nil
  | append_singleton ls raw ih =>
      rw [List.foldlM_append] at h
      obtain ⟨e, he, ha⟩ := ok_of_bind h
      obtain ⟨d', ha, h⟩ := ok_of_bind ha
      cases h
      exact .snoc (ih he) (added_of_add ha)

theorem Reads.foldlM (h : Reads ls d) : ls.foldlM add {} = .ok d := by
  induction h with
  | nil => rfl
  | @snoc ls raw d d' _ ha ih =>
      rw [List.foldlM_append, ih]
      change [raw].foldlM add d = _
      rw [List.foldlM_cons, ha.add]
      rfl

theorem Added.vars_extends (h : Added d raw d') : d'.vars.Extends d.vars := by
  cases h with
  | past => exact .refl _
  | read hs hl hv => exact Line.defining_extends hv

theorem Added.lines (h : Added d raw d') : d.lines ≤ d'.lines ∧ d'.lines ≤ d.lines + 1 := by
  cases h with
  | past => exact ⟨Nat.le_refl _, Nat.le_succ _⟩
  | read => exact ⟨Nat.le_succ _, Nat.le_refl _⟩

theorem Added.actions (h : Added d raw d') : ∃ new, d'.actions.toList = d.actions.toList ++ new ∧
    ∀ a ∈ new, a.line = d.lines + 1 ∧ d'.lines = d.lines + 1 := by
  cases h with
  | past => exact ⟨[], by simp⟩
  | @read l vars hs hl hv =>
      exact ⟨l.actions (d.lines + 1), by simp [next], fun a ha => ⟨Line.line_of_mem_actions ha, rfl⟩⟩

theorem Reads.lines_le (h : Reads ls d) : d.lines ≤ ls.length := by
  induction h with
  | nil => exact Nat.le_refl _
  | snoc h ha ih =>
      rw [List.length_append]
      exact Nat.le_trans ha.lines.2 (Nat.succ_le_succ ih)

theorem Reads.lines_eq (h : Reads ls d) (hs : d.stoppedAt = none) : d.lines = ls.length := by
  induction h with
  | nil => rfl
  | snoc h ha ih =>
      cases ha with
      | past hp => simp [hs] at hp
      | read hn => rw [List.length_append, ← ih hn, next, List.length_singleton]

theorem Reads.line_bounds (h : Reads ls d) : ∀ a ∈ d.actions.toList, 1 ≤ a.line ∧ a.line ≤ d.lines := by
  induction h with
  | nil => simp
  | snoc h ha ih =>
      obtain ⟨new, hnew, hline⟩ := ha.actions
      rw [hnew, List.forall_mem_append]
      refine ⟨fun a hm => ⟨(ih a hm).1, Nat.le_trans (ih a hm).2 ha.lines.1⟩, fun a hm => ?_⟩
      obtain ⟨hl, hd⟩ := hline a hm
      omega

theorem Reads.ordered (h : Reads ls d) : d.actions.toList.Pairwise (·.line ≤ ·.line) := by
  induction h with
  | nil => exact .nil
  | snoc h ha ih =>
      obtain ⟨new, hnew, hline⟩ := ha.actions
      rw [hnew, List.pairwise_append]
      refine ⟨ih, List.pairwise_of_forall_mem_list fun a hm b hm' => ?_, fun a hm b hm' => ?_⟩
      · rw [(hline a hm).1, (hline b hm').1]
      · have hb := (h.line_bounds a hm).2
        rw [(hline b hm').1]
        omega

/-- The block of a line that was read, and where it stands among the actions. -/
theorem Reads.block (h : Reads ls d) {n : Nat} (hn : n < d.lines) :
    ∃ raw l before after, ls[n]? = some raw ∧ Line.read d.vars raw = .ok l ∧
      d.actions.toList = before ++ (l.actions (n + 1) ++ after) ∧
      (∀ a ∈ before, a.line < n + 1) ∧ ∀ a ∈ after, n + 1 < a.line := by
  induction h with
  | nil => exact absurd hn (Nat.not_lt_zero n)
  | @snoc ls raw d d' h ha ih =>
      -- An earlier line is read again as it was, for it knew the variables that it uses.
      have hold (hd : n < d.lines) : ∃ raw' l before after, (ls ++ [raw])[n]? = some raw' ∧
          Line.read d'.vars raw' = .ok l ∧
          d.actions.toList = before ++ (l.actions (n + 1) ++ after) ∧
          (∀ a ∈ before, a.line < n + 1) ∧ ∀ a ∈ after, n + 1 < a.line := by
        obtain ⟨raw', l, before, after, hr, hl, hb⟩ := ih hd
        refine ⟨raw', l, before, after, ?_, ha.vars_extends.read hl, hb⟩
        rw [List.getElem?_append_left (List.getElem?_eq_some_iff.mp hr).1, hr]
      cases ha with
      | past => exact hold hn
      | @read l vars hs hl hv =>
          by_cases hd : n < d.lines
          · obtain ⟨raw', l', before, after, hr, hl', hb, hbefore, hafter⟩ := hold hd
            refine ⟨raw', l', before, after ++ l.actions (d.lines + 1), hr, hl', ?_, hbefore, ?_⟩
            · simp [next, hb]
            · rw [List.forall_mem_append]
              refine ⟨hafter, fun a hm => ?_⟩
              rw [Line.line_of_mem_actions hm]
              omega
          · obtain rfl : n = d.lines := Nat.le_antisymm (Nat.le_of_lt_succ hn) (Nat.le_of_not_lt hd)
            refine ⟨raw, l, d.actions.toList, [], ?_, (Line.defining_extends hv).read hl, ?_, ?_, ?_⟩
            · rw [h.lines_eq hs, List.getElem?_concat_length]
            · simp [next]
            · exact fun a hm => Nat.lt_succ_of_le (h.line_bounds a hm).2
            · simp

end Draft

variable {source : Text} {s : Script}

theorem Script.reads_of_compile (h : Script.compile source = .ok s) :
    ∃ d, Draft.Reads source.lines d ∧ s = .ofDraft d := by
  obtain ⟨d, hd, rfl⟩ := ok_of_map h
  exact ⟨d, Draft.reads_of_foldlM hd, rfl⟩

end ChordScript
