import ChordScript.Proofs.Prefixes
import ChordScript.Proofs.Renumbering
import ChordScript.Proofs.WellFormed

namespace ChordScript

/-- The one table has further entries behind the first ones, of names that the other does not know. -/
structure Variables.Spliced (first extra : List (Text × Text)) (vs vs' : Variables) : Prop where
  entries : ∃ rest, vs.entries = first ++ rest ∧ vs'.entries = first ++ (extra ++ rest)
  unknown : ∀ e ∈ extra, vs.get? e.1 = none

namespace Variables

variable {first extra : List (Text × Text)} {vs vs' us : Variables} {name value : Text}

theorem Spliced.get? (h : Spliced first extra vs vs') (hn : ∀ e ∈ extra, e.1 ≠ name) :
    vs'.get? name = vs.get? name := by
  obtain ⟨rest, he, he'⟩ := h.entries
  have hx : extra.lookup name = none :=
    List.lookup_eq_none_iff.mpr fun e hm => by simpa using fun h => hn e hm h.symm
  rw [Variables.get?, Variables.get?, he, he', List.lookup_append, List.lookup_append,
    List.lookup_append, hx, Option.none_or]

theorem Spliced.ne_of_some (h : Spliced first extra vs vs') (hg : vs.get? name = some value) :
    ∀ e ∈ extra, e.1 ≠ name := by
  rintro e he rfl
  rw [h.unknown e he] at hg
  cases hg

theorem Spliced.forall_entries (h : Spliced first extra vs vs') {P : Text × Text → Prop}
    (hv : ∀ e ∈ vs'.entries, P e) : ∀ e ∈ vs.entries, P e := by
  obtain ⟨rest, he, he'⟩ := h.entries
  rw [he', List.forall_mem_append, List.forall_mem_append] at hv
  rw [he, List.forall_mem_append]
  exact ⟨hv.1, hv.2.2⟩

theorem Spliced.read (h : Spliced first extra vs vs') (hv : ∀ e ∈ vs'.entries, BraceFree e.2)
    {raw : Text} (hraw : Line.isSilent raw = false → ∀ e ∈ extra, ¬ useOf e.1 <:+: raw) :
    Line.read vs' raw = Line.read vs raw := by
  cases hs : Line.isSilent raw with
  | true => rw [Line.read_of_silent hs, Line.read_of_silent hs]
  | false =>
      have hx : vs'.expand raw = vs.expand raw := by
        refine expand_congr (h.forall_entries hv) hv fun name hname => h.get? ?_
        rintro e he rfl
        exact hraw hs e he hname
      rw [Line.read_of_not_silent hs, Line.read_of_not_silent hs, hx]

theorem define_of_some (hg : vs.get? name = some value) (v : Text) :
    vs.define name v = .error ⟨.duplicateVariable name, 0⟩ := by
  simp only [define, hg]

theorem define_of_none (hg : vs.get? name = none) (v : Text) :
    vs.define name v = .ok ⟨vs.entries ++ [(name, v)]⟩ := by
  simp only [define, hg]

theorem Spliced.defining_error (h : Spliced first extra vs vs') {l : Line} {e : LineError}
    (hl : l.defining vs = .error e) : l.defining vs' = .error e := by
  cases l with
  | silent | notes => cases hl
  | directive d =>
      simp only [Line.defining] at hl ⊢
      split at hl
      · next hk =>
          cases hg : vs.get? (d.args.headD []) with
          | none =>
              rw [define_of_none hg] at hl
              cases hl
          | some value =>
              rw [define_of_some hg] at hl
              rw [if_pos hk, define_of_some ((h.get? (h.ne_of_some hg)).trans hg), hl]
      · cases hl

theorem Spliced.defining_ok (h : Spliced first extra vs vs') {l : Line} (hl : l.defining vs = .ok us)
    (hu : ∀ e ∈ extra, us.get? e.1 = none) :
    ∃ us', l.defining vs' = .ok us' ∧ Spliced first extra us us' := by
  cases l with
  | silent | notes =>
      cases hl
      exact ⟨vs', rfl, h⟩
  | directive d =>
      simp only [Line.defining] at hl ⊢
      split at hl
      · next hk =>
          obtain ⟨hg, hus⟩ := define_eq_ok hl
          -- A name that is defined here is known from now on, so it is none of the further entries.
          have hn : ∀ e ∈ extra, e.1 ≠ d.args.headD [] := by
            intro e he hname
            have hnew := hu e he
            rw [Variables.get?, hus, List.lookup_append, ← Variables.get?, hname, hg] at hnew
            simp at hnew
          obtain ⟨rest, he, he'⟩ := h.entries
          rw [if_pos hk, define_of_none ((h.get? hn).trans hg)]
          refine ⟨_, rfl, ⟨rest ++ [(d.args.headD [], Text.joinFields d.args.tail)], ?_, ?_⟩, hu⟩
          · rw [hus, he, List.append_assoc]
          · simp only [he', List.append_assoc]
      · next hk =>
          cases hl
          exact ⟨vs', if_neg hk, h⟩

end Variables

theorem Line.actions_renumber (f : Nat → Nat) (l : Line) (n : Nat) :
    l.actions (f n) = (l.actions n).map (·.renumber f) := by
  cases l with
  | silent => rfl
  | notes tokens =>
      rw [actions, actions, List.map_map]
      refine List.map_congr_left fun t _ => ?_
      change t.action (f n) = (t.action n).renumber f
      unfold Token.action
      split <;> rfl
  | directive d =>
      simp only [actions]
      split <;> rfl

namespace Draft

variable {k : Nat} {first extra : List (Text × Text)} {d d' e : Draft} {raw : Text}

/-- The draft comes from the other one by a line that is put in behind the first ones. -/
structure Below (k : Nat) (first extra : List (Text × Text)) (d d' : Draft) : Prop where
  lines : k ≤ d.lines ∧ d'.lines = d.lines + 1
  actions : d'.actions = d.actions.map (·.renumber (pushDown k))
  vars : Variables.Spliced first extra d.vars d'.vars
  braceFree : ∀ e ∈ d'.vars.entries, BraceFree e.2
  stoppedAt : d'.stoppedAt = d.stoppedAt.map (pushDown k)

theorem Below.line (h : Below k first extra d d') : d'.lines + 1 = pushDown k (d.lines + 1) := by
  rw [pushDown_of_lt (Nat.lt_succ_of_le h.lines.1), h.lines.2]

theorem Below.refused (h : Below k first extra d d')
    (hraw : Line.isSilent raw = false → ∀ e ∈ extra, ¬ useOf e.1 <:+: raw) {e : CompileError}
    (he : Refused d raw e) : Refused d' raw (e.renumber (pushDown k)) := by
  have hread := h.vars.read h.braceFree hraw
  have herr (e : LineError) :
      (e.atLine (d.lines + 1)).renumber (pushDown k) = e.atLine (d'.lines + 1) := by
    rw [h.line]
    rfl
  cases he with
  | unread hs hl =>
      rw [herr]
      exact .unread (by rw [h.stoppedAt, hs]; rfl) (hread.trans hl)
  | undefined hs hl hv =>
      rw [herr]
      exact .undefined (by rw [h.stoppedAt, hs]; rfl) (hread.trans hl) (h.vars.defining_error hv)

theorem Below.added (h : Below k first extra d d')
    (hraw : Line.isSilent raw = false → ∀ e ∈ extra, ¬ useOf e.1 <:+: raw) (ha : Added d raw e)
    (hu : ∀ x ∈ extra, e.vars.get? x.1 = none) :
    ∃ e', Added d' raw e' ∧ Below k first extra e e' := by
  cases ha with
  | past hs => exact ⟨d', .past (by rw [h.stoppedAt, Option.isSome_map, hs]), h⟩
  | @read l vars hs hl hv =>
      obtain ⟨vars', hv', hsplice⟩ := h.vars.defining_ok hv hu
      have ha' : Added d' raw (d'.next l vars') :=
        .read (by rw [h.stoppedAt, hs]; rfl) ((h.vars.read h.braceFree hraw).trans hl) hv'
      refine ⟨_, ha', ⟨Nat.le_succ_of_le h.lines.1, congrArg (· + 1) h.lines.2⟩, ?_, hsplice,
        ha'.braceFree h.braceFree, ?_⟩
      · apply Array.toList_inj.mp
        simp only [next, h.actions, h.line]
        rw [Line.actions_renumber]
        simp
      · simp only [next, h.line]
        split <;> rfl

theorem Below.foldlM (h : Below k first extra d d') (ls : List Text)
    (hls : ∀ raw ∈ ls, Line.isSilent raw = false → ∀ e ∈ extra, ¬ useOf e.1 <:+: raw)
    (hu : ∀ n e, (ls.take n).foldlM add d = .ok e → ∀ x ∈ extra, e.vars.get? x.1 = none) :
    (∀ e, ls.foldlM add d = .error e → ls.foldlM add d' = .error (e.renumber (pushDown k))) ∧
      ∀ e, ls.foldlM add d = .ok e → ∃ e', ls.foldlM add d' = .ok e' ∧ Below k first extra e e' := by
  induction ls generalizing d d' with
  | nil =>
      refine ⟨nofun, fun e he => ?_⟩
      cases he
      exact ⟨d', rfl, h⟩
  | cons raw ls ih =>
      obtain ⟨hraw, hls⟩ := List.forall_mem_cons.mp hls
      rw [List.foldlM_cons, List.foldlM_cons]
      cases hd : d.add raw with
      | error e =>
          rw [((h.refused hraw (refused_of_add hd)).add)]
          refine ⟨fun e' he => ?_, nofun⟩
          cases he
          rfl
      | ok d₁ =>
          have hnext (n : Nat) (e : Draft) (he : (ls.take n).foldlM add d₁ = .ok e) :
              ∀ x ∈ extra, e.vars.get? x.1 = none := by
            refine hu (n + 1) e ?_
            rw [List.take_succ_cons, List.foldlM_cons, hd]
            exact he
          obtain ⟨d₁', hd', h₁⟩ := h.added hraw (added_of_add hd) (hnext 0 d₁ rfl)
          rw [hd'.add]
          exact ih h₁ hls hnext

variable {ls : List Text}

theorem Reads.stoppedAt_le (h : Reads ls d) {n : Nat} (hs : d.stoppedAt = some n) : n ≤ d.lines := by
  induction h with
  | nil => cases hs
  | snoc h ha ih =>
      cases ha with
      | past => exact ih hs
      | read =>
          simp only [next, Option.ite_none_right_eq_some, Option.some.injEq] at hs
          exact Nat.le_of_eq hs.2.symm

theorem Reads.lines_le_take (h : Reads (ls.take k) d) : d.lines ≤ k :=
  Nat.le_trans h.lines_le (List.length_take_le ..)

theorem line_le_of_take {e : CompileError} (h : (ls.take k).foldlM add {} = .error e) :
    e.line ≤ k := by
  obtain ⟨before, raw, after, d, hl, -, -, hline⟩ := error_of_lines h
  have hlen := congrArg List.length hl
  have hle := List.length_take_le k ls
  simp only [List.length_append, List.length_cons] at hlen
  omega

theorem Reads.keep (h : Reads ls d) (hk : d.lines ≤ k) :
    d.actions = d.actions.map (·.renumber (pushDown k)) ∧
      d.stoppedAt = d.stoppedAt.map (pushDown k) := by
  constructor
  · apply Array.toList_inj.mp
    rw [Array.toList_map]
    refine ((List.map_congr_left fun a ha => ?_).trans (List.map_id _)).symm
    rw [Action.renumber, pushDown_of_le (Nat.le_trans (h.line_bounds a ha).2 hk)]
    rfl
  · cases hs : d.stoppedAt with
    | none => rfl
    | some n => rw [Option.map_some, pushDown_of_le (Nat.le_trans (h.stoppedAt_le hs) hk)]

end Draft

end ChordScript
