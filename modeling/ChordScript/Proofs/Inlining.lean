import ChordScript.Proofs.WellFormed

namespace ChordScript

def Variables.inline (vs : Variables) (raw : Text) : Text :=
  if Line.isSilent raw then raw
  else match vs.expand raw with
    | .ok t => t
    | .error _ => raw

/-- The lines that are still to be read, with the variables written out in all of them that stand
before the line that says to stop. -/
def Draft.inlined (d : Draft) : List Text → List Text
  | [] => []
  | raw :: ls =>
    match d.add raw with
    | .ok d' => if d'.stoppedAt.isSome then raw :: ls else d.vars.inline raw :: d'.inlined ls
    | .error _ => raw :: ls

/-- Written out, the line becomes a comment. -/
def Line.hides (raw t : Text) : Prop := t.head? = some '#' ∧ raw.head? ≠ some '#'

instance (raw t : Text) : Decidable (Line.hides raw t) := inferInstanceAs (Decidable (_ ∧ _))

theorem Line.not_hides (raw : Text) : ¬ hides raw raw := fun h => h.2 h.1

theorem Variables.inline_of_silent {raw : Text} (h : Line.isSilent raw = true) (vs : Variables) :
    vs.inline raw = raw := by
  rw [inline, if_pos h]

theorem Variables.inline_of_expand {vs : Variables} {raw t : Text} (h : Line.isSilent raw = false)
    (ht : vs.expand raw = .ok t) : vs.inline raw = t := by
  rw [inline, h, ht]
  rfl

theorem Variables.forall_inline {R : Char → Prop} {vs : Variables} {raw : Text}
    (hraw : ∀ c ∈ raw, R c) (hv : ∀ e ∈ vs.entries, ∀ c ∈ e.2, R c) : ∀ c ∈ vs.inline raw, R c := by
  rw [inline]
  split
  · exact hraw
  · split
    · next ht => exact forall_expand hraw hv ht
    · exact hraw

theorem Line.read_inline {vs : Variables} {raw : Text} {l : Line} (h : read vs raw = .ok l) :
    ∃ l', read vs (vs.inline raw) = .ok l' ∧ l'.defining vs = l.defining vs ∧ l'.stops = l.stops ∧
      ∀ n, ¬ hides raw (vs.inline raw) ∧ l'.actions n = l.actions n ∨
        hides raw (vs.inline raw) ∧ l'.actions n = [] ∧ l.actions n ≠ [] := by
  cases hs : isSilent raw with
  | true =>
      rw [Variables.inline_of_silent hs]
      exact ⟨l, h, rfl, rfl, fun _ => .inl ⟨not_hides raw, rfl⟩⟩
  | false =>
      rw [read_of_not_silent hs] at h
      obtain ⟨t, ht, hl⟩ := ok_of_bind h
      rw [Variables.inline_of_expand hs ht]
      cases hst : isSilent t with
      | false =>
          have hn : ¬ hides raw t := by
            rintro ⟨hc, -⟩
            simp [isSilent, hc] at hst
          have hr : read vs t = .ok l := by
            rw [read_of_not_silent hst,
              Variables.expand_of_braceFree (Variables.expand_braceFree ht)]
            exact hl
          exact ⟨l, hr, rfl, rfl, fun _ => .inl ⟨hn, rfl⟩⟩
      | true =>
          refine ⟨.silent, read_of_silent hst vs, ?_⟩
          cases t with
          | nil =>
              cases hl
              exact ⟨rfl, rfl, fun _ => .inl ⟨by simp [hides], rfl⟩⟩
          | cons c t =>
              obtain rfl : c = '#' := by simpa [isSilent] using hst
              obtain ⟨ts, hts, rfl⟩ := ok_of_map hl
              have hc : raw.head? ≠ some '#' := fun hc => by simp [isSilent, hc] at hs
              have hne : ts ≠ [] := NoteLine.tokens_ne_nil rfl hts
              exact ⟨rfl, rfl, fun _ => .inr ⟨⟨rfl, hc⟩, rfl, mt List.map_eq_nil_iff.mp hne⟩⟩

namespace Draft

variable {d d' e : Draft} {raw : Text} {ls : List Text} {P Q : Prop}

/-- The draft comes from the other one by leaving actions out, or none if the condition holds. -/
structure LeavesOut (d e : Draft) (P : Prop) : Prop where
  lines : e.lines = d.lines
  vars : e.vars = d.vars
  stoppedAt : e.stoppedAt = d.stoppedAt
  actions : e.actions.toList.Sublist d.actions.toList
  same : e.actions = d.actions ↔ P

theorem LeavesOut.imp (h : d.LeavesOut e P) (hpq : P ↔ Q) : d.LeavesOut e Q :=
  { h with same := h.same.trans hpq }

theorem LeavesOut.next (h : d.LeavesOut e P) {l l' : Line} {vars : Variables}
    (hs : l'.stops = l.stops) (ha : ∀ n, ¬ Q ∧ l'.actions n = l.actions n ∨
      Q ∧ l'.actions n = [] ∧ l.actions n ≠ []) :
    (d.next l vars).LeavesOut (e.next l' vars) (P ∧ ¬ Q) := by
  have hlines : (e.next l' vars).lines = (d.next l vars).lines := congrArg (· + 1) h.lines
  have hstop : (e.next l' vars).stoppedAt = (d.next l vars).stoppedAt := by
    simp only [Draft.next, hs, h.lines]
  rcases ha (d.lines + 1) with ⟨hq, hl⟩ | ⟨hq, hl, hne⟩
  · refine ⟨hlines, rfl, hstop, ?_, ?_⟩
    · simpa [Draft.next, h.lines, hl] using h.actions
    · rw [and_iff_left hq, ← h.same]
      simp [Draft.next, h.lines, hl, ← Array.toList_inj]
  · refine ⟨hlines, rfl, hstop, ?_, iff_of_false ?_ fun hpq => hpq.2 hq⟩
    · simpa [Draft.next, h.lines, hl] using h.actions.trans (List.sublist_append_left ..)
    · intro he
      have hsize := congrArg (fun xs => xs.toList.length) he
      have hle := h.actions.length_le
      have hpos := List.length_pos_of_ne_nil hne
      simp only [Draft.next, h.lines, hl, Array.toList_appendList, List.length_append,
        List.length_nil] at hsize
      omega

theorem LeavesOut.inline (h : d.LeavesOut e P) (hs : d.stoppedAt = none) (ha : Added d raw d') :
    ∃ e', Added e (d.vars.inline raw) e' ∧
      d'.LeavesOut e' (P ∧ ¬ Line.hides raw (d.vars.inline raw)) := by
  cases ha with
  | past hp => simp [hs] at hp
  | @read l vars _ hl hv =>
      obtain ⟨l', hl', hv', hstop, hacts⟩ := Line.read_inline hl
      rw [← h.vars] at hl'
      refine ⟨e.next l' vars, ?_, h.next hstop hacts⟩
      rw [← h.vars] at hv' hv ⊢
      exact .read (h.stoppedAt.trans hs) hl' (hv'.trans hv)

theorem LeavesOut.keep (h : d.LeavesOut e P) (ha : Added d raw d') :
    ∃ e', Added e raw e' ∧ d'.LeavesOut e' P := by
  cases ha with
  | past hp => exact ⟨e, .past (h.stoppedAt ▸ hp), h⟩
  | @read l vars hs hl hv =>
      rw [← h.vars] at hl hv
      refine ⟨e.next l vars, .read (h.stoppedAt.trans hs) hl hv, ?_⟩
      exact (h.next (Q := False) rfl fun _ => .inl ⟨id, rfl⟩).imp (by simp)

theorem hides_of_mem_zip_self (ls : List Text) : ∀ p ∈ ls.zip ls, ¬ Line.hides p.1 p.2 := by
  rw [List.zip, List.zipWith_self, List.forall_mem_map]
  exact fun raw _ => Line.not_hides raw

theorem LeavesOut.foldlM (h : d.LeavesOut e P) (hd : ls.foldlM add d = .ok d') :
    ∃ e', (d.inlined ls).foldlM add e = .ok e' ∧
      d'.LeavesOut e' (P ∧ ∀ p ∈ ls.zip (d.inlined ls), ¬ Line.hides p.1 p.2) := by
  induction ls generalizing d e P with
  | nil =>
      cases hd
      exact ⟨e, rfl, h.imp (by simp [inlined])⟩
  | cons raw ls ih =>
      rw [List.foldlM_cons] at hd
      obtain ⟨d₁, h₁, hd⟩ := ok_of_bind hd
      have ha := added_of_add h₁
      rw [inlined, h₁]
      dsimp only
      -- From the line that says to stop on, nothing is written out and nothing is read.
      split
      · next hs =>
          obtain ⟨e', he, hl⟩ := h.keep ha
          have hzip := hides_of_mem_zip_self (raw :: ls)
          rw [foldlM_of_stopped hs] at hd
          cases hd
          refine ⟨e', ?_, hl.imp (and_iff_left hzip).symm⟩
          rw [List.foldlM_cons, he.add]
          exact foldlM_of_stopped (by rwa [hl.stoppedAt]) ls
      · next hs =>
          have hnone : d.stoppedAt = none := ha.stoppedAt_eq_none (by simpa using hs)
          obtain ⟨e₁, he, hl⟩ := h.inline hnone ha
          obtain ⟨e', hfold, hl'⟩ := ih hl hd
          refine ⟨e', ?_, hl'.imp (by simp [and_assoc])⟩
          rw [List.foldlM_cons, he.add]
          exact hfold

theorem forall_inlined {R : Char → Prop} (hb : R ' ') (hl : ∀ l ∈ ls, ∀ c ∈ l, R c)
    (hd : ∀ e ∈ d.vars.entries, ∀ c ∈ e.2, R c) : ∀ l ∈ d.inlined ls, ∀ c ∈ l, R c := by
  induction ls generalizing d with
  | nil => nofun
  | cons raw ls ih =>
      rw [inlined]
      split
      · next d₁ h₁ =>
          split
          · exact hl
          · rw [List.forall_mem_cons] at hl ⊢
            exact ⟨Variables.forall_inline hl.1 hd,
              ih hl.2 ((added_of_add h₁).forall_values hb hl.1 hd)⟩
      · exact hl

theorem LeavesOut.ofDraft_eq (h : d.LeavesOut e P) : Script.ofDraft e = .ofDraft d ↔ P := by
  rw [← h.same]
  constructor
  · exact fun he => congrArg (fun s : Script => s.document.actions) he
  · intro ha
    rw [Script.ofDraft, ha, h.vars, h.stoppedAt]
    rfl

end Draft

namespace Script

/-- The lines of a script with its variables written out: some text has them as its lines, and it
compiles to what the script compiles to. -/
structure Inlined (source : Text) (s : Script) (ls : List Text) : Prop where
  newline : (∀ l ∈ ls, l.getLast? ≠ some '\r') → (Text.unlines ['\n'] ls).lines = ls
  return_newline : (Text.unlines ['\r', '\n'] ls).lines = ls
  compile (text : Text) : text.lines = ls → ∃ t, compile text = .ok t ∧
    t.vars = s.vars ∧ t.stoppedAt = s.stoppedAt ∧
    t.document.actions.toList.Sublist s.document.actions.toList ∧
    (t = s ↔ ∀ p ∈ source.lines.zip ls, ¬ Line.hides p.1 p.2)

/-- A script with its variables written out compiles to the same script but for the notes that are
hidden in comments then, and to the very same script exactly if no line becomes a comment. -/
theorem compile_inlined (source : Text) (s : Script) (h : compile source = .ok s) :
    Inlined source s (Draft.inlined {} source.lines) := by
  have hnewline : ∀ l ∈ Draft.inlined {} source.lines, ∀ c ∈ l, c ≠ '\n' :=
    Draft.forall_inlined (by decide) (Text.newline_notMem_lines source) nofun
  refine ⟨Text.lines_unlines_newline hnewline, Text.lines_unlines_return hnewline, ?_⟩
  intro text ht
  obtain ⟨d, hd, rfl⟩ := ok_of_map h
  have hsame : Draft.LeavesOut {} {} True := ⟨rfl, rfl, rfl, .refl _, iff_of_true rfl trivial⟩
  obtain ⟨e, he, hl⟩ := hsame.foldlM hd
  refine ⟨.ofDraft e, ?_, hl.vars, hl.stoppedAt, hl.actions, ?_⟩
  · rw [compile, ht, he]
    rfl
  · rw [hl.ofDraft_eq, true_and]

theorem compile_inlined_directive :
    let source := ",SET x [bC]\n,SET y ,TAG t\n\x7by\x7d\n# \x7b\na\x7bx\x7d\n,STOP\n\x7b".toList
    let text := ",SET x [bC]\n,SET y ,TAG t\n,TAG t\n# \x7b\na[bC]\n,STOP\n\x7b".toList
    ∃ s, compile source = .ok s ∧ s.document.actions.size = 2 ∧ compile text = .ok s := by
  intro source text
  obtain ⟨s, h, hs⟩ : ∃ s, compile source = .ok s ∧ s.document.actions.size = 2 := ⟨_, rfl, rfl⟩
  obtain ⟨t, ht, -, -, -, hsame⟩ := (compile_inlined source s h).compile text (by decide)
  exact ⟨s, h, hs, by rw [ht, hsame.mpr (by decide)]⟩

/-- A value that begins like a comment: in place of its use it hides the notes of the line. -/
theorem compile_inlined_comment :
    let source : Text := ",SET x #a\n\x7bx\x7d".toList
    let ls := Draft.inlined {} source.lines
    (∀ l ∈ source.lines ++ ls, l.getLast? ≠ some '\r') ∧ ∃ s t, compile source = .ok s ∧
      compile (Text.unlines ['\n'] ls) = .ok t ∧ s.document.actions.size = 1 ∧
      t.document.actions.size = 0 :=
  ⟨by decide, _, _, rfl, rfl, rfl, rfl⟩

end Script

end ChordScript
