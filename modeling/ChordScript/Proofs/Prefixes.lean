import ChordScript.Proofs.Lines
import ChordScript.Proofs.Reading

namespace ChordScript

namespace Text

def firstLines : Nat → Text → Text
  | 0, _ => []
  | _ + 1, [] => []
  | n + 1, c :: s => c :: firstLines (if c = '\n' then n else n + 1) s

theorem firstLines_prefix (n : Nat) (s : Text) : firstLines n s <+: s := by
  induction s generalizing n with
  | nil => cases n <;> exact List.prefix_rfl
  | cons c s ih =>
      cases n with
      | zero => exact List.nil_prefix
      | succ n => exact (List.prefix_cons_inj c).mpr (ih _)

theorem take_consHead (n : Nat) (c : Char) (ps : List Text) :
    (consHead c ps).take (n + 1) = consHead c (ps.take (n + 1)) := by
  cases ps <;> simp [consHead]

theorem head?_firstLines (n : Nat) (s : Text) : (firstLines (n + 1) s).head? = s.head? := by
  cases s <;> rfl

theorem lines_firstLines (n : Nat) (s : Text) : lines (firstLines n s) = (lines s).take n := by
  fun_induction lines s generalizing n with
  | case1 => cases n <;> rfl
  | case2 s ih =>
      cases n with
      | zero => rfl
      | succ n => simp [firstLines, lines, ih]
  | case3 s ih =>
      cases n with
      | zero => rfl
      | succ n => simp [firstLines, lines, ih]
  | case4 c s hn hr ih =>
      cases n with
      | zero => rfl
      | succ n =>
          have hc : c ≠ '\n' := fun h => hn h
          rw [firstLines, if_neg hc, lines_cons hc, ih, take_consHead]
          rintro rfl
          rw [head?_firstLines]
          cases s with
          | nil => simp
          | cons d s => simpa using fun h => hr s rfl (by rw [h])

end Text

namespace Draft

variable {d d' : Draft} {raw : Text} {ls : List Text}

theorem line_of_add {e : CompileError} (h : d.add raw = .error e) :
    d.stoppedAt = none ∧ e.line = d.lines + 1 := by
  cases refused_of_add h with
  | unread hs | undefined hs => exact ⟨hs, rfl⟩

theorem prefix_of_foldlM (h : ls.foldlM add d = .ok d') :
    d.actions.toList <+: d'.actions.toList ∧ d.vars.entries <+: d'.vars.entries := by
  induction ls generalizing d with
  | nil =>
      cases h
      exact ⟨List.prefix_rfl, List.prefix_rfl⟩
  | cons raw ls ih =>
      rw [List.foldlM_cons] at h
      obtain ⟨d₁, h₁, h⟩ := ok_of_bind h
      have ha := added_of_add h₁
      obtain ⟨new, hnew, -⟩ := ha.actions
      obtain ⟨more, hmore⟩ := ha.vars_extends
      obtain ⟨hacts, hvars⟩ := ih h
      rw [hnew] at hacts
      rw [hmore] at hvars
      exact ⟨(List.prefix_append ..).trans hacts, (List.prefix_append ..).trans hvars⟩

theorem foldlM_at {k : Nat} (hd : (ls.take k).foldlM add {} = .ok d) (hraw : ls[k]? = some raw) :
    ls.foldlM add {} = d.add raw >>= (ls.drop (k + 1)).foldlM add := by
  obtain ⟨hk, hget⟩ := List.getElem?_eq_some_iff.mp hraw
  have hsplit : ls = ls.take k ++ raw :: ls.drop (k + 1) := by
    rw [← hget, ← List.drop_eq_getElem_cons hk, List.take_append_drop]
  conv_lhs => rw [hsplit]
  rw [List.foldlM_append, hd]
  change (raw :: ls.drop (k + 1)).foldlM add d = _
  rw [List.foldlM_cons]

theorem lines_at {k : Nat} (hd : (ls.take k).foldlM add {} = .ok d) (hs : d.stoppedAt = none)
    (hraw : ls[k]? = some raw) : d.lines = k := by
  have hk : k < ls.length := (List.getElem?_eq_some_iff.mp hraw).1
  rw [(reads_of_foldlM hd).lines_eq hs, List.length_take_of_le (Nat.le_of_lt hk)]

theorem error_of_lines {e : CompileError} (h : ls.foldlM add {} = .error e) :
    ∃ before raw after d, ls = before ++ raw :: after ∧ before.foldlM add {} = .ok d ∧
      d.add raw = .error e ∧ e.line = before.length + 1 := by
  obtain ⟨before, raw, after, d, hl, hd, he⟩ := error_of_foldlM h
  obtain ⟨hs, hline⟩ := line_of_add he
  exact ⟨before, raw, after, d, hl, hd, he, by rw [hline, (reads_of_foldlM hd).lines_eq hs]⟩

end Draft

namespace Script

variable {source : Text}

theorem compile_of_lines {d : Draft} (h : source.lines.foldlM Draft.add {} = .ok d) :
    compile source = .ok (.ofDraft d) := by
  rw [compile, h]
  rfl

theorem compile_firstLines_of_lines {d : Draft} {n : Nat}
    (hd : (source.lines.take n).foldlM Draft.add {} = .ok d) :
    compile (source.firstLines n) = .ok (.ofDraft d) := by
  refine compile_of_lines ?_
  rw [Text.lines_firstLines]
  exact hd

theorem compile_firstLines_eq_ok {n : Nat} {s : Script} : compile (source.firstLines n) = .ok s ↔
    ∃ d, (source.lines.take n).foldlM Draft.add {} = .ok d ∧ s = .ofDraft d := by
  constructor
  · intro h
    obtain ⟨d, hd, rfl⟩ := ok_of_map h
    rw [Text.lines_firstLines] at hd
    exact ⟨d, hd, rfl⟩
  · rintro ⟨d, hd, rfl⟩
    exact compile_firstLines_of_lines hd

/-- A script fails at a line if all lines before it compile, none of them stops the script, and there
are no variables behind the line. -/
theorem compile_eq_error_iff {e : CompileError} : compile source = .error e ↔
    ∃ k before raw, e.line = k + 1 ∧ compile (source.firstLines k) = .ok before ∧
      before.stoppedAt = none ∧ source.lines[k]? = some raw ∧
      Line.through before.vars raw = .error e.toLineError := by
  constructor
  · intro h
    obtain ⟨before, raw, after, d, hl, hd, hadd, hline⟩ := Draft.error_of_lines (error_of_map h)
    obtain ⟨hs, hthrough, -⟩ := Draft.add_eq_error_iff.mp hadd
    have htake : source.lines.take before.length = before := by rw [hl, List.take_left]
    exact ⟨before.length, .ofDraft d, raw, hline, compile_firstLines_of_lines (htake.symm ▸ hd), hs,
      by simp [hl], hthrough⟩
  · rintro ⟨k, before, raw, hline, hbefore, hs, hraw, hthrough⟩
    obtain ⟨d, hd, rfl⟩ := compile_firstLines_eq_ok.mp hbefore
    have hlines := Draft.lines_at hd hs hraw
    have hadd : d.add raw = .error e := Draft.add_eq_error_iff.mpr ⟨hs, hthrough, hlines ▸ hline⟩
    rw [compile, Draft.foldlM_at hd hraw, hadd]
    rfl

/-- What a script is after its first lines: they are a part of it, they settle an error in them, and
they compile to the first part of what the script compiles to. -/
structure FirstLines (source : Text) : Prop where
  cut (n : Nat) : source.firstLines n <+: source
  lines (n : Nat) : (source.firstLines n).lines = source.lines.take n
  error (e : CompileError) : compile source = .error e → 1 ≤ e.line ∧ e.line ≤ source.lines.length ∧
    (∀ other : Text, other.lines.take e.line = source.lines.take e.line → compile other = .error e) ∧
    ∃ s, compile (source.firstLines (e.line - 1)) = .ok s
  ok (s : Script) : compile source = .ok s → ∀ n, ∃ s', compile (source.firstLines n) = .ok s' ∧
    s'.document.actions.toList <+: s.document.actions.toList ∧ s'.vars.entries <+: s.vars.entries

/-- Compiling goes from the first line on. An error is settled by the lines up to its own, and a
script that is cut off after any of its lines compiles to the first part of what it compiles to. -/
theorem compile_firstLines (source : Text) : FirstLines source := by
  refine ⟨source.firstLines_prefix, source.lines_firstLines, fun e he => ?_, fun s hs n => ?_⟩
  · obtain ⟨before, raw, after, d, hl, hd, hadd, hline⟩ := Draft.error_of_lines (error_of_map he)
    have hlen : source.lines.length = before.length + 1 + after.length := by
      rw [hl, List.length_append, List.length_cons, Nat.add_right_comm, Nat.add_assoc]
    refine ⟨by omega, by omega, fun other ho => ?_, .ofDraft d, compile_of_lines ?_⟩
    · -- The other script has the same lines up to the one with the error.
      have hother : other.lines = before ++ raw :: other.lines.drop (before.length + 1) := by
        rw [hline, hl, List.append_cons, List.take_left' (by simp)] at ho
        rw [List.append_cons, ← ho, List.take_append_drop]
      rw [compile, hother, foldlM_of_error hd hadd]
      rfl
    · rw [Text.lines_firstLines, hline, Nat.add_sub_cancel, hl, List.take_left]
      exact hd
  · obtain ⟨d, hd, rfl⟩ := ok_of_map hs
    rw [← List.take_append_drop n source.lines, List.foldlM_append] at hd
    obtain ⟨d', hd', hrest⟩ := ok_of_bind hd
    exact ⟨.ofDraft d', compile_firstLines_of_lines hd', Draft.prefix_of_foldlM hrest⟩

theorem compile_firstLines_error :
    let source : Text := ",SET x a\r\n\x7bx\x7d.b\n[\n,STOP".toList
    let other : Text := ",SET x a\n\x7bx\x7d.b\r\n[\n,TAG t\n]".toList
    ∃ e s s', compile source = .error e ∧ e.line = 3 ∧ compile other = .error e ∧
      source.firstLines 2 = ",SET x a\r\n\x7bx\x7d.b\n".toList ∧
      compile (source.firstLines 2) = .ok s ∧ s.document.actions.size = 3 ∧
      compile ((source.firstLines 2).firstLines 1) = .ok s' ∧
      s'.document.actions.toList <+: s.document.actions.toList ∧
      s'.vars.entries <+: s.vars.entries := by
  intro source other
  have h : compile source = .error ⟨⟨.unclosedChord, 1⟩, 3⟩ := rfl
  have hcut : compile (source.firstLines 2) = .ok _ := rfl
  obtain ⟨-, -, hother, s, hs⟩ := (compile_firstLines source).error _ h
  obtain ⟨s', hs', hfirst⟩ := (compile_firstLines (source.firstLines 2)).ok s hs 1
  refine ⟨_, s, s', h, rfl, hother other (by decide), rfl, hs, ?_, hs', hfirst⟩
  rw [Except.ok.inj (hs.symm.trans hcut)]
  rfl

end Script

end ChordScript
