import ChordScript.Proofs.Prefixes
import ChordScript.Proofs.Written

namespace ChordScript

namespace Draft

variable {d : Draft} {raw t : Text} {dir : Directive}

theorem add_stop (ht : d.vars.expand raw = .ok t) (hd : dir.Written t) (hk : dir.keyword = .stop) :
    ∃ d', d.add raw = .ok d' ∧ d'.actions = d.actions ∧ d'.vars = d.vars ∧
      d'.stoppedAt = some (d.stoppedAt.getD (d.lines + 1)) := by
  cases hs : d.stoppedAt with
  | some n => exact ⟨d, (Added.past (by rw [hs]; rfl)).add, rfl, rfl, hs⟩
  | none =>
      have hdef : (Line.directive dir).defining d.vars = .ok d.vars := by simp [Line.defining, hk]
      refine ⟨_, (Added.read hs (Line.read_of_written ht hd) hdef).add, ?_, rfl, ?_⟩
      · simp [next, Line.actions, hk]
      · simp [next, Line.stops, hk]

end Draft

namespace Script

/-- A line that says to stop, in letters of either case and with any arguments, cuts the script off
before it. No matter what follows, the script compiles to what the lines before it compile to. -/
theorem compile_of_stop (source : Text) (k : Nat) (before : Script) (raw t : Text) (d : Directive)
    (hbefore : compile (source.firstLines k) = .ok before) (hraw : source.lines[k]? = some raw)
    (ht : before.vars.expand raw = .ok t) (hd : d.Written t) (hk : d.keyword = .stop) :
    ∃ s, compile source = .ok s ∧ s.document = before.document ∧ s.vars = before.vars ∧
      s.stoppedAt = some (before.stoppedAt.getD (k + 1)) ∧
      ∀ other : Text, other.lines.take (k + 1) = source.lines.take (k + 1) →
        compile other = .ok s := by
  obtain ⟨d₀, hd₀, rfl⟩ := ok_of_map hbefore
  rw [Text.lines_firstLines] at hd₀
  obtain ⟨d₁, hadd, hactions, hvars, hstop⟩ := Draft.add_stop ht hd hk
  have htake : source.lines.take (k + 1) = source.lines.take k ++ [raw] := by
    rw [List.take_add_one, hraw]
    rfl
  have hcompile (other : Text) (ho : other.lines.take (k + 1) = source.lines.take (k + 1)) :
      compile other = .ok (ofDraft d₁) := by
    apply compile_of_lines
    rw [← List.take_append_drop (k + 1) other.lines, ho, htake, List.foldlM_append,
      List.foldlM_append, hd₀]
    change ([raw].foldlM Draft.add d₀ >>= _) = _
    rw [List.foldlM_cons, hadd]
    exact Draft.foldlM_of_stopped (by rw [hstop]; rfl) _
  refine ⟨ofDraft d₁, hcompile source rfl, ?_, hvars, ?_, hcompile⟩
  · rw [ofDraft, hactions]
    rfl
  · have hlen : k < source.lines.length := (List.getElem?_eq_some_iff.mp hraw).1
    cases hs : d₀.stoppedAt with
    | some n => simp only [ofDraft, hstop, hs, Option.getD_some]
    | none =>
        have hlines := (Draft.reads_of_foldlM hd₀).lines_eq hs
        rw [List.length_take_of_le (Nat.le_of_lt hlen)] at hlines
        simp only [ofDraft, hstop, hs, hlines, Option.getD_none]

theorem compile_of_stop_variable :
    let source : Text := ",SET s ,sToP x  y\n,TAG t\na b\n\x7bs\x7d\n,TAG t\n,SET s z\n\x7b".toList
    ∃ before s, compile (source.firstLines 3) = .ok before ∧
      (⟨.stop, [['x'], [], ['y']]⟩ : Directive).Written ",sToP x  y".toList ∧
      compile source = .ok s ∧ s.document = before.document ∧ s.vars = before.vars ∧
      s.document.actions.size = 4 ∧ s.document.tags.get? ['t'] = some 0 ∧ s.stoppedAt = some 4 := by
  intro source
  have hbefore : compile (source.firstLines 3) = .ok _ := rfl
  have hd : (⟨.stop, [['x'], [], ['y']]⟩ : Directive).Written ",sToP x  y".toList :=
    ⟨⟨"sToP".toList, by decide, rfl⟩, by decide, rfl⟩
  obtain ⟨s, hs, hdoc, hvars, hstop, -⟩ :=
    compile_of_stop source 3 _ _ _ _ hbefore rfl rfl hd rfl
  exact ⟨_, s, hbefore, hd, hs, hdoc, hvars, by rw [hdoc]; rfl, by rw [hdoc]; rfl, hstop⟩

end Script

end ChordScript
