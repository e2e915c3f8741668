import ChordScript.Proofs.Splicing
import ChordScript.Proofs.Written

namespace ChordScript

namespace Script

structure Unmentioned (source name : Text) : Prop where
  defined : ∀ n s, compile (source.firstLines n) = .ok s → s.vars.get? name = none
  used : ∀ raw ∈ source.lines, Line.isSilent raw = false → ¬ useOf name <:+: raw

/-- A line that says nothing to the script, and what it leaves in the table of variables. -/
inductive Tacit (source : Text) : Text → List (Text × Text) → Prop
  | empty : Tacit source [] []
  | comment (s : Text) : Tacit source ('#' :: s) []
  | definition {name t : Text} {values : List Text}
      (hw : Directive.Written ⟨.set, name :: values⟩ t) (hb : BraceFree t)
      (hn : Unmentioned source name) : Tacit source t [(name, Text.joinFields values)]

/-- The script comes from the other one by a line that is put in behind the first ones, and that is
read unless one of these says to stop. -/
structure PushedDown (k : Nat) (extra : List (Text × Text)) (before s t : Script) : Prop where
  document : t.document = s.document.renumber (pushDown k)
  stoppedAt : t.stoppedAt = s.stoppedAt.map (pushDown k)
  vars : ∃ rest, s.vars.entries = before.vars.entries ++ rest ∧ t.vars.entries =
    before.vars.entries ++ ((if before.stoppedAt = none then extra else []) ++ rest)

variable {source line : Text} {extra : List (Text × Text)} {k : Nat} {d : Draft}

theorem Tacit.unmentioned (h : Tacit source line extra) : ∀ e ∈ extra, Unmentioned source e.1 := by
  cases h with
  | empty | comment => nofun
  | definition hw hb hn => exact List.forall_mem_singleton.mpr hn

theorem Tacit.below (h : Tacit source line extra)
    (hd : (source.lines.take k).foldlM Draft.add {} = .ok d) (hs : d.stoppedAt = none)
    (hk : k ≤ source.lines.length) :
    ∃ d', d.Added line d' ∧ Draft.Below k d.vars.entries extra d d' := by
  have hreads := Draft.reads_of_foldlM hd
  have hlines : d.lines = k := by rw [hreads.lines_eq hs, List.length_take_of_le hk]
  obtain ⟨hactions, -⟩ := hreads.keep (Nat.le_of_eq hlines)
  have hsilent {line : Text} (hl : Line.isSilent line = true) :
      ∃ d', d.Added line d' ∧ Draft.Below k d.vars.entries [] d d' := by
    have ha : d.Added line (d.next .silent d.vars) := .read hs (Line.read_of_silent hl _) rfl
    refine ⟨_, ha, ⟨Nat.le_of_eq hlines.symm, rfl⟩, ?_, ⟨⟨[], ?_, ?_⟩, nofun⟩, hreads.braceFree, ?_⟩
    · simpa [Draft.next, Line.actions] using hactions
    · simp
    · simp [Draft.next]
    · simp [Draft.next, Line.stops, hs]
  cases h with
  | empty => exact hsilent rfl
  | comment s => exact hsilent rfl
  | @definition name t values hw hb hn =>
      have hg : d.vars.get? name = none := hn.defined k _ (compile_firstLines_of_lines hd)
      have ha : d.Added line (d.next (.directive ⟨.set, name :: values⟩)
          ⟨d.vars.entries ++ [(name, Text.joinFields values)]⟩) :=
        .read hs (Line.read_of_written (Variables.expand_of_braceFree hb) hw)
          (Variables.define_of_none hg _)
      refine ⟨_, ha, ⟨Nat.le_of_eq hlines.symm, rfl⟩, ?_, ⟨⟨[], ?_, ?_⟩, ?_⟩,
        ha.braceFree hreads.braceFree, ?_⟩
      · simpa [Draft.next, Line.actions] using hactions
      · simp
      · simp [Draft.next]
      · exact List.forall_mem_singleton.mpr hg
      · simp [Draft.next, Line.stops, hs]

theorem PushedDown.of_below {before e e' : Draft} (hs : before.stoppedAt = none)
    (h : Draft.Below k before.vars.entries extra e e') :
    PushedDown k extra (.ofDraft before) (.ofDraft e) (.ofDraft e') where
  document := by
    simp only [ofDraft, h.actions]
    exact Document.ofActions_renumber ..
  stoppedAt := h.stoppedAt
  vars := by
    obtain ⟨rest, he, he'⟩ := h.vars.entries
    exact ⟨rest, he, by rw [if_pos (show (ofDraft before).stoppedAt = none from hs)]; exact he'⟩

theorem PushedDown.of_stopped (hd : Draft.Reads (source.lines.take k) d)
    (hs : d.stoppedAt.isSome = true) : PushedDown k extra (.ofDraft d) (.ofDraft d) (.ofDraft d) where
  document :=
    (congrArg Document.ofActions (hd.keep hd.lines_le_take).1).trans (Document.ofActions_renumber ..)
  stoppedAt := (hd.keep hd.lines_le_take).2
  vars := by
    have hne : (ofDraft d).stoppedAt ≠ none := Option.isSome_iff_ne_none.mp hs
    exact ⟨[], (List.append_nil _).symm, by rw [if_neg hne]; exact (List.append_nil _).symm⟩

theorem Tacit.foldlM (h : Tacit source line extra) (hk : k ≤ source.lines.length)
    (hd : (source.lines.take k).foldlM Draft.add {} = .ok d) :
    (∀ e, (source.lines.drop k).foldlM Draft.add d = .error e →
      (line :: source.lines.drop k).foldlM Draft.add d = .error (e.renumber (pushDown k))) ∧
    ∀ e, (source.lines.drop k).foldlM Draft.add d = .ok e →
      ∃ e', (line :: source.lines.drop k).foldlM Draft.add d = .ok e' ∧
        PushedDown k extra (.ofDraft d) (.ofDraft e) (.ofDraft e') := by
  cases hs : d.stoppedAt with
  | some n =>
      have hsome : d.stoppedAt.isSome = true := by rw [hs]; rfl
      rw [Draft.foldlM_of_stopped hsome, Draft.foldlM_of_stopped hsome]
      refine ⟨nofun, fun e he => ?_⟩
      cases he
      exact ⟨d, rfl, .of_stopped (Draft.reads_of_foldlM hd) hsome⟩
  | none =>
      obtain ⟨d', ha, hbelow⟩ := h.below hd hs hk
      have hused : ∀ raw ∈ source.lines.drop k, Line.isSilent raw = false →
          ∀ e ∈ extra, ¬ useOf e.1 <:+: raw :=
        fun raw hm hsilent e he => (h.unmentioned e he).used raw (List.mem_of_mem_drop hm) hsilent
      have hunknown (n : Nat) (e : Draft)
          (he : ((source.lines.drop k).take n).foldlM Draft.add d = .ok e) :
          ∀ x ∈ extra, e.vars.get? x.1 = none := by
        intro x hx
        refine (h.unmentioned x hx).defined (k + n) _ (compile_firstLines_of_lines ?_)
        rw [List.take_add, List.foldlM_append, hd]
        exact he
      obtain ⟨herror, hok⟩ := hbelow.foldlM _ hused hunknown
      rw [List.foldlM_cons, ha.add]
      refine ⟨herror, fun e he => ?_⟩
      obtain ⟨e', he', hb⟩ := hok e he
      exact ⟨e', he', .of_below hs hb⟩

theorem PushedDown.history {before s t : Script} (h : PushedDown k extra before s t) (config : Config)
    (sink : Sink) (cs : List Control) :
    (Session.start t.document config sink).history cs =
      ((Session.start s.document config sink).history cs).map
        (List.map (Turn.renumber (pushDown k))) := by
  rw [h.document]
  exact Session.history_renumber (pushDown_strictMono k) (Session.start s.document config sink) cs

theorem unmentioned_of_compile {name : Text} {s : Script} (h : compile source = .ok s)
    (hn : s.vars.get? name = none)
    (hu : ∀ raw ∈ source.lines, Line.isSilent raw = false → ¬ useOf name <:+: raw) :
    Unmentioned source name where
  defined n s' hs' := by
    obtain ⟨d, hd, rfl⟩ := ok_of_map h
    obtain ⟨d', hd', rfl⟩ := ok_of_map hs'
    rw [← List.take_append_drop n source.lines, List.foldlM_append] at hd
    rw [Text.lines_firstLines] at hd'
    rw [hd'] at hd
    obtain ⟨more, hmore⟩ := (Draft.prefix_of_foldlM hd).2
    have hx : d.vars.Extends d'.vars := ⟨more, hmore.symm⟩
    cases hg : d'.vars.get? name with
    | none => exact hg
    | some value => exact absurd ((hx.get? hg).symm.trans hn) nofun
  used := hu

theorem Tacit.compiled (h : Tacit source line extra) (hk : k ≤ source.lines.length) {text : Text}
    (htext : text.lines = source.lines.take k ++ line :: source.lines.drop k) :
    (∀ e, compile source = .error e → compile text = .error (e.renumber (pushDown k))) ∧
    ∀ s, compile source = .ok s → ∃ before t, compile (source.firstLines k) = .ok before ∧
      compile text = .ok t ∧ PushedDown k extra before s t := by
  have hsource : compile source = ((source.lines.take k).foldlM Draft.add {} >>=
      (source.lines.drop k).foldlM Draft.add).map ofDraft := by
    rw [← List.foldlM_append, List.take_append_drop]
    rfl
  have hnew : compile text = ((source.lines.take k).foldlM Draft.add {} >>=
      (line :: source.lines.drop k).foldlM Draft.add).map ofDraft := by
    rw [← List.foldlM_append, ← htext]
    rfl
  cases hd : (source.lines.take k).foldlM Draft.add {} with
  | error e =>
      rw [hd] at hsource hnew
      refine ⟨fun e' he => ?_, fun s hs => ?_⟩
      · cases hsource.symm.trans he
        rw [hnew, CompileError.renumber, pushDown_of_le (Draft.line_le_of_take hd)]
        rfl
      · cases hsource.symm.trans hs
  | ok d =>
      rw [hd] at hsource hnew
      obtain ⟨herror, hok⟩ := h.foldlM hk hd
      refine ⟨fun e he => ?_, fun s hs => ?_⟩
      · rw [hnew]
        exact congrArg _ (herror e (error_of_map (hsource.symm.trans he)))
      · obtain ⟨e, he, rfl⟩ := ok_of_map (hsource.symm.trans hs)
        obtain ⟨e', he', hp⟩ := hok e he
        refine ⟨_, _, compile_firstLines_of_lines hd, ?_, hp⟩
        rw [hnew]
        exact congrArg _ he'

/-- What a script with a line put in at `k` compiles to, and how it is played: only the numbers of
lines differ, and these are not heard. -/
structure PutIn (source line : Text) (extra : List (Text × Text)) (k : Nat) : Prop where
  lines (raw : Text) : source.getLast? ≠ some '\r' → '\n' ∉ raw → raw.chomp = line →
    (raw.insertLine k source).lines = source.lines.take k ++ line :: source.lines.drop k
  timeline (u : Turn) : Effect.timeline (u.renumber (pushDown k)).done = Effect.timeline u.done
  error (text : Text) : text.lines = source.lines.take k ++ line :: source.lines.drop k →
    ∀ e, compile source = .error e → compile text = .error (e.renumber (pushDown k))
  ok (text : Text) : text.lines = source.lines.take k ++ line :: source.lines.drop k →
    ∀ s, compile source = .ok s → ∃ before t, compile (source.firstLines k) = .ok before ∧
      compile text = .ok t ∧ PushedDown k extra before s t ∧
      ∀ (config : Config) (sink : Sink) (cs : List Control),
        (Session.start t.document config sink).history cs =
          ((Session.start s.document config sink).history cs).map
            (List.map (Turn.renumber (pushDown k)))

/-- A line that says nothing changes nothing, wherever it is put in. -/
theorem compile_of_tacit (source line : Text) (extra : List (Text × Text)) (k : Nat)
    (hk : k ≤ source.lines.length) (hline : Tacit source line extra) :
    PutIn source line extra k where
  lines raw hr hn hraw := by
    rw [Text.lines_insertLine (fun _ hc he => hn (he ▸ hc)) hr hk, hraw]
  timeline u := Effect.timeline_renumber _ u.done
  error _ htext := (hline.compiled hk htext).1
  ok _ htext s hs := by
    obtain ⟨before, t, hbefore, ht, hp⟩ := (hline.compiled hk htext).2 s hs
    exact ⟨before, t, hbefore, ht, hp, hp.history⟩

theorem compile_of_tacit_definition :
    let source : Text := ",TAG t\na\n,GOTO t 1\n,GOTO u 1".toList
    let line : Text := ",set y c".toList
    let text : Text := ",TAG t\n,set y c\na\n,GOTO t 1\n,GOTO u 1".toList
    ∃ s before t, compile source = .ok s ∧ text = line.insertLine 1 source ∧
      compile text = .ok t ∧ PushedDown 1 [(['y'], ['c'])] before s t ∧
      t.document.actions.toList.map Action.line = [1, 3, 4, 5] := by
  intro source line text
  obtain ⟨s, h, hvars, hlines⟩ : ∃ s, compile source = .ok s ∧ s.vars.get? ['y'] = none ∧
      s.document.actions.toList.map Action.line = [1, 2, 3, 4] := ⟨_, rfl, rfl, rfl⟩
  have hw : Directive.Written ⟨.set, [['y'], ['c']]⟩ line :=
    ⟨⟨"set".toList, by decide, rfl⟩, by decide, rfl⟩
  have hline : Tacit source line [(['y'], ['c'])] :=
    .definition hw (by decide) (unmentioned_of_compile h hvars (by decide))
  have hput := compile_of_tacit source line _ 1 (by decide) hline
  have htext : text.lines = source.lines.take 1 ++ line :: source.lines.drop 1 :=
    hput.lines line (by decide) (by decide) (by decide)
  obtain ⟨before, t, -, ht, hp, -⟩ := hput.ok text htext s h
  refine ⟨s, before, t, h, by decide, ht, hp, ?_⟩
  have hmap : t.document.actions.toList.map Action.line =
      (s.document.actions.toList.map Action.line).map (pushDown 1) := by
    simp [hp.document, Document.renumber, Action.renumber]
  rw [hmap, hlines]
  rfl

end Script

end ChordScript
