import ChordScript.Proofs.DirectiveGrammar
import ChordScript.Proofs.NoteGrammar
import ChordScript.Proofs.OnePass

namespace ChordScript

namespace Text

def returned (s : Text) : Text := s.flatMap fun c => if c = '\n' then ['\r', '\n'] else [c]

theorem returned_newline (s : Text) : returned ('\n' :: s) = '\r' :: '\n' :: returned s := rfl

theorem returned_cons {c : Char} (hc : c ≠ '\n') (s : Text) : returned (c :: s) = c :: returned s := by
  rw [returned, List.flatMap_cons, if_neg hc]
  rfl

theorem head?_returned (s : Text) : (returned s).head? ≠ some '\n' := by
  cases s with
  | nil => nofun
  | cons c s =>
      by_cases hc : c = '\n'
      · subst hc
        rw [returned_newline, List.head?_cons]
        decide
      · rw [returned_cons hc]
        simpa using hc

theorem lines_returned {s : Text} (h : ¬ ['\r', '\n'] <:+: s) : lines (returned s) = lines s := by
  fun_induction lines s with
  | case1 => rfl
  | case2 s ih =>
      rw [returned_newline, lines, ih fun hs => h (List.infix_cons hs)]
  | case3 s => exact absurd ⟨[], s, rfl⟩ h
  | case4 c s hc _ ih =>
      have hc : c ≠ '\n' := fun he => hc he
      rw [returned_cons hc, lines_cons hc fun _ => head?_returned s, ih fun hs => h (List.infix_cons hs)]

/-- A newline at the end is the ending of the last line, or if that has one, of one more line. -/
theorem lines_concat_newline {s : Text} (hs : s.getLast? ≠ some '\r') :
    lines (s ++ ['\n']) = lines s ∨ lines (s ++ ['\n']) = lines s ++ [[]] := by
  have htail {c : Char} {s : Text} (h : (c :: s).getLast? ≠ some '\r') : s.getLast? ≠ some '\r' :=
    fun he => h (by rw [List.getLast?_cons, he]; rfl)
  fun_induction lines s with
  | case1 => exact .inr rfl
  | case2 s ih => exact (ih (htail hs)).imp (congrArg ([] :: ·)) (congrArg ([] :: ·))
  | case3 s ih => exact (ih (htail (htail hs))).imp (congrArg ([] :: ·)) (congrArg ([] :: ·))
  | case4 c s hc hr ih =>
      have hc : c ≠ '\n' := fun he => hc he
      cases s with
      | nil =>
          refine .inl (lines_cons hc ?_)
          rintro rfl
          exact absurd rfl hs
      | cons d s =>
          have hhead : c = '\r' → (d :: s ++ ['\n']).head? ≠ some '\n' := by
            rintro rfl he
            obtain rfl : d = '\n' := Option.some.inj he
            exact hr s rfl rfl
          obtain ⟨p, ps, hps⟩ := List.exists_cons_of_ne_nil (lines_ne_nil (List.cons_ne_nil d s))
          rw [hps] at ih ⊢
          rw [List.cons_append, lines_cons hc hhead]
          rcases ih (htail hs) with h | h
          · exact .inl (congrArg (consHead c) h)
          · exact .inr (congrArg (consHead c) h)

end Text

theorem Draft.add_empty (d : Draft) :
    ∃ d', d.add [] = .ok d' ∧ Script.ofDraft d' = Script.ofDraft d := by
  cases hs : d.stoppedAt with
  | some n => exact ⟨d, add_of_stopped (by rw [hs]; rfl) [], rfl⟩
  | none =>
      have ha : d.Added [] (d.next .silent d.vars) := .read hs rfl rfl
      refine ⟨_, ha.add, ?_⟩
      simp [Script.ofDraft, next, Line.actions, Line.stops, hs]

def Token.keys (t : Token) : List Key :=
  match t.kind with
  | .chords cs => cs.flatMap Chord.keys
  | .rest _ => []

namespace NoteLine

variable {k : Key}

theorem Item.mem_keys_chord {i : Item} (hk : isKey k = true) (h : k ∈ i.text) : k ∈ i.chord.keys := by
  obtain ⟨-, ho, hc⟩ := isKey_iff.mp hk
  refine List.mem_eraseDups.mpr ?_
  cases i with
  | key l hl => exact h
  | group ks hne hks => simpa [text, keys, ho, hc] using h

theorem Run.mem_keys_counted {r : Run} (hk : isKey k = true) (h : k ∈ r.text) (col : Nat) :
    k ∈ (r.counted col).flatMap Token.keys := by
  have hrest : k ∉ r.rests := fun hm => by
    have hsilent := r.silent k hm
    rw [(isKey_iff.mp hk).1] at hsilent
    cases hsilent
  obtain ⟨i, hi, hm⟩ := List.mem_flatMap.mp ((List.mem_append.mp h).resolve_left hrest)
  rw [counted, List.flatMap_append]
  refine List.mem_append_right _ ?_
  simp only [List.flatMap_singleton, Token.keys, List.flatMap_map]
  exact List.mem_flatMap.mpr ⟨i, hi, Item.mem_keys_chord hk hm⟩

theorem mem_keys_countedAt {rs : List Run} (hk : isKey k = true) (h : k ∈ textOf rs) (col : Nat) :
    k ∈ (countedAt col rs).flatMap Token.keys := by
  induction rs generalizing col with
  | nil => cases h
  | cons r rs ih =>
      rw [countedAt, List.flatMap_append, List.mem_append]
      rw [textOf_cons, List.mem_append] at h
      exact h.imp (fun h => r.mem_keys_counted hk h col) fun h => ih h _

theorem mem_keys_of_tokens {s : Text} {ts : List Token} (h : tokens s = .ok ts)
    (hk : isKey k = true) (hs : k ∈ s) : k ∈ ts.flatMap Token.keys := by
  obtain ⟨v, rfl, rfl⟩ := tokens_eq_ok.mp h
  refine mem_keys_countedAt hk ((List.mem_append.mp hs).resolve_right fun hm => ?_) 1
  have hsilent := v.silent k hm
  rw [(isKey_iff.mp hk).1] at hsilent
  cases hsilent

end NoteLine

theorem Directive.count_args {body : Text} {d : Directive} (h : parse body = .ok d) {c : Char}
    (hb : c ≠ ' ') (hc : c.toUpper.isUpper = false) : d.args.flatten.count c = body.count c := by
  obtain ⟨word, hword, rfl, -⟩ := parse_eq_ok_iff.mp h
  have hnone : word.count c = 0 := by
    refine List.count_eq_zero.mpr fun hm => ?_
    have hupper : c.toUpper ∈ d.keyword.text :=
      Keyword.spelled_iff.mpr hword ▸ List.mem_map_of_mem hm
    rw [Keyword.isUpper_of_mem_text hupper] at hc
    cases hc
  have hargs (args : List Text) : (args.flatMap (' ' :: ·)).count c = args.flatten.count c := by
    induction args with
    | nil => rfl
    | cons arg args ih =>
        rw [List.flatMap_cons, List.cons_append, List.count_cons_of_ne hb.symm, List.count_append, ih,
          List.flatten_cons, List.count_append]
  rw [Text.spaced, List.count_append, hnone, hargs, Nat.zero_add]

namespace Script

theorem compile_congr {source source' : Text} (h : source'.lines = source.lines) :
    compile source' = compile source := by
  rw [compile, h, compile]

theorem compile_concat_empty {source source' : Text} (h : source'.lines = source.lines ++ [[]]) :
    compile source' = compile source := by
  rw [compile, h, List.foldlM_append, compile]
  cases source.lines.foldlM Draft.add {} with
  | error e => rfl
  | ok d =>
      obtain ⟨d', hadd, hd⟩ := d.add_empty
      change ([[]].foldlM Draft.add d).map ofDraft = .ok (ofDraft d)
      rw [List.foldlM_cons, hadd]
      exact congrArg _ hd

/-- What a script is with other line endings, what is cut off from a line, and what becomes of the
carriage returns that are left in it. -/
structure LineEndings (source : Text) : Prop where
  returned : ¬ ['\r', '\n'] <:+: source → compile source.returned = compile source
  concat_newline : source.getLast? ≠ some '\r' → compile (source ++ ['\n']) = compile source
  ended (l rest : Text) : '\n' ∉ l → (l ++ '\n' :: rest).lines = l.chomp :: rest.lines
  unended (l : Text) : '\n' ∉ l → l ≠ [] → l.lines = [l]
  expand (k : Nat) (before : Script) : compile (source.firstLines k) = .ok before →
    ∀ left right t u : Text, before.vars.expand left = .ok t → before.vars.expand right = .ok u →
      before.vars.expand (left ++ '\r' :: right) = .ok (t ++ '\r' :: u)
  notes (t : Text) (ts : List Token) : Line.ofExpanded t = .ok (.notes ts) → '\r' ∈ t →
    '\r' ∈ ts.flatMap Token.keys
  directive (t : Text) (d : Directive) : Line.ofExpanded t = .ok (.directive d) →
    d.args.flatten.count '\r' = t.count '\r'

/-- A script compiles to the same, or fails for the same reason at the same place, whichever way its
lines end and whether or not the last of them has an ending. A carriage return counts as part of an
ending only right before a newline. Anywhere else it is read as it stands, and it is pressed if it
stands among notes, and belongs to the arguments if it stands in a directive. -/
theorem compile_line_endings (source : Text) : LineEndings source where
  returned h := compile_congr (Text.lines_returned h)
  concat_newline h := (Text.lines_concat_newline h).elim compile_congr compile_concat_empty
  ended _ rest hl := Text.lines_ended (fun _ hc he => hl (he ▸ hc)) rest
  unended _ hl := Text.lines_unended fun _ hc he => hl (he ▸ hc)
  expand _ _ h _ _ _ _ ht hu := Variables.expand_around (braceFree_of_compile h) (by decide) ht hu
  notes t ts h hr := by
    rcases Line.ofExpanded_eq_ok h with ⟨body, d, -, -, he⟩ | ⟨-, us, hu, he⟩
    · cases he
    · cases he
      exact NoteLine.mem_keys_of_tokens hu (by decide) hr
  directive t d h := by
    rcases Line.ofExpanded_eq_ok h with ⟨body, e, rfl, hd, he⟩ | ⟨-, us, -, he⟩
    · cases he
      rw [Directive.count_args hd (by decide) (by decide), List.count_cons_of_ne (by decide)]
    · cases he

theorem compile_line_endings_inside :
    let source : Text := ",TAG t\ru\na\r[b\r]\n,GOTO t\ru 1".toList
    ∃ s, compile source = .ok s ∧
      source.returned = ",TAG t\ru\r\na\r[b\r]\r\n,GOTO t\ru 1".toList ∧
      compile source.returned = .ok s ∧ compile (source ++ ['\n']) = .ok s ∧
      s.document.tags.get? "t\ru".toList = some 0 ∧
      s.document.listing = "001: TAG: t\ru\n002: PLAY: [a], [\r], [b\r]\n003: GOTO: t\ru 1\n".toList ∧
      compile "a\r\n\r".toList = compile "a\n\r".toList := by
  intro source
  obtain ⟨s, h, htag, hlisting⟩ : ∃ s, compile source = .ok s ∧
      s.document.tags.get? "t\ru".toList = some 0 ∧ s.document.listing =
        "001: TAG: t\ru\n002: PLAY: [a], [\r], [b\r]\n003: GOTO: t\ru 1\n".toList :=
    ⟨_, rfl, rfl, rfl⟩
  have hsource := compile_line_endings source
  exact ⟨s, h, by decide, (hsource.returned (by decide)).trans h,
    (hsource.concat_newline (by decide)).trans h, htag, hlisting,
    (compile_line_endings "a\n\r".toList).returned (by decide)⟩

end Script

end ChordScript
