import ChordScript.Proofs.DirectiveGrammar
import ChordScript.Proofs.NoteGrammar
import ChordScript.Proofs.OnePass

namespace ChordScript

def CompileError.Cause.mark? : Cause → Option Char
  | nestedVariable | unclosedVariable | unknownVariable _ => some '\x7b'
  | unmatchedBrace => some '\x7d'
  | nestedChord | unclosedChord | emptyChord => some '['
  | unmatchedBracket => some ']'
  | _ => none

/-- The column is that of the character to which the error points. An error that points to none has
the column of the keyword if it is about that, and otherwise column 0. -/
def LineError.Pointed (e : LineError) (t : Text) : Prop :=
  match e.cause.mark?, e.cause with
  | some c, _ => 1 ≤ e.col ∧ t[e.col - 1]? = some c
  | none, .unknownDirective _ => e.col = 2
  | none, _ => e.col = 0

theorem LineError.pointed_mark (cause : CompileError.Cause) {c : Char} (hc : cause.mark? = some c)
    (before after : Text) : Pointed ⟨cause, before.length + 1⟩ (before ++ c :: after) := by
  simp [Pointed, hc]

namespace Variables

variable {vs : Variables} {n : Nat} {s t : Text} {e : LineError} {r : Except LineError Text}

/-- What a line reads after some replacements, each of the first use of the line at hand. -/
inductive Rewrites (vs : Variables) : Text → Text → Prop
  | refl (s : Text) : Rewrites vs s s
  | replace {s t value : Text} {u : Use} (hf : firstUse? s = .ok (some u))
      (hg : vs.get? u.name = some value) (h : Rewrites vs (u.replace value) t) : Rewrites vs s t

/-- Why the uses in a line cannot all be replaced, at the first of them with which that shows. -/
inductive Stuck (vs : Variables) : Text → LineError → Prop
  | nestedVariable {before name after : Text} (hb : BraceFree before) (hn : BraceFree name) :
      Stuck vs (before ++ '\x7b' :: (name ++ '\x7b' :: after))
        ⟨.nestedVariable, (before ++ '\x7b' :: name).length + 1⟩
  | unmatchedBrace {before after : Text} (hb : BraceFree before) :
      Stuck vs (before ++ '\x7d' :: after) ⟨.unmatchedBrace, before.length + 1⟩
  | unclosedVariable {before name : Text} (hb : BraceFree before) (hn : BraceFree name) :
      Stuck vs (before ++ '\x7b' :: name) ⟨.unclosedVariable, before.length + 1⟩
  | unknownVariable {before name after : Text} (hb : BraceFree before) (hn : BraceFree name)
      (hg : vs.get? name = none) :
      Stuck vs (before ++ '\x7b' :: (name ++ '\x7d' :: after))
        ⟨.unknownVariable name, before.length + 1⟩

theorem Stuck.of_firstUse? (hf : firstUse? s = .error e) : vs.Stuck s e := by
  have hs := firstUse?_spec s
  rw [hf] at hs
  cases hs with
  | unmatched hb => exact .unmatchedBrace hb
  | unclosed hb hn => exact .unclosedVariable hb hn
  | @nested before name rest hb hn =>
      have hcol : before.length + 1 + name.length + 1 = (before ++ '\x7b' :: name).length + 1 := by
        rw [List.length_append, List.length_cons, Nat.add_assoc before.length, Nat.add_comm 1]
      rw [hcol]
      exact .nestedVariable hb hn

theorem Stuck.of_get? {u : Use} (hf : firstUse? s = .ok (some u)) (hg : vs.get? u.name = none) :
    vs.Stuck s ⟨.unknownVariable u.name, u.col⟩ := by
  have hs := firstUse?_spec s
  rw [hf] at hs
  cases hs with
  | use hb hn => exact .unknownVariable hb hn hg

theorem Expands.stuck (h : vs.Expands n s r) (hr : r = .error e) :
    ∃ t, vs.Rewrites s t ∧ vs.Stuck t e := by
  induction h with
  | done => cases hr
  | @fault s _ hf =>
      cases hr
      exact ⟨s, .refl s, .of_firstUse? hf⟩
  | @unknown s _ hf hg =>
      cases hr
      exact ⟨s, .refl s, .of_get? hf hg⟩
  | replace hf hg _ ih =>
      obtain ⟨t, ht, hstuck⟩ := ih hr
      exact ⟨t, .replace hf hg ht, hstuck⟩

theorem Stuck.pointed (h : vs.Stuck t e) : e.Pointed t := by
  cases h with
  | @nestedVariable before name after =>
      have hmark := LineError.pointed_mark .nestedVariable rfl (before ++ '\x7b' :: name) after
      rwa [List.append_assoc, List.cons_append] at hmark
  | unmatchedBrace | unclosedVariable | unknownVariable => exact LineError.pointed_mark _ rfl _ _

end Variables

namespace Line

variable {vs : Variables} {raw t : Text} {e : LineError}

/-- What is wrong with a line that cannot be read, once all uses in it have been replaced. The notes
before a fault in a line of notes are in order. -/
inductive Rejected : Text → LineError → Prop
  | nestedChord {v : NoteLine.Verse} {after : Text} {ks : List Key}
      (hk : ∀ k ∈ ks, NoteLine.isKey k = true) :
      Rejected (v.text ++ '[' :: (ks ++ '[' :: after))
        ⟨.nestedChord, (v.text ++ '[' :: ks).length + 1⟩
  | unmatchedBracket {v : NoteLine.Verse} {after : Text} :
      Rejected (v.text ++ ']' :: after) ⟨.unmatchedBracket, v.text.length + 1⟩
  | unclosedChord {v : NoteLine.Verse} {after : Text} {ks : List Key}
      (hk : ∀ k ∈ ks, NoteLine.isKey k = true) (ha : ∀ c ∈ after.head?, isRest c = true) :
      Rejected (v.text ++ '[' :: (ks ++ after)) ⟨.unclosedChord, v.text.length + 1⟩
  | emptyChord {v : NoteLine.Verse} {after : Text} :
      Rejected (v.text ++ '[' :: ']' :: after) ⟨.emptyChord, v.text.length + 1⟩
  | emptyDirective {body : Text} (hb : body = [] ∨ body.head? = some ' ') :
      Rejected (',' :: body) ⟨.emptyDirective, 0⟩
  | unknownDirective {word : Text} {args : List Text} (hne : word ≠ []) (hw : ' ' ∉ word)
      (hk : ∀ k : Keyword, ¬ k.InEitherCase word) :
      Rejected (',' :: Text.spaced word args) ⟨.unknownDirective word, 2⟩
  | argumentCount {k : Keyword} {word : Text} {args : List Text} (hw : k.InEitherCase word)
      (ha : ∀ arg ∈ args, ' ' ∉ arg)
      (hc : k = .set ∧ args.length < 2 ∨ k = .tag ∧ args.length ≠ 1) :
      Rejected (',' :: Text.spaced word args) ⟨.argumentCount k args.length, 0⟩

theorem Rejected.of_misread {body : Text} (h : Directive.Misread body e) :
    Rejected (',' :: body) e := by
  cases h with
  | empty hb => exact .emptyDirective hb
  | unknown hne hk =>
      obtain ⟨word, args, hf⟩ := List.exists_cons_of_ne_nil body.fields_ne_nil
      obtain ⟨rfl, hw, -⟩ := Text.fields_eq_cons.mp hf
      rw [Text.firstWord_of_fields hf] at hne hk ⊢
      exact .unknownDirective hne hw hk
  | count hw hbody ha hc =>
      rw [hbody]
      exact .argumentCount hw ha hc

theorem Rejected.of_fault (v : NoteLine.Verse) {bad : Text} {cause : CompileError.Cause} {n : Nat}
    (h : NoteLine.Fault bad cause n) :
    Rejected (v.text ++ bad) ⟨cause, 1 + v.text.length + n⟩ := by
  have hcol : 1 + v.text.length + 0 = v.text.length + 1 := by rw [Nat.add_zero, Nat.add_comm]
  cases h with
  | unmatched s =>
      rw [hcol]
      exact .unmatchedBracket
  | empty s =>
      rw [hcol]
      exact .emptyChord
  | @nested ks hk s =>
      have hnested : 1 + v.text.length + (ks.length + 1) = (v.text ++ '[' :: ks).length + 1 := by
        rw [List.length_append, List.length_cons, Nat.add_assoc, Nat.add_comm 1]
      rw [hnested]
      exact .nestedChord hk
  | unclosed hk hs =>
      rw [hcol]
      exact .unclosedChord hk hs

theorem Rejected.of_ofExpanded (h : ofExpanded t = .error e) : Rejected t e := by
  unfold ofExpanded at h
  split at h
  · exact .of_misread (Directive.misread_of_parse (error_of_map h))
  · obtain ⟨v, bad, cause, n, rfl, hf, rfl⟩ := NoteLine.tokens_eq_error.mp (error_of_map h)
    exact .of_fault v hf

theorem defining_eq_error {l : Line} (h : l.defining vs = .error e) :
    ∃ d, l = directive d ∧ d.keyword = .set ∧ (vs.get? (d.args.headD [])).isSome = true ∧
      e = ⟨.duplicateVariable (d.args.headD []), 0⟩ := by
  cases l with
  | silent | notes tokens => cases h
  | directive d =>
      simp only [defining] at h
      split at h
      · next hk =>
          unfold Variables.define at h
          split at h
          · next hg =>
              cases h
              exact ⟨d, rfl, hk, by rw [hg]; rfl, rfl⟩
          · cases h
      · cases h

theorem Rejected.pointed (h : Rejected t e) : e.Pointed t := by
  cases h with
  | @nestedChord v after ks =>
      have hmark := LineError.pointed_mark .nestedChord rfl (v.text ++ '[' :: ks) after
      rwa [List.append_assoc, List.cons_append] at hmark
  | unmatchedBracket | unclosedChord | emptyChord => exact LineError.pointed_mark _ rfl _ _
  | emptyDirective | unknownDirective | argumentCount => exact rfl

/-- An error of a line, and what the line reads when the error is met. -/
inductive AtFault (vs : Variables) (raw : Text) : Text → LineError → Prop
  | stuck {t : Text} {e : LineError} (ht : vs.Rewrites raw t) (h : vs.Stuck t e) : AtFault vs raw t e
  | rejected {t : Text} {e : LineError} (ht : vs.expand raw = .ok t) (h : Rejected t e) :
      AtFault vs raw t e
  | duplicateVariable {t word name value : Text} (ht : vs.expand raw = .ok t)
      (hw : Keyword.set.InEitherCase word) (hn : ' ' ∉ name)
      (hset : t = ',' :: (word ++ ' ' :: (name ++ ' ' :: value))) (hg : (vs.get? name).isSome = true) :
      AtFault vs raw t ⟨.duplicateVariable name, 0⟩

theorem AtFault.pointed (h : AtFault vs raw t e) : e.Pointed t := by
  cases h with
  | stuck _ h => exact h.pointed
  | rejected _ h => exact h.pointed
  | duplicateVariable => exact rfl

theorem AtFault.of_read (hv : ∀ entry ∈ vs.entries, BraceFree entry.2) (h : read vs raw = .error e) :
    ∃ t, AtFault vs raw t e := by
  cases hs : isSilent raw with
  | true =>
      rw [read_of_silent hs] at h
      cases h
  | false =>
      rw [read_of_not_silent hs] at h
      rcases error_of_bind h with hx | ⟨t, ht, h⟩
      · obtain ⟨n, -, hn⟩ := Variables.expands hv raw
        obtain ⟨t, ht, hstuck⟩ := hn.stuck hx
        exact ⟨t, .stuck ht hstuck⟩
      · exact ⟨t, .rejected ht (.of_ofExpanded h)⟩

theorem AtFault.of_defining {l : Line} (hl : read vs raw = .ok l) (h : l.defining vs = .error e) :
    ∃ t, AtFault vs raw t e := by
  obtain ⟨d, rfl, hk, hg, rfl⟩ := defining_eq_error h
  obtain ⟨t, ht, body, rfl, hd⟩ := read_eq_directive hl
  obtain ⟨word, name, value, hword, hname, rfl, rfl⟩ := Directive.exists_of_parse_set hd hk
  exact ⟨_, .duplicateVariable ht hword hname rfl hg⟩

theorem AtFault.of_through (hv : ∀ entry ∈ vs.entries, BraceFree entry.2)
    (h : through vs raw = .error e) : ∃ t, AtFault vs raw t e := by
  rcases error_of_bind h with hl | ⟨l, hl, hd⟩
  · exact AtFault.of_read hv hl
  · exact AtFault.of_defining hl hd

end Line

namespace Script

variable {source : Text} {e : CompileError}

/-- An error names the line at fault, which is reached with all lines before it compiled, and none of
them stops the script. It names the place in that line where the fault is to be seen. -/
theorem compile_error_shown (h : compile source = .error e) :
    ∃ k raw before t, e.line = k + 1 ∧ source.lines[k]? = some raw ∧
      compile (source.firstLines k) = .ok before ∧ before.stoppedAt = none ∧
      Line.AtFault before.vars raw t e.toLineError ∧ e.toLineError.Pointed t := by
  obtain ⟨k, before, raw, hline, hbefore, hs, hraw, hthrough⟩ := compile_eq_error_iff.mp h
  obtain ⟨t, ht⟩ := Line.AtFault.of_through (braceFree_of_compile hbefore) hthrough
  exact ⟨k, raw, before, t, hline, hraw, hbefore, hs, ht, ht.pointed⟩

theorem compile_error_shown_nested :
    let source : Text := ",SET \u00e4 \u00e9\n\x7b\u00e4\x7d[\u00e9[a]]".toList
    ∃ e k raw before t, compile source = .error e ∧ e = ⟨⟨.nestedChord, 4⟩, 2⟩ ∧ e.line = k + 1 ∧
      source.lines[k]? = some raw ∧ compile (source.firstLines k) = .ok before ∧
      before.stoppedAt = none ∧ Line.AtFault before.vars raw t e.toLineError ∧
      e.toLineError.Pointed t := by
  intro source
  have h : compile source = .error ⟨⟨.nestedChord, 4⟩, 2⟩ := rfl
  obtain ⟨k, raw, before, t, hshown⟩ := compile_error_shown h
  exact ⟨_, k, raw, before, t, h, rfl, hshown⟩

end Script

end ChordScript
