import Mathlib.Data.Nat.Digits.Lemmas
import ChordScript.Proofs.Lines
import ChordScript.Proofs.NoteGrammar
import ChordScript.Proofs.Reading

namespace ChordScript

/-- The characters that end an argument or cannot stand in an expanded line. -/
def outsideArgs : List Char := [' ', '\x7b', '\x7d', '\n']

def outsideKeys : List Char := [' ', '.', '[', ']', '\x7b', '\x7d', '\n']

structure Directive.WellFormed (d : Directive) : Prop where
  keyword : d.keyword ≠ .set ∧ d.keyword ≠ .stop
  tag : d.keyword = .tag → d.args.length = 1
  args : ∀ arg ∈ d.args, ∀ c ∈ arg, c ∉ outsideArgs

structure Chord.WellFormed (c : Chord) : Prop where
  nonempty : c.keys ≠ []
  nodup : c.keys.Nodup
  keys : ∀ k ∈ c.keys, k ∉ outsideKeys

def Step.WellFormed : Step → Prop
  | play chords => chords ≠ [] ∧ ∀ c ∈ chords, c.WellFormed
  | obey d => d.WellFormed

/-- Chords and rests, chords being the last. They are in turn if and only if the counter keeps
something of the rests between any two runs of the line. -/
structure NoteBlock (line : Nat) (t : Text) (as : List Action) : Prop where
  each : ∀ a ∈ as, (∃ chords, a = ⟨line, .play chords⟩) ∨ ∃ beats, 1 ≤ beats ∧ a = .rest line beats
  apart : as.IsChain fun a b =>
    a.step.directive?.isSome = true → b.step.directive?.isSome = false
  last : ∃ before chords, as = before ++ [⟨line, .play chords⟩]
  turns : ∃ v : NoteLine.Verse, v.text = t ∧
    ((as.IsChain fun a b => a.step.directive?.isSome ≠ b.step.directive?.isSome) ↔
      ∀ r ∈ v.runs.tail, ¬ UInt32.size ∣ r.rests.length)

def Document.actionsAt (d : Document) (line : Nat) : List Action :=
  d.actions.toList.filter (·.line = line)

namespace Script

/-- A line of the source as it reads with the variables of the script put in. -/
def expansion? (s : Script) (source : Text) (line : Nat) : Option Text :=
  source.lines[line - 1]?.bind fun raw => (s.vars.expand raw).toOption

structure WellFormed (source : Text) (s : Script) : Prop where
  steps : ∀ a ∈ s.document.actions, a.step.WellFormed
  ordered : s.document.actions.toList.Pairwise (·.line ≤ ·.line)
  lines : ∀ a ∈ s.document.actions, 1 ≤ a.line ∧ a.line ≤ source.lines.length
  blocks : ∀ n, s.document.actionsAt n ≠ [] → ∃ t, s.expansion? source n = some t ∧
    (t.head? = some ',' ∧ (∃ d, s.document.actionsAt n = [⟨n, .obey d⟩]) ∨
      t.head? ≠ some ',' ∧ NoteBlock n t (s.document.actionsAt n))
  gotos : ∀ (i j : Nat) (a b : Action), s.document.actions[i]? = some a →
    s.document.actions[j]? = some b → a.step.isDirective .goto → b.step.isDirective .goto →
    a.line = b.line → i = j
  rests : ∀ (i n : Nat) (d : Directive) (t : Text), s.document.actions[i]? = some ⟨n, .obey d⟩ →
    s.expansion? source n = some t → t.head? ≠ some ',' →
    ∃ chords, s.document.actions[i + 1]? = some ⟨n, .play chords⟩

end Script

section Block

variable {α : Type} {xs before block after : List α} {f : α → Nat} {n : Nat}

theorem filter_block (hx : xs = before ++ (block ++ after)) (hb : ∀ x ∈ before, f x < n)
    (hm : ∀ x ∈ block, f x = n) (ha : ∀ x ∈ after, n < f x) : xs.filter (f · = n) = block := by
  have hbefore : before.filter (f · = n) = [] :=
    List.filter_eq_nil_iff.mpr fun x hx => by simpa using Nat.ne_of_lt (hb x hx)
  have hafter : after.filter (f · = n) = [] :=
    List.filter_eq_nil_iff.mpr fun x hx => by simpa using Nat.ne_of_gt (ha x hx)
  rw [hx, List.filter_append, List.filter_append, hbefore, hafter, List.nil_append, List.append_nil]
  exact List.filter_eq_self.mpr fun x hx => by simpa using hm x hx

theorem getElem?_block (hx : xs = before ++ (block ++ after)) (hb : ∀ x ∈ before, f x < n)
    (ha : ∀ x ∈ after, n < f x) {i : Nat} {x : α} (hi : xs[i]? = some x) (hn : f x = n) :
    ∃ j, i = before.length + j ∧ block[j]? = some x := by
  subst hx
  by_cases hlt : i < before.length
  · rw [List.getElem?_append_left hlt] at hi
    exact absurd hn (Nat.ne_of_lt (hb x (List.mem_of_getElem? hi)))
  · obtain ⟨j, rfl⟩ := Nat.exists_eq_add_of_le (Nat.le_of_not_lt hlt)
    rw [List.getElem?_append_right (Nat.le_add_right ..), Nat.add_sub_cancel_left] at hi
    by_cases hj : j < block.length
    · rw [List.getElem?_append_left hj] at hi
      exact ⟨j, rfl, hi⟩
    · rw [List.getElem?_append_right (Nat.le_of_not_lt hj)] at hi
      exact absurd hn (Nat.ne_of_gt (ha x (List.mem_of_getElem? hi)))

theorem getElem?_of_block (hx : xs = before ++ (block ++ after)) {j : Nat} {x : α}
    (hj : block[j]? = some x) : xs[before.length + j]? = some x := by
  rw [hx, List.getElem?_append_right (Nat.le_add_right ..), Nat.add_sub_cancel_left,
    List.getElem?_append_left (List.getElem?_eq_some_iff.mp hj).1, hj]

end Block

namespace Directive

theorem parse_eq_ok {body : Text} {d : Directive} (h : parse body = .ok d) :
    d.args = body.fields.tail ∧ d.keyword.accepts d.args.length = true := by
  unfold parse at h
  dsimp only at h
  split at h
  · cases h
  · split at h
    · cases h
    · split at h
      · next ha =>
          cases h
          exact ⟨rfl, ha⟩
      · cases h

end Directive

namespace Line

theorem ofExpanded_eq_ok {t : Text} {l : Line} (h : ofExpanded t = .ok l) :
    (∃ body d, t = ',' :: body ∧ Directive.parse body = .ok d ∧ l = directive d) ∨
      t.head? ≠ some ',' ∧ ∃ ts, NoteLine.tokens t = .ok ts ∧ l = notes ts := by
  unfold ofExpanded at h
  split at h
  · next body =>
      obtain ⟨d, hd, rfl⟩ := ok_of_map h
      exact .inl ⟨body, d, rfl, hd, rfl⟩
  · next hc =>
      obtain ⟨ts, ht, rfl⟩ := ok_of_map h
      refine .inr ⟨?_, ts, ht, rfl⟩
      cases t with
      | nil => simp
      | cons c s => simpa using fun he => hc s (by rw [he])

theorem read_eq_directive {vs : Variables} {raw : Text} {d : Directive}
    (h : read vs raw = .ok (directive d)) :
    ∃ t, vs.expand raw = .ok t ∧ ∃ body, t = ',' :: body ∧ Directive.parse body = .ok d := by
  cases hs : isSilent raw with
  | true =>
      rw [read_of_silent hs] at h
      cases h
  | false =>
      rw [read_of_not_silent hs] at h
      obtain ⟨t, ht, h⟩ := ok_of_bind h
      rcases ofExpanded_eq_ok h with ⟨body, d', hb, hd, he⟩ | ⟨-, ts, -, he⟩
      · cases he
        exact ⟨t, ht, body, hb, hd⟩
      · cases he

end Line

theorem Text.decimal_notMem {n : Nat} {c : Char} (h : c ∈ Text.decimal n) : c ∉ outsideArgs := by
  have hd : c.isDigit = true := Nat.isDigit_of_mem_toDigits (by decide) (by decide) h
  intro hm
  simp only [outsideArgs, List.mem_cons, List.not_mem_nil, or_false] at hm
  rcases hm with rfl | rfl | rfl | rfl <;> cases hd

theorem Action.rest_wellFormed (line beats : Nat) : (Action.rest line beats).step.WellFormed where
  keyword := ⟨nofun, nofun⟩
  tag := nofun
  args := by
    intro arg harg c hc
    obtain rfl := List.mem_singleton.mp harg
    exact Text.decimal_notMem hc

def PlainText (t : Text) : Prop := ∀ c ∈ t, isBrace c = false ∧ c ≠ '\n'

theorem notMem_outsideArgs {c : Char} (hb : c ≠ ' ') (hp : isBrace c = false ∧ c ≠ '\n') :
    c ∉ outsideArgs := by
  simp_all [outsideArgs, isBrace]

theorem notMem_outsideKeys {c : Char} (hr : isRest c = false) (ho : c ≠ '[') (hc : c ≠ ']')
    (hp : isBrace c = false ∧ c ≠ '\n') : c ∉ outsideKeys := by
  simp_all [outsideKeys, isBrace, isRest]

theorem Directive.wellFormed_of_parse {body : Text} {d : Directive} (hp : PlainText body)
    (h : parse body = .ok d) (hset : d.keyword ≠ .set) (hstop : d.keyword ≠ .stop) :
    d.WellFormed := by
  obtain ⟨hargs, hcount⟩ := parse_eq_ok h
  refine ⟨⟨hset, hstop⟩, fun ht => ?_, fun arg harg c hc => ?_⟩
  · simpa [Keyword.accepts, ht] using hcount
  · have hf : arg ∈ body.fields := List.mem_of_mem_tail (hargs ▸ harg)
    exact notMem_outsideArgs (Text.blank_notMem_fields body arg hf c hc)
      (Text.forall_fields hp arg hf c hc)

theorem Token.isRest_eq (t : Token) (line : Nat) :
    t.isRest = (t.action line).step.directive?.isSome := by
  obtain ⟨col, kind⟩ := t
  cases kind <;> rfl

theorem Token.Sound.action {P : Key → Prop} {t : Token} (h : t.Sound P) (line : Nat) :
    (∃ chords, t.action line = ⟨line, .play chords⟩ ∧ chords ≠ [] ∧ ∀ c ∈ chords, ∀ k ∈ c.keys, P k) ∨
      ∃ beats, 1 ≤ beats ∧ t.action line = .rest line beats := by
  unfold Token.action
  split
  · next chords hk => exact .inl ⟨chords, rfl, h.run chords hk⟩
  · next beats hk => exact .inr ⟨beats, h.rest beats hk, rfl⟩

theorem noteBlock_of_tokens {P : Key → Prop} {t : Text} {ts : List Token}
    (h : NoteLine.tokens t = .ok ts) (hs : ∀ t ∈ ts, t.Sound P) (hne : ts ≠ []) (line : Nat) :
    NoteBlock line t (ts.map (·.action line)) where
  each := by
    intro a hm
    obtain ⟨t, ht, rfl⟩ := List.mem_map.mp hm
    rcases (hs t ht).action line with ⟨chords, hc, -⟩ | hr
    · exact .inl ⟨chords, hc⟩
    · exact .inr hr
  apart := by
    obtain ⟨v, -, rfl⟩ := NoteLine.tokens_eq_ok.mp h
    rw [List.isChain_map]
    simpa only [← Token.isRest_eq] using NoteLine.apart_countedAt
  last := by
    obtain ⟨v, -, rfl⟩ := NoteLine.tokens_eq_ok.mp h
    have hlast := NoteLine.last_countedAt _ (List.getLast_mem_getLast? hne)
    rw [← List.dropLast_concat_getLast hne]
    rcases (hs _ (List.getLast_mem hne)).action line with ⟨chords, hc, -⟩ | ⟨beats, -, hr⟩
    · exact ⟨_, chords, by rw [List.map_append, List.map_singleton, hc]⟩
    · rw [Token.isRest_eq _ line, hr] at hlast
      cases hlast
  turns := by
    obtain ⟨v, hv, rfl⟩ := NoteLine.tokens_eq_ok.mp h
    refine ⟨v, hv, ?_⟩
    rw [List.isChain_map]
    simpa only [← Token.isRest_eq] using NoteLine.turns_iff

theorem Line.wellFormed {t : Text} {l : Line} (hp : PlainText t) (h : ofExpanded t = .ok l)
    (number : Nat) : (∀ a ∈ l.actions number, a.step.WellFormed) ∧ (l.actions number ≠ [] →
      t.head? = some ',' ∧ (∃ d, l.actions number = [⟨number, .obey d⟩]) ∨
        t.head? ≠ some ',' ∧ NoteBlock number t (l.actions number)) := by
  rcases ofExpanded_eq_ok h with ⟨body, d, rfl, hd, rfl⟩ | ⟨hc, ts, ht, rfl⟩
  · have hbody : PlainText body := fun c hm => hp c (List.mem_cons_of_mem _ hm)
    simp only [actions]
    split
    · exact ⟨List.forall_mem_nil _, fun hne => absurd rfl hne⟩
    · exact ⟨List.forall_mem_nil _, fun hne => absurd rfl hne⟩
    · next hstop hset =>
        refine ⟨List.forall_mem_singleton.mpr ?_, fun _ => .inl ⟨rfl, d, rfl⟩⟩
        exact Directive.wellFormed_of_parse hbody hd hset hstop
  · have hs := NoteLine.tokens_sound (P := (· ∉ outsideKeys))
      (fun k hk hr ho hc => notMem_outsideKeys hr ho hc (hp k hk)) ht
    refine ⟨fun a ha => ?_, fun hne => .inr ⟨hc, ?_⟩⟩
    · obtain ⟨token, hm, rfl⟩ := List.mem_map.mp ha
      rcases (hs token hm).action number with ⟨chords, hk, hne, hkeys⟩ | ⟨beats, -, hk⟩
      · rw [hk]
        exact ⟨hne, fun c hc => ⟨c.nonempty, c.nodup, hkeys c hc⟩⟩
      · rw [hk]
        exact Action.rest_wellFormed number beats
    · exact noteBlock_of_tokens ht hs (mt List.map_eq_nil_iff.mpr hne) number

theorem NoteBlock.chords_after {t : Text} {as : List Action} {n k : Nat} {d : Directive}
    (h : NoteBlock n t as) (hk : as[k]? = some ⟨n, .obey d⟩) :
    ∃ chords, as[k + 1]? = some ⟨n, .play chords⟩ := by
  obtain ⟨before, chords, rfl⟩ := h.last
  have hlt : k < before.length := by
    by_contra hge
    rw [List.getElem?_append_right (Nat.le_of_not_lt hge), List.getElem?_singleton] at hk
    split at hk <;> cases hk
  have hlen : k + 1 < (before ++ [(⟨n, .play chords⟩ : Action)]).length := by simpa using hlt
  have hturn := List.isChain_iff_getElem.mp h.apart k hlen
  rw [List.getElem?_eq_getElem (Nat.lt_of_succ_lt hlen)] at hk
  rw [List.getElem?_eq_getElem hlen]
  rcases h.each _ (List.getElem_mem hlen) with ⟨chords', hc⟩ | ⟨beats, -, hr⟩
  · exact ⟨chords', congrArg some hc⟩
  · rw [Option.some.inj hk, hr] at hturn
    cases hturn rfl

theorem Line.alone_of_directive {l : Line} {number : Nat} {a : Action} {k : Keyword} (hk : k ≠ .wait)
    (ha : a ∈ l.actions number) (hg : a.step.isDirective k = true) : l.actions number = [a] := by
  cases l with
  | silent => cases ha
  | notes tokens =>
      obtain ⟨⟨col, kind⟩, -, rfl⟩ := List.mem_map.mp ha
      cases kind with
      | chords => cases hg
      | rest => exact absurd (of_decide_eq_true hg).symm hk
  | directive d =>
      simp only [actions] at ha ⊢
      split at ha
      · cases ha
      · cases ha
      · rw [List.mem_singleton.mp ha]

theorem Draft.Added.entries {d d' : Draft} {raw : Text} (h : Added d raw d') :
    d'.vars.entries = d.vars.entries ∨ ∃ (t : Text) (args : List Text), d.vars.expand raw = .ok t ∧
      (∀ P : Char → Prop, (∀ c ∈ t, P c) → ∀ arg ∈ args, ∀ c ∈ arg, P c) ∧
      d'.vars.entries = d.vars.entries ++ [(args.headD [], Text.joinFields args.tail)] := by
  cases h with
  | past => exact .inl rfl
  | @read l vars hs hr hv =>
      rcases Line.defining_eq_ok hv with rfl | ⟨dir, rfl, he⟩
      · exact .inl rfl
      · obtain ⟨t, ht, body, rfl, hp⟩ := Line.read_eq_directive hr
        refine .inr ⟨_, dir.args, ht, fun P hP arg harg => ?_, he⟩
        rw [(Directive.parse_eq_ok hp).1] at harg
        exact Text.forall_fields (List.forall_mem_cons.mp hP).2 arg (List.mem_of_mem_tail harg)

theorem Draft.Added.forall_expanded {P : Char → Prop} {d d' : Draft} {raw : Text} (h : Added d raw d')
    (hb : P ' ') (hx : ∀ t, d.vars.expand raw = .ok t → ∀ c ∈ t, P c)
    (hd : ∀ e ∈ d.vars.entries, ∀ c ∈ e.2, P c) : ∀ e ∈ d'.vars.entries, ∀ c ∈ e.2, P c := by
  rcases h.entries with he | ⟨t, args, ht, hargs, he⟩
  · rwa [he]
  · rw [he, List.forall_mem_append, List.forall_mem_singleton]
    refine ⟨hd, Text.forall_joinFields hb fun arg harg => ?_⟩
    exact hargs P (hx t ht) arg (List.mem_of_mem_tail harg)

theorem Draft.Added.forall_values {P : Char → Prop} {d d' : Draft} {raw : Text} (h : Added d raw d')
    (hb : P ' ') (hraw : ∀ c ∈ raw, P c) (hd : ∀ e ∈ d.vars.entries, ∀ c ∈ e.2, P c) :
    ∀ e ∈ d'.vars.entries, ∀ c ∈ e.2, P c :=
  h.forall_expanded hb (fun _ ht => Variables.forall_expand hraw hd ht) hd

theorem Draft.Added.braceFree {d d' : Draft} {raw : Text} (h : Added d raw d')
    (hd : ∀ e ∈ d.vars.entries, BraceFree e.2) : ∀ e ∈ d'.vars.entries, BraceFree e.2 :=
  h.forall_expanded rfl (fun _ ht => Variables.expand_braceFree ht) hd

theorem Draft.Reads.braceFree {ls : List Text} {d : Draft} (h : Reads ls d) :
    ∀ e ∈ d.vars.entries, BraceFree e.2 := by
  induction h with
  | nil => nofun
  | snoc h ha ih => exact ha.braceFree ih

theorem Draft.Reads.forall_values {P : Char → Prop} {ls : List Text} {d : Draft} (h : Reads ls d)
    (hb : P ' ') (hl : ∀ l ∈ ls, ∀ c ∈ l, P c) : ∀ e ∈ d.vars.entries, ∀ c ∈ e.2, P c := by
  induction h with
  | nil => nofun
  | snoc h ha ih =>
      rw [List.forall_mem_append, List.forall_mem_singleton] at hl
      exact ha.forall_values hb hl.2 (ih hl.1)

namespace Script

variable {source : Text} {s : Script}

theorem braceFree_of_compile (h : compile source = .ok s) : ∀ e ∈ s.vars.entries, BraceFree e.2 := by
  obtain ⟨d, hd, rfl⟩ := reads_of_compile h
  exact hd.braceFree

/-- Every action stands in the block of its line, which is read off the expansion of the line. -/
theorem block_of_compile (h : compile source = .ok s) {a : Action} (ha : a ∈ s.document.actions) :
    ∃ t l before after, s.expansion? source a.line = some t ∧ PlainText t ∧
      Line.ofExpanded t = .ok l ∧
      s.document.actions.toList = before ++ (l.actions a.line ++ after) ∧
      (∀ b ∈ before, b.line < a.line) ∧ ∀ b ∈ after, a.line < b.line := by
  obtain ⟨d, hd, rfl⟩ := reads_of_compile h
  obtain ⟨hpos, hle⟩ := hd.line_bounds a ha.val
  obtain ⟨n, hn⟩ := Nat.exists_eq_add_one_of_ne_zero (Nat.ne_of_gt hpos)
  rw [hn] at hle ⊢
  obtain ⟨raw, l, before, after, hraw, hl, hx, hbefore, hafter⟩ := hd.block hle
  have hne : l.actions (n + 1) ≠ [] := by
    intro hnil
    have hm : a ∈ d.actions.toList := ha.val
    rw [hx, hnil, List.nil_append, List.mem_append] at hm
    rcases hm with hm | hm
    · exact absurd hn (Nat.ne_of_lt (hbefore a hm))
    · exact absurd hn (Nat.ne_of_gt (hafter a hm))
  have hs : Line.isSilent raw = false := by
    by_contra hs
    rw [Line.read_of_silent (by simpa using hs)] at hl
    cases hl
    exact hne rfl
  rw [Line.read_of_not_silent hs] at hl
  obtain ⟨t, ht, hl⟩ := ok_of_bind hl
  refine ⟨t, l, before, after, ?_, fun c hc => ⟨?_, ?_⟩, hl, hx, hbefore, hafter⟩
  · simp only [expansion?, Nat.add_sub_cancel, hraw, Option.bind_some, ofDraft, ht, Except.toOption]
  · exact Variables.expand_braceFree ht c hc
  · have hlines := Text.newline_notMem_lines source
    exact Variables.forall_expand (hlines raw (List.mem_of_getElem? hraw))
      (hd.forall_values (by decide) hlines) ht c hc

theorem alone_of_directive (h : compile source = .ok s) {i j : Nat} {a b : Action} {k : Keyword}
    (hk : k ≠ .wait) (ha : s.document.actions[i]? = some a) (hb : s.document.actions[j]? = some b)
    (hg : a.step.isDirective k) (hl : a.line = b.line) : i = j := by
  obtain ⟨t, l, before, after, -, -, -, hx, hbefore, hafter⟩ :=
    block_of_compile h (Array.mem_of_getElem? ha)
  rw [← Array.getElem?_toList] at ha hb
  obtain ⟨i, rfl, hi⟩ := getElem?_block hx hbefore hafter ha rfl
  obtain ⟨j, rfl, hj⟩ := getElem?_block hx hbefore hafter hb hl.symm
  have hone := Line.alone_of_directive hk (List.mem_of_getElem? hi) hg
  have hlen : (l.actions a.line).length = 1 := by rw [hone, List.length_singleton]
  have hi' := (List.getElem?_eq_some_iff.mp hi).1
  have hj' := (List.getElem?_eq_some_iff.mp hj).1
  omega

theorem alone_of_goto (h : compile source = .ok s) {i j : Nat} {a b : Action}
    (ha : s.document.actions[i]? = some a) (hb : s.document.actions[j]? = some b)
    (hg : a.step.isDirective .goto) (hl : a.line = b.line) : i = j :=
  alone_of_directive h Keyword.noConfusion ha hb hg hl

theorem chords_after_rest (h : compile source = .ok s) {i n : Nat} {d : Directive} {t : Text}
    (hi : s.document.actions[i]? = some ⟨n, .obey d⟩) (ht : s.expansion? source n = some t)
    (hc : t.head? ≠ some ',') : ∃ chords, s.document.actions[i + 1]? = some ⟨n, .play chords⟩ := by
  obtain ⟨t', l, before, after, ht', hp, hl, hx, hbefore, hafter⟩ :=
    block_of_compile h (Array.mem_of_getElem? hi)
  obtain rfl : t' = t := Option.some.inj (ht'.symm.trans ht)
  rw [← Array.getElem?_toList] at hi ⊢
  obtain ⟨k, rfl, hk⟩ := getElem?_block hx hbefore hafter hi rfl
  rcases (Line.wellFormed hp hl n).2 (List.ne_nil_of_mem (List.mem_of_getElem? hk)) with
    ⟨hc', -⟩ | ⟨-, ha⟩
  · exact absurd hc' hc
  · obtain ⟨chords, hn⟩ := ha.chords_after hk
    exact ⟨chords, getElem?_of_block hx hn⟩

theorem step_wellFormed (h : compile source = .ok s) {a : Action} (ha : a ∈ s.document.actions) :
    a.step.WellFormed := by
  obtain ⟨t, l, before, after, -, hp, hl, hx, hbefore, hafter⟩ := block_of_compile h ha
  rw [← Array.mem_toList_iff] at ha
  obtain ⟨i, hi⟩ := List.getElem?_of_mem ha
  obtain ⟨j, -, hj⟩ := getElem?_block hx hbefore hafter hi rfl
  exact (Line.wellFormed hp hl _).1 a (List.mem_of_getElem? hj)

theorem lines_ordered (h : compile source = .ok s) :
    s.document.actions.toList.Pairwise (·.line ≤ ·.line) := by
  obtain ⟨d, hd, rfl⟩ := reads_of_compile h
  exact hd.ordered

/-- The actions of a script stand in the order of their lines. Those of one line are a directive by
itself, or chords and rests of which the last are chords. -/
theorem wellFormed_of_compile (source : Text) (s : Script) (h : compile source = .ok s) :
    s.WellFormed source where
  steps _ ha := step_wellFormed h ha
  ordered := lines_ordered h
  lines a ha := by
    obtain ⟨d, hd, rfl⟩ := reads_of_compile h
    obtain ⟨hpos, hle⟩ := hd.line_bounds a (Array.mem_toList_iff.mpr ha)
    exact ⟨hpos, Nat.le_trans hle hd.lines_le⟩
  blocks n hne := by
    obtain ⟨a, ha⟩ := List.exists_mem_of_ne_nil _ hne
    obtain ⟨hm, hn⟩ := List.mem_filter.mp ha
    obtain rfl : a.line = n := by simpa using hn
    obtain ⟨t, l, before, after, ht, hp, hl, hx, hbefore, hafter⟩ :=
      block_of_compile h (Array.mem_toList_iff.mp hm)
    have hb : s.document.actionsAt a.line = l.actions a.line :=
      filter_block hx hbefore (fun b hb => Line.line_of_mem_actions hb) hafter
    rw [hb] at hne ⊢
    exact ⟨t, ht, (Line.wellFormed hp hl _).2 hne⟩
  gotos _ _ _ _ ha hb hg _ := alone_of_goto h ha hb hg
  rests i n d t := chords_after_rest h

section Overflow

variable {w : Text} (hw : ∀ c ∈ w, isRest c = true) (hne : w ≠ []) (hd : UInt32.size ∣ w.length)
include hw hne hd

theorem tokens_of_dvd : ∃ col, NoteLine.tokens ('a' :: (w ++ ['b'])) = .ok
    [⟨1, .chords [.single 'a']⟩, ⟨col, .chords [.single 'b']⟩] := by
  let a : NoteLine.Run := ⟨[], [.key 'a' (by decide)], nofun, List.cons_ne_nil _ _⟩
  let b : NoteLine.Run := ⟨w, [.key 'b' (by decide)], hw, List.cons_ne_nil _ _⟩
  have hcounted (col : Nat) :
      b.counted col = [⟨col + w.length, .chords (b.items.map NoteLine.Item.chord)⟩] := by
    rw [NoteLine.Run.counted, NoteLine.restToken?_of_dvd hd]
    rfl
  have htext : NoteLine.textOf [a, b] = 'a' :: (w ++ ['b']) := by
    simp [NoteLine.textOf, NoteLine.Run.text, NoteLine.Run.notes, NoteLine.Item.text, a, b]
  have hread : NoteLine.tokensFrom 1 (NoteLine.textOf [a, b] ++ []) = _ :=
    NoteLine.tokensFrom_textOf (List.forall_mem_singleton.mpr hne) nofun
  rw [List.append_nil, htext, NoteLine.countedAt, NoteLine.countedAt, hcounted] at hread
  exact ⟨_, hread⟩

theorem compile_of_dvd : ∃ s, compile ('a' :: (w ++ ['b'])) = .ok s ∧
    s.document.actionsAt 1 = [⟨1, .play [.single 'a']⟩, ⟨1, .play [.single 'b']⟩] := by
  have hchar : ∀ c ∈ 'a' :: (w ++ ['b']), c ≠ '\n' ∧ isBrace c = false := by
    rw [List.forall_mem_cons, List.forall_mem_append, List.forall_mem_singleton]
    refine ⟨by decide, fun c hc => ?_, by decide⟩
    have hrest : c = ' ' ∨ c = '.' := by simpa [isRest] using hw c hc
    rcases hrest with rfl | rfl <;> decide
  obtain ⟨col, htokens⟩ := tokens_of_dvd hw hne hd
  have hread : Line.read {} ('a' :: (w ++ ['b'])) = _ := Line.read_of_not_silent rfl {}
  rw [Variables.expand_of_braceFree fun c hc => (hchar c hc).2] at hread
  replace hread : Line.read {} ('a' :: (w ++ ['b'])) = .ok (.notes _) :=
    hread.trans (congrArg (Except.map Line.notes) htokens)
  refine ⟨ofDraft
    { lines := 1, actions := #[⟨1, .play [.single 'a']⟩, ⟨1, .play [.single 'b']⟩] }, ?_, rfl⟩
  rw [compile, Text.lines_unended (fun c hc => (hchar c hc).1) (List.cons_ne_nil _ _),
    List.foldlM_cons, Draft.add, hread]
  rfl

end Overflow

/-- The actions of a line can be two notes in a row. -/
theorem notes_meet :
    ∃ s, compile ('a' :: (List.replicate UInt32.size ' ' ++ ['b'])) = .ok s ∧
      s.document.actionsAt 1 = [⟨1, .play [.single 'a']⟩, ⟨1, .play [.single 'b']⟩] ∧
      ¬ (s.document.actionsAt 1).IsChain fun a b =>
        a.step.directive?.isSome ≠ b.step.directive?.isSome := by
  obtain ⟨s, h, hs⟩ := compile_of_dvd (w := List.replicate UInt32.size ' ')
    (fun c hc => List.eq_of_mem_replicate hc ▸ rfl)
    (List.ne_nil_of_length_pos (by rw [List.length_replicate]; decide))
    (by rw [List.length_replicate])
  refine ⟨s, h, hs, ?_⟩
  rw [hs]
  decide

theorem wellFormed_of_compile_loop :
    let source := ",SET x [bC]\n,TAG t\na..\x7bx\x7d d.\n,GOTO t 2\n,STOP\n,BPM".toList
    ∃ s, compile source = .ok s ∧ s.document.actions.toList.map (·.line) = [2, 3, 3, 3, 3, 3, 4] ∧
      s.WellFormed source := by
  intro source
  have h : compile source = .ok _ := rfl
  exact ⟨_, h, rfl, wellFormed_of_compile source _ h⟩

end Script

end ChordScript
