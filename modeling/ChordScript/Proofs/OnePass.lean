import ChordScript.Proofs.WellFormed

namespace ChordScript

def opens (s : Text) : Nat := s.count '\x7b'

theorem opens_append (s t : Text) : opens (s ++ t) = opens s + opens t := List.count_append

theorem opens_of_braceFree {s : Text} (h : BraceFree s) : opens s = 0 :=
  List.count_eq_zero.mpr fun hc => Bool.noConfusion (h _ hc)

theorem opens_le_braces (s : Text) : opens s ≤ braces s := by
  refine List.countP_mono_left fun c _ hc => ?_
  simp_all [isBrace]

namespace Variables

/-- One pass over a line. What is written stays as it is, and a name that is open has been read since
its brace. -/
def pass (vs : Variables) (written : Text) : Option Text → Text → Except LineError Text
  | none, [] => .ok written
  | some _, [] => .error ⟨.unclosedVariable, written.length + 1⟩
  | none, c :: s =>
    if c = '\x7b' then vs.pass written (some []) s
    else if c = '\x7d' then .error ⟨.unmatchedBrace, written.length + 1⟩
    else vs.pass (written ++ [c]) none s
  | some name, c :: s =>
    if c = '\x7b' then .error ⟨.nestedVariable, written.length + 1 + name.length + 1⟩
    else if c = '\x7d' then
      match vs.get? name with
      | none => .error ⟨.unknownVariable name, written.length + 1⟩
      | some value => vs.pass (written ++ value) none s
    else vs.pass written (some (name ++ [c])) s

/-- What a line comes to after so many replacements, each of the first use of the line at hand. -/
inductive Expands (vs : Variables) : Nat → Text → Except LineError Text → Prop
  | done {s : Text} (hf : firstUse? s = .ok none) : Expands vs 0 s (.ok s)
  | fault {s : Text} {e : LineError} (hf : firstUse? s = .error e) : Expands vs 0 s (.error e)
  | unknown {s : Text} {u : Use} (hf : firstUse? s = .ok (some u)) (hg : vs.get? u.name = none) :
      Expands vs 0 s (.error ⟨.unknownVariable u.name, u.col⟩)
  | replace {n : Nat} {s value : Text} {u : Use} {r : Except LineError Text}
      (hf : firstUse? s = .ok (some u)) (hg : vs.get? u.name = some value)
      (h : Expands vs n (u.replace value) r) : Expands vs (n + 1) s r

section Pass

variable (vs : Variables)

theorem pass_plain {plain : Text} (h : BraceFree plain) (written s : Text) :
    vs.pass written none (plain ++ s) = vs.pass (written ++ plain) none s := by
  induction plain generalizing written with
  | nil => rw [List.append_nil, List.nil_append]
  | cons c plain ih =>
      obtain ⟨hc, h⟩ := List.forall_mem_cons.mp h
      obtain ⟨ho, hc⟩ : c ≠ '\x7b' ∧ c ≠ '\x7d' := by simpa [isBrace] using hc
      rw [List.cons_append, pass, if_neg ho, if_neg hc, ih h, List.append_assoc, List.singleton_append]

theorem pass_name {name : Text} (h : BraceFree name) (written read s : Text) :
    vs.pass written (some read) (name ++ s) = vs.pass written (some (read ++ name)) s := by
  induction name generalizing read with
  | nil => rw [List.append_nil, List.nil_append]
  | cons c name ih =>
      obtain ⟨hc, h⟩ := List.forall_mem_cons.mp h
      obtain ⟨ho, hc⟩ : c ≠ '\x7b' ∧ c ≠ '\x7d' := by simpa [isBrace] using hc
      rw [List.cons_append, pass, if_neg ho, if_neg hc, ih h, List.append_assoc, List.singleton_append]

theorem pass_open {before name : Text} (hb : BraceFree before) (hn : BraceFree name)
    (written s : Text) : vs.pass written none (before ++ '\x7b' :: (name ++ s)) =
      vs.pass (written ++ before) (some name) s := by
  rw [vs.pass_plain hb, pass, if_pos rfl, vs.pass_name hn, List.nil_append]

/-- A pass over a line from which the first use has been replaced is in the same state behind the
value as a pass over the line itself. -/
theorem pass_replace {before name after value : Text} (hb : BraceFree before) (hn : BraceFree name)
    (hv : BraceFree value) (hg : vs.get? name = some value) :
    vs.pass [] none (before ++ '\x7b' :: (name ++ '\x7d' :: after)) =
      vs.pass [] none (before ++ value ++ after) := by
  rw [vs.pass_open hb hn, pass, if_neg (by decide), if_pos rfl, hg,
    vs.pass_plain (List.forall_mem_append.mpr ⟨hb, hv⟩)]
  rfl

end Pass

section Parts

variable {vs : Variables} {written s t : Text} {name? : Option Text}

theorem pass_append (h : vs.pass written name? s = .ok t) (rest : Text) :
    vs.pass written name? (s ++ rest) = vs.pass t none rest := by
  fun_induction vs.pass written name? s with
  | case1 =>
      cases h
      rfl
  | case2 | case4 | case6 | case7 => cases h
  | case3 written s ih => rw [List.cons_append, pass, if_pos rfl, ih h]
  | case5 written c s ho hc ih => rw [List.cons_append, pass, if_neg ho, if_neg hc, ih h]
  | case8 written name s value hg _ ih =>
      rw [List.cons_append, pass, if_neg (by decide), if_pos rfl, hg]
      exact ih h
  | case9 written name c s ho hc ih => rw [List.cons_append, pass, if_neg ho, if_neg hc, ih h]

theorem pass_behind (h : vs.pass written name? s = .ok t) (before : Text) :
    vs.pass (before ++ written) name? s = .ok (before ++ t) := by
  fun_induction vs.pass written name? s with
  | case1 =>
      cases h
      rfl
  | case2 | case4 | case6 | case7 => cases h
  | case3 written s ih => rw [pass, if_pos rfl, ih h]
  | case5 written c s ho hc ih => rw [pass, if_neg ho, if_neg hc, List.append_assoc, ih h]
  | case8 written name s value hg _ ih =>
      rw [pass, if_neg (by decide), if_pos rfl, hg]
      simpa only [List.append_assoc] using ih h
  | case9 written name c s ho hc ih => rw [pass, if_neg ho, if_neg hc, ih h]

end Parts

variable {vs : Variables} {n : Nat} {s : Text} {r : Except LineError Text}

theorem Expands.expandWithin (h : vs.Expands n s r) {m : Nat} (hm : n < m) :
    vs.expandWithin m s = some r := by
  induction h generalizing m with
  | done hf | fault hf =>
      obtain ⟨m, rfl⟩ := Nat.exists_eq_add_one_of_ne_zero (Nat.ne_zero_of_lt hm)
      simp only [Variables.expandWithin, hf]
  | unknown hf hg =>
      obtain ⟨m, rfl⟩ := Nat.exists_eq_add_one_of_ne_zero (Nat.ne_zero_of_lt hm)
      simp only [Variables.expandWithin, hf, hg]
  | replace hf hg _ ih =>
      obtain ⟨m, rfl⟩ := Nat.exists_eq_add_one_of_ne_zero (Nat.ne_zero_of_lt hm)
      simp only [Variables.expandWithin, hf, hg]
      exact ih (Nat.lt_of_succ_lt_succ hm)

variable (hv : ∀ e ∈ vs.entries, BraceFree e.2)
include hv

theorem Expands.eq_pass (h : vs.Expands n s r) : r = vs.pass [] none s := by
  -- A pass need not look at a value again, for no value holds a brace.
  induction h with
  | @done s hf =>
      have hp := vs.pass_plain (firstUse?_eq_none.mp hf) [] []
      rw [List.append_nil] at hp
      exact hp.symm
  | @fault s e hf =>
      have hs := firstUse?_spec s
      rw [hf] at hs
      cases hs with
      | unmatched hb =>
          rw [vs.pass_plain hb]
          rfl
      | @unclosed before name hb hn =>
          have hp := vs.pass_open hb hn [] []
          rw [List.append_nil] at hp
          exact hp.symm
      | nested hb hn =>
          rw [vs.pass_open hb hn]
          rfl
  | @unknown s u hf hg =>
      have hs := firstUse?_spec s
      rw [hf] at hs
      cases hs with
      | use hb hn =>
          rw [vs.pass_open hb hn, pass, if_neg (by decide), if_pos rfl, hg]
          rfl
  | @replace n s value u r hf hg _ ih =>
      have hs := firstUse?_spec s
      rw [hf] at hs
      cases hs with
      | use hb hn =>
          rw [vs.pass_replace hb hn (hv _ (mem_entries_of_get? hg)) hg]
          exact ih

/-- Every replacement uses up a brace that opens a use. -/
theorem opens_replace {u : Use} {value : Text} (hf : firstUse? s = .ok (some u))
    (hg : vs.get? u.name = some value) : opens (u.replace value) < opens s := by
  have hvalue := opens_of_braceFree (hv _ (mem_entries_of_get? hg))
  rw [(firstUse?_eq_some hf).1, Use.replace, opens_append, opens_append, hvalue, opens_append, opens,
    opens, opens, List.count_cons_self, List.count_append, List.count_cons_of_ne (by decide)]
  omega

theorem exists_expands (s : Text) : ∃ n r, n ≤ opens s ∧ vs.Expands n s r := by
  cases hf : firstUse? s with
  | error e => exact ⟨0, _, Nat.zero_le _, .fault hf⟩
  | ok u? =>
      cases u? with
      | none => exact ⟨0, _, Nat.zero_le _, .done hf⟩
      | some u =>
          cases hg : vs.get? u.name with
          | none => exact ⟨0, _, Nat.zero_le _, .unknown hf hg⟩
          | some value =>
              have hlt := opens_replace hv hf hg
              obtain ⟨n, r, hn, h⟩ := exists_expands (u.replace value)
              exact ⟨n + 1, r, Nat.lt_of_le_of_lt hn hlt, .replace hf hg h⟩
termination_by opens s

theorem exists_expand? (s : Text) : ∃ n ≤ opens s, ∃ r, vs.Expands n s r ∧ vs.expand? s = some r := by
  obtain ⟨n, r, hn, h⟩ := exists_expands hv s
  refine ⟨n, hn, r, h, h.expandWithin ?_⟩
  have hle := opens_le_braces s
  rw [expandLimit_of_braceFree hv]
  omega

theorem expand?_eq (s : Text) : vs.expand? s = some (vs.expand s) := by
  obtain ⟨-, -, r, -, hr⟩ := exists_expand? hv s
  rw [expand, hr, Option.getD_some]

theorem expands (s : Text) : ∃ n ≤ opens s, vs.Expands n s (vs.expand s) := by
  obtain ⟨n, hn, r, h, hr⟩ := exists_expand? hv s
  obtain rfl := Option.some.inj ((expand?_eq hv s).symm.trans hr)
  exact ⟨n, hn, h⟩

theorem expand_pass (s : Text) : vs.expand s = vs.pass [] none s := by
  obtain ⟨n, -, h⟩ := expands hv s
  exact h.eq_pass hv

theorem expand_around {c : Char} (hc : isBrace c = false) {before after t u : Text}
    (ht : vs.expand before = .ok t) (hu : vs.expand after = .ok u) :
    vs.expand (before ++ c :: after) = .ok (t ++ c :: u) := by
  obtain ⟨ho, hc⟩ : c ≠ '\x7b' ∧ c ≠ '\x7d' := by simpa [isBrace] using hc
  rw [expand_pass hv] at ht hu ⊢
  have hafter := pass_behind hu (t ++ [c])
  rw [List.append_nil] at hafter
  rw [pass_append ht, pass, if_neg ho, if_neg hc, hafter, List.append_assoc, List.singleton_append]

end Variables

namespace Draft

variable {d d' : Draft} {raw : Text} {ls : List Text}

theorem Added.names_braceFree (h : Added d raw d') (hd : ∀ e ∈ d.vars.entries, BraceFree e.1) :
    ∀ e ∈ d'.vars.entries, BraceFree e.1 := by
  rcases h.entries with he | ⟨t, args, ht, hargs, he⟩
  · rwa [he]
  · rw [he, List.forall_mem_append, List.forall_mem_singleton]
    refine ⟨hd, ?_⟩
    cases args with
    | nil => exact List.forall_mem_nil _
    | cons name args => exact hargs _ (Variables.expand_braceFree ht) name List.mem_cons_self

theorem Reads.names_braceFree (h : Reads ls d) : ∀ e ∈ d.vars.entries, BraceFree e.1 := by
  induction h with
  | nil => nofun
  | snoc h ha ih => exact ha.names_braceFree ih

end Draft

/-- Whatever has been read of a script, no name and no value holds a brace. So the expansion of a
line ends, it is that of one pass, with no more replacements than the line has braces that open, and
what comes out holds none. -/
theorem expand_eq_pass :
    (∀ (source : Text) (k : Nat) (d : Draft), (source.lines.take k).foldlM Draft.add {} = .ok d →
      ∀ e ∈ d.vars.entries, BraceFree e.1 ∧ BraceFree e.2) ∧
    ∀ vs : Variables, (∀ e ∈ vs.entries, BraceFree e.2) → ∀ s : Text,
      vs.expand? s = some (vs.expand s) ∧ vs.expand s = vs.pass [] none s ∧
        (∃ n ≤ opens s, vs.Expands n s (vs.expand s)) ∧
        ∀ t, vs.expand s = .ok t → BraceFree t ∧ vs.expand t = .ok t := by
  constructor
  · intro source k d h e he
    have hr := Draft.reads_of_foldlM h
    exact ⟨hr.names_braceFree e he, hr.braceFree e he⟩
  · intro vs hv s
    refine ⟨vs.expand?_eq hv s, vs.expand_pass hv s, vs.expands hv s, fun t ht => ?_⟩
    have hb := Variables.expand_braceFree ht
    exact ⟨hb, Variables.expand_of_braceFree hb⟩

theorem expand_eq_pass_column :
    let line : Text := "\x7bx\x7d\x7b\x7d\x7d".toList
    ∃ d, (Text.lines ",SET x ab\n,SET  c".toList).foldlM Draft.add {} = .ok d ∧
      d.vars.entries = [(['x'], ['a', 'b']), ([], ['c'])] ∧
      (∀ e ∈ d.vars.entries, BraceFree e.1 ∧ BraceFree e.2) ∧
      d.vars.pass [] none line = .error ⟨.unmatchedBrace, 4⟩ ∧
      d.vars.expand? line = some (d.vars.expand line) ∧
      d.vars.expand line = d.vars.pass [] none line ∧
      ∃ n ≤ opens line, d.vars.Expands n line (d.vars.expand line) := by
  intro line
  have h : ((Text.lines ",SET x ab\n,SET  c".toList).take 2).foldlM Draft.add {} = .ok _ := rfl
  have hfree := expand_eq_pass.1 _ 2 _ h
  obtain ⟨hends, hpass, hcount, -⟩ := expand_eq_pass.2 _ (fun e he => (hfree e he).2) line
  exact ⟨_, h, rfl, hfree, rfl, hends, hpass, hcount⟩

end ChordScript
