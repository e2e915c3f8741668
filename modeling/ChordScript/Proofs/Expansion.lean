import Mathlib.Data.List.TakeDrop
import Mathlib.Data.List.TakeWhile
import ChordScript.Variables

namespace ChordScript

def BraceFree (s : Text) : Prop := ∀ c ∈ s, isBrace c = false

instance (s : Text) : Decidable (BraceFree s) := List.decidableBAll (isBrace · = false) s

theorem span_isBrace {s before after : Text} (h : s.span (!isBrace ·) = (before, after)) :
    s = before ++ after ∧ BraceFree before ∧ ∀ c ∈ after.head?, isBrace c = true := by
  rw [List.span_eq_takeWhile_dropWhile] at h
  obtain ⟨rfl, rfl⟩ := Prod.mk.inj h
  refine ⟨List.takeWhile_append_dropWhile.symm, fun c hc => ?_, fun c hc => ?_⟩
  · simpa using List.mem_takeWhile_imp hc
  · have hn := List.head?_dropWhile_not (!isBrace ·) s
    rw [hc] at hn
    simpa using hn

/-- What the first braces of a line can be, each with what is found there. -/
inductive FirstUse : Text → Except LineError (Option Use) → Prop
  | none {s : Text} (hs : BraceFree s) : FirstUse s (.ok none)
  | unmatched {before rest : Text} (hb : BraceFree before) :
      FirstUse (before ++ '\x7d' :: rest) (.error ⟨.unmatchedBrace, before.length + 1⟩)
  | unclosed {before name : Text} (hb : BraceFree before) (hn : BraceFree name) :
      FirstUse (before ++ '\x7b' :: name) (.error ⟨.unclosedVariable, before.length + 1⟩)
  | nested {before name rest : Text} (hb : BraceFree before) (hn : BraceFree name) :
      FirstUse (before ++ '\x7b' :: (name ++ '\x7b' :: rest))
        (.error ⟨.nestedVariable, before.length + 1 + name.length + 1⟩)
  | use {before name after : Text} (hb : BraceFree before) (hn : BraceFree name) :
      FirstUse (before ++ '\x7b' :: (name ++ '\x7d' :: after)) (.ok (some ⟨before, name, after⟩))

theorem firstUse?_spec (s : Text) : FirstUse s (firstUse? s) := by
  unfold firstUse?
  split
  · next before h =>
      obtain ⟨rfl, hb, -⟩ := span_isBrace h
      rw [List.append_nil]
      exact .none hb
  · next before brace rest h =>
      obtain ⟨rfl, hb, hc⟩ := span_isBrace h
      dsimp only
      split
      · next hclose =>
          subst hclose
          exact .unmatched hb
      · next hopen =>
          obtain rfl : brace = '\x7b' := by simpa [isBrace, hopen] using hc brace rfl
          split
          · next name h' =>
              obtain ⟨rfl, hn, -⟩ := span_isBrace h'
              rw [List.append_nil]
              exact .unclosed hb hn
          · next name brace' after h' =>
              obtain ⟨rfl, hn, hc'⟩ := span_isBrace h'
              split
              · next hopen' =>
                  subst hopen'
                  exact .nested hb hn
              · next hclose =>
                  obtain rfl : brace' = '\x7d' := by simpa [isBrace, hclose] using hc' brace' rfl
                  exact .use hb hn

theorem not_braceFree {before rest : Text} {c : Char} (hc : isBrace c = true) :
    ¬ BraceFree (before ++ c :: rest) := by
  intro hf
  have hn := hf c (by simp)
  rw [hc] at hn
  cases hn

theorem firstUse?_eq_none {s : Text} : firstUse? s = .ok none ↔ BraceFree s := by
  have h := firstUse?_spec s
  revert h
  generalize firstUse? s = r
  intro h
  cases h with
  | none hs => exact iff_of_true rfl hs
  | unmatched | unclosed | nested | use => exact iff_of_false (by simp) (not_braceFree (by decide))

theorem firstUse?_eq_some {s : Text} {u : Use} (h : firstUse? s = .ok (some u)) :
    s = u.before ++ '\x7b' :: (u.name ++ '\x7d' :: u.after) ∧ BraceFree u.before := by
  have hs := firstUse?_spec s
  rw [h] at hs
  cases hs with
  | use hb => exact ⟨rfl, hb⟩

theorem infix_of_braceFree {s t u : Text} {c : Char} (hs : BraceFree s) (hc : isBrace c = true)
    (h : c :: u <:+: s ++ t) : c :: u <:+: t := by
  induction s with
  | nil => exact h
  | cons b s ih =>
      obtain ⟨hb, hs⟩ := List.forall_mem_cons.mp hs
      rw [List.cons_append, List.infix_cons_iff] at h
      rcases h with h | h
      · obtain ⟨rfl, -⟩ := List.cons_prefix_cons.mp h
        rw [hc] at hb
        cases hb
      · exact ih hs h

def useOf (name : Text) : Text := '\x7b' :: (name ++ ['\x7d'])

theorem useOf_infix_of_firstUse? {s : Text} {u : Use} (h : firstUse? s = .ok (some u)) :
    useOf u.name <:+: s := by
  rw [(firstUse?_eq_some h).1, useOf]
  exact ⟨u.before, u.after, by simp⟩

namespace Variables

variable {vs vs' : Variables} {s t : Text} {n : Nat}

theorem mem_entries_of_get? {name value : Text} (h : vs.get? name = some value) :
    (name, value) ∈ vs.entries := by
  obtain ⟨before, after, he, -⟩ := List.lookup_eq_some_iff.mp h
  rw [he]
  exact List.mem_append_right _ List.mem_cons_self

theorem expandWithin_braceFree (h : vs.expandWithin n s = some (.ok t)) : BraceFree t := by
  induction n generalizing s with
  | zero => cases h
  | succ n ih =>
      rw [expandWithin] at h
      split at h
      · cases h
      · next hf =>
          cases h
          exact firstUse?_eq_none.mp hf
      · split at h
        · cases h
        · exact ih h

theorem expand_eq_ok : vs.expand s = .ok t ↔ vs.expand? s = some (.ok t) := by
  rw [expand]
  cases vs.expand? s with
  | none => exact iff_of_false nofun nofun
  | some r => exact Option.some_inj.symm

theorem expand_braceFree (h : vs.expand s = .ok t) : BraceFree t :=
  expandWithin_braceFree (expand_eq_ok.mp h)

theorem expand_of_braceFree (h : BraceFree s) : vs.expand s = .ok s := by
  rw [expand_eq_ok, expand?, expandWithin, firstUse?_eq_none.mpr h]

theorem forall_expandWithin {P : Char → Prop} (hs : ∀ c ∈ s, P c)
    (hv : ∀ e ∈ vs.entries, ∀ c ∈ e.2, P c) (h : vs.expandWithin n s = some (.ok t)) : ∀ c ∈ t, P c := by
  induction n generalizing s with
  | zero => cases h
  | succ n ih =>
      rw [expandWithin] at h
      split at h
      · cases h
      · cases h
        exact hs
      · next u hf =>
          split at h
          · cases h
          · next value hg =>
              have hs' : ∀ c ∈ u.replace value, P c := by
                rw [(firstUse?_eq_some hf).1] at hs
                simp only [List.forall_mem_append, List.forall_mem_cons] at hs
                simp only [Use.replace, List.forall_mem_append]
                exact ⟨⟨hs.1, hv _ (mem_entries_of_get? hg)⟩, hs.2.2.2.2⟩
              exact ih hs' h

theorem forall_expand {P : Char → Prop} (hs : ∀ c ∈ s, P c)
    (hv : ∀ e ∈ vs.entries, ∀ c ∈ e.2, P c) (h : vs.expand s = .ok t) : ∀ c ∈ t, P c :=
  forall_expandWithin hs hv (expand_eq_ok.mp h)

theorem head?_expandWithin {c : Char} (hc : isBrace c = false) (hs : s.head? = some c)
    (h : vs.expandWithin n s = some (.ok t)) : t.head? = some c := by
  induction n generalizing s with
  | zero => cases h
  | succ n ih =>
      rw [expandWithin] at h
      split at h
      · cases h
      · cases h
        exact hs
      · next u hf =>
          split at h
          · cases h
          · next value hg =>
              refine ih ?_ h
              rw [(firstUse?_eq_some hf).1] at hs
              cases hb : u.before with
              | nil =>
                  rw [hb] at hs
                  cases hs
                  cases hc
              | cons b before =>
                  rw [hb] at hs
                  rw [Use.replace, hb]
                  exact hs

theorem head?_expand {c : Char} (hc : isBrace c = false) (hs : s.head? = some c)
    (h : vs.expand s = .ok t) : t.head? = some c :=
  head?_expandWithin hc hs (expand_eq_ok.mp h)

def Extends (vs' vs : Variables) : Prop := ∃ more, vs'.entries = vs.entries ++ more

theorem Extends.refl (vs : Variables) : vs.Extends vs := ⟨[], by simp⟩

theorem Extends.get? (h : vs'.Extends vs) {name value : Text} (hg : vs.get? name = some value) :
    vs'.get? name = some value := by
  obtain ⟨more, hm⟩ := h
  rw [Variables.get?, hm, List.lookup_append, ← Variables.get?, hg, Option.some_or]

theorem Extends.expandWithin {m : Nat} (h : vs'.Extends vs) (hn : n ≤ m)
    (he : vs.expandWithin n s = some (.ok t)) : vs'.expandWithin m s = some (.ok t) := by
  induction n generalizing s m with
  | zero => cases he
  | succ n ih =>
      obtain ⟨m, rfl⟩ := Nat.exists_eq_add_one_of_ne_zero (Nat.ne_zero_of_lt hn)
      rw [Variables.expandWithin] at he ⊢
      split at he
      · cases he
      · exact he
      · next u hf =>
          split at he
          · cases he
          · next value hg =>
              simp only [h.get? hg]
              exact ih (Nat.le_of_succ_le_succ hn) he

theorem foldr_le_append {f : Nat → Nat → Nat} (hf : ∀ x m n, m ≤ n → f x m ≤ f x n)
    (xs ys : List Nat) : xs.foldr f 0 ≤ (xs ++ ys).foldr f 0 := by
  induction xs with
  | nil => exact Nat.zero_le _
  | cons x xs ih => exact hf x _ _ ih

theorem Extends.expandLimit_le (h : vs'.Extends vs) (s : Text) :
    vs.expandLimit s ≤ vs'.expandLimit s := by
  obtain ⟨more, hm⟩ := h
  have hmax := foldr_le_append (f := max) (fun x m n h => by omega)
    (vs.entries.map (braces ·.2)) (more.map (braces ·.2))
  have hsum := foldr_le_append (f := (· + ·)) (fun x m n h => Nat.add_le_add_left h x)
    (vs.entries.map (braces ·.2)) (more.map (braces ·.2))
  rw [← List.map_append, ← hm] at hmax hsum
  apply Nat.mul_le_mul_left
  calc
    _ ≤ Nat.pow (((vs'.entries.map (braces ·.2)).foldr max 0) + 1) _ :=
        Nat.pow_le_pow_left (Nat.succ_le_succ hmax) _
    _ ≤ _ := Nat.pow_le_pow_right (Nat.succ_pos _) hsum

/-- If no value holds a brace, a line is expanded use by use, and it has not more uses than braces. -/
theorem expandLimit_of_braceFree (hv : ∀ e ∈ vs.entries, BraceFree e.2) (s : Text) :
    vs.expandLimit s = braces s + 1 := by
  have hcounts : vs.entries.map (braces ·.2) = List.replicate vs.entries.length 0 := by
    refine List.map_eq_replicate_iff.mpr fun e he => List.countP_eq_zero.mpr fun c hc => ?_
    rw [hv e he c hc]
    exact Bool.false_ne_true
  have hfold (f : Nat → Nat → Nat) (hf : f 0 0 = 0) (n : Nat) :
      (List.replicate n 0).foldr f 0 = 0 := by
    induction n with
    | zero => rfl
    | succ n ih => rw [List.replicate_succ, List.foldr_cons, ih, hf]
  simp only [expandLimit, hcounts, hfold max rfl, hfold (· + ·) rfl]
  exact Nat.mul_one _

/-- The expansion of a line depends on nothing but the variables that the line uses, unless a use
comes out of a value. -/
theorem expandWithin_congr (hv : ∀ e ∈ vs.entries, BraceFree e.2)
    (h : ∀ name, useOf name <:+: s → vs'.get? name = vs.get? name) (n : Nat) :
    vs'.expandWithin n s = vs.expandWithin n s := by
  induction n generalizing s with
  | zero => rfl
  | succ n ih =>
      rw [expandWithin, expandWithin]
      split
      · rfl
      · rfl
      · next u hf =>
          rw [h u.name (useOf_infix_of_firstUse? hf)]
          split
          · rfl
          · next value hg =>
              refine ih fun name hname => h name ?_
              obtain ⟨hs, hbefore⟩ := firstUse?_eq_some hf
              have hfree : BraceFree (u.before ++ value) :=
                List.forall_mem_append.mpr ⟨hbefore, hv _ (mem_entries_of_get? hg)⟩
              rw [hs]
              exact (infix_of_braceFree hfree (by decide) hname).trans
                ⟨u.before ++ '\x7b' :: (u.name ++ ['\x7d']), [], by simp⟩

theorem expand_congr (hv : ∀ e ∈ vs.entries, BraceFree e.2) (hv' : ∀ e ∈ vs'.entries, BraceFree e.2)
    (h : ∀ name, useOf name <:+: s → vs'.get? name = vs.get? name) : vs'.expand s = vs.expand s := by
  rw [expand, expand, expand?, expand?, expandLimit_of_braceFree hv, expandLimit_of_braceFree hv',
    expandWithin_congr hv h]

theorem Extends.expand (h : vs'.Extends vs) (he : vs.expand s = .ok t) : vs'.expand s = .ok t :=
  expand_eq_ok.mpr (h.expandWithin (Nat.succ_le_succ (h.expandLimit_le s)) (expand_eq_ok.mp he))

end Variables

end ChordScript
