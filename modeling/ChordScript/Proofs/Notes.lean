import Mathlib.Data.List.SplitBy
import ChordScript.NoteLine
import ChordScript.Proofs.Success

namespace ChordScript

theorem Key.mem_of_mem_firsts {k : Key} {ks : List Key} (h : k ∈ firsts ks) : k ∈ ks := by
  induction ks with
  | nil => simp [firsts] at h
  | cons l ks ih =>
      rw [firsts, List.mem_cons, List.mem_filter] at h
      rcases h with rfl | h
      · exact List.mem_cons_self
      · exact List.mem_cons_of_mem _ (ih h.1)

theorem Chord.mem_of_ofKeys? {c : Chord} {ks : List Key} (h : ofKeys? ks = some c) {k : Key}
    (hk : k ∈ c.keys) : k ∈ ks := by
  unfold ofKeys? at h
  split at h
  · cases h
  · cases h
    exact Key.mem_of_mem_firsts hk

def Token.isRest (t : Token) : Bool :=
  match t.kind with
  | .chords _ => false
  | .rest _ => true

/-- A run holds a chord, and its keys are characters of the line; a rest is a beat long or longer. -/
structure Token.Sound (P : Key → Prop) (t : Token) : Prop where
  run : ∀ cs, t.kind = .chords cs → cs ≠ [] ∧ ∀ c ∈ cs, ∀ k ∈ c.keys, P k
  rest : ∀ beats, t.kind = .rest beats → 1 ≤ beats

namespace NoteLine

theorem forall_readRun {P : Key → Prop} {col : Nat} {g : Option OpenGroup} {s : Text}
    {cs : List Chord} (hs : ∀ k ∈ s, k ≠ '[' → k ≠ ']' → P k) (hg : ∀ o ∈ g, ∀ k ∈ o.keys, P k)
    (h : readRun col g s = .ok cs) : ∀ c ∈ cs, ∀ k ∈ c.keys, P k := by
  fun_induction readRun col g s generalizing cs with
  | case1 =>
      cases h
      simp
  | case2 | case4 | case6 | case7 => cases h
  | case3 col s ih =>
      rw [List.forall_mem_cons] at hs
      exact ih hs.2 (by simp) h
  | case5 col k s ho hc ih =>
      rw [List.forall_mem_cons] at hs
      obtain ⟨cs, hr, rfl⟩ := ok_of_map h
      rw [List.forall_mem_cons]
      exact ⟨by simpa [Chord.single] using hs.1 ho hc, ih hs.2 (by simp) hr⟩
  | case8 col o s c hk hc ih =>
      rw [List.forall_mem_cons] at hs
      obtain ⟨cs, hr, rfl⟩ := ok_of_map h
      rw [List.forall_mem_cons]
      refine ⟨fun k hm => hg o rfl k ?_, ih hs.2 (by simp) hr⟩
      exact List.mem_reverse.mp (Chord.mem_of_ofKeys? hk hm)
  | case9 col o k s ho hc ih =>
      rw [List.forall_mem_cons] at hs
      refine ih hs.2 ?_ h
      rintro _ ⟨⟩
      rw [List.forall_mem_cons]
      exact ⟨hs.1 ho hc, hg o rfl⟩

theorem readRun_ne_nil {col : Nat} {g : Option OpenGroup} {s : Text} {cs : List Chord}
    (hne : g = none → s ≠ []) (h : readRun col g s = .ok cs) : cs ≠ [] := by
  fun_induction readRun col g s generalizing cs with
  | case1 => exact absurd rfl (hne rfl)
  | case2 | case4 | case6 | case7 => cases h
  | case3 col s ih | case9 col o k s _ _ ih => exact ih (by simp) h
  | case5 | case8 =>
      obtain ⟨cs, -, rfl⟩ := ok_of_map h
      simp

theorem restToken?_of_lt {n : Nat} (hne : n ≠ 0) (hlt : n < UInt32.size) (col : Nat) :
    restToken? col n = some ⟨col, .rest n⟩ := by
  simp [restToken?, Nat.mod_eq_of_lt hlt, hne]

theorem restToken?_of_dvd {n : Nat} (h : UInt32.size ∣ n) (col : Nat) : restToken? col n = none :=
  if_pos (Nat.mod_eq_zero_of_dvd h)

theorem restToken?_of_not_dvd {n : Nat} (h : ¬ UInt32.size ∣ n) (col : Nat) :
    restToken? col n = some ⟨col + (n - n % UInt32.size), .rest (n % UInt32.size)⟩ :=
  if_neg fun hz => h (Nat.dvd_of_mod_eq_zero hz)

theorem restToken?_sound {col n : Nat} {t : Token} (h : t ∈ (restToken? col n).toList)
    (P : Key → Prop) : t.Sound P := by
  by_cases hd : UInt32.size ∣ n
  · rw [restToken?_of_dvd hd] at h
    cases h
  · rw [restToken?_of_not_dvd hd, Option.toList_some, List.mem_singleton] at h
    subst h
    refine ⟨nofun, ?_⟩
    rintro _ ⟨⟩
    exact Nat.pos_of_ne_zero fun hz => hd (Nat.dvd_of_mod_eq_zero hz)

theorem tokensOf_cons {col : Nat} {p : Text} {ps : List Text} {ts : List Token}
    (h : tokensOf col (p :: ps) = .ok ts) :
    (p.all isRest = true ∧ ps = [] ∧ ts = []) ∨
      ∃ ts', tokensOf (col + p.length) ps = .ok ts' ∧
        (p.all isRest = true ∧ ps ≠ [] ∧ ts = (restToken? col p.length).toList ++ ts' ∨
          p.all isRest = false ∧ ∃ cs, readRun col none p = .ok cs ∧ ts = ⟨col, .chords cs⟩ :: ts') := by
  rw [tokensOf] at h
  split at h
  · next hp =>
      split at h
      · next hps =>
          cases h
          exact .inl ⟨hp, hps, rfl⟩
      · next hps =>
          obtain ⟨ts', ht, rfl⟩ := ok_of_map h
          exact .inr ⟨ts', ht, .inl ⟨hp, hps, rfl⟩⟩
  · next hp =>
      obtain ⟨cs, hr, h⟩ := ok_of_bind h
      obtain ⟨ts', ht, rfl⟩ := ok_of_map h
      exact .inr ⟨ts', ht, .inr ⟨by simpa using hp, cs, hr, rfl⟩⟩

/-- Pieces that are rests throughout or notes throughout, and take turns. -/
structure InTurn (ps : List Text) : Prop where
  nonempty : ∀ p ∈ ps, p ≠ []
  uniform : ∀ p ∈ ps, ∀ c ∈ p, isRest c = p.all isRest
  turns : ps.IsChain fun p q => p.all isRest ≠ q.all isRest

theorem isRest_eq_all {s p : Text} (hp : p ∈ s.splitBy (isRest · == isRest ·)) {c : Char}
    (hc : c ∈ p) : isRest c = p.all isRest := by
  have hchain : (p.map isRest).IsChain (· = ·) := by
    rw [List.isChain_map]
    exact (List.isChain_of_mem_splitBy hp).imp fun _ _ h => by simpa using h
  obtain ⟨b, hb⟩ : ∃ b, ∀ d ∈ p, isRest d = b := by
    cases p with
    | nil => cases hc
    | cons d p =>
        have hr := List.isChain_eq_iff_eq_replicate.mp hchain (isRest d) rfl
        exact ⟨isRest d, fun e he => List.eq_of_mem_replicate (hr ▸ List.mem_map_of_mem he)⟩
  rw [hb c hc]
  cases b with
  | true => exact (List.all_eq_true.mpr hb).symm
  | false => exact (List.all_eq_false.mpr ⟨c, hc, by simp [hb c hc]⟩).symm

theorem inTurn_splitBy (s : Text) : InTurn (s.splitBy (isRest · == isRest ·)) where
  nonempty p hp := List.ne_nil_of_mem_splitBy hp
  uniform p hp c hc := isRest_eq_all hp hc
  turns := by
    refine (List.isChain_getLast_head_splitBy _ s).imp_of_mem_imp fun p q hp hq h => ?_
    obtain ⟨hp', hq', hr⟩ := h
    rw [← isRest_eq_all hp (List.getLast_mem hp'), ← isRest_eq_all hq (List.head_mem hq')]
    simpa using hr

theorem InTurn.tail {p : Text} {ps : List Text} (h : InTurn (p :: ps)) : InTurn ps where
  nonempty q hq := h.nonempty q (List.mem_cons_of_mem _ hq)
  uniform q hq := h.uniform q (List.mem_cons_of_mem _ hq)
  turns := (List.isChain_cons.mp h.turns).2

theorem tokensOf_run {col : Nat} {p : Text} {ps : List Text} {ts : List Token}
    (hp : p.all isRest = false) (h : tokensOf col (p :: ps) = .ok ts) :
    ∃ t ts', ts = t :: ts' ∧ t.isRest = false := by
  rcases tokensOf_cons h with ⟨hr, -⟩ | ⟨ts', -, ⟨hr, -⟩ | ⟨-, cs, -, rfl⟩⟩
  · rw [hp] at hr
    cases hr
  · rw [hp] at hr
    cases hr
  · exact ⟨_, ts', rfl, rfl⟩

theorem tokensOf_sound {P : Key → Prop} {col : Nat} {ps : List Text} {ts : List Token}
    (hp : InTurn ps) (hk : ∀ p ∈ ps, ∀ k ∈ p, isRest k = false → k ≠ '[' → k ≠ ']' → P k)
    (h : tokensOf col ps = .ok ts) : ∀ t ∈ ts, Token.Sound P t := by
  induction ps generalizing col ts with
  | nil =>
      cases h
      simp
  | cons p ps ih =>
      have hne := hp.nonempty p List.mem_cons_self
      rw [List.forall_mem_cons] at hk
      rcases tokensOf_cons h with ⟨-, -, rfl⟩ | ⟨ts', ht, hts⟩
      · simp
      · rcases hts with ⟨-, -, rfl⟩ | ⟨hr, cs, hcs, rfl⟩
        · exact List.forall_mem_append.mpr ⟨fun _ hm => restToken?_sound hm P, ih hp.tail hk.2 ht⟩
        · refine List.forall_mem_cons.mpr ⟨⟨?_, nofun⟩, ih hp.tail hk.2 ht⟩
          rintro _ ⟨⟩
          refine ⟨readRun_ne_nil (fun _ => hne) hcs, forall_readRun (fun k hm => ?_) (by simp) hcs⟩
          exact hk.1 k hm ((hp.uniform p List.mem_cons_self k hm).trans hr)

variable {s : Text} {ts : List Token}

theorem tokens_sound {P : Key → Prop} (hs : ∀ k ∈ s, isRest k = false → k ≠ '[' → k ≠ ']' → P k)
    (h : tokens s = .ok ts) : ∀ t ∈ ts, Token.Sound P t := by
  refine tokensOf_sound (inTurn_splitBy s) (fun p hp k hk => hs k ?_) h
  rw [← List.flatten_splitBy (isRest · == isRest ·) s]
  exact List.mem_flatten_of_mem hp hk

theorem tokens_ne_nil {c : Char} (hc : isRest c = false) (h : tokens (c :: s) = .ok ts) : ts ≠ [] := by
  have hne : c :: s ≠ [] := List.cons_ne_nil c s
  obtain ⟨p, ps, hp⟩ := List.exists_cons_of_ne_nil (List.splitBy_ne_nil (r := (isRest · == isRest ·)).mpr hne)
  have hmem : p ∈ (c :: s).splitBy (isRest · == isRest ·) := hp ▸ List.mem_cons_self
  have hhead : c ∈ p := by
    have hh := List.head_head_splitBy (isRest · == isRest ·) hne
    simp only [hp, List.head_cons] at hh
    exact hh ▸ List.head_mem _
  rw [tokens, hp] at h
  obtain ⟨t, ts', rfl, -⟩ := tokensOf_run ((isRest_eq_all hmem hhead).symm.trans hc) h
  exact List.cons_ne_nil t ts'

end NoteLine

end ChordScript
