import Mathlib.Data.Int.Order.Basic
import Mathlib.Data.List.Basic
import Mathlib.Data.List.Induction
import Mathlib.Data.Nat.Find
import Mathlib.Order.Bounds.Basic
import ChordScript.Proofs.Block

namespace ChordScript

theorem getElem?_append_of_eq_some {α : Type} {xs ys : List α} {i : Nat} {x : α}
    (h : xs[i]? = some x) : (xs ++ ys)[i]? = some x :=
  (List.getElem?_append_left (List.getElem?_eq_some_iff.mp h).1).trans h

namespace KeyEvent

variable {log rest : List KeyEvent} {e : KeyEvent} {k : Key}
variable {freed freed' : Nat → Option Nat} {i j n : Nat}

theorem pressed?_eq_some : e.pressed? = some k ↔ e = .press k := by
  cases e <;> simp [pressed?]

theorem heldKeys_concat (log : List KeyEvent) (e : KeyEvent) :
    heldKeys (log ++ [e]) = hold (heldKeys log) e := heldKeys_append log [e]

theorem heldKeys_sublist (log : List KeyEvent) : (heldKeys log).Sublist (pressedKeys log) := by
  induction log using List.reverseRecOn with
  | nil => exact .slnil
  | append_singleton log e ih =>
      rw [heldKeys_concat, pressedKeys, List.filterMap_append]
      cases e with
      | press k => exact ih.append (.refl [k])
      | release k => exact (List.erase_sublist.trans ih).trans (List.sublist_append_left _ _)
      | shiftDown | shiftUp => exact ih.trans (List.sublist_append_left _ _)

def surplus (k : Key) (log : List KeyEvent) : Int := log.count (.press k) - log.count (.release k)

theorem surplus_append (k : Key) (xs ys : List KeyEvent) :
    surplus k (xs ++ ys) = surplus k xs + surplus k ys := by
  simp only [surplus, List.count_append]
  omega

theorem surplus_press (k l : Key) : surplus k [.press l] = if l = k then 1 else 0 := by
  by_cases h : l = k <;> simp [surplus, h]

theorem surplus_release (k l : Key) : surplus k [.release l] = if l = k then -1 else 0 := by
  by_cases h : l = k <;> simp [surplus, h]

theorem count_hold (k : Key) (held : List Key) (e : KeyEvent) :
    ((hold held e).count k : Int) = max 0 (held.count k + surplus k [e]) := by
  cases e with
  | press l =>
      rw [hold, List.count_append, List.count_singleton, surplus_press]
      by_cases h : l = k
      · rw [if_pos (beq_iff_eq.mpr h), if_pos h]
        omega
      · rw [if_neg (mt beq_iff_eq.mp h), if_neg h]
        omega
  | release l =>
      rw [hold, List.count_erase, surplus_release]
      by_cases h : l = k
      · rw [if_pos (beq_iff_eq.mpr h), if_pos h]
        omega
      · rw [if_neg (mt beq_iff_eq.mp h), if_neg h]
        omega
  | shiftDown | shiftUp => exact (max_eq_right (Int.natCast_nonneg _)).symm

/-- The suffix without events counts too, so the greatest surplus is never negative. -/
theorem isGreatest_surplus (k : Key) (log : List KeyEvent) :
    IsGreatest {n : Int | ∃ after, after <:+ log ∧ surplus k after = n} ((heldKeys log).count k) := by
  induction log using List.reverseRecOn with
  | nil => simp [heldKeys, surplus]
  | append_singleton log e ih =>
      obtain ⟨⟨best, hbest, hcount⟩, hle⟩ := ih
      rw [heldKeys_concat, count_hold]
      constructor
      · -- The best suffix goes on with the event, unless a new one had better begin behind it.
        rcases le_total 0 ((heldKeys log).count k + surplus k [e]) with h | h
        · refine ⟨best ++ [e], List.suffix_concat_iff.mpr (.inr ⟨best, rfl, hbest⟩), ?_⟩
          rw [surplus_append, hcount, max_eq_right h]
        · exact ⟨[], List.nil_suffix, (max_eq_left h).symm⟩
      · rintro n ⟨after, hafter, rfl⟩
        rcases List.suffix_concat_iff.mp hafter with rfl | ⟨shorter, rfl, hshorter⟩
        · exact le_max_left _ _
        · have h := hle ⟨shorter, hshorter, rfl⟩
          rw [surplus_append]
          omega

theorem count_heldKeys (k : Key)
    (h : ∀ before l after, log = before ++ .release l :: after → l ∈ heldKeys before) :
    ((heldKeys log).count k : Int) = surplus k log := by
  induction log using List.reverseRecOn with
  | nil => rfl
  | append_singleton log e ih =>
      have hlog := ih fun before l after hb => h before l (after ++ [e]) (by simp [hb])
      rw [heldKeys_concat, count_hold, surplus_append, ← hlog]
      refine max_eq_right ?_
      cases e with
      | press l =>
          rw [surplus_press]
          split <;> omega
      | release l =>
          rw [surplus_release]
          split
          · next hl =>
              subst hl
              have hpos := List.count_pos_iff.mpr (h log l [] rfl)
              omega
          · omega
      | shiftDown | shiftUp => exact Int.natCast_nonneg _

theorem heldKeys_eq_nil_iff
    (h : ∀ before k after, log = before ++ .release k :: after → k ∈ heldKeys before) :
    heldKeys log = [] ↔ ∀ k, log.count (.press k) = log.count (.release k) := by
  rw [List.eq_nil_iff_forall_not_mem]
  refine forall_congr' fun k => ?_
  rw [← List.count_eq_zero, ← Int.natCast_eq_zero, count_heldKeys k h, surplus, Int.sub_eq_zero,
    Int.natCast_inj]

/-- Which release lets go of which press, by their places in the log: `freed i` is the place of the
release that lets go of the press at place `i`. -/
structure Matching (log : List KeyEvent) (freed : Nat → Option Nat) : Prop where
  alike : ∀ {i j}, freed i = some j →
    i < j ∧ ∃ k, log[i]? = some (.press k) ∧ log[j]? = some (.release k)
  once : ∀ {i i' j}, freed i = some j → freed i' = some j → i = i'
  /-- All earlier presses of the key have been let go of already. -/
  earliest : ∀ {i i' j k}, freed i = some j → i' < i → log[i]? = some (.press k) →
    log[i']? = some (.press k) → ∃ j' < j, freed i' = some j'
  /-- A release is forgotten only if all presses of its key have been let go of already. -/
  taken : ∀ {i j k}, i < j → log[i]? = some (.press k) → log[j]? = some (.release k) →
    (∃ j' < j, freed i = some j') ∨ ∃ i', freed i' = some j

def kept (log : List KeyEvent) (freed : Nat → Option Nat) : List Key :=
  log.zipIdx.filterMap fun (e, i) => if freed i = none then e.pressed? else none

theorem mem_kept : k ∈ kept log freed ↔ ∃ i, log[i]? = some (.press k) ∧ freed i = none := by
  rw [kept, List.mem_filterMap]
  constructor
  · rintro ⟨⟨e, i⟩, he, hk⟩
    dsimp only at hk
    split at hk
    · next hi =>
        rw [pressed?_eq_some] at hk
        subst hk
        exact ⟨i, List.mk_mem_zipIdx_iff_getElem?.mp he, hi⟩
    · cases hk
  · rintro ⟨i, hlog, hi⟩
    exact ⟨(.press k, i), List.mk_mem_zipIdx_iff_getElem?.mpr hlog, if_pos hi⟩

theorem kept_cons (e : KeyEvent) (log : List KeyEvent) (freed : Nat → Option Nat) :
    kept (e :: log) freed =
      (if freed 0 = none then e.pressed? else none).toList ++ kept log fun i => freed (i + 1) := by
  rw [kept, List.zipIdx_cons', List.filterMap_cons, List.filterMap_map]
  dsimp only
  cases (if freed 0 = none then e.pressed? else none) <;> rfl

theorem kept_concat (log : List KeyEvent) (e : KeyEvent) (freed : Nat → Option Nat) :
    kept (log ++ [e]) freed =
      kept log freed ++ (if freed log.length = none then e.pressed? else none).toList := by
  rw [kept, List.zipIdx_append, List.filterMap_append, Nat.zero_add, List.zipIdx_singleton,
    List.filterMap_cons]
  refine congrArg _ ?_
  dsimp only
  cases (if freed log.length = none then e.pressed? else none) <;> rfl

theorem kept_congr (h : ∀ i < log.length, freed i = none ↔ freed' i = none) :
    kept log freed = kept log freed' := by
  refine List.filterMap_congr fun p hp => ?_
  obtain ⟨hlt, -⟩ := List.getElem?_eq_some_iff.mp (List.mem_zipIdx_iff_getElem?.mp hp)
  simp only [h p.2 hlt]

theorem kept_erase (hi : log[i]? = some (.press k)) (hdown : freed i = none) (hup : freed' i ≠ none)
    (hsame : ∀ i' ≠ i, freed i' = none ↔ freed' i' = none)
    (hfirst : ∀ i' < i, log[i']? = some (.press k) → freed i' ≠ none) :
    kept log freed' = (kept log freed).erase k := by
  induction log generalizing i freed freed' with
  | nil => cases hi
  | cons e log ih =>
      rw [kept_cons, kept_cons]
      cases i with
      | zero =>
          obtain rfl : e = .press k := by simpa using hi
          rw [if_pos hdown, if_neg hup]
          have hrest : (kept log fun i => freed' (i + 1)) = kept log fun i => freed (i + 1) :=
            kept_congr fun i _ => (hsame (i + 1) (Nat.succ_ne_zero i)).symm
          rw [hrest]
          exact (List.erase_cons_head k _).symm
      | succ i =>
          have hrest := ih hi hdown hup (fun i' hne => hsame (i' + 1) (by omega))
            fun i' hlt hi' => hfirst (i' + 1) (by omega) hi'
          have hhead : k ∉ (if freed 0 = none then e.pressed? else none).toList := by
            intro hk
            split at hk
            · next h =>
                rw [Option.mem_toList, pressed?_eq_some] at hk
                exact hfirst 0 (Nat.succ_pos i) (congrArg some hk) h
            · cases hk
          rw [hrest, List.erase_append_right _ hhead]
          simp only [hsame 0 (by omega)]

/-- What the releases before place `n` have let go of. -/
def freedBefore (freed : Nat → Option Nat) (n i : Nat) : Option Nat := (freed i).filter (· < n)

theorem freedBefore_eq_some : freedBefore freed n i = some j ↔ freed i = some j ∧ j < n := by
  simp [freedBefore, Option.filter_eq_some_iff]

theorem freedBefore_eq_none : freedBefore freed n i = none ↔ ∀ j < n, freed i ≠ some j := by
  rw [freedBefore, Option.filter_eq_none_iff]
  refine forall_congr' fun j => ?_
  rw [decide_eq_true_iff]
  exact ⟨fun h hlt hj => h hj hlt, fun h hj hlt => h hlt hj⟩

namespace Matching

theorem lt_length (h : Matching log freed) (hi : freed i = some j) : i < j ∧ j < log.length := by
  obtain ⟨hlt, k, -, hj⟩ := h.alike hi
  exact ⟨hlt, (List.getElem?_eq_some_iff.mp hj).1⟩

theorem of_append (h : Matching (log ++ rest) freed) :
    Matching log (freedBefore freed log.length) where
  alike := by
    intro i j hi
    obtain ⟨hi, hj⟩ := freedBefore_eq_some.mp hi
    obtain ⟨hlt, k, hpress, hrelease⟩ := h.alike hi
    rw [List.getElem?_append_left (by omega)] at hpress hrelease
    exact ⟨hlt, k, hpress, hrelease⟩
  once := fun hi hi' => h.once (freedBefore_eq_some.mp hi).1 (freedBefore_eq_some.mp hi').1
  earliest := by
    intro i i' j k hi hlt hpress hpress'
    obtain ⟨hi, hj⟩ := freedBefore_eq_some.mp hi
    obtain ⟨j', hj', hi'⟩ := h.earliest hi hlt (getElem?_append_of_eq_some hpress)
      (getElem?_append_of_eq_some hpress')
    exact ⟨j', hj', freedBefore_eq_some.mpr ⟨hi', by omega⟩⟩
  taken := by
    intro i j k hlt hpress hrelease
    have hj := (List.getElem?_eq_some_iff.mp hrelease).1
    rcases h.taken hlt (getElem?_append_of_eq_some hpress) (getElem?_append_of_eq_some hrelease) with
      ⟨j', hj', hi⟩ | ⟨i', hi'⟩
    · exact .inl ⟨j', hj', freedBefore_eq_some.mpr ⟨hi, by omega⟩⟩
    · exact .inr ⟨i', freedBefore_eq_some.mpr ⟨hi', hj⟩⟩

theorem freedBefore_iff (h : Matching (log ++ [e]) freed) (hi : freed i ≠ some log.length) :
    freedBefore freed log.length i = none ↔ freed i = none := by
  rw [freedBefore_eq_none]
  constructor
  · intro hbefore
    refine Option.eq_none_iff_forall_ne_some.mpr fun j hj => ?_
    have hlt := (h.lt_length hj).2
    rw [List.length_append, List.length_singleton] at hlt
    refine hbefore j (Nat.lt_of_le_of_ne (Nat.le_of_lt_succ hlt) ?_) hj
    rintro rfl
    exact hi hj
  · intro hnone j _ hj
    rw [hnone] at hj
    cases hj

theorem kept_of_taken (h : Matching (log ++ [e]) freed) (hi : freed i = some log.length) :
    ∃ k, e = .release k ∧
      kept log freed = (kept log (freedBefore freed log.length)).erase k := by
  obtain ⟨hlt, k, hpress, hrelease⟩ := h.alike hi
  rw [List.getElem?_concat_length, Option.some.injEq] at hrelease
  have hpress' := (List.getElem?_append_left hlt).symm.trans hpress
  refine ⟨k, hrelease, kept_erase hpress' ?_ (by simp [hi]) ?_ ?_⟩
  · rw [freedBefore_eq_none]
    rintro j hj hij
    rw [hi] at hij
    cases hij
    exact Nat.lt_irrefl _ hj
  · exact fun i' hne => h.freedBefore_iff fun hi' => hne (h.once hi' hi)
  · intro i' hlt' hi'
    obtain ⟨j, hj, hfreed⟩ := h.earliest hi hlt' hpress (getElem?_append_of_eq_some hi')
    rw [freedBefore_eq_some.mpr ⟨hfreed, hj⟩]
    exact Option.some_ne_none j

theorem kept_of_idle (h : Matching (log ++ [e]) freed) (hidle : ∀ i, freed i ≠ some log.length) :
    kept log freed = kept log (freedBefore freed log.length) ∧
      ∀ k, e = .release k → k ∉ kept log freed := by
  refine ⟨kept_congr fun i _ => (h.freedBefore_iff (hidle i)).symm, ?_⟩
  rintro k rfl hk
  obtain ⟨i, hi, hdown⟩ := mem_kept.mp hk
  have hlt := (List.getElem?_eq_some_iff.mp hi).1
  rcases h.taken hlt (getElem?_append_of_eq_some hi) List.getElem?_concat_length with
    ⟨j, -, hj⟩ | ⟨i', hi'⟩
  · rw [hdown] at hj
    cases hj
  · exact hidle i' hi'

theorem kept_eq (h : Matching log freed) : kept log freed = heldKeys log := by
  -- The last event lets go of a press, which is then the first of its key that is down, or of none.
  induction log using List.reverseRecOn generalizing freed with
  | nil => rfl
  | append_singleton log e ih =>
      have hlast : freed log.length = none := by
        refine Option.eq_none_iff_forall_ne_some.mpr fun j hj => ?_
        have hlt := h.lt_length hj
        rw [List.length_append, List.length_singleton] at hlt
        omega
      rw [kept_concat, if_pos hlast, heldKeys_concat, ← ih h.of_append]
      by_cases htaken : ∃ i, freed i = some log.length
      · obtain ⟨i, hi⟩ := htaken
        obtain ⟨k, rfl, hkept⟩ := h.kept_of_taken hi
        rw [hkept]
        exact List.append_nil _
      · obtain ⟨hkept, hnot⟩ := h.kept_of_idle fun i hi => htaken ⟨i, hi⟩
        rw [← hkept]
        cases e with
        | press k => rfl
        | release k =>
            rw [hold, List.erase_of_not_mem (hnot k rfl)]
            exact List.append_nil _
        | shiftDown | shiftUp => exact List.append_nil _

theorem mem_heldKeys (h : Matching (log ++ rest) freed) (hi : log[i]? = some (.press k))
    (hdown : ∀ j < log.length, freed i ≠ some j) : k ∈ heldKeys log := by
  rw [← h.of_append.kept_eq, mem_kept]
  exact ⟨i, hi, freedBefore_eq_none.mpr hdown⟩

theorem some_of_agree {f g : Nat → Option Nat} (hf : Matching log f) (hg : Matching log g)
    (hagree : ∀ j' < j, ∀ i, f i = some j' ↔ g i = some j') (hi : f i = some j) : g i = some j := by
  have hnot {j' : Nat} (hj' : j' < j) : g i ≠ some j' := by
    rw [ne_eq, ← hagree j' hj', hi, Option.some.injEq]
    exact (Nat.ne_of_lt hj').symm
  obtain ⟨hlt, k, hpress, hrelease⟩ := hf.alike hi
  rcases hg.taken hlt hpress hrelease with ⟨j', hj', hi'⟩ | ⟨i', hi'⟩
  · exact absurd hi' (hnot hj')
  · obtain ⟨-, k', hpress', hrelease'⟩ := hg.alike hi'
    rw [hrelease] at hrelease'
    cases hrelease'
    -- Whichever lets go of the later press has let go of the other before.
    rcases Nat.lt_trichotomy i i' with h | rfl | h
    · obtain ⟨j', hj', hfreed⟩ := hg.earliest hi' h hpress' hpress
      exact absurd hfreed (hnot hj')
    · exact hi'
    · obtain ⟨j', hj', hfreed⟩ := hf.earliest hi h hpress hpress'
      rw [hagree j' hj', hi', Option.some.injEq] at hfreed
      exact absurd hfreed (Nat.ne_of_lt hj').symm

theorem unique {f g : Nat → Option Nat} (hf : Matching log f) (hg : Matching log g) : f = g := by
  have hagree (j : Nat) : ∀ i, f i = some j ↔ g i = some j := by
    -- By induction on the places of the releases: matchings that agree on the earlier ones agree on
    -- the next.
    induction j using Nat.strong_induction_on with
    | _ j ih =>
        intro i
        exact ⟨hf.some_of_agree hg ih, hg.some_of_agree hf fun j' hj' i => (ih j' hj' i).symm⟩
  funext i
  ext j
  exact hagree j i

theorem alike_append (h : Matching log freed) (hi : freed i = some j) :
    i < j ∧ ∃ k, (log ++ rest)[i]? = some (.press k) ∧ (log ++ rest)[j]? = some (.release k) := by
  obtain ⟨hlt, k, hpress, hrelease⟩ := h.alike hi
  exact ⟨hlt, k, getElem?_append_of_eq_some hpress, getElem?_append_of_eq_some hrelease⟩

theorem earliest_append {i' : Nat} (h : Matching log freed) (hi : freed i = some j) (hlt : i' < i)
    (hpress : (log ++ rest)[i]? = some (.press k)) (hpress' : (log ++ rest)[i']? = some (.press k)) :
    ∃ j' < j, freed i' = some j' := by
  have hij := h.lt_length hi
  rw [List.getElem?_append_left (by omega)] at hpress hpress'
  exact h.earliest hi hlt hpress hpress'

theorem taken_concat (h : Matching log freed) (hlt : i < j)
    (hpress : (log ++ [e])[i]? = some (.press k)) (hrelease : (log ++ [e])[j]? = some (.release k)) :
    (j = log.length ∧ e = .release k ∧ log[i]? = some (.press k)) ∨
      (∃ j' < j, freed i = some j') ∨ ∃ i', freed i' = some j := by
  have hj := (List.getElem?_eq_some_iff.mp hrelease).1
  rw [List.length_append, List.length_singleton] at hj
  rw [List.getElem?_append_left (by omega)] at hpress
  rcases Nat.lt_succ_iff_lt_or_eq.mp hj with hj | rfl
  · rw [List.getElem?_append_left hj] at hrelease
    exact .inr (h.taken hlt hpress hrelease)
  · rw [List.getElem?_concat_length, Option.some.injEq] at hrelease
    exact .inl ⟨rfl, hrelease, hpress⟩

theorem concat_idle (h : Matching log freed)
    (hidle : ∀ k i, e = .release k → log[i]? = some (.press k) → freed i ≠ none) :
    Matching (log ++ [e]) freed where
  alike := h.alike_append
  once := h.once
  earliest := h.earliest_append
  taken := by
    intro i j k hlt hpress hrelease
    rcases h.taken_concat hlt hpress hrelease with ⟨rfl, he, hi⟩ | htaken
    · obtain ⟨j', hj'⟩ := Option.ne_none_iff_exists'.mp (hidle k i he hi)
      exact .inl ⟨j', (h.lt_length hj').2, hj'⟩
    · exact htaken

theorem update_eq_some {i' : Nat} (hdown : freed i = none) :
    Function.update freed i (some n) i' = some j ↔ i' = i ∧ j = n ∨ freed i' = some j := by
  by_cases h : i' = i
  · subst h
    simp [hdown, eq_comm]
  · simp [h]

theorem concat_release (h : Matching log freed) (hi : log[i]? = some (.press k))
    (hdown : freed i = none)
    (hfirst : ∀ i' < i, log[i']? = some (.press k) → freed i' ≠ none) :
    Matching (log ++ [.release k]) (Function.update freed i (some log.length)) where
  alike := by
    intro i₁ j h₁
    rcases (update_eq_some hdown).mp h₁ with ⟨rfl, rfl⟩ | h₁
    · exact ⟨(List.getElem?_eq_some_iff.mp hi).1, k, getElem?_append_of_eq_some hi,
        List.getElem?_concat_length⟩
    · exact h.alike_append h₁
  once := by
    intro i₁ i₂ j h₁ h₂
    rcases (update_eq_some hdown).mp h₁ with ⟨rfl, rfl⟩ | h₁ <;>
      rcases (update_eq_some hdown).mp h₂ with ⟨h₃, h₄⟩ | h₂
    · exact h₃.symm
    · exact absurd (h.lt_length h₂).2 (Nat.lt_irrefl _)
    · subst h₄
      exact absurd (h.lt_length h₁).2 (Nat.lt_irrefl _)
    · exact h.once h₁ h₂
  earliest := by
    intro i₁ i₂ j l h₁ hlt hpress hpress'
    rcases (update_eq_some hdown).mp h₁ with ⟨rfl, rfl⟩ | h₁
    · have hlength := (List.getElem?_eq_some_iff.mp hi).1
      rw [getElem?_append_of_eq_some hi] at hpress
      cases hpress
      rw [List.getElem?_append_left (by omega)] at hpress'
      obtain ⟨j', hj'⟩ := Option.ne_none_iff_exists'.mp (hfirst i₂ hlt hpress')
      exact ⟨j', (h.lt_length hj').2, (update_eq_some hdown).mpr (.inr hj')⟩
    · obtain ⟨j', hj', h₂⟩ := h.earliest_append h₁ hlt hpress hpress'
      exact ⟨j', hj', (update_eq_some hdown).mpr (.inr h₂)⟩
  taken := by
    intro i₁ j l hlt hpress hrelease
    rcases h.taken_concat hlt hpress hrelease with ⟨rfl, -, -⟩ | ⟨j', hj', h₁⟩ | ⟨i₂, h₂⟩
    · exact .inr ⟨i, (update_eq_some hdown).mpr (.inl ⟨rfl, rfl⟩)⟩
    · exact .inl ⟨j', hj', (update_eq_some hdown).mpr (.inr h₁)⟩
    · exact .inr ⟨i₂, (update_eq_some hdown).mpr (.inr h₂)⟩

end Matching

theorem exists_matching (log : List KeyEvent) : ∃ freed, Matching log freed := by
  induction log using List.reverseRecOn with
  | nil => exact ⟨fun _ => none, nofun, nofun, nofun, by simp⟩
  | append_singleton log e ih =>
      obtain ⟨freed, h⟩ := ih
      by_cases hdown : ∃ k i, e = .release k ∧ log[i]? = some (.press k) ∧ freed i = none
      · -- The release lets go of the first press that it could let go of.
        obtain ⟨k, i, rfl, hi⟩ := hdown
        have hexists : ∃ i, log[i]? = some (.press k) ∧ freed i = none := ⟨i, hi⟩
        obtain ⟨hpress, hnone⟩ := Nat.find_spec hexists
        exact ⟨_, h.concat_release hpress hnone fun i' hlt hi' hnone' =>
          Nat.find_min hexists hlt ⟨hi', hnone'⟩⟩
      · exact ⟨freed, h.concat_idle fun k i he hi hnone => hdown ⟨k, i, he, hi, hnone⟩⟩

/-- A key is down as many times as its presses outnumber its releases in the suffix of the log where
they do so most, and not at all if they never do. There is one way to match the releases of the log
with presses so that each lets go of the first press of its key that is still down, or is forgotten
if there is none, and the keys that are down are those of the presses left over, in their order. If
every release comes after a press of its key that is still down, then nothing is down at the end
exactly if each key has been released as often as pressed. -/
theorem presses_held (log : List KeyEvent) :
    (∀ k, IsGreatest {n : Int | ∃ after, after <:+ log ∧ max 0 (surplus k after) = n}
      ((heldKeys log).count k)) ∧
    (heldKeys log).Sublist (pressedKeys log) ∧
    (∃! freed, Matching log freed) ∧
    ∀ freed, Matching log freed →
      heldKeys log = kept log freed ∧
      ((∀ j k, log[j]? = some (.release k) →
          ∃ i < j, log[i]? = some (.press k) ∧ ∀ j' < j, freed i ≠ some j') →
        (heldKeys log = [] ↔ ∀ k, log.count (.press k) = log.count (.release k))) := by
  refine ⟨fun k => ?_, heldKeys_sublist log, ?_, fun freed h => ⟨h.kept_eq.symm, fun hfound => ?_⟩⟩
  · obtain ⟨⟨best, hbest, hcount⟩, hle⟩ := isGreatest_surplus k log
    refine ⟨⟨best, hbest, ?_⟩, ?_⟩
    · rw [hcount]
      exact max_eq_right (Int.natCast_nonneg _)
    · rintro n ⟨after, hafter, rfl⟩
      exact max_le (Int.natCast_nonneg _) (hle ⟨after, hafter, rfl⟩)
  · obtain ⟨freed, h⟩ := exists_matching log
    exact ⟨freed, h, fun _ h' => h'.unique h⟩
  · refine heldKeys_eq_nil_iff ?_
    rintro before k after rfl
    obtain ⟨i, hlt, hi, hdown⟩ := hfound before.length k (by simp)
    rw [List.getElem?_append_left hlt] at hi
    exact h.mem_heldKeys hi hdown

theorem presses_held_in_turn :
    let log : List KeyEvent :=
      [.press 'a', .press 'b', .press 'a', .release 'a', .release 'b', .release 'a']
    let freed : Nat → Option Nat := fun i => if i < 3 then some (i + 3) else none
    Matching log freed ∧
      (∀ j k, log[j]? = some (.release k) →
        ∃ i < j, log[i]? = some (.press k) ∧ ∀ j' < j, freed i ≠ some j') ∧
      heldKeys log = kept log freed ∧ heldKeys log = [] ∧
      ∀ k, log.count (.press k) = log.count (.release k) := by
  intro log freed
  have hfreed {i j : Nat} : freed i = some j ↔ i < 3 ∧ j = i + 3 := by
    simp only [freed]
    split <;> simp [*, eq_comm]
  have hrelease {j : Nat} {k : Key} (h : log[j]? = some (.release k)) :
      j = 3 ∧ k = 'a' ∨ j = 4 ∧ k = 'b' ∨ j = 5 ∧ k = 'a' := by
    rcases j with _ | _ | _ | _ | _ | _ | j <;> simp [log] at h <;> simp [← h]
  have hmatching : Matching log freed := by
    constructor
    · intro i j hi
      obtain ⟨hlt, rfl⟩ := hfreed.mp hi
      refine ⟨by omega, ?_⟩
      obtain rfl | rfl | rfl : i = 0 ∨ i = 1 ∨ i = 2 := by omega
      all_goals exact ⟨_, rfl, rfl⟩
    · intro i i' j hi hi'
      have h := hfreed.mp hi
      have h' := hfreed.mp hi'
      omega
    · intro i i' j k hi hlt _ _
      have h := hfreed.mp hi
      exact ⟨i' + 3, by omega, hfreed.mpr ⟨by omega, rfl⟩⟩
    · intro i j k _ _ hj
      have h := hrelease hj
      exact .inr ⟨j - 3, hfreed.mpr (by omega)⟩
  have hfound : ∀ j k, log[j]? = some (.release k) →
      ∃ i < j, log[i]? = some (.press k) ∧ ∀ j' < j, freed i ≠ some j' := by
    intro j k hj
    refine ⟨j - 3, ?_⟩
    rcases hrelease hj with ⟨rfl, rfl⟩ | ⟨rfl, rfl⟩ | ⟨rfl, rfl⟩
    all_goals exact ⟨by decide, rfl, by simp only [ne_eq, hfreed]; omega⟩
  obtain ⟨hkept, hempty⟩ := (presses_held log).2.2.2 freed hmatching
  have hnone : heldKeys log = [] := by decide
  exact ⟨hmatching, hfound, hkept, hnone, (hempty hfound).mp hnone⟩

/-- The first release comes too early and is forgotten, the second lets go of the earlier press. -/
example : heldKeys [.release 'a', .press 'a', .press 'b', .press 'a', .release 'a'] = ['b', 'a'] := by
  decide

end KeyEvent

end ChordScript
