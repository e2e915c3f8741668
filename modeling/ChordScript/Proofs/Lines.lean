import ChordScript.Text

namespace ChordScript.Text

theorem forall_consHead {P : Char → Prop} {c : Char} {ps : List Text} (hc : P c)
    (h : ∀ p ∈ ps, ∀ x ∈ p, P x) : ∀ p ∈ consHead c ps, ∀ x ∈ p, P x := by
  cases ps with
  | nil => simpa [consHead] using hc
  | cons p ps =>
      rw [consHead, List.forall_mem_cons, List.forall_mem_cons]
      rw [List.forall_mem_cons] at h
      exact ⟨⟨hc, h.1⟩, h.2⟩

theorem newline_notMem_lines (s : Text) : ∀ l ∈ lines s, ∀ c ∈ l, c ≠ '\n' := by
  fun_induction lines s with
  | case1 => simp
  | case2 s ih => simpa using ih
  | case3 s ih => simpa using ih
  | case4 c s hn _ ih => exact forall_consHead (fun h => hn h) ih

theorem blank_notMem_fields (s : Text) : ∀ f ∈ fields s, ∀ c ∈ f, c ≠ ' ' := by
  fun_induction fields s with
  | case1 => simp
  | case2 s ih => simpa using ih
  | case3 c s hn ih => exact forall_consHead (fun h => hn h) ih

theorem forall_fields {P : Char → Prop} {s : Text} (h : ∀ c ∈ s, P c) :
    ∀ f ∈ fields s, ∀ c ∈ f, P c := by
  fun_induction fields s with
  | case1 => simp
  | case2 s ih => simpa using ih fun c hc => h c (List.mem_cons_of_mem _ hc)
  | case3 c s _ ih =>
      exact forall_consHead (h c List.mem_cons_self) (ih fun c hc => h c (List.mem_cons_of_mem _ hc))

theorem forall_joinFields {P : Char → Prop} {fs : List Text} (hb : P ' ')
    (h : ∀ f ∈ fs, ∀ c ∈ f, P c) : ∀ c ∈ joinFields fs, P c := by
  unfold joinFields
  induction fs with
  | nil => simp
  | cons f fs ih =>
      rw [List.forall_mem_cons] at h
      cases fs with
      | nil => simpa using h.1
      | cons g fs =>
          rw [List.intercalate_cons_cons, List.forall_mem_append, List.forall_mem_append]
          exact ⟨⟨h.1, by simpa using hb⟩, ih h.2⟩

def unlines (ending : Text) (ls : List Text) : Text := ls.flatMap (· ++ ending)

theorem lines_cons {c : Char} {s : Text} (hc : c ≠ '\n') (hr : c = '\r' → s.head? ≠ some '\n') :
    lines (c :: s) = consHead c (lines s) := by
  rw [lines]
  · exact hc
  · rintro s rfl rfl
    exact hr rfl rfl

theorem lines_newline {l : Text} (hl : ∀ c ∈ l, c ≠ '\n') (hr : l.getLast? ≠ some '\r') (s : Text) :
    lines (l ++ '\n' :: s) = l :: lines s := by
  induction l with
  | nil => rfl
  | cons c l ih =>
      rw [List.forall_mem_cons] at hl
      have hlast : l.getLast? ≠ some '\r' := by
        cases l with
        | nil => simp
        | cons d l => simpa using hr
      have hhead : c = '\r' → (l ++ '\n' :: s).head? ≠ some '\n' := by
        rintro rfl
        cases l with
        | nil => simp at hr
        | cons d l => simpa using hl.2 d
      rw [List.cons_append, lines_cons hl.1 hhead, ih hl.2 hlast]
      rfl

theorem lines_return {l : Text} (hl : ∀ c ∈ l, c ≠ '\n') (s : Text) :
    lines (l ++ '\r' :: '\n' :: s) = l :: lines s := by
  induction l with
  | nil => rfl
  | cons c l ih =>
      rw [List.forall_mem_cons] at hl
      have hhead : c = '\r' → (l ++ '\r' :: '\n' :: s).head? ≠ some '\n' := by
        cases l with
        | nil => simp
        | cons d l => simpa using fun _ => hl.2 d
      rw [List.cons_append, lines_cons hl.1 hhead, ih hl.2]
      rfl

theorem lines_unlines_newline {ls : List Text} (hl : ∀ l ∈ ls, ∀ c ∈ l, c ≠ '\n')
    (hr : ∀ l ∈ ls, l.getLast? ≠ some '\r') : lines (unlines ['\n'] ls) = ls := by
  induction ls with
  | nil => rfl
  | cons l ls ih =>
      rw [List.forall_mem_cons] at hl hr
      rw [unlines, List.flatMap_cons, List.append_assoc]
      exact (lines_newline hl.1 hr.1 _).trans (congrArg _ (ih hl.2 hr.2))

theorem lines_unlines_return {ls : List Text} (hl : ∀ l ∈ ls, ∀ c ∈ l, c ≠ '\n') :
    lines (unlines ['\r', '\n'] ls) = ls := by
  induction ls with
  | nil => rfl
  | cons l ls ih =>
      rw [List.forall_mem_cons] at hl
      rw [unlines, List.flatMap_cons, List.append_assoc]
      exact (lines_return hl.1 _).trans (congrArg _ (ih hl.2))

/-- A line without the carriage return that its ending takes along. -/
def chomp (l : Text) : Text := if l.getLast? = some '\r' then l.dropLast else l

theorem lines_ended {l : Text} (hl : ∀ c ∈ l, c ≠ '\n') (s : Text) :
    lines (l ++ '\n' :: s) = chomp l :: lines s := by
  rw [chomp]
  split
  · next hr =>
      obtain ⟨l, rfl⟩ := List.getLast?_eq_some_iff.mp hr
      rw [List.dropLast_concat, List.append_assoc]
      exact lines_return (fun c hc => hl c (List.mem_append_left _ hc)) s
  · next hr => exact lines_newline hl hr s

/-- Puts one more line into a text, behind so many of its lines. A last line without an ending gets
one. -/
def insertLine (l : Text) : Nat → Text → Text
  | 0, s => l ++ '\n' :: s
  | _ + 1, [] => '\n' :: (l ++ ['\n'])
  | n + 1, c :: s => c :: insertLine l (if c = '\n' then n else n + 1) s

theorem insertLine_zero (l s : Text) : insertLine l 0 s = l ++ '\n' :: s := by
  cases s <;> rfl

theorem head?_insertLine (l : Text) (n : Nat) {s : Text} (hs : s ≠ []) :
    (insertLine l (n + 1) s).head? = s.head? := by
  cases s with
  | nil => exact absurd rfl hs
  | cons c s => rfl

theorem lines_ne_nil {s : Text} (hs : s ≠ []) : lines s ≠ [] := by
  fun_cases lines s with
  | case1 => exact absurd rfl hs
  | case2 | case3 => exact List.cons_ne_nil _ _
  | case4 c s => cases lines s <;> exact List.cons_ne_nil _ _

theorem lines_insertLine {l s : Text} (hl : ∀ c ∈ l, c ≠ '\n') (hs : s.getLast? ≠ some '\r')
    {n : Nat} (hn : n ≤ (lines s).length) :
    lines (insertLine l n s) = (lines s).take n ++ chomp l :: (lines s).drop n := by
  have hzero (s : Text) :
      lines (insertLine l 0 s) = (lines s).take 0 ++ chomp l :: (lines s).drop 0 := by
    rw [insertLine_zero, lines_ended hl]
    rfl
  have htail {c : Char} {s : Text} (h : (c :: s).getLast? ≠ some '\r') : s.getLast? ≠ some '\r' :=
    fun he => h (by rw [List.getLast?_cons, he]; rfl)
  fun_induction lines s generalizing n with
  | case1 =>
      obtain rfl := Nat.le_zero.mp hn
      exact hzero []
  | case2 s ih =>
      cases n with
      | zero => exact hzero ('\n' :: s)
      | succ n => simp [insertLine, lines, ih (htail hs) (Nat.le_of_succ_le_succ hn)]
  | case3 s ih =>
      cases n with
      | zero => exact hzero ('\r' :: '\n' :: s)
      | succ n => simp [insertLine, lines, ih (htail (htail hs)) (Nat.le_of_succ_le_succ hn)]
  | case4 c s hc hr ih =>
      have hhead : c = '\r' → s.head? ≠ some '\n' := by
        rintro rfl h
        obtain ⟨s', rfl⟩ := List.head?_eq_some_iff.mp h
        exact hr s' rfl rfl
      cases n with
      | zero =>
          have h := hzero (c :: s)
          rwa [lines_cons hc hhead] at h
      | succ n =>
          rw [insertLine, if_neg hc]
          -- Only at the end of the text does the line come after one without an ending.
          by_cases hnil : s = []
          · subst hnil
            obtain rfl : n = 0 := by simpa [lines, consHead] using hn
            have hlast : c = '\r' → ('\n' :: (l ++ ['\n'])).head? ≠ some '\n' := by
              rintro rfl
              exact absurd rfl hs
            have hrest : lines ('\n' :: (l ++ ['\n'])) = [[], chomp l] :=
              congrArg ([] :: ·) (lines_ended hl [])
            rw [insertLine, lines_cons hc hlast, hrest]
            rfl
          · obtain ⟨p, ps, hps⟩ := List.exists_cons_of_ne_nil (lines_ne_nil hnil)
            rw [hps] at hn ih ⊢
            rw [lines_cons hc (by rwa [head?_insertLine l n hnil]), ih (htail hs) hn]
            rfl

theorem lines_unended {l : Text} (hl : ∀ c ∈ l, c ≠ '\n') (hne : l ≠ []) : lines l = [l] := by
  induction l with
  | nil => exact absurd rfl hne
  | cons c l ih =>
      rw [List.forall_mem_cons] at hl
      cases l with
      | nil => exact lines_cons hl.1 (by simp)
      | cons d l =>
          have hhead : (d :: l).head? ≠ some '\n' := by simpa using hl.2 d List.mem_cons_self
          rw [lines_cons hl.1 fun _ => hhead, ih hl.2 (List.cons_ne_nil d l)]
          rfl

end ChordScript.Text
