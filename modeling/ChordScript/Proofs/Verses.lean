import Mathlib.Data.List.TakeWhile
import ChordScript.Proofs.Notes

namespace ChordScript

namespace Key

theorem firsts_filter (p : Key → Bool) (ks : List Key) :
    firsts (ks.filter p) = (firsts ks).filter p := by
  induction ks with
  | nil => rfl
  | cons k ks ih =>
      cases hk : p k with
      | true =>
          rw [List.filter_cons_of_pos hk, firsts, firsts, List.filter_cons_of_pos hk, ih,
            List.filter_comm]
      | false =>
          have hp (l : Key) : (p l && decide (l ≠ k)) = p l := by
            by_cases hl : l = k <;> simp [hl, hk]
          rw [List.filter_cons_of_neg (by simp [hk]), firsts, List.filter_cons_of_neg (by simp [hk]), ih,
            List.filter_filter]
          simp only [hp]

theorem firsts_eq_eraseDups (ks : List Key) : firsts ks = ks.eraseDups := by
  cases ks with
  | nil => rfl
  | cons k ks =>
      have hp : (fun l : Key => !l == k) = fun l => decide (l ≠ k) := by
        funext l
        by_cases hl : l = k <;> simp [hl]
      rw [firsts, ← firsts_filter, firsts_eq_eraseDups (ks.filter (· ≠ k)), List.eraseDups_cons, hp]
termination_by ks.length
decreasing_by exact Nat.lt_succ_of_le (List.length_filter_le ..)

theorem eraseDups_of_nodup {ks : List Key} (h : ks.Nodup) : ks.eraseDups = ks := by
  induction ks with
  | nil => rfl
  | cons k ks ih =>
      obtain ⟨hk, hks⟩ := List.nodup_cons.mp h
      have hf : ks.filter (fun l => !l == k) = ks := by
        refine List.filter_eq_self.mpr fun l hl => ?_
        have hne : l ≠ k := fun he => hk (he ▸ hl)
        simpa using hne
      rw [List.eraseDups_cons, hf, ih hks]

end Key

theorem Chord.eq_of_keys {c d : Chord} (h : c.keys = d.keys) : c = d := by
  cases c
  cases d
  cases h
  rfl

namespace NoteLine

theorem exists_cut (p : Char → Bool) (s : Text) : ∃ before after, s = before ++ after ∧
    (∀ c ∈ before, p c = true) ∧ ∀ c ∈ after.head?, p c = false := by
  refine ⟨s.takeWhile p, s.dropWhile p, List.takeWhile_append_dropWhile.symm,
    fun c hc => List.mem_takeWhile_imp hc, fun c hc => ?_⟩
  have hn := List.head?_dropWhile_not p s
  rw [hc] at hn
  simpa using hn

def isKey (c : Char) : Bool := !isRest c && c ≠ '[' && c ≠ ']'

/-- A key by itself, or keys between brackets. -/
inductive Item
  | key (k : Key) (hk : isKey k = true)
  | group (ks : List Key) (hne : ks ≠ []) (hks : ∀ k ∈ ks, isKey k = true)

namespace Item

def keys : Item → List Key
  | key k _ => [k]
  | group ks _ _ => ks

def text : Item → Text
  | key k _ => [k]
  | group ks _ _ => '[' :: (ks ++ [']'])

variable (i : Item)

theorem keys_ne_nil : i.keys ≠ [] := by
  cases i with
  | key k => exact List.cons_ne_nil k []
  | group ks hne => exact hne

theorem text_ne_nil : i.text ≠ [] := by
  cases i <;> exact List.cons_ne_nil _ _

def chord : Chord where
  keys := i.keys.eraseDups
  nonempty := by
    rw [← Key.firsts_eq_eraseDups]
    exact mt Key.firsts_eq_nil.mp i.keys_ne_nil
  nodup := Key.firsts_eq_eraseDups i.keys ▸ Key.nodup_firsts i.keys

theorem ofKeys?_keys : Chord.ofKeys? i.keys = some i.chord := by
  simp only [Chord.ofKeys?, dif_neg i.keys_ne_nil, chord, Key.firsts_eq_eraseDups]

end Item

theorem isKey_iff {c : Char} : isKey c = true ↔ isRest c = false ∧ c ≠ '[' ∧ c ≠ ']' := by
  simp [isKey, and_assoc]

theorem Item.isRest_of_mem_text {i : Item} {c : Char} (h : c ∈ i.text) : isRest c = false := by
  cases i with
  | key k hk =>
      obtain rfl := List.mem_singleton.mp h
      exact (isKey_iff.mp hk).1
  | group ks _ hks =>
      simp only [text, List.mem_cons, List.mem_append, List.not_mem_nil, or_false] at h
      rcases h with rfl | h | rfl
      · rfl
      · exact (isKey_iff.mp (hks c h)).1
      · rfl

/-- Chords of one run, behind the rests before it. -/
structure Run where
  rests : Text
  items : List Item
  silent : ∀ c ∈ rests, isRest c = true
  nonempty : items ≠ []

namespace Run

def notes (r : Run) : Text := r.items.flatMap Item.text

def text (r : Run) : Text := r.rests ++ r.notes

def tokens (col : Nat) (r : Run) : List Token :=
  (if r.rests = [] then [] else [⟨col, .rest r.rests.length⟩]) ++
    [⟨col + r.rests.length, .chords (r.items.map Item.chord)⟩]

def counted (col : Nat) (r : Run) : List Token :=
  (restToken? col r.rests.length).toList ++
    [⟨col + r.rests.length, .chords (r.items.map Item.chord)⟩]

theorem counted_of_lt {r : Run} (h : r.rests.length < UInt32.size) (col : Nat) :
    r.counted col = r.tokens col := by
  by_cases hr : r.rests = []
  · rw [counted, tokens, hr, List.length_nil, restToken?_of_dvd (Nat.dvd_zero _), if_pos rfl]
    rfl
  · rw [counted, tokens, restToken?_of_lt (mt List.eq_nil_of_length_eq_zero hr) h, if_neg hr]
    rfl

end Run

/-- Runs that have rests between them, and the rests at the end of the line. -/
structure Verse where
  runs : List Run
  rests : Text
  apart : ∀ r ∈ runs.tail, r.rests ≠ []
  silent : ∀ c ∈ rests, isRest c = true

def textOf (rs : List Run) : Text := rs.flatMap Run.text

def tokensAt (col : Nat) : List Run → List Token
  | [] => []
  | r :: rs => r.tokens col ++ tokensAt (col + r.text.length) rs

def countedAt (col : Nat) : List Run → List Token
  | [] => []
  | r :: rs => r.counted col ++ countedAt (col + r.text.length) rs

theorem countedAt_of_lt {rs : List Run} (h : ∀ r ∈ rs, r.rests.length < UInt32.size) (col : Nat) :
    countedAt col rs = tokensAt col rs := by
  induction rs generalizing col with
  | nil => rfl
  | cons r rs ih =>
      obtain ⟨hr, h⟩ := List.forall_mem_cons.mp h
      rw [countedAt, tokensAt, Run.counted_of_lt hr, ih h]

namespace Verse

def text (v : Verse) : Text := textOf v.runs ++ v.rests

def tokens (v : Verse) : List Token := tokensAt 1 v.runs

end Verse

/-- What is wrong with a text that begins with no item, and how far behind its start. -/
inductive Fault : Text → CompileError.Cause → Nat → Prop
  | unmatched (s : Text) : Fault (']' :: s) .unmatchedBracket 0
  | empty (s : Text) : Fault ('[' :: ']' :: s) .emptyChord 0
  | nested {ks : List Key} (hks : ∀ k ∈ ks, isKey k = true) (s : Text) :
      Fault ('[' :: (ks ++ '[' :: s)) .nestedChord (ks.length + 1)
  | unclosed {ks : List Key} (hks : ∀ k ∈ ks, isKey k = true) {s : Text}
      (hs : ∀ c ∈ s.head?, isRest c = true) : Fault ('[' :: (ks ++ s)) .unclosedChord 0

section Reading

variable (col : Nat) {s : Text}

theorem readRun_group {g : OpenGroup} {ks : List Key} (hks : ∀ k ∈ ks, isKey k = true) (s : Text) :
    readRun col (some g) (ks ++ s) =
      readRun (col + ks.length) (some ⟨g.col, ks.reverse ++ g.keys⟩) s := by
  induction ks generalizing col g with
  | nil => rfl
  | cons k ks ih =>
      obtain ⟨hk, hks⟩ := List.forall_mem_cons.mp hks
      obtain ⟨-, ho, hc⟩ := isKey_iff.mp hk
      rw [List.cons_append, readRun, if_neg ho, if_neg hc, ih _ hks, List.length_cons,
        List.reverse_cons, List.append_assoc, List.singleton_append, Nat.add_right_comm, Nat.add_assoc]

theorem readRun_item (i : Item) (s : Text) : readRun col none (i.text ++ s) =
    (readRun (col + i.text.length) none s).map (i.chord :: ·) := by
  cases i with
  | key k hk =>
      obtain ⟨-, ho, hc⟩ := isKey_iff.mp hk
      rw [Item.text, List.singleton_append, readRun, if_neg ho, if_neg hc]
      rfl
  | group ks hne hks =>
      have hchord : Chord.ofKeys? ks = some (Item.group ks hne hks).chord := (Item.group ks hne hks).ofKeys?_keys
      have hcol : col + 1 + ks.length + 1 = col + ('[' :: (ks ++ [']'])).length := by
        simp only [List.length_cons, List.length_append, List.length_nil]
        omega
      rw [Item.text, List.cons_append, readRun, if_pos rfl, List.append_assoc, readRun_group _ hks,
        ← hcol, List.singleton_append, readRun, if_neg (by decide), if_pos rfl]
      simp only [List.append_nil, List.reverse_reverse, hchord]

theorem readRun_items (is : List Item) (s : Text) : readRun col none (is.flatMap Item.text ++ s) =
    (readRun (col + (is.flatMap Item.text).length) none s).map (is.map Item.chord ++ ·) := by
  induction is generalizing col with
  | nil => cases h : readRun col none s <;> simp [h, Except.map]
  | cons i is ih =>
      rw [List.flatMap_cons, List.append_assoc, readRun_item, ih, List.length_append, Nat.add_assoc]
      cases readRun _ none s <;> rfl

theorem Fault.readRun {cause : CompileError.Cause} {n : Nat} (h : Fault s cause n) :
    ∃ p t, s = p ++ t ∧ p ≠ [] ∧ (∀ c ∈ p, isRest c = false) ∧ (∀ c ∈ t.head?, isRest c = true) ∧
      ∀ col, NoteLine.readRun col none p = .error ⟨cause, col + n⟩ := by
  have hkeys {ks : List Key} (hks : ∀ k ∈ ks, isKey k = true) : ∀ k ∈ ks, isRest k = false :=
    fun k hk => (isKey_iff.mp (hks k hk)).1
  -- The run goes on up to the next rest, behind what is wrong with it.
  cases h with
  | unmatched u =>
      obtain ⟨p, t, rfl, hp, ht⟩ := exists_cut (!isRest ·) u
      simp only [Bool.not_eq_true', Bool.not_eq_false'] at hp ht
      exact ⟨']' :: p, t, rfl, List.cons_ne_nil _ _, List.forall_mem_cons.mpr ⟨rfl, hp⟩, ht,
        fun col => rfl⟩
  | empty u =>
      obtain ⟨p, t, rfl, hp, ht⟩ := exists_cut (!isRest ·) u
      simp only [Bool.not_eq_true', Bool.not_eq_false'] at hp ht
      refine ⟨'[' :: ']' :: p, t, rfl, List.cons_ne_nil _ _, ?_, ht, fun col => rfl⟩
      exact List.forall_mem_cons.mpr ⟨rfl, List.forall_mem_cons.mpr ⟨rfl, hp⟩⟩
  | @nested ks hks u =>
      obtain ⟨p, t, rfl, hp, ht⟩ := exists_cut (!isRest ·) u
      simp only [Bool.not_eq_true', Bool.not_eq_false'] at hp ht
      refine ⟨'[' :: (ks ++ '[' :: p), t, by simp, List.cons_ne_nil _ _, ?_, ht, fun col => ?_⟩
      · rw [List.forall_mem_cons, List.forall_mem_append, List.forall_mem_cons]
        exact ⟨rfl, hkeys hks, rfl, hp⟩
      · rw [NoteLine.readRun, if_pos rfl, readRun_group _ hks, NoteLine.readRun, if_pos rfl,
          Nat.add_assoc, Nat.add_comm 1]
  | @unclosed ks hks t ht =>
      refine ⟨'[' :: ks, t, rfl, List.cons_ne_nil _ _, ?_, ht, fun col => ?_⟩
      · exact List.forall_mem_cons.mpr ⟨rfl, hkeys hks⟩
      · have hgroup := readRun_group (col + 1) (g := ⟨col, []⟩) hks []
        rw [List.append_nil] at hgroup
        rw [NoteLine.readRun, if_pos rfl, hgroup]
        rfl

end Reading

def tokensFrom (col : Nat) (s : Text) : Except LineError (List Token) :=
  tokensOf col (s.splitBy (isRest · == isRest ·))

section Pieces

variable (col : Nat) {p s : Text}

theorem splitBy_piece {b : Bool} (hne : p ≠ []) (hp : ∀ c ∈ p, isRest c = b)
    (hs : ∀ c ∈ s.head?, isRest c = !b) :
    (p ++ s).splitBy (isRest · == isRest ·) = p :: s.splitBy (isRest · == isRest ·) := by
  have hchain : p.IsChain fun c d => (isRest c == isRest d) = true :=
    (List.pairwise_of_forall_mem_list fun c hc d hd => by simp [hp c hc, hp d hd]).isChain
  rw [List.splitBy_append, List.splitBy_of_isChain hne hchain, List.singleton_append]
  intro c hc d hd
  rw [hp c (List.mem_of_getLast? hc), hs d hd]
  cases b <;> rfl

theorem tokensFrom_silent (hp : ∀ c ∈ p, isRest c = true) : tokensFrom col p = .ok [] := by
  by_cases hne : p = []
  · rw [hne]
    rfl
  · have hs := splitBy_piece (s := []) hne hp (by simp)
    rw [List.append_nil] at hs
    rw [tokensFrom, hs, List.splitBy_nil, tokensOf, if_pos (List.all_eq_true.mpr hp), if_pos rfl]

theorem tokensFrom_run (hne : p ≠ []) (hp : ∀ c ∈ p, isRest c = false)
    (hs : ∀ c ∈ s.head?, isRest c = true) :
    tokensFrom col (p ++ s) = (do
      let cs ← readRun col none p
      (tokensFrom (col + p.length) s).map (⟨col, .chords cs⟩ :: ·)) := by
  have hall : ¬ p.all isRest = true := by
    obtain ⟨c, hc⟩ := List.exists_mem_of_ne_nil p hne
    intro h
    have hrest := List.all_eq_true.mp h c hc
    rw [hp c hc] at hrest
    cases hrest
  rw [tokensFrom, splitBy_piece hne hp hs, tokensOf, if_neg hall]
  rfl

theorem tokensFrom_rests (hne : p ≠ []) (hp : ∀ c ∈ p, isRest c = true) (hs' : s ≠ [])
    (hs : ∀ c ∈ s.head?, isRest c = false) :
    tokensFrom col (p ++ s) =
      (tokensFrom (col + p.length) s).map ((restToken? col p.length).toList ++ ·) := by
  rw [tokensFrom, splitBy_piece hne hp hs, tokensOf, if_pos (List.all_eq_true.mpr hp),
    if_neg (List.splitBy_ne_nil.mpr hs')]
  rfl

theorem tokensFrom_rests_run {w : Text} (hw : ∀ c ∈ w, isRest c = true) (hne : p ≠ [])
    (hp : ∀ c ∈ p, isRest c = false) (hs : ∀ c ∈ s.head?, isRest c = true) :
    tokensFrom col (w ++ (p ++ s)) = (do
      let cs ← readRun (col + w.length) none p
      (tokensFrom (col + w.length + p.length) s).map fun ts =>
        (restToken? col w.length).toList ++ ⟨col + w.length, .chords cs⟩ :: ts) := by
  have hrun := tokensFrom_run (col + w.length) hne hp hs
  by_cases hw' : w = []
  · subst hw'
    exact hrun
  · have hhead : ∀ c ∈ (p ++ s).head?, isRest c = false := by
      rw [List.head?_append_of_ne_nil _ hne]
      exact fun c hc => hp c (List.mem_of_mem_head? hc)
    rw [tokensFrom_rests _ hw' hw (List.append_ne_nil_of_left_ne_nil hne _) hhead, hrun]
    cases readRun (col + w.length) none p with
    | error e => rfl
    | ok cs => cases tokensFrom (col + w.length + p.length) s <;> rfl

end Pieces

theorem isRest_of_mem_items {is : List Item} {c : Char} (h : c ∈ is.flatMap Item.text) :
    isRest c = false := by
  obtain ⟨i, -, hc⟩ := List.mem_flatMap.mp h
  exact Item.isRest_of_mem_text hc

namespace Run

theorem notes_ne_nil (r : Run) : r.notes ≠ [] := by
  obtain ⟨i, is, hi⟩ := List.exists_cons_of_ne_nil r.nonempty
  rw [notes, hi, List.flatMap_cons]
  exact List.append_ne_nil_of_left_ne_nil i.text_ne_nil _

theorem tokensFrom_text (r : Run) {col : Nat} {s : Text} (hs : ∀ c ∈ s.head?, isRest c = true) :
    tokensFrom col (r.text ++ s) =
      (tokensFrom (col + r.text.length) s).map (r.counted col ++ ·) := by
  have hread := readRun_items (col + r.rests.length) r.items []
  rw [List.append_nil] at hread
  rw [text, List.append_assoc,
    tokensFrom_rests_run _ r.silent r.notes_ne_nil (fun _ => isRest_of_mem_items) hs, notes, hread,
    List.length_append, Nat.add_assoc]
  cases tokensFrom _ s <;> simp [readRun, counted, Except.map, bind, Except.bind]

end Run

/-- A fault is met at its place, whatever chords stand before it in its run. -/
theorem tokensFrom_broken (col : Nat) {w : Text} (hw : ∀ c ∈ w, isRest c = true) (is : List Item)
    {bad : Text} {cause : CompileError.Cause} {n : Nat} (h : Fault bad cause n) :
    tokensFrom col (w ++ (is.flatMap Item.text ++ bad)) =
      .error ⟨cause, col + (w ++ is.flatMap Item.text).length + n⟩ := by
  obtain ⟨p, t, rfl, hne, hp, ht, hread⟩ := h.readRun
  have hrun := readRun_items (col + w.length) is p
  rw [hread] at hrun
  have hp' : ∀ c ∈ is.flatMap Item.text ++ p, isRest c = false :=
    List.forall_mem_append.mpr ⟨fun c hc => isRest_of_mem_items hc, hp⟩
  have hcol : col + (w ++ is.flatMap Item.text).length =
      col + w.length + (is.flatMap Item.text).length := by
    rw [List.length_append, Nat.add_assoc]
  rw [← List.append_assoc (is.flatMap Item.text),
    tokensFrom_rests_run _ hw (List.append_ne_nil_of_right_ne_nil _ hne) hp' ht, hrun, hcol]
  rfl

theorem textOf_cons (r : Run) (rs : List Run) : textOf (r :: rs) = r.text ++ textOf rs := rfl

theorem isRest_head?_textOf {rs : List Run} (hr : ∀ r ∈ rs, r.rests ≠ []) {s : Text}
    (hs : rs = [] → ∀ c ∈ s.head?, isRest c = true) :
    ∀ c ∈ (textOf rs ++ s).head?, isRest c = true := by
  cases rs with
  | nil => exact hs rfl
  | cons r rs =>
      obtain ⟨c, w, hc⟩ := List.exists_cons_of_ne_nil (hr r List.mem_cons_self)
      rw [textOf_cons, Run.text, hc]
      rintro _ ⟨⟩
      exact r.silent c (hc ▸ List.mem_cons_self)

section Verses

variable {col : Nat} {rs : List Run} {w : Text} (hr : ∀ r ∈ rs.tail, r.rests ≠ [])
  (hw : ∀ c ∈ w, isRest c = true)
include hr hw

theorem tokensFrom_textOf : tokensFrom col (textOf rs ++ w) = .ok (countedAt col rs) := by
  induction rs generalizing col with
  | nil => exact tokensFrom_silent col hw
  | cons r rs ih =>
      rw [List.tail_cons] at hr
      have hhead := isRest_head?_textOf (s := w) hr fun _ c hc => hw c (List.mem_of_mem_head? hc)
      rw [textOf_cons, List.append_assoc, r.tokensFrom_text hhead,
        ih fun r hm => hr r (List.mem_of_mem_tail hm)]
      rfl

theorem tokensFrom_fault {bad : Text} {cause : CompileError.Cause} {n : Nat}
    (h : Fault bad cause n) : tokensFrom col (textOf rs ++ (w ++ bad)) =
      .error ⟨cause, col + (textOf rs ++ w).length + n⟩ := by
  induction rs generalizing col with
  | nil =>
      have hb := tokensFrom_broken col hw [] h
      simpa [textOf] using hb
  | cons r rs ih =>
      rw [List.tail_cons] at hr
      by_cases hlast : rs = [] ∧ w = []
      · -- The fault is in the run itself.
        obtain ⟨rfl, rfl⟩ := hlast
        have hb := tokensFrom_broken col r.silent r.items h
        simpa [textOf, Run.text, Run.notes] using hb
      · have hhead : ∀ c ∈ (textOf rs ++ (w ++ bad)).head?, isRest c = true := by
          refine isRest_head?_textOf hr fun hrs => ?_
          rw [List.head?_append_of_ne_nil _ fun hnil => hlast ⟨hrs, hnil⟩]
          exact fun c hc => hw c (List.mem_of_mem_head? hc)
        have hcol : col + (textOf (r :: rs) ++ w).length =
            col + r.text.length + (textOf rs ++ w).length := by
          rw [textOf_cons, List.append_assoc, List.length_append, Nat.add_assoc]
        rw [hcol, textOf_cons, List.append_assoc, r.tokensFrom_text hhead,
          ih fun r hm => hr r (List.mem_of_mem_tail hm)]
        rfl

end Verses

end NoteLine

end ChordScript
