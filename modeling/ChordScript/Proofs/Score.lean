import Mathlib.Algebra.Ring.Nat
import ChordScript.Proofs.Reading
import ChordScript.Proofs.Notes

namespace ChordScript

/-- Actions that play the given chords and sit out the given number of beats, the last of them
being no rest. -/
inductive Score : List Action → List Chord → Nat → Prop
  | nil : Score [] [] 0
  | play {as : List Action} {cs : List Chord} {beats : Nat} (line : Nat) (chords : List Chord)
      (h : Score as cs beats) : Score (⟨line, .play chords⟩ :: as) (chords ++ cs) beats
  | rest {as : List Action} {cs : List Chord} {beats : Nat} (line : Nat) {n : Nat}
      (hn : n < UInt32.size) (hne : as ≠ []) (h : Score as cs beats) :
      Score (.rest line n :: as) cs (n + beats)

theorem Score.append {as bs : List Action} {cs ds : List Chord} {m n : Nat} (h : Score as cs m)
    (h' : Score bs ds n) : Score (as ++ bs) (cs ++ ds) (m + n) := by
  induction h with
  | nil => simpa using h'
  | play line chords _ ih =>
      rw [List.cons_append, List.append_assoc]
      exact .play line chords ih
  | rest line hn hne _ ih =>
      rw [List.cons_append, Nat.add_assoc]
      exact .rest line hn (by simp [hne]) ih

namespace NoteLine

/-- The chords of a line. Rests only stand between them, and the keys of a group are collected up to
its closing bracket. -/
def chordsFrom : Option (List Key) → Text → List Chord
  | _, [] => []
  | none, c :: s =>
    if isRest c then chordsFrom none s
    else if c = '[' then chordsFrom (some []) s
    else .single c :: chordsFrom none s
  | some ks, c :: s =>
    if c = ']' then (Chord.ofKeys? ks).toList ++ chordsFrom none s
    else chordsFrom (some (ks ++ [c])) s

def chordsIn (s : Text) : List Chord := chordsFrom none s

/-- The rests of a line that stand before some note. -/
def restsIn : Text → Nat
  | [] => 0
  | c :: s => (if isRest c && s.any (!isRest ·) then 1 else 0) + restsIn s

theorem chordsFrom_run {col : Nat} {g : Option OpenGroup} {p : Text} {cs : List Chord}
    (hp : ∀ c ∈ p, isRest c = false) (h : readRun col g p = .ok cs) (s : Text) :
    chordsFrom (g.map (·.keys.reverse)) (p ++ s) = cs ++ chordsIn s := by
  fun_induction readRun col g p generalizing cs with
  | case1 =>
      cases h
      rfl
  | case2 | case4 | case6 | case7 => cases h
  | case3 col p ih =>
      rw [List.forall_mem_cons] at hp
      exact ih hp.2 h
  | case5 col k p ho hc ih =>
      rw [List.forall_mem_cons] at hp
      obtain ⟨cs, hr, rfl⟩ := ok_of_map h
      rw [Option.map_none, List.cons_append, chordsFrom, hp.1, if_neg Bool.false_ne_true, if_neg ho]
      exact congrArg _ (ih hp.2 hr)
  | case8 col o p c hk hc ih =>
      rw [List.forall_mem_cons] at hp
      obtain ⟨cs, hr, rfl⟩ := ok_of_map h
      rw [Option.map_some, List.cons_append, chordsFrom, if_pos rfl, hk]
      exact congrArg (c :: ·) (ih hp.2 hr)
  | case9 col o k p ho hc ih =>
      rw [List.forall_mem_cons] at hp
      have hi := ih hp.2 h
      rw [Option.map_some, List.reverse_cons] at hi
      rw [Option.map_some, List.cons_append, chordsFrom, if_neg hc]
      exact hi

theorem chordsIn_run {col : Nat} {p : Text} {cs : List Chord} (hp : ∀ c ∈ p, isRest c = false)
    (h : readRun col none p = .ok cs) (s : Text) : chordsIn (p ++ s) = cs ++ chordsIn s :=
  chordsFrom_run hp h s

theorem chordsIn_rests {p : Text} (hp : ∀ c ∈ p, isRest c = true) (s : Text) :
    chordsIn (p ++ s) = chordsIn s := by
  induction p with
  | nil => rfl
  | cons c p ih =>
      rw [List.forall_mem_cons] at hp
      rw [List.cons_append, chordsIn, chordsFrom, if_pos hp.1]
      exact ih hp.2

theorem restsIn_run {p : Text} (hp : ∀ c ∈ p, isRest c = false) (s : Text) :
    restsIn (p ++ s) = restsIn s := by
  induction p with
  | nil => rfl
  | cons c p ih =>
      rw [List.forall_mem_cons] at hp
      simp [restsIn, hp.1, ih hp.2]

theorem restsIn_rests {p s : Text} (hp : ∀ c ∈ p, isRest c = true) (hs : s.any (!isRest ·) = true) :
    restsIn (p ++ s) = p.length + restsIn s := by
  induction p with
  | nil => simp
  | cons c p ih =>
      rw [List.forall_mem_cons] at hp
      simp only [List.cons_append, restsIn, hp.1, List.any_append, hs, Bool.or_true, Bool.and_true,
        if_true, ih hp.2, List.length_cons]
      omega

theorem restsIn_last {p : Text} (hp : ∀ c ∈ p, isRest c = true) : restsIn p = 0 := by
  induction p with
  | nil => rfl
  | cons c p ih =>
      rw [List.forall_mem_cons] at hp
      have hany : p.any (!isRest ·) = false := by simpa using hp.2
      rw [restsIn, hany, Bool.and_false, ih hp.2]
      rfl

theorem score_of_tokensOf {col : Nat} {ps : List Text} {ts : List Token} (hp : InTurn ps)
    (hr : ∀ p ∈ ps, p.all isRest = true → p.length < UInt32.size) (h : tokensOf col ps = .ok ts)
    (line : Nat) : Score (ts.map (·.action line)) (chordsIn ps.flatten) (restsIn ps.flatten) := by
  induction ps generalizing col ts with
  | nil =>
      cases h
      exact .nil
  | cons p ps ih =>
      have huniform := hp.uniform p List.mem_cons_self
      rw [List.forall_mem_cons] at hr
      rw [List.flatten_cons]
      rcases tokensOf_cons h with ⟨hrest, rfl, rfl⟩ | ⟨ts', ht, hts⟩
      · rw [hrest] at huniform
        rw [chordsIn_rests huniform, List.flatten_nil, List.append_nil, restsIn_last huniform]
        exact .nil
      · have hscore := ih hp.tail hr.2 ht
        rcases hts with ⟨hrest, hps, rfl⟩ | ⟨hrest, cs, hcs, rfl⟩
        · -- The next piece is a run, so these rests stand before a note.
          obtain ⟨q, ps, rfl⟩ := List.exists_cons_of_ne_nil hps
          have hq : q.all isRest = false := by
            simpa [hrest] using (List.isChain_cons.mp hp.turns).1 q rfl
          obtain ⟨t, ts', rfl, -⟩ := tokensOf_run hq ht
          have hany : (q :: ps).flatten.any (!isRest ·) = true := by
            rw [List.flatten_cons, List.any_append, ← List.not_all_eq_any_not, hq]
            rfl
          have hlength : p.length ≠ 0 :=
            mt List.eq_nil_of_length_eq_zero (hp.nonempty p List.mem_cons_self)
          rw [hrest] at huniform
          rw [chordsIn_rests huniform, restsIn_rests huniform hany,
            restToken?_of_lt hlength (hr.1 hrest)]
          exact .rest line (hr.1 hrest) (List.cons_ne_nil _ _) hscore
        · rw [hrest] at huniform
          rw [restsIn_run huniform, chordsIn_run huniform hcs]
          exact .play line cs hscore

theorem score_of_tokens {s : Text} {ts : List Token}
    (hr : ∀ p, p <:+: s → (∀ c ∈ p, isRest c = true) → p.length < UInt32.size)
    (h : tokens s = .ok ts) (line : Nat) :
    Score (ts.map (·.action line)) (chordsIn s) (restsIn s) := by
  have hflat := List.flatten_splitBy (isRest · == isRest ·) s
  have hpieces : ∀ p ∈ s.splitBy (isRest · == isRest ·), p.all isRest = true →
      p.length < UInt32.size :=
    fun p hp hall => hr p (hflat ▸ List.infix_of_mem_flatten hp) (List.all_eq_true.mp hall)
  have hscore := score_of_tokensOf (inTurn_splitBy s) hpieces h line
  rwa [hflat] at hscore

structure Plain (s : Text) : Prop where
  notes : s.head? ≠ some ','
  braceFree : BraceFree s
  accepted : ∃ ts, tokens s = .ok ts
  rests : ∀ p, p <:+: s → (∀ c ∈ p, isRest c = true) → p.length < UInt32.size

theorem Plain.read {s : Text} (h : Plain s) (hs : Line.isSilent s = false) (vs : Variables) :
    ∃ ts, tokens s = .ok ts ∧ Line.read vs s = .ok (.notes ts) := by
  obtain ⟨ts, ht⟩ := h.accepted
  refine ⟨ts, ht, ?_⟩
  rw [Line.read_of_not_silent hs, Variables.expand_of_braceFree h.braceFree]
  change Line.ofExpanded s = _
  rw [Line.ofExpanded, ht]
  · rfl
  · rintro body rfl
    exact h.notes rfl

end NoteLine

namespace Line

def chordsIn (raw : Text) : List Chord := if isSilent raw then [] else NoteLine.chordsIn raw

def restsIn (raw : Text) : Nat := if isSilent raw then 0 else NoteLine.restsIn raw

/-- A line that says nothing or is made of notes. -/
def Melodic (raw : Text) : Prop := isSilent raw = true ∨ NoteLine.Plain raw

end Line

namespace Draft

variable {d : Draft} {ls : List Text}

theorem score_of_add {raw : Text} (hr : Line.Melodic raw) (hs : d.stoppedAt = none) :
    ∃ d' as, d.add raw = .ok d' ∧ d'.stoppedAt = none ∧
      d'.actions.toList = d.actions.toList ++ as ∧
      Score as (Line.chordsIn raw) (Line.restsIn raw) := by
  have hadd {l : Line} (hl : Line.read d.vars raw = .ok l) (hv : l.defining d.vars = .ok d.vars) :=
    (Added.read hs hl hv).add
  cases hq : Line.isSilent raw with
  | true =>
      refine ⟨_, [], hadd (Line.read_of_silent hq _) rfl, rfl, ?_, ?_⟩
      · simp [next, Line.actions]
      · rw [Line.chordsIn, Line.restsIn, if_pos hq, if_pos hq]
        exact .nil
  | false =>
      have hp : NoteLine.Plain raw := hr.resolve_left (by simp [hq])
      obtain ⟨ts, ht, hread⟩ := hp.read hq d.vars
      refine ⟨_, ts.map (·.action (d.lines + 1)), hadd hread rfl, rfl, ?_, ?_⟩
      · simp [next, Line.actions]
      · rw [Line.chordsIn, Line.restsIn, hq, if_neg Bool.false_ne_true, if_neg Bool.false_ne_true]
        exact NoteLine.score_of_tokens hp.rests ht _

theorem score_of_foldlM (hl : ∀ l ∈ ls, Line.Melodic l) (hs : d.stoppedAt = none) :
    ∃ d' as, ls.foldlM add d = .ok d' ∧ d'.actions.toList = d.actions.toList ++ as ∧
      Score as (ls.flatMap Line.chordsIn) (ls.map Line.restsIn).sum := by
  induction ls generalizing d with
  | nil => exact ⟨d, [], rfl, by simp, .nil⟩
  | cons l ls ih =>
      rw [List.forall_mem_cons] at hl
      obtain ⟨d', as, ha, hs', hx, hscore⟩ := score_of_add hl.1 hs
      obtain ⟨d'', bs, hb, hy, hscore'⟩ := ih hl.2 hs'
      refine ⟨d'', as ++ bs, ?_, by rw [hy, hx, List.append_assoc], hscore.append hscore'⟩
      rw [List.foldlM_cons, ha]
      exact hb

end Draft

namespace Text

def Melodic (source : Text) : Prop := ∀ l ∈ source.lines, Line.Melodic l

def chordsIn (source : Text) : List Chord := source.lines.flatMap Line.chordsIn

def restsIn (source : Text) : Nat := (source.lines.map Line.restsIn).sum

end Text

theorem Script.score_of_compile {source : Text} (h : source.Melodic) :
    ∃ s, compile source = .ok s ∧
      Score s.document.actions.toList source.chordsIn source.restsIn := by
  obtain ⟨d, as, hd, hx, hscore⟩ := Draft.score_of_foldlM (d := {}) h rfl
  refine ⟨ofDraft d, by rw [compile, hd]; rfl, ?_⟩
  rw [List.nil_append] at hx
  exact hx ▸ hscore

end ChordScript
