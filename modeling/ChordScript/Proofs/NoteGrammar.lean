import ChordScript.Proofs.Verses

namespace ChordScript

namespace NoteLine

namespace Verse

def empty : Verse := ⟨[], [], List.forall_mem_nil _, List.forall_mem_nil _⟩

theorem exists_rest (v : Verse) {c : Char} (hc : isRest c = true) :
    ∃ u : Verse, u.text = c :: v.text := by
  obtain ⟨runs, rests, apart, silent⟩ := v
  cases runs with
  | nil => exact ⟨⟨[], c :: rests, List.forall_mem_nil _, List.forall_mem_cons.mpr ⟨hc, silent⟩⟩, rfl⟩
  | cons r rs =>
      have hr : ∀ d ∈ c :: r.rests, isRest d = true := List.forall_mem_cons.mpr ⟨hc, r.silent⟩
      exact ⟨⟨⟨c :: r.rests, r.items, hr, r.nonempty⟩ :: rs, rests, apart, silent⟩, rfl⟩

theorem exists_single (i : Item) {rs : List Run} {w : Text} (hr : ∀ r ∈ rs, r.rests ≠ [])
    (hw : ∀ c ∈ w, isRest c = true) : ∃ u : Verse, u.text = i.text ++ (textOf rs ++ w) := by
  have hi : [i] ≠ [] := List.cons_ne_nil _ _
  refine ⟨⟨⟨[], [i], List.forall_mem_nil _, hi⟩ :: rs, w, hr, hw⟩, ?_⟩
  simp [text, textOf_cons, Run.text, Run.notes]

/-- An item belongs to the run that follows it, if no rest stands between. -/
theorem exists_item (v : Verse) (i : Item) : ∃ u : Verse, u.text = i.text ++ v.text := by
  obtain ⟨runs, rests, apart, silent⟩ := v
  cases runs with
  | nil => exact exists_single i (List.forall_mem_nil _) silent
  | cons r rs =>
      by_cases hr : r.rests = []
      · have hi : i :: r.items ≠ [] := List.cons_ne_nil _ _
        refine ⟨⟨⟨[], i :: r.items, List.forall_mem_nil _, hi⟩ :: rs, rests, apart, silent⟩, ?_⟩
        simp [text, textOf_cons, Run.text, Run.notes, hr]
      · exact exists_single i (List.forall_mem_cons.mpr ⟨hr, apart⟩) silent

end Verse

inductive Begins : Text → Prop
  | nothing : Begins []
  | rest {c : Char} (hc : isRest c = true) (s : Text) : Begins (c :: s)
  | item (i : Item) (s : Text) : Begins (i.text ++ s)
  | fault {s : Text} {cause : CompileError.Cause} {n : Nat} (h : Fault s cause n) : Begins s

theorem begins_group (s : Text) : Begins ('[' :: s) := by
  obtain ⟨ks, t, rfl, hks, ht⟩ := exists_cut isKey s
  cases t with
  | nil => exact .fault (.unclosed hks (s := []) nofun)
  | cons c t =>
      by_cases hrest : isRest c = true
      · refine .fault (.unclosed hks (s := c :: t) ?_)
        rintro _ ⟨⟩
        exact hrest
      · by_cases hopen : c = '['
        · subst hopen
          exact .fault (.nested hks t)
        · have hkey := ht c rfl
          obtain rfl : c = ']' := by simpa [isKey, hrest, hopen] using hkey
          by_cases hne : ks = []
          · subst hne
            exact .fault (.empty t)
          · have hitem := Begins.item (.group ks hne hks) t
            rwa [Item.text, List.cons_append, List.append_assoc] at hitem

theorem begins (s : Text) : Begins s := by
  cases s with
  | nil => exact .nothing
  | cons c s =>
      by_cases hrest : isRest c = true
      · exact .rest hrest s
      · by_cases hopen : c = '['
        · subst hopen
          exact begins_group s
        · by_cases hclose : c = ']'
          · subst hclose
            exact .fault (.unmatched s)
          · exact .item (.key c (isKey_iff.mpr ⟨by simpa using hrest, hopen, hclose⟩)) s

/-- Every line is made of runs and rests, up to its end or to a fault. -/
theorem exists_verse (s : Text) : ∃ (v : Verse) (bad : Text), v.text ++ bad = s ∧
    (bad = [] ∨ ∃ cause n, Fault bad cause n) := by
  cases begins s with
  | nothing => exact ⟨.empty, [], rfl, .inl rfl⟩
  | rest hc s =>
      obtain ⟨v, bad, hs, hbad⟩ := exists_verse s
      obtain ⟨u, hu⟩ := v.exists_rest hc
      exact ⟨u, bad, by rw [hu, ← hs]; rfl, hbad⟩
  | item i s =>
      obtain ⟨v, bad, hs, hbad⟩ := exists_verse s
      obtain ⟨u, hu⟩ := v.exists_item i
      exact ⟨u, bad, by rw [hu, ← hs, List.append_assoc], hbad⟩
  | @fault s cause n h => exact ⟨.empty, s, rfl, .inr ⟨cause, n, h⟩⟩
termination_by s.length
decreasing_by
  · exact Nat.lt_succ_self _
  · have hpos := List.length_pos_of_ne_nil i.text_ne_nil
    rw [List.length_append]
    omega

theorem tokens_text (v : Verse) : tokens v.text = .ok (countedAt 1 v.runs) :=
  tokensFrom_textOf v.apart v.silent

theorem tokens_fault (v : Verse) {bad : Text} {cause : CompileError.Cause} {n : Nat}
    (h : Fault bad cause n) : tokens (v.text ++ bad) = .error ⟨cause, 1 + v.text.length + n⟩ := by
  rw [Verse.text, List.append_assoc]
  exact tokensFrom_fault v.apart v.silent h

theorem tokens_eq_ok {s : Text} {ts : List Token} :
    tokens s = .ok ts ↔ ∃ v : Verse, v.text = s ∧ countedAt 1 v.runs = ts := by
  constructor
  · intro h
    obtain ⟨v, bad, rfl, rfl | ⟨cause, n, hf⟩⟩ := exists_verse s
    · rw [List.append_nil, tokens_text] at h
      exact ⟨v, (List.append_nil _).symm, Except.ok.inj h⟩
    · rw [tokens_fault v hf] at h
      cases h
  · rintro ⟨v, rfl, rfl⟩
    exact tokens_text v

theorem tokens_eq_error {s : Text} {e : LineError} :
    tokens s = .error e ↔ ∃ (v : Verse) (bad : Text) (cause : CompileError.Cause) (n : Nat),
      v.text ++ bad = s ∧ Fault bad cause n ∧ e = ⟨cause, 1 + v.text.length + n⟩ := by
  constructor
  · intro h
    obtain ⟨v, bad, rfl, rfl | ⟨cause, n, hf⟩⟩ := exists_verse s
    · rw [List.append_nil, tokens_text] at h
      cases h
    · rw [tokens_fault v hf] at h
      exact ⟨v, bad, cause, n, rfl, hf, (Except.error.inj h).symm⟩
  · rintro ⟨v, bad, cause, n, rfl, hf, rfl⟩
    exact tokens_fault v hf

section Turns

structure Alternates (ts : List Token) : Prop where
  turns : ts.IsChain fun t u => t.isRest ≠ u.isRest
  last : ∀ t ∈ ts.getLast?, t.isRest = false

variable {rs : List Run} {col : Nat}

theorem isChain_countedAt {R : Token → Token → Prop}
    (hR : ∀ t u, t.isRest = true → u.isRest = false → R t u) (r : Run) :
    (countedAt col (r :: rs)).IsChain R ↔
      ((⟨col + r.rests.length, .chords (r.items.map Item.chord)⟩ : Token) ::
        countedAt (col + r.text.length) rs).IsChain R := by
  rw [countedAt, Run.counted, List.append_assoc, List.singleton_append]
  by_cases hd : UInt32.size ∣ r.rests.length
  · rw [restToken?_of_dvd hd]
    rfl
  · rw [restToken?_of_not_dvd hd, Option.toList_some, List.singleton_append, List.isChain_cons_cons]
    exact and_iff_right (hR _ _ rfl rfl)

theorem turns_countedAt {t : Token} (ht : t.isRest = false) :
    (t :: countedAt col rs).IsChain (fun t u => t.isRest ≠ u.isRest) ↔
      ∀ r ∈ rs, ¬ UInt32.size ∣ r.rests.length := by
  induction rs generalizing col t with
  | nil => exact iff_of_true (.singleton t) (List.forall_mem_nil _)
  | cons r rs ih =>
      rw [List.forall_mem_cons, countedAt, Run.counted, List.append_assoc, List.singleton_append]
      by_cases hd : UInt32.size ∣ r.rests.length
      · rw [restToken?_of_dvd hd, Option.toList_none, List.nil_append, List.isChain_cons_cons]
        exact iff_of_false (fun h => h.1 ht) fun h => h.1 hd
      · rw [restToken?_of_not_dvd hd, Option.toList_some, List.singleton_append,
          List.isChain_cons_cons, List.isChain_cons_cons, ht]
        exact ⟨fun h => ⟨hd, (ih rfl).mp h.2.2⟩,
          fun h => ⟨Bool.noConfusion, Bool.noConfusion, (ih rfl).mpr h.2⟩⟩

/-- Two runs stand side by side only if the counter keeps nothing of the rests between them. -/
theorem turns_iff : (countedAt col rs).IsChain (fun t u => t.isRest ≠ u.isRest) ↔
    ∀ r ∈ rs.tail, ¬ UInt32.size ∣ r.rests.length := by
  cases rs with
  | nil => exact iff_of_true .nil (List.forall_mem_nil _)
  | cons r rs =>
      rw [isChain_countedAt (fun t u ht hu => by simp [ht, hu]), turns_countedAt rfl, List.tail_cons]

theorem apart_countedAt : (countedAt col rs).IsChain fun t u => t.isRest = true → u.isRest = false := by
  induction rs generalizing col with
  | nil => exact .nil
  | cons r rs ih =>
      refine (isChain_countedAt (R := fun t u => t.isRest = true → u.isRest = false)
        (fun _ _ _ hu _ => hu) r).mpr ?_
      exact List.isChain_cons.mpr ⟨fun _ _ ht => Bool.noConfusion ht, ih⟩

theorem last_countedAt : ∀ t ∈ (countedAt col rs).getLast?, t.isRest = false := by
  induction rs generalizing col with
  | nil => nofun
  | cons r rs ih =>
      rw [countedAt, Run.counted, List.append_assoc, List.singleton_append, List.getLast?_append]
      cases hl : (countedAt (col + r.text.length) rs).getLast? with
      | none =>
          rw [List.getLast?_eq_none_iff.mp hl]
          rintro _ ⟨⟩
          rfl
      | some t =>
          rw [List.getLast?_cons, hl]
          rintro _ ⟨⟩
          exact ih t hl

namespace Verse

def Short (v : Verse) : Prop := ∀ r ∈ v.runs, r.rests.length < UInt32.size

variable {v : Verse}

theorem Short.countedAt (h : v.Short) : countedAt 1 v.runs = v.tokens := countedAt_of_lt h 1

theorem Short.alternates (h : v.Short) : Alternates v.tokens := by
  rw [← h.countedAt]
  refine ⟨turns_iff.mpr fun r hr hd => ?_, last_countedAt⟩
  exact v.apart r hr (List.eq_nil_of_length_eq_zero
    (Nat.eq_zero_of_dvd_of_lt hd (h r (List.mem_of_mem_tail hr))))

theorem Short.tokens_text (h : v.Short) : NoteLine.tokens v.text = .ok v.tokens := by
  rw [NoteLine.tokens_text, h.countedAt]

end Verse

end Turns

end NoteLine

/-- A chord as it is written. Brackets may be left out around a single key. -/
def Chord.render (bare : Chord → Bool) (c : Chord) : Text :=
  if bare c = true ∧ c.keys.length = 1 then c.keys else c.text

def Token.render (bare : Chord → Bool) (t : Token) : Text :=
  match t.kind with
  | .chords cs => cs.flatMap (Chord.render bare)
  | .rest beats => List.replicate beats ' '

namespace NoteLine

section Rendering

variable (bare : Chord → Bool)

namespace Item

theorem isKey_of_mem_chord {i : Item} {k : Key} (h : k ∈ i.chord.keys) : isKey k = true := by
  have hk := Chord.mem_of_ofKeys? i.ofKeys?_keys h
  cases i with
  | key l hl => rwa [List.mem_singleton.mp hk]
  | group ks _ hks => exact hks k hk

def again (i : Item) : Item :=
  if bare i.chord = true ∧ i.chord.keys.length = 1 then
    key (i.chord.keys.head i.chord.nonempty) (isKey_of_mem_chord (List.head_mem _))
  else group i.chord.keys i.chord.nonempty fun _ => isKey_of_mem_chord

theorem keys_again (i : Item) : (i.again bare).keys = i.chord.keys := by
  unfold again
  split
  · next h =>
      obtain ⟨k, hk⟩ := List.length_eq_one_iff.mp h.2
      simp only [keys, hk, List.head_cons]
  · rfl

theorem chord_again (i : Item) : (i.again bare).chord = i.chord := by
  apply Chord.eq_of_keys
  exact (congrArg List.eraseDups (i.keys_again bare)).trans (Key.eraseDups_of_nodup i.chord.nodup)

theorem text_again (i : Item) : (i.again bare).text = i.chord.render bare := by
  unfold again Chord.render
  split
  · next h =>
      obtain ⟨k, hk⟩ := List.length_eq_one_iff.mp h.2
      simp only [text, hk, List.head_cons]
  · rfl

end Item

theorem chords_again (is : List Item) : (is.map (Item.again bare)).map Item.chord = is.map Item.chord := by
  rw [List.map_map]
  exact List.map_congr_left fun i _ => i.chord_again bare

theorem text_items_again (is : List Item) : (is.map (Item.again bare)).flatMap Item.text =
    (is.map Item.chord).flatMap (Chord.render bare) := by
  rw [List.flatMap_map, List.flatMap_map]
  exact List.flatMap_congr fun i _ => i.text_again bare

def Run.again (r : Run) : Run where
  rests := List.replicate r.rests.length ' '
  items := r.items.map (Item.again bare)
  silent c hc := by
    rw [List.eq_of_mem_replicate hc]
    rfl
  nonempty := mt List.map_eq_nil_iff.mp r.nonempty

theorem Run.rests_again_eq_nil {r : Run} : (r.again bare).rests = [] ↔ r.rests = [] := by
  simp [again]

theorem Run.kinds_again (r : Run) (col col' : Nat) :
    ((r.again bare).tokens col').map Token.kind = (r.tokens col).map Token.kind := by
  have hlength : (r.again bare).rests.length = r.rests.length := List.length_replicate
  have hchords : (r.again bare).items.map Item.chord = r.items.map Item.chord :=
    chords_again bare r.items
  simp only [tokens, rests_again_eq_nil, hlength, hchords, List.map_append, apply_ite (List.map _)]
  rfl

theorem Run.text_again (r : Run) (col : Nat) :
    (r.again bare).text = (r.tokens col).flatMap (Token.render bare) := by
  have hnotes : (r.again bare).notes = (r.items.map Item.chord).flatMap (Chord.render bare) :=
    text_items_again bare r.items
  rw [text, hnotes, tokens, List.flatMap_append]
  by_cases hr : r.rests = [] <;> simp [again, hr, Token.render]

theorem tokensAt_again (rs : List Run) (col col' : Nat) :
    textOf (rs.map (Run.again bare)) = (tokensAt col rs).flatMap (Token.render bare) ∧
      (tokensAt col' (rs.map (Run.again bare))).map Token.kind = (tokensAt col rs).map Token.kind := by
  induction rs generalizing col col' with
  | nil => exact ⟨rfl, rfl⟩
  | cons r rs ih =>
      obtain ⟨htext, hkinds⟩ := ih (col + r.text.length) (col' + (r.again bare).text.length)
      constructor
      · rw [List.map_cons, textOf_cons, tokensAt, List.flatMap_append, htext, r.text_again bare col]
      · rw [List.map_cons, tokensAt, tokensAt, List.map_append, List.map_append, hkinds,
          r.kinds_again bare col col']

end Rendering

theorem tokens_render {v : Verse} (h : v.Short) (bare : Chord → Bool) :
    ∃ us, tokens (v.tokens.flatMap (Token.render bare)) = .ok us ∧
      us.map Token.kind = v.tokens.map Token.kind := by
  obtain ⟨htext, hkinds⟩ := tokensAt_again bare v.runs 1 1
  have hapart : ∀ r ∈ (v.runs.map (Run.again bare)).tail, r.rests ≠ [] := by
    rw [← List.map_tail]
    intro r hr
    obtain ⟨q, hq, rfl⟩ := List.mem_map.mp hr
    exact mt (Run.rests_again_eq_nil bare).mp (v.apart q hq)
  have hshort : ∀ r ∈ v.runs.map (Run.again bare), r.rests.length < UInt32.size := by
    intro r hr
    obtain ⟨q, hq, rfl⟩ := List.mem_map.mp hr
    rw [Run.again, List.length_replicate]
    exact h q hq
  have hread := Verse.Short.tokens_text
    (v := ⟨v.runs.map (Run.again bare), [], hapart, List.forall_mem_nil _⟩) hshort
  rw [Verse.text, List.append_nil, htext] at hread
  exact ⟨_, hread, hkinds⟩

/-- A line is read if and only if it is made of runs with rests between them, and unless the rests
between two of them are too many for the counter, its tokens are those of its runs. Otherwise the
error is at the first place at which there is neither a rest nor an item. -/
theorem tokens_grammar (s : Text) :
    ((∃ ts, tokens s = .ok ts) ↔ ∃ v : Verse, v.text = s) ∧
    (∀ v : Verse, v.text = s → v.Short →
      tokens s = .ok v.tokens ∧ Alternates v.tokens ∧ ∀ bare : Chord → Bool,
        ∃ us, tokens (v.tokens.flatMap (Token.render bare)) = .ok us ∧
          us.map Token.kind = v.tokens.map Token.kind) ∧
    ∀ e, tokens s = .error e ↔ ∃ (v : Verse) (bad : Text) (cause : CompileError.Cause) (n : Nat),
      v.text ++ bad = s ∧ Fault bad cause n ∧ e = ⟨cause, 1 + v.text.length + n⟩ := by
  refine ⟨⟨?_, ?_⟩, ?_, fun _ => tokens_eq_error⟩
  · rintro ⟨ts, h⟩
    obtain ⟨v, hv, -⟩ := tokens_eq_ok.mp h
    exact ⟨v, hv⟩
  · rintro ⟨v, rfl⟩
    exact ⟨_, tokens_text v⟩
  · rintro v rfl h
    exact ⟨h.tokens_text, h.alternates, tokens_render h⟩

theorem tokens_grammar_group :
    let s : Text := ". [bCb]a .d.".toList
    ∃ (v : Verse) (us : List Token), v.text = s ∧ v.Short ∧ tokens s = .ok v.tokens ∧
      v.tokens.map Token.col = [1, 3, 9, 11] ∧ Alternates v.tokens ∧
      v.tokens.flatMap (Token.render fun _ => true) = "  [bC]a  d".toList ∧
      tokens "  [bC]a  d".toList = .ok us ∧ us.map Token.kind = v.tokens.map Token.kind ∧
      ∃ (v : Verse) (bad : Text) (cause : CompileError.Cause) (n : Nat),
        v.text ++ bad = "a.[bc[".toList ∧ Fault bad cause n ∧
          (⟨.nestedChord, 6⟩ : LineError) = ⟨cause, 1 + v.text.length + n⟩ := by
  intro s
  let group : Item :=
    .group ['b', 'C', 'b'] (List.cons_ne_nil _ _) (List.all_eq_true.mp rfl)
  let r : Run := ⟨['.', ' '], [group, .key 'a' rfl], List.all_eq_true.mp rfl, List.cons_ne_nil _ _⟩
  let q : Run := ⟨[' ', '.'], [.key 'd' rfl], List.all_eq_true.mp rfl, List.cons_ne_nil _ _⟩
  let v : Verse := ⟨[r, q], ['.'], List.forall_mem_singleton.mpr (List.cons_ne_nil _ _),
    List.all_eq_true.mp rfl⟩
  have hshort : v.Short :=
    List.forall_mem_cons.mpr ⟨by decide, List.forall_mem_singleton.mpr (by decide)⟩
  obtain ⟨-, hok, -⟩ := tokens_grammar s
  obtain ⟨hread, halternates, hrender⟩ := hok v rfl hshort
  obtain ⟨us, hus, hkinds⟩ := hrender fun _ => true
  obtain ⟨-, -, herror⟩ := tokens_grammar "a.[bc[".toList
  exact ⟨v, us, rfl, hshort, hread, rfl, halternates, rfl, hus, hkinds, (herror _).mp rfl⟩

end NoteLine

end ChordScript
