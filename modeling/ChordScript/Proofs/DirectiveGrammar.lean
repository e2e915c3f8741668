import Mathlib.Data.List.Forall2
import ChordScript.Proofs.Prefixes
import ChordScript.Proofs.Written

namespace ChordScript

theorem toUpper_eq_iff {c u : Char} (hu : u.isUpper = true) :
    c.toUpper = u ↔ c = u ∨ c = u.toLower := by
  have hval : 'A'.val ≤ u.val ∧ u.val ≤ 'Z'.val := of_decide_eq_true hu
  have hlo : 65 ≤ u.toNat := hval.1
  have hhi : u.toNat ≤ 90 := hval.2
  have hlower : u.toLower = ⟨u.val + ('a'.val - 'A'.val), _⟩ := dif_pos hval
  change (if h : _ then _ else c) = u ↔ _
  rw [hlower]
  split
  · next hc =>
      have h97 : 97 ≤ c.toNat := hc.1
      have h122 : c.toNat ≤ 122 := hc.2
      simp [Char.ext_iff, ← UInt32.toNat_inj]
      omega
  · next hc =>
      have h : ¬ (97 ≤ c.toNat ∧ c.toNat ≤ 122) := hc
      simp [Char.ext_iff, ← UInt32.toNat_inj]
      omega

namespace Text

def spaced (word : Text) (args : List Text) : Text := word ++ args.flatMap (' ' :: ·)

def firstWord (s : Text) : Text := s.takeWhile (· ≠ ' ')

variable {s word : Text} {args : List Text}

theorem joinFields_cons (word : Text) (args : List Text) :
    joinFields (word :: args) = spaced word args := by
  induction args generalizing word with
  | nil => simp [joinFields, spaced]
  | cons arg args ih =>
      rw [joinFields, List.intercalate_cons_cons, ← joinFields, ih]
      simp [spaced]

theorem joinFields_fields (s : Text) : joinFields s.fields = s := by
  rw [fields_eq_splitOn, joinFields, List.intercalate_splitOn]

/-- The fields of a text are the only ones of which it can be put together. -/
theorem fields_eq_cons : fields s = word :: args ↔
    s = spaced word args ∧ ' ' ∉ word ∧ ∀ arg ∈ args, ' ' ∉ arg := by
  constructor
  · intro h
    have hblank := blank_notMem_fields s
    rw [h, List.forall_mem_cons] at hblank
    refine ⟨?_, fun hm => hblank.1 ' ' hm rfl, fun arg ha hm => hblank.2 arg ha ' ' hm rfl⟩
    rw [← joinFields_cons, ← h, joinFields_fields]
  · rintro ⟨rfl, hword, hargs⟩
    rw [← joinFields_cons]
    exact fields_joinFields (List.cons_ne_nil _ _) (List.forall_mem_cons.mpr ⟨hword, hargs⟩)

theorem flatMap_fields (s : Text) : s.fields.flatMap (' ' :: ·) = ' ' :: s := by
  obtain ⟨word, args, hf⟩ := List.exists_cons_of_ne_nil s.fields_ne_nil
  rw [hf, (fields_eq_cons.mp hf).1]
  rfl

theorem firstWord_of_fields (h : fields s = word :: args) : firstWord s = word := by
  obtain ⟨rfl, hword, -⟩ := fields_eq_cons.mp h
  have hpos : ∀ c ∈ word, decide (c ≠ ' ') = true := by
    intro c hc
    exact decide_eq_true fun he => hword (he ▸ hc)
  rw [firstWord, spaced, List.takeWhile_append_of_pos hpos]
  cases args <;> simp

theorem firstWord_eq_nil : firstWord s = [] ↔ s = [] ∨ s.head? = some ' ' := by
  cases s with
  | nil => simp [firstWord]
  | cons c s => by_cases hc : c = ' ' <;> simp [firstWord, hc]

end Text

namespace Keyword

variable {k : Keyword} {word : Text} {n : Nat}

/-- Each letter of the keyword stands there as it is or in lower case. -/
def InEitherCase (k : Keyword) (word : Text) : Prop :=
  List.Forall₂ (fun upper c => c = upper ∨ c = upper.toLower) k.text word

theorem map_toUpper_eq_iff {us : Text} (hu : ∀ u ∈ us, u.isUpper = true) :
    word.map Char.toUpper = us ↔
      List.Forall₂ (fun upper c => c = upper ∨ c = upper.toLower) us word := by
  induction us generalizing word with
  | nil => simp
  | cons u us ih =>
      rw [List.forall_mem_cons] at hu
      cases word with
      | nil => simp
      | cons c word =>
          rw [List.map_cons, List.cons.injEq, toUpper_eq_iff hu.1, ih hu.2, List.forall₂_cons]

theorem spelled_iff : k.Spelled word ↔ k.InEitherCase word :=
  map_toUpper_eq_iff fun _ => isUpper_of_mem_text

theorem inEitherCase_text (k : Keyword) : k.InEitherCase k.text :=
  List.forall₂_same.mpr fun _ _ => .inl rfl

theorem ofWord?_eq_some : ofWord? word = some k ↔ k.InEitherCase word := by
  rw [← spelled_iff]
  refine ⟨fun h => ?_, Spelled.ofWord?⟩
  have htext := List.find?_some h
  exact (of_decide_eq_true htext).symm

theorem ofWord?_eq_none : ofWord? word = none ↔ ∀ k : Keyword, ¬ k.InEitherCase word := by
  simp only [Option.eq_none_iff_forall_ne_some, ne_eq, ofWord?_eq_some]

theorem InEitherCase.ne_nil (h : k.InEitherCase word) : word ≠ [] := (spelled_iff.mpr h).ne_nil

theorem InEitherCase.blank_notMem (h : k.InEitherCase word) : ' ' ∉ word :=
  (spelled_iff.mpr h).blank_notMem

theorem accepts_iff : k.accepts n = true ↔ (k = .set → 2 ≤ n) ∧ (k = .tag → n = 1) := by
  cases k <;> simp [accepts]

theorem not_accepts_iff : k.accepts n = false ↔ k = .set ∧ n < 2 ∨ k = .tag ∧ n ≠ 1 := by
  cases k <;> simp [accepts]

end Keyword

namespace Directive

variable {body word : Text} {args : List Text} {d : Directive} {k : Keyword} {e : LineError}

/-- What is wrong with a body that is no directive, and the column at which it shows. -/
inductive Misread (body : Text) : LineError → Prop
  | empty (h : body = [] ∨ body.head? = some ' ') : Misread body ⟨.emptyDirective, 0⟩
  | unknown (hne : body.firstWord ≠ []) (hk : ∀ k : Keyword, ¬ k.InEitherCase body.firstWord) :
      Misread body ⟨.unknownDirective body.firstWord, 2⟩
  | count {k : Keyword} {word : Text} {args : List Text} (hword : k.InEitherCase word)
      (hbody : body = Text.spaced word args) (hargs : ∀ arg ∈ args, ' ' ∉ arg)
      (hcount : k = .set ∧ args.length < 2 ∨ k = .tag ∧ args.length ≠ 1) :
      Misread body ⟨.argumentCount k args.length, 0⟩

theorem parse_of_fields (h : body.fields = word :: args) : parse body =
    if word = [] then .error ⟨.emptyDirective, 0⟩
    else match Keyword.ofWord? word with
      | none => .error ⟨.unknownDirective word, 2⟩
      | some k =>
        if k.accepts args.length then .ok ⟨k, args⟩
        else .error ⟨.argumentCount k args.length, 0⟩ := by
  rw [parse, h]
  rfl

theorem fields_of_keyword (hword : k.InEitherCase word) (hbody : body = Text.spaced word args)
    (hargs : ∀ arg ∈ args, ' ' ∉ arg) : body.fields = word :: args :=
  Text.fields_eq_cons.mpr ⟨hbody, hword.blank_notMem, hargs⟩

theorem parse_eq_ok_iff : parse body = .ok d ↔
    ∃ word, d.keyword.InEitherCase word ∧ body = Text.spaced word d.args ∧
      (∀ arg ∈ d.args, ' ' ∉ arg) ∧ (d.keyword = .set → 2 ≤ d.args.length) ∧
      (d.keyword = .tag → d.args.length = 1) := by
  constructor
  · intro h
    obtain ⟨word, args, hf⟩ := List.exists_cons_of_ne_nil body.fields_ne_nil
    rw [parse_of_fields hf] at h
    split at h
    · cases h
    · split at h
      · cases h
      · next k hk =>
          split at h
          · next ha =>
              cases h
              obtain ⟨hbody, -, hargs⟩ := Text.fields_eq_cons.mp hf
              exact ⟨word, Keyword.ofWord?_eq_some.mp hk, hbody, hargs, Keyword.accepts_iff.mp ha⟩
          · cases h
  · rintro ⟨word, hword, hbody, hargs, hcount⟩
    rw [parse_of_fields (fields_of_keyword hword hbody hargs), if_neg hword.ne_nil,
      Keyword.ofWord?_eq_some.mpr hword]
    exact if_pos (Keyword.accepts_iff.mpr hcount)

theorem parse_again (h : parse body = .ok d) :
    parse (Text.spaced d.keyword.text d.args) = .ok d := by
  obtain ⟨-, -, -, hargs⟩ := parse_eq_ok_iff.mp h
  exact parse_eq_ok_iff.mpr ⟨d.keyword.text, d.keyword.inEitherCase_text, rfl, hargs⟩

theorem misread_of_parse (h : parse body = .error e) : Misread body e := by
  obtain ⟨word, args, hf⟩ := List.exists_cons_of_ne_nil body.fields_ne_nil
  have hfirst := Text.firstWord_of_fields hf
  rw [parse_of_fields hf, ← hfirst] at h
  split at h
  · next hnil =>
      cases h
      exact .empty (Text.firstWord_eq_nil.mp hnil)
  · next hne =>
      split at h
      · next hk =>
          cases h
          exact .unknown hne (Keyword.ofWord?_eq_none.mp hk)
      · next k hk =>
          split at h
          · cases h
          · next ha =>
              cases h
              obtain ⟨hbody, -, hargs⟩ := Text.fields_eq_cons.mp hf
              rw [hfirst] at hk
              exact .count (Keyword.ofWord?_eq_some.mp hk) hbody hargs
                (Keyword.not_accepts_iff.mp (Bool.eq_false_iff.mpr ha))

theorem Misread.parse (h : Misread body e) : parse body = .error e := by
  obtain ⟨word, args, hf⟩ := List.exists_cons_of_ne_nil body.fields_ne_nil
  have hfirst := Text.firstWord_of_fields hf
  cases h with
  | empty h =>
      rw [parse_of_fields hf, ← hfirst]
      exact if_pos (Text.firstWord_eq_nil.mpr h)
  | unknown hne hk =>
      rw [parse_of_fields hf, ← hfirst, if_neg hne, Keyword.ofWord?_eq_none.mpr hk]
  | count hword hbody hargs hcount =>
      rw [parse_of_fields (fields_of_keyword hword hbody hargs), if_neg hword.ne_nil,
        Keyword.ofWord?_eq_some.mpr hword]
      exact if_neg (Bool.eq_false_iff.mp (Keyword.not_accepts_iff.mpr hcount))

theorem parse_set {name : Text} (hword : Keyword.set.InEitherCase word) (hname : ' ' ∉ name)
    (value : Text) :
    parse (word ++ ' ' :: (name ++ ' ' :: value)) = .ok ⟨.set, name :: value.fields⟩ := by
  have hfields := value.blank_notMem_fields
  refine parse_eq_ok_iff.mpr ⟨word, hword, ?_, ?_, fun _ => ?_, nofun⟩
  · rw [Text.spaced, List.flatMap_cons, value.flatMap_fields]
    rfl
  · exact List.forall_mem_cons.mpr ⟨hname, fun arg ha hm => hfields arg ha ' ' hm rfl⟩
  · exact Nat.succ_le_succ (List.length_pos_of_ne_nil value.fields_ne_nil)

theorem exists_of_parse_set (h : parse body = .ok d) (hk : d.keyword = .set) :
    ∃ word name value : Text, Keyword.set.InEitherCase word ∧ ' ' ∉ name ∧
      body = word ++ ' ' :: (name ++ ' ' :: value) ∧ d = ⟨.set, name :: value.fields⟩ := by
  obtain ⟨keyword, args⟩ := d
  obtain rfl : keyword = .set := hk
  obtain ⟨word, hword, rfl, hargs, htwo, -⟩ := parse_eq_ok_iff.mp h
  match args, htwo rfl with
  | name :: v :: vs, _ =>
      obtain ⟨hname, hvs⟩ := List.forall_mem_cons.mp hargs
      have hfields : (Text.spaced v vs).fields = v :: vs :=
        Text.fields_eq_cons.mpr ⟨rfl, List.forall_mem_cons.mp hvs⟩
      exact ⟨word, name, Text.spaced v vs, hword, hname, rfl, by rw [hfields]⟩

end Directive

theorem Line.read_set {vs : Variables} {raw word name value : Text}
    (hword : Keyword.set.InEitherCase word) (hname : ' ' ∉ name)
    (ht : vs.expand raw = .ok (',' :: (word ++ ' ' :: (name ++ ' ' :: value)))) :
    read vs raw = .ok (directive ⟨.set, name :: value.fields⟩) := by
  rw [read_of_not_silent (isSilent_of_expand ht rfl), ht]
  change (Directive.parse _).map directive = _
  rw [Directive.parse_set hword hname]
  rfl

theorem Draft.get?_of_add {d d' : Draft} {raw : Text} {dir : Directive} (h : d.add raw = .ok d')
    (hs : d.stoppedAt = none) (hread : Line.read d.vars raw = .ok (.directive dir))
    (hk : dir.keyword = .set) :
    d'.vars.get? (dir.args.headD []) = some (Text.joinFields dir.args.tail) := by
  cases added_of_add h with
  | past hp =>
      rw [hs] at hp
      cases hp
  | @read l vars _ hl hv =>
      cases hread.symm.trans hl
      rw [Line.defining, if_pos hk] at hv
      obtain ⟨hnone, hentries⟩ := Variables.define_eq_ok hv
      change vars.get? _ = _
      rw [Variables.get?, hentries, List.lookup_append, ← Variables.get?, hnone, Option.none_or,
        List.lookup_cons_self]

theorem Script.get?_of_definition {source raw word name value : Text} {k : Nat}
    {before script : Script} (hbefore : compile (source.firstLines k) = .ok before)
    (hs : before.stoppedAt = none) (hraw : source.lines[k]? = some raw)
    (ht : before.vars.expand raw = .ok (',' :: (word ++ ' ' :: (name ++ ' ' :: value))))
    (hword : Keyword.set.InEitherCase word) (hname : ' ' ∉ name)
    (h : compile source = .ok script) : script.vars.get? name = some value := by
  obtain ⟨d, hd, rfl⟩ := compile_firstLines_eq_ok.mp hbefore
  obtain ⟨e, he, rfl⟩ := ok_of_map h
  rw [Draft.foldlM_at hd hraw] at he
  obtain ⟨d', hadd, hrest⟩ := ok_of_bind he
  have hstored := Draft.get?_of_add hadd hs (Line.read_set hword hname ht) rfl
  rw [List.headD_cons, List.tail_cons, value.joinFields_fields] at hstored
  obtain ⟨more, hmore⟩ := (Draft.prefix_of_foldlM hrest).2
  exact Variables.Extends.get? ⟨more, hmore.symm⟩ hstored

namespace Directive

/-- What a body is read as, what it is refused for, and what it stores. -/
structure Grammar (body : Text) : Prop where
  read_iff (d : Directive) : parse body = .ok d ↔
    ∃ word, d.keyword.InEitherCase word ∧ body = word ++ d.args.flatMap (' ' :: ·) ∧
      (∀ arg ∈ d.args, ' ' ∉ arg) ∧ (d.keyword = .set → 2 ≤ d.args.length) ∧
      (d.keyword = .tag → d.args.length = 1)
  again (d : Directive) : parse body = .ok d →
    parse (d.keyword.text ++ d.args.flatMap (' ' :: ·)) = .ok d
  refused_iff (e : LineError) : parse body = .error e ↔ Misread body e
  stored (word name value : Text) : Keyword.set.InEitherCase word → ' ' ∉ name →
    body = word ++ ' ' :: (name ++ ' ' :: value) →
    ∀ (source raw : Text) (k : Nat) (before script : Script),
      Script.compile (source.firstLines k) = .ok before → before.stoppedAt = none →
      source.lines[k]? = some raw → before.vars.expand raw = .ok (',' :: body) →
      Script.compile source = .ok script → script.vars.get? name = some value

/-- A body is read as a directive if it is that directive as it is written, and what is read is
written again as the same. Any other body is refused for what is wrong with it. A line that defines
a variable stores the text behind its name as it stands. -/
theorem parse_grammar (body : Text) : Grammar body where
  read_iff _ := parse_eq_ok_iff
  again _ := parse_again
  refused_iff _ := ⟨misread_of_parse, Misread.parse⟩
  stored word name value hword hname hbody source raw k before script hbefore hs hraw ht h := by
    subst hbody
    exact Script.get?_of_definition hbefore hs hraw ht hword hname h

theorem parse_grammar_definition :
    let body : Text := "sEt x  a ".toList
    let d : Directive := ⟨.set, [['x'], [], ['a'], []]⟩
    let source : Text := ",SET y  a \n,sEt x \x7by\x7d\n\x7bx\x7db".toList
    let other : Text := "\u017Fet x".toList
    ∃ script, parse body = .ok d ∧ parse "SET x  a ".toList = .ok d ∧
      Script.compile source = .ok script ∧ script.vars.get? ['x'] = some " a ".toList ∧
      parse other = .error ⟨.unknownDirective other.firstWord, 2⟩ ∧
      (∀ k : Keyword, ¬ k.InEitherCase other.firstWord) := by
  intro body d source other
  have hword : Keyword.set.InEitherCase "sEt".toList := Keyword.spelled_iff.mp (by decide)
  have hunknown : ∀ k : Keyword, ¬ k.InEitherCase other.firstWord := Keyword.ofWord?_eq_none.mp rfl
  have h : Script.compile source = .ok _ := rfl
  have hbody := parse_grammar body
  have hd : parse body = .ok d :=
    (hbody.read_iff d).mpr ⟨"sEt".toList, hword, rfl, by decide, by decide, by decide⟩
  have htext : "SET x  a ".toList = d.keyword.text ++ d.args.flatMap (' ' :: ·) := by decide
  have hother : parse other = .error ⟨.unknownDirective other.firstWord, 2⟩ :=
    ((parse_grammar other).refused_iff _).mpr (.unknown (by decide) hunknown)
  refine ⟨_, hd, htext ▸ hbody.again d hd, h, ?_, hother, hunknown⟩
  exact hbody.stored "sEt".toList ['x'] " a ".toList hword (by decide) rfl source _ 1 _ _ rfl rfl rfl
    rfl h

end Directive

end ChordScript
