import ChordScript.Proofs.WellFormed

namespace ChordScript

namespace Text

theorem fields_ne_nil (s : Text) : fields s ≠ [] := by
  fun_induction fields s with
  | case1 | case2 => simp
  | case3 c s => cases hf : fields s <;> simp [consHead]

theorem fields_eq_splitOn (s : Text) : fields s = s.splitOn ' ' := by
  fun_induction fields s with
  | case1 => rfl
  | case2 s ih => rw [List.splitOn_cons_eq_if_modifyHead, ih, if_pos (beq_self_eq_true ' ')]
  | case3 c s hc ih =>
      obtain ⟨f, fs, hf⟩ := List.exists_cons_of_ne_nil (fields_ne_nil s)
      rw [List.splitOn_cons_eq_if_modifyHead, if_neg (by simpa using fun h => hc h), ← ih, hf]
      rfl

theorem fields_joinFields {fs : List Text} (hne : fs ≠ []) (h : ∀ f ∈ fs, ' ' ∉ f) :
    fields (joinFields fs) = fs := by
  rw [fields_eq_splitOn, joinFields, List.splitOn_intercalate ' ' h hne]

theorem joinFields_injective {fs gs : List Text} (hf : fs ≠ []) (hg : gs ≠ [])
    (hfs : ∀ f ∈ fs, ' ' ∉ f) (hgs : ∀ g ∈ gs, ' ' ∉ g) (h : joinFields fs = joinFields gs) :
    fs = gs := by
  rw [← fields_joinFields hf hfs, ← fields_joinFields hg hgs, h]

end Text

namespace Keyword

theorem ofWord?_text (k : Keyword) : ofWord? k.text = some k := by
  cases k <;> rfl

theorem text_injective {k l : Keyword} (h : k.text = l.text) : k = l := by
  have hw := congrArg ofWord? h
  rw [ofWord?_text, ofWord?_text] at hw
  exact Option.some.inj hw

theorem isUpper_of_mem_text {k : Keyword} {c : Char} (h : c ∈ k.text) : c.isUpper = true := by
  have hall : k.text.all Char.isUpper = true := by cases k <;> rfl
  exact List.all_eq_true.mp hall c h

/-- The word is the keyword in letters of either case. -/
def Spelled (k : Keyword) (word : Text) : Prop := word.map Char.toUpper = k.text

instance (k : Keyword) (word : Text) : Decidable (k.Spelled word) := inferInstanceAs (Decidable (_ = _))

variable {k : Keyword} {word : Text}

theorem Spelled.ofWord? (h : k.Spelled word) : ofWord? word = some k := by
  have hall : all.find? (·.text = k.text) = some k := by cases k <;> rfl
  rw [Keyword.ofWord?, h, hall]

theorem Spelled.ne_nil (h : k.Spelled word) : word ≠ [] := by
  rintro rfl
  cases k <;> cases h

theorem Spelled.blank_notMem (h : k.Spelled word) : ' ' ∉ word := by
  intro hm
  have hk : ' '.toUpper ∈ k.text := h ▸ List.mem_map_of_mem hm
  exact absurd (isUpper_of_mem_text hk) (by decide)

end Keyword

namespace Directive

/-- The line says the directive. -/
structure Written (d : Directive) (t : Text) : Prop where
  text : ∃ word, d.keyword.Spelled word ∧ t = ',' :: Text.joinFields (word :: d.args)
  args : ∀ arg ∈ d.args, ' ' ∉ arg
  count : d.keyword.accepts d.args.length = true

variable {d : Directive} {t : Text}

theorem Written.head? (h : d.Written t) : t.head? = some ',' := by
  obtain ⟨word, -, rfl⟩ := h.text
  rfl

theorem Written.ofExpanded (h : d.Written t) : Line.ofExpanded t = .ok (.directive d) := by
  obtain ⟨word, hw, rfl⟩ := h.text
  have hfields : Text.fields (Text.joinFields (word :: d.args)) = word :: d.args :=
    Text.fields_joinFields (List.cons_ne_nil _ _)
      (List.forall_mem_cons.mpr ⟨hw.blank_notMem, h.args⟩)
  have hparse : parse (Text.joinFields (word :: d.args)) = .ok d := by
    simp only [parse, hfields, List.headD_cons, List.tail_cons, if_neg hw.ne_nil, hw.ofWord?,
      if_pos h.count]
  rw [Line.ofExpanded, hparse]
  rfl

end Directive

namespace Line

variable {vs : Variables} {raw t : Text} {d : Directive}

theorem isSilent_of_expand (ht : vs.expand raw = .ok t) (hc : t.head? = some ',') :
    isSilent raw = false := by
  cases raw with
  | nil =>
      rw [Variables.expand_of_braceFree (by nofun)] at ht
      cases ht
      cases hc
  | cons c s =>
      have hne : c ≠ '#' := by
        rintro rfl
        have hhash := Variables.head?_expand (by decide) rfl ht
        rw [hc] at hhash
        cases hhash
      simpa [isSilent] using hne

theorem read_of_written (ht : vs.expand raw = .ok t) (hd : d.Written t) :
    read vs raw = .ok (directive d) := by
  rw [read_of_not_silent (isSilent_of_expand ht hd.head?), ht]
  exact hd.ofExpanded

end Line

end ChordScript
