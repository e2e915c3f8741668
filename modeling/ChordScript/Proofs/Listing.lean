import ChordScript.Proofs.Decimal
import ChordScript.Proofs.Written

namespace ChordScript

namespace Text

variable {s t u v : Text} {c : Char}

theorem eq_of_cut (hs : c ∉ s) (ht : c ∉ t) (h : s ++ c :: u = t ++ c :: v) : s = t ∧ u = v := by
  rcases List.append_eq_append_iff.mp h with ⟨w, rfl, hw⟩ | ⟨w, rfl, hw⟩
  all_goals
    cases w with
    | nil => simpa [eq_comm] using hw
    | cons d w =>
        obtain ⟨rfl, -⟩ := List.cons.inj hw
        simp at hs ht

theorem intercalate_append {sep : Text} {ts : List Text} (hne : ts ≠ []) :
    sep.intercalate ts ++ sep = ts.flatMap (· ++ sep) := by
  induction ts with
  | nil => exact absurd rfl hne
  | cons t ts ih =>
      cases ts with
      | nil => simp
      | cons t' ts =>
          rw [List.intercalate_cons_cons, List.append_assoc, ih (List.cons_ne_nil _ _),
            List.flatMap_cons (x := t)]

theorem splitOn_unlines {ts : List Text} (h : ∀ t ∈ ts, '\n' ∉ t) :
    (unlines ['\n'] ts).splitOn '\n' = ts ++ [[]] := by
  induction ts with
  | nil => rfl
  | cons t ts ih =>
      rw [List.forall_mem_cons] at h
      rw [unlines, List.flatMap_cons, List.append_assoc, List.singleton_append,
        List.splitOn_append_cons_self_of_not_mem h.1]
      exact congrArg _ (ih h.2)

end Text

/-- Texts that tell where they end, whatever stands after them. -/
def SelfDelimiting {α : Type} (P : α → Prop) (f : α → Text) : Prop :=
  ∀ ⦃a b : α⦄ ⦃s t : Text⦄, P a → P b → f a ++ s = f b ++ t → a = b ∧ s = t

namespace SelfDelimiting

variable {α : Type} {P : α → Prop} {f : α → Text} {as bs : List α}

theorem append (hf : SelfDelimiting P f) (sep : Text) : SelfDelimiting P (f · ++ sep) := by
  intro a b s t ha hb h
  rw [List.append_assoc, List.append_assoc] at h
  obtain ⟨hab, hs⟩ := hf ha hb h
  exact ⟨hab, List.append_cancel_left hs⟩

theorem flatMap_injective (hf : SelfDelimiting P f) (hne : ∀ a, f a ≠ []) (ha : ∀ a ∈ as, P a)
    (hb : ∀ b ∈ bs, P b) (h : as.flatMap f = bs.flatMap f) : as = bs := by
  induction as generalizing bs with
  | nil =>
      cases bs with
      | nil => rfl
      | cons b bs => exact absurd (List.append_eq_nil_iff.mp h.symm).1 (hne b)
  | cons a as ih =>
      cases bs with
      | nil => exact absurd (List.append_eq_nil_iff.mp h).1 (hne a)
      | cons b bs =>
          rw [List.forall_mem_cons] at ha hb
          obtain ⟨rfl, hs⟩ := hf ha.1 hb.1 h
          rw [ih ha.2 hb.2 hs]

theorem intercalate_injective {sep : Text} (hf : SelfDelimiting P f) (hsep : sep ≠ [])
    (has : as ≠ []) (hbs : bs ≠ []) (ha : ∀ a ∈ as, P a) (hb : ∀ b ∈ bs, P b)
    (h : sep.intercalate (as.map f) = sep.intercalate (bs.map f)) : as = bs := by
  have hs := congrArg (· ++ sep) h
  simp only [Text.intercalate_append (mt List.map_eq_nil_iff.mp has),
    Text.intercalate_append (mt List.map_eq_nil_iff.mp hbs), List.flatMap_map] at hs
  exact (hf.append sep).flatMap_injective (fun a => by simp [hsep]) ha hb hs

end SelfDelimiting

theorem Chord.text_selfDelimiting : SelfDelimiting WellFormed text := by
  intro c d s t hc hd h
  have hbracket {e : Chord} (he : e.WellFormed) : ']' ∉ e.keys := fun hm => he.keys _ hm (by decide)
  simp only [text, List.append_assoc, List.cons_append, List.nil_append] at h
  obtain ⟨hk, hs⟩ := Text.eq_of_cut (hbracket hc) (hbracket hd) (List.cons.inj h).2
  refine ⟨?_, hs⟩
  cases c
  cases d
  cases hk
  rfl

namespace Directive

variable {d e : Directive}

theorem WellFormed.blank_notMem (hd : d.WellFormed) : ∀ arg ∈ d.args, ' ' ∉ arg :=
  fun arg harg hm => hd.args arg harg _ hm (by decide)

theorem text_injective (hd : d.WellFormed) (he : e.WellFormed) (h : d.text = e.text) : d = e := by
  have hcolon (k : Keyword) : ':' ∉ k.text := fun hm => nomatch k.isUpper_of_mem_text hm
  rw [text, text] at h
  obtain ⟨hk, ha⟩ : d.keyword = e.keyword ∧ d.args = e.args := by
    split at h <;> split at h
    · next hda hea => exact ⟨Keyword.text_injective h, hda.trans hea.symm⟩
    · exact absurd (h ▸ by simp) (hcolon d.keyword)
    · exact absurd (h ▸ by simp) (hcolon e.keyword)
    · next hda hea =>
        simp only [List.append_assoc, List.cons_append, List.nil_append] at h
        obtain ⟨hk, ht⟩ := Text.eq_of_cut (hcolon _) (hcolon _) h
        have hj := (List.cons.inj ht).2
        exact ⟨Keyword.text_injective hk,
          Text.joinFields_injective hda hea hd.blank_notMem he.blank_notMem hj⟩
  cases d
  cases e
  cases hk
  cases ha
  rfl

end Directive

namespace Step

theorem text_play_ne_obey (cs : List Chord) (d : Directive) : (play cs).text ≠ (obey d).text := by
  intro h
  have hp : some 'P' = d.text.head? := congrArg List.head? h
  obtain ⟨k, args⟩ := d
  simp only [Directive.text] at hp
  cases k <;> simp [Keyword.text, Keyword.name, apply_ite List.head?] at hp

theorem text_injective {a b : Step} (ha : a.WellFormed) (hb : b.WellFormed) (h : a.text = b.text) :
    a = b := by
  cases a with
  | play cs =>
      cases b with
      | play ds =>
          rw [Chord.text_selfDelimiting.intercalate_injective (by decide) ha.1 hb.1 ha.2 hb.2
            (List.append_cancel_left h)]
      | obey e => exact absurd h (text_play_ne_obey cs e)
  | obey d =>
      cases b with
      | play ds => exact absurd h.symm (text_play_ne_obey ds d)
      | obey e => rw [Directive.text_injective ha hb h]

theorem newline_notMem_text {a : Step} (ha : a.WellFormed) : '\n' ∉ a.text := by
  intro hm
  cases a with
  | play cs =>
      rcases List.mem_append.mp hm with hm | hm
      · exact absurd hm (by decide)
      · have hflat := List.mem_append_left [',', ' '] hm
        rw [Text.intercalate_append (mt List.map_eq_nil_iff.mp ha.1), List.flatMap_map,
          List.mem_flatMap] at hflat
        obtain ⟨c, hc, hm⟩ := hflat
        have hkeys : '\n' ∉ c.keys := fun hk => (ha.2 c hc).keys _ hk (by decide)
        simp [Chord.text, hkeys] at hm
  | obey d =>
      have hword : '\n' ∉ d.keyword.text := fun hk => nomatch d.keyword.isUpper_of_mem_text hk
      have hargs : '\n' ∉ Text.joinFields d.args := fun hk =>
        Text.forall_joinFields (P := (· ≠ '\n')) (by decide)
          (fun arg harg c hc he => ha.args arg harg c hc (he ▸ by decide)) _ hk rfl
      change '\n' ∈ d.text at hm
      rw [Directive.text] at hm
      split at hm
      · exact hword hm
      · simp [hword, hargs] at hm

end Step

namespace Action

variable {a b : Action}

theorem text_injective (ha : a.step.WellFormed) (hb : b.step.WellFormed) (h : a.text = b.text) :
    a = b := by
  have hcolon (n : Nat) : ':' ∉ (Text.decimal n).leftpad 3 '0' :=
    fun hm => nomatch Text.isDigit_of_mem_leftpad hm
  simp only [text, List.append_assoc, List.cons_append, List.nil_append] at h
  obtain ⟨hl, ht⟩ := Text.eq_of_cut (hcolon a.line) (hcolon b.line) h
  have hline := congrArg (Nat.ofDigitChars 10 · 0) hl
  simp only [Text.ofDigitChars_leftpad] at hline
  have hstep := Step.text_injective ha hb (List.cons.inj ht).2
  cases a
  cases b
  cases hline
  cases hstep
  rfl

theorem newline_notMem_text (ha : a.step.WellFormed) : '\n' ∉ a.text := by
  intro hm
  rw [text, List.mem_append, List.mem_append] at hm
  rcases hm with (hm | hm) | hm
  · exact nomatch Text.isDigit_of_mem_leftpad hm
  · exact absurd hm (by decide)
  · exact Step.newline_notMem_text ha hm

theorem line_selfDelimiting : SelfDelimiting (·.step.WellFormed) (text · ++ ['\n']) := by
  intro a b s t ha hb h
  rw [List.append_assoc, List.append_assoc] at h
  obtain ⟨ht, hs⟩ := Text.eq_of_cut (newline_notMem_text ha) (newline_notMem_text hb) h
  exact ⟨text_injective ha hb ht, hs⟩

end Action

namespace Document

variable {doc doc' : Document}

theorem splitOn_listing (hw : ∀ a ∈ doc.actions, a.step.WellFormed) :
    doc.listing.splitOn '\n' = doc.actions.toList.map Action.text ++ [[]] := by
  rw [← Text.splitOn_unlines, Text.unlines, List.flatMap_map, listing]
  exact List.forall_mem_map.mpr fun a ha =>
    Action.newline_notMem_text (hw a (Array.mem_toList_iff.mp ha))

theorem actions_eq_of_listing (hw : ∀ a ∈ doc.actions, a.step.WellFormed)
    (hw' : ∀ a ∈ doc'.actions, a.step.WellFormed) (h : doc.listing = doc'.listing) :
    doc.actions = doc'.actions := by
  simp only [← Array.mem_toList_iff] at hw hw'
  rw [← Array.toList_inj]
  exact Action.line_selfDelimiting.flatMap_injective (fun a => by simp) hw hw' h

end Document

namespace Script

/-- A listing tells the actions and the tags of the script, and it has a line for each action. -/
theorem listing_faithful (source source' : Text) (s s' : Script) (h : compile source = .ok s)
    (h' : compile source' = .ok s') :
    (s.document.listing = s'.document.listing →
      s.document.actions = s'.document.actions ∧ s.document.tags = s'.document.tags) ∧
    s.document.listing.splitOn '\n' = s.document.actions.toList.map Action.text ++ [[]] := by
  have hw : ∀ a ∈ s.document.actions, a.step.WellFormed := fun _ => step_wellFormed h
  have hw' : ∀ a ∈ s'.document.actions, a.step.WellFormed := fun _ => step_wellFormed h'
  refine ⟨fun hl => ?_, Document.splitOn_listing hw⟩
  have ha := Document.actions_eq_of_listing hw hw' hl
  refine ⟨ha, ?_⟩
  obtain ⟨d, -, rfl⟩ := reads_of_compile h
  obtain ⟨d', -, rfl⟩ := reads_of_compile h'
  exact congrArg (fun as => (Document.ofActions as).tags) ha

theorem listing_faithful_variable :
    let source : Text := ",SET x ,:\n[a\x7bx\x7d]..b\n,tag \n,Wait".toList
    let source' : Text := "#\n[a,:]..b.\n,TAG \n,WAIT".toList
    ∃ s s', compile source = .ok s ∧ compile source' = .ok s' ∧
      s.document.listing =
        "002: PLAY: [a,:]\n002: WAIT: 2\n002: PLAY: [b]\n003: TAG: \n004: WAIT\n".toList ∧
      s.document.actions = s'.document.actions ∧ s.document.tags = s'.document.tags := by
  intro source source'
  have h : compile source = .ok _ := rfl
  have h' : compile source' = .ok _ := rfl
  exact ⟨_, _, h, h', rfl, (listing_faithful source source' _ _ h h').1 rfl⟩

end Script

end ChordScript
