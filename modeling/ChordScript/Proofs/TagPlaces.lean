import ChordScript.Playback.Notice
import ChordScript.Proofs.Moves
import ChordScript.Proofs.Orders
import ChordScript.Proofs.Tags
import ChordScript.Proofs.WellFormed

namespace ChordScript

namespace TagPlace

variable {before after places : List TagPlace} {p q : TagPlace}

def Ordered (places : List TagPlace) : Prop := places.Pairwise fun p q => p.index < q.index

theorem ordered_all (actions : List Action) : Ordered (all actions) := by
  have hindices : actions.zipIdx.Pairwise fun a b => a.2 < b.2 := by
    rw [← List.pairwise_map, List.zipIdx_map_snd]
    exact List.pairwise_lt_range'
  refine hindices.filterMap _ fun a b hlt p hp q hq => ?_
  obtain ⟨-, -, hi⟩ := ofAction?_eq_some.mp hp
  obtain ⟨-, -, hj⟩ := ofAction?_eq_some.mp hq
  rwa [← hi, ← hj]

theorem Ordered.mem_before (h : Ordered (before ++ p :: after)) :
    q ∈ before ↔ q ∈ before ++ p :: after ∧ q.index < p.index := by
  obtain ⟨-, hafter, hbefore⟩ := List.pairwise_append.mp h
  constructor
  · intro hq
    exact ⟨List.mem_append_left _ hq, hbefore q hq p List.mem_cons_self⟩
  · rintro ⟨hq, hlt⟩
    rcases List.mem_append.mp hq with hq | hq
    · exact hq
    · rcases List.mem_cons.mp hq with rfl | hq
      · exact absurd hlt (Nat.lt_irrefl _)
      · exact absurd hlt (Nat.lt_asymm ((List.pairwise_cons.mp hafter).1 q hq))

/-- The last of the places at which a tag is set. -/
structure LastOf (places : List TagPlace) (name : Text) (index : Nat) : Prop where
  place : ∃ p ∈ places, p.name = name ∧ p.index = index
  last : ∀ p ∈ places, p.name = name → p.index ≤ index

theorem Ordered.le_last (h : Ordered (places ++ [p])) (hq : q ∈ places ++ [p]) :
    q.index ≤ p.index := by
  rcases List.mem_append.mp hq with hq | hq
  · exact Nat.le_of_lt (h.mem_before.mp hq).2
  · rw [List.mem_singleton.mp hq]

theorem lastOf_snoc_self {i : Nat} (h : Ordered (places ++ [p])) :
    LastOf (places ++ [p]) p.name i ↔ p.index = i := by
  have hp : p ∈ places ++ [p] := List.mem_append_right _ List.mem_cons_self
  constructor
  · rintro ⟨⟨q, hq, -, rfl⟩, hlast⟩
    exact Nat.le_antisymm (hlast p hp rfl) (h.le_last hq)
  · rintro rfl
    exact ⟨⟨p, hp, rfl, rfl⟩, fun q hq _ => h.le_last hq⟩

theorem lastOf_snoc_of_ne {name : Text} {i : Nat} (hne : p.name ≠ name) :
    LastOf (places ++ [p]) name i ↔ LastOf places name i := by
  have hmem {q : TagPlace} (hq : q ∈ places ++ [p]) (hname : q.name = name) : q ∈ places := by
    rcases List.mem_append.mp hq with hq | hq
    · exact hq
    · rw [List.mem_singleton.mp hq] at hname
      exact absurd hname hne
  constructor
  · rintro ⟨⟨q, hq, hname, hi⟩, hlast⟩
    exact ⟨⟨q, hmem hq hname, hname, hi⟩, fun r hr => hlast r (List.mem_append_left _ hr)⟩
  · rintro ⟨⟨q, hq, hname, hi⟩, hlast⟩
    exact ⟨⟨q, List.mem_append_left _ hq, hname, hi⟩, fun r hr hr' => hlast r (hmem hr hr') hr'⟩

end TagPlace

namespace TagIndex

open TagPlace (Ordered LastOf)

variable {places seen ps : List TagPlace} {p : TagPlace} {name : Text} {i : Nat}

theorem get?_eq_some (h : Ordered places) :
    (ofPlaces places).get? name = some i ↔ LastOf places name i := by
  induction places using List.reverseRecOn with
  | nil => exact iff_of_false nofun fun hl => by simpa using hl.place
  | append_singleton places p ih =>
      rw [ofPlaces_snoc, get?_insert]
      by_cases hp : name = p.name
      · rw [if_pos hp, hp, TagPlace.lastOf_snoc_self h, Option.some.injEq]
      · rw [if_neg hp, TagPlace.lastOf_snoc_of_ne (Ne.symm hp), ih (List.pairwise_append.mp h).1]

theorem get?_eq_none : (ofPlaces places).get? name = none ↔ ∀ p ∈ places, p.name ≠ name := by
  rw [get?_ofPlaces, Option.map_eq_none_iff, List.find?_eq_none]
  simp

theorem exists_cut_cons {α : Type} {P : List α → Prop} {x y : α} {ys : List α} :
    (∃ before after, y :: ys = before ++ x :: after ∧ P before) ↔
      y = x ∧ P [] ∨ ∃ before after, ys = before ++ x :: after ∧ P (y :: before) := by
  constructor
  · rintro ⟨before, after, h, hP⟩
    cases before with
    | nil => exact .inl ⟨(List.cons.inj h).1, hP⟩
    | cons z before =>
        obtain ⟨rfl, hys⟩ := List.cons.inj h
        exact .inr ⟨before, after, hys, hP⟩
  · rintro (⟨rfl, hP⟩ | ⟨before, after, rfl, hP⟩)
    · exact ⟨[], ys, rfl, hP⟩
    · exact ⟨y :: before, after, rfl, hP⟩

theorem mem_repeats : (p, i) ∈ repeats (ofPlaces seen) ps ↔
    ∃ before after, ps = before ++ p :: after ∧ (ofPlaces (seen ++ before)).get? p.name = some i := by
  induction ps generalizing seen with
  | nil =>
      refine iff_of_false List.not_mem_nil ?_
      rintro ⟨before, after, h, -⟩
      exact List.append_ne_nil_of_right_ne_nil _ (List.cons_ne_nil _ _) h.symm
  | cons q ps ih =>
      -- The rest is read with one more place seen.
      have hrest : (p, i) ∈ repeats ((ofPlaces seen).insert q.name q.index) ps ↔
          ∃ before after, ps = before ++ p :: after ∧
            (ofPlaces (seen ++ q :: before)).get? p.name = some i := by
        rw [← ofPlaces_snoc, ih]
        simp only [List.append_assoc, List.singleton_append]
      rw [exists_cut_cons, List.append_nil, ← hrest, repeats]
      split
      · next hq =>
          refine (or_iff_right ?_).symm
          rintro ⟨rfl, hi⟩
          rw [hq] at hi
          cases hi
      · next previous hq =>
          rw [List.mem_cons, Prod.mk.injEq]
          refine or_congr_left ?_
          constructor
          · rintro ⟨rfl, rfl⟩
            exact ⟨rfl, hq⟩
          · rintro ⟨rfl, hi⟩
            exact ⟨rfl, Option.some.inj (hi.symm.trans hq)⟩

theorem repeats_sublist (t : TagIndex) (ps : List TagPlace) :
    ((repeats t ps).map Prod.fst).Sublist ps := by
  induction ps generalizing t with
  | nil => exact .slnil
  | cons p ps ih =>
      rw [repeats]
      split
      · exact (ih _).cons _
      · exact (ih _).cons_cons _

/-- A repetition comes with the last place of its tag before it. -/
theorem mem_repeats_iff (h : Ordered places) : (p, i) ∈ repeats {} places ↔
    p ∈ places ∧ (∃ q ∈ places, q.name = p.name ∧ q.index = i ∧ i < p.index) ∧
      ∀ q ∈ places, q.name = p.name → q.index < p.index → q.index ≤ i := by
  change (p, i) ∈ repeats (ofPlaces []) places ↔ _
  rw [mem_repeats]
  constructor
  · rintro ⟨before, after, rfl, hi⟩
    obtain ⟨⟨q, hq, hname, rfl⟩, hlast⟩ := (get?_eq_some (List.pairwise_append.mp h).1).mp hi
    obtain ⟨hq, hlt⟩ := h.mem_before.mp hq
    refine ⟨List.mem_append_right _ List.mem_cons_self, ⟨q, hq, hname, rfl, hlt⟩, ?_⟩
    intro r hr hr' hlt
    exact hlast r (h.mem_before.mpr ⟨hr, hlt⟩) hr'
  · rintro ⟨hp, ⟨q, hq, hname, rfl, hlt⟩, hlast⟩
    obtain ⟨before, after, rfl⟩ := List.append_of_mem hp
    refine ⟨before, after, rfl, (get?_eq_some (List.pairwise_append.mp h).1).mpr ⟨?_, ?_⟩⟩
    · exact ⟨q, h.mem_before.mpr ⟨hq, hlt⟩, hname, rfl⟩
    · intro r hr hr'
      obtain ⟨hr, hlt⟩ := h.mem_before.mp hr
      exact hlast r hr hr' hlt

end TagIndex

def Action.tag (line : Nat) (name : Text) : Action := ⟨line, .obey ⟨.tag, [name]⟩⟩

theorem Session.tick_of_jump {s : Session} {line target : Nat} {d : Directive} {name value : Text}
    {bound : Int} (hf : s.Faces ⟨line, .obey d⟩) (hr : s.head.rest = 0) (hk : d.keyword = .goto)
    (hname : d.args[0]? = some name) (hvalue : d.args[1]? = some value)
    (hbound : Text.Literal value bound) (htag : s.document.tags.get? name = some target)
    (hlt : s.head.jumps.get line < bound) :
    s.tick.verdict = .more ∧ s.tick.session.head.cursor = target := by
  have ho := Directive.order_goto hk hname hvalue htag (Text.integer?_eq_some.mpr hbound)
  have hn : s.head.follow line (.repeatFrom name target bound) = some _ := if_pos hlt
  rw [(Ticked.obeyed hf hr ho hn).eq_tick]
  exact ⟨rfl, rfl⟩

namespace Script

open TagPlace (LastOf)

variable {source : Text} {script : Script} {p q : TagPlace} {name : Text} {i : Nat}

def tagPlaces (script : Script) : List TagPlace := TagPlace.all script.document.actions.toList

theorem ordered_tagPlaces (script : Script) : TagPlace.Ordered script.tagPlaces := TagPlace.ordered_all _

theorem tags_eq (h : compile source = .ok script) :
    script.document.tags = .ofPlaces script.tagPlaces := by
  obtain ⟨d, -, rfl⟩ := reads_of_compile h
  rfl

theorem mem_tagPlaces (h : compile source = .ok script) :
    p ∈ script.tagPlaces ↔ script.document.actions[p.index]? = some (.tag p.line p.name) := by
  rw [tagPlaces, TagPlace.mem_all]
  simp only [Array.getElem?_toList]
  constructor
  · rintro ⟨⟨line, step⟩, ha, hp⟩
    obtain ⟨⟨args, rfl⟩, rfl, -⟩ := TagPlace.ofAction?_eq_some.mp hp
    have hstep := step_wellFormed h (Array.mem_of_getElem? ha)
    obtain rfl : args = [] := by simpa using hstep.tag rfl
    exact ha
  · intro ha
    exact ⟨_, ha, TagPlace.ofAction?_eq_some.mpr ⟨⟨[], rfl⟩, rfl, rfl⟩⟩

theorem mem_tagPlaces_of_action (h : compile source = .ok script) {line : Nat}
    (ha : script.document.actions[i]? = some (.tag line name)) :
    ⟨name, line, i⟩ ∈ script.tagPlaces :=
  (mem_tagPlaces h).mpr ha

theorem line_lt_of_tagPlaces (h : compile source = .ok script) (hp : p ∈ script.tagPlaces)
    (hq : q ∈ script.tagPlaces) (hlt : p.index < q.index) : p.line < q.line := by
  rw [mem_tagPlaces h] at hp hq
  have hne : p.line ≠ q.line := fun hl =>
    Nat.ne_of_lt hlt (alone_of_directive (k := .tag) h Keyword.noConfusion hp hq rfl hl)
  rw [← Array.getElem?_toList] at hp hq
  obtain ⟨hi, hp⟩ := List.getElem?_eq_some_iff.mp hp
  obtain ⟨hj, hq⟩ := List.getElem?_eq_some_iff.mp hq
  have hle := List.pairwise_iff_getElem.mp (lines_ordered h) p.index q.index hi hj hlt
  rw [hp, hq] at hle
  exact Nat.lt_of_le_of_ne hle hne

theorem lastOf_iff (h : compile source = .ok script) : LastOf script.tagPlaces name i ↔
    (∃ line, script.document.actions[i]? = some (.tag line name)) ∧
      ∀ j line, script.document.actions[j]? = some (.tag line name) → j ≤ i := by
  constructor
  · rintro ⟨⟨p, hp, rfl, rfl⟩, hlast⟩
    exact ⟨⟨p.line, (mem_tagPlaces h).mp hp⟩,
      fun j line ha => hlast _ (mem_tagPlaces_of_action h ha) rfl⟩
  · rintro ⟨⟨line, ha⟩, hlast⟩
    refine ⟨⟨_, mem_tagPlaces_of_action h ha, rfl, rfl⟩, ?_⟩
    rintro p hp rfl
    exact hlast p.index p.line ((mem_tagPlaces h).mp hp)

def warnings (script : Script) : List Notice := script.notices.filter (·.level = .warn)

theorem warnings_eq (script : Script) : script.warnings =
    (TagIndex.repeats {} script.tagPlaces).map fun (place, previous) =>
      .tagRepeated place previous := by
  rw [warnings, notices, List.filter_append, tagPlaces]
  have hstops : (script.stoppedAt.toList.map Notice.stopReached).filter (·.level = .warn) = [] := by
    cases script.stoppedAt <;> rfl
  rw [hstops, List.nil_append]
  refine List.filter_eq_self.mpr fun n hn => ?_
  obtain ⟨⟨place, previous⟩, -, rfl⟩ := List.mem_map.mp hn
  rfl

/-- Where the tags of a script lead, where the jumps to them land, and what is warned of. -/
structure Tagged (script : Script) : Prop where
  unset : ∀ a ∈ script.document.actions, a.step.isDirective .set = false
  some_iff (name : Text) (i : Nat) : script.document.tags.get? name = some i ↔
    (∃ line, script.document.actions[i]? = some (.tag line name)) ∧
      ∀ j line, script.document.actions[j]? = some (.tag line name) → j ≤ i
  none_iff (name : Text) : script.document.tags.get? name = none ↔
    ∀ (j line : Nat), script.document.actions[j]? ≠ some (.tag line name)
  jump (s : Session) (line target : Nat) (d : Directive) (name value : Text) (bound : Int) :
    s.document = script.document → s.Faces ⟨line, .obey d⟩ → s.head.rest = 0 →
    d.keyword = .goto → d.args[0]? = some name → d.args[1]? = some value →
    Text.Literal value bound → script.document.tags.get? name = some target →
    s.head.jumps.get line < bound →
    s.tick.verdict = .more ∧ s.tick.session.head.cursor = target ∧
      target < script.document.actions.size ∧
      ∃ l, script.document.actions[target]? = some (.tag l name)
  warned : ∃ repeated : List (TagPlace × Nat),
    script.warnings = repeated.map (fun (place, previous) => .tagRepeated place previous) ∧
    repeated.Pairwise (fun p q => p.1.index < q.1.index ∧ p.1.line < q.1.line) ∧
    ∀ place previous, (place, previous) ∈ repeated ↔
      script.document.actions[place.index]? = some (.tag place.line place.name) ∧
      (∃ line, script.document.actions[previous]? = some (.tag line place.name)) ∧
      previous < place.index ∧ ∀ j line,
        script.document.actions[j]? = some (.tag line place.name) → j < place.index → j ≤ previous

theorem get?_tags (h : compile source = .ok script) : script.document.tags.get? name = some i ↔
    (∃ line, script.document.actions[i]? = some (.tag line name)) ∧
      ∀ j line, script.document.actions[j]? = some (.tag line name) → j ≤ i := by
  rw [tags_eq h, TagIndex.get?_eq_some script.ordered_tagPlaces, lastOf_iff h]

theorem pairwise_repeats (h : compile source = .ok script) :
    (TagIndex.repeats {} script.tagPlaces).Pairwise fun p q =>
      p.1.index < q.1.index ∧ p.1.line < q.1.line := by
  have hsublist := TagIndex.repeats_sublist {} script.tagPlaces
  have hordered := List.pairwise_map.mp (script.ordered_tagPlaces.sublist hsublist)
  refine hordered.imp_of_mem fun {p q} hp hq hlt => ⟨hlt, ?_⟩
  exact line_lt_of_tagPlaces h (hsublist.subset (List.mem_map_of_mem hp))
    (hsublist.subset (List.mem_map_of_mem hq)) hlt

theorem mem_repeats_tagPlaces (h : compile source = .ok script) :
    (p, i) ∈ TagIndex.repeats {} script.tagPlaces ↔
      script.document.actions[p.index]? = some (.tag p.line p.name) ∧
      (∃ line, script.document.actions[i]? = some (.tag line p.name)) ∧ i < p.index ∧
      ∀ j line, script.document.actions[j]? = some (.tag line p.name) → j < p.index → j ≤ i := by
  rw [TagIndex.mem_repeats_iff script.ordered_tagPlaces, mem_tagPlaces h]
  refine and_congr_right fun _ => ?_
  constructor
  · rintro ⟨⟨q, hq, hname, rfl, hlt⟩, hlast⟩
    rw [mem_tagPlaces h, hname] at hq
    exact ⟨⟨q.line, hq⟩, hlt,
      fun j line ha => hlast ⟨p.name, line, j⟩ (mem_tagPlaces_of_action h ha) rfl⟩
  · rintro ⟨⟨line, ha⟩, hlt, hlast⟩
    refine ⟨⟨_, mem_tagPlaces_of_action h ha, rfl, rfl, hlt⟩, fun q hq hname => ?_⟩
    rw [mem_tagPlaces h, hname] at hq
    exact hlast q.index q.line hq

/-- A tag leads to the last action that sets it, wherever the jumps to it stand. There is a warning
for each action that sets a tag again, with its line and the action before it that set the tag last,
in the order of the script. -/
theorem tags_of_compile (source : Text) (script : Script) (h : compile source = .ok script) :
    Tagged script where
  unset a ha := by
    have hstep := step_wellFormed h ha
    obtain ⟨line, step⟩ := a
    cases step with
    | play chords => rfl
    | obey d => exact decide_eq_false hstep.keyword.1
  some_iff _ _ := get?_tags h
  none_iff name := by
    rw [tags_eq h, TagIndex.get?_eq_none]
    constructor
    · intro hnone j line ha
      exact hnone _ (mem_tagPlaces_of_action h ha) rfl
    · rintro hnone p hp rfl
      exact hnone p.index p.line ((mem_tagPlaces h).mp hp)
  jump s line target d name value bound hdocument hf hr hk hname hvalue hbound htarget hlt := by
    obtain ⟨l, hl⟩ := ((get?_tags h).mp htarget).1
    obtain ⟨hv, hcursor⟩ := Session.tick_of_jump hf hr hk hname hvalue hbound
      (by rw [hdocument]; exact htarget) hlt
    exact ⟨hv, hcursor, (Array.getElem?_eq_some_iff.mp hl).1, l, hl⟩
  warned := ⟨_, warnings_eq script, pairwise_repeats h, fun _ _ => mem_repeats_tagPlaces h⟩

theorem tags_of_compile_repeated :
    let source : Text := ",SET n 1\n,TAG x\n,GOTO y \x7bn\x7d\n,TAG x\n,SET m 2\n,TAG y\n,TAG x".toList
    let document : Document := .ofActions #[.tag 2 ['x'], ⟨3, .obey ⟨.goto, [['y'], ['1']]⟩⟩,
      .tag 4 ['x'], .tag 6 ['y'], .tag 7 ['x']]
    let script : Script := ⟨document, ⟨[(['n'], ['1']), (['m'], ['2'])]⟩, none⟩
    let s := (Session.start document {} {}).after (Move.ticks 1)
    compile source = .ok script ∧ document.tags.get? ['x'] = some 4 ∧
      document.tags.get? ['z'] = none ∧ s.tick.session.head.cursor = 3 ∧
      (∃ line, document.actions[3]? = some (.tag line ['y'])) ∧
      script.warnings = [.tagRepeated ⟨['x'], 4, 2⟩ 0, .tagRepeated ⟨['x'], 7, 4⟩ 2] ∧
      ∀ j line, document.actions[j]? = some (.tag line ['x']) → j < 4 → j ≤ 2 := by
  intro source document script s
  have h : compile source = .ok script := rfl
  have hwarned : script.warnings = [.tagRepeated ⟨['x'], 4, 2⟩ 0, .tagRepeated ⟨['x'], 7, 4⟩ 2] := rfl
  have htagged := tags_of_compile source script h
  obtain ⟨repeated, hwarnings, -, hrepeated⟩ := htagged.warned
  have hbound : Text.Literal ['1'] 1 := Text.integer?_eq_some.mp (by decide)
  obtain ⟨-, hcursor, -, htarget⟩ := htagged.jump s 3 3 ⟨.goto, [['y'], ['1']]⟩ ['y'] ['1'] 1 rfl
    ⟨rfl, rfl, rfl⟩ rfl rfl rfl rfl hbound rfl (by decide)
  have hsecond : (⟨['x'], 7, 4⟩, 2) ∈ repeated := by
    have hm : Notice.tagRepeated ⟨['x'], 7, 4⟩ 2 ∈ script.warnings := by
      rw [hwarned]
      exact List.mem_cons_of_mem _ List.mem_cons_self
    rw [hwarnings] at hm
    obtain ⟨⟨place, previous⟩, hp, he⟩ := List.mem_map.mp hm
    cases he
    exact hp
  obtain ⟨-, -, -, hlast⟩ := (hrepeated _ _).mp hsecond
  exact ⟨h, rfl, rfl, hcursor, htarget, hwarned, hlast⟩

end Script

end ChordScript
