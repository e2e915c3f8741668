import ChordScript.Proofs.ErrorPlaces

namespace ChordScript

namespace Variables

variable {vs : Variables} {name value : Text}

theorem get?_eq_none : vs.get? name = none ↔ name ∉ vs.entries.map Prod.fst := by
  rw [get?, List.lookup_eq_none_iff, List.mem_map]
  constructor
  · rintro h ⟨entry, he, rfl⟩
    simpa using h entry he
  · intro h entry he
    simpa using fun hn : name = entry.1 => h ⟨entry, he, hn.symm⟩

theorem isSome_get? : (vs.get? name).isSome = true ↔ name ∈ vs.entries.map Prod.fst := by
  rw [Option.isSome_iff_ne_none, ne_eq, get?_eq_none, not_not]

theorem get?_of_mem (hd : (vs.entries.map Prod.fst).Nodup) (hm : (name, value) ∈ vs.entries) :
    vs.get? name = some value := by
  obtain ⟨before, after, he⟩ := List.append_of_mem hm
  rw [he, List.map_append, List.map_cons, List.nodup_append'] at hd
  refine List.lookup_eq_some_iff.mpr ⟨before, after, he, fun e hb => ?_⟩
  have hne : name ≠ e.1 := fun h => hd.2.2 (List.mem_map_of_mem hb) (h ▸ List.mem_cons_self)
  simpa using hne

theorem Rewrites.exists_use (hv : ∀ e ∈ vs.entries, BraceFree e.2) {s t before after : Text}
    (h : vs.Rewrites s t) (ht : t = before ++ '\x7b' :: (name ++ '\x7d' :: after))
    (hb : BraceFree before) : ∃ pre post u, s = pre ++ '\x7b' :: (name ++ '\x7d' :: post) ∧
      vs.pass [] none pre = .ok u := by
  induction h with
  | refl s => exact ⟨before, after, before, ht, by simpa [pass] using vs.pass_plain hb [] []⟩
  | @replace s t value u hf hg _ ih =>
      obtain ⟨pre, post, w, hsplit, hw⟩ := ih ht
      have hs := firstUse?_spec s
      rw [hf] at hs
      cases hs with
      | @use first used last hfirst hused =>
          have hvalue := hv _ (mem_entries_of_get? hg)
          have hfree : BraceFree (first ++ value) := List.forall_mem_append.mpr ⟨hfirst, hvalue⟩
          -- No brace that opens a use has been put in.
          obtain ⟨mid, rfl, rfl⟩ : ∃ mid, pre = first ++ value ++ mid ∧
              last = mid ++ '\x7b' :: (name ++ '\x7d' :: post) := by
            rcases List.append_eq_append_iff.mp hsplit with ⟨mid, hpre, hlast⟩ | ⟨mid, hput, hlast⟩
            · exact ⟨mid, hpre, hlast⟩
            · cases mid with
              | nil => exact ⟨[], by simpa using hput.symm, by simpa using hlast.symm⟩
              | cons c mid =>
                  obtain rfl : '\x7b' = c := (List.cons.inj hlast).1
                  rw [hput] at hfree
                  exact absurd hfree (not_braceFree (by decide))
          refine ⟨first ++ '\x7b' :: (used ++ '\x7d' :: mid), post, w, by simp, ?_⟩
          rw [vs.pass_replace hfirst hused hvalue hg, hw]

theorem expand_eq_unknown (hv : ∀ e ∈ vs.entries, BraceFree e.2) {pre t : Text}
    (ht : vs.expand pre = .ok t) (hn : BraceFree name) (hg : vs.get? name = none) (post : Text) :
    vs.expand (pre ++ '\x7b' :: (name ++ '\x7d' :: post)) =
      .error ⟨.unknownVariable name, t.length + 1⟩ := by
  rw [expand_pass hv] at ht ⊢
  have hopen : vs.pass t none ('\x7b' :: (name ++ '\x7d' :: post)) =
      vs.pass t (some name) ('\x7d' :: post) := by
    rw [pass, if_pos rfl, vs.pass_name hn, List.nil_append]
  rw [pass_append ht, hopen, pass, if_neg (by decide), if_pos rfl, hg]

end Variables

namespace Line

variable {vs : Variables} {raw name value : Text} {e : LineError}

def defined : Line → Option (Text × Text)
  | directive d =>
    if d.keyword = .set then some (d.args.headD [], Text.joinFields d.args.tail) else none
  | _ => none

/-- What a line of a source defines if it is read with these variables. -/
def definition? (vs : Variables) (raw : Text) : Option (Text × Text) :=
  (read vs raw).toOption.bind defined

/-- What lines define, each of which is read with what the lines before it define. -/
def definitions (ls : List Text) : List (Text × Text) :=
  ls.foldl (fun entries raw => entries ++ (definition? ⟨entries⟩ raw).toList) []

theorem definitions_concat (ls : List Text) (raw : Text) :
    definitions (ls ++ [raw]) = definitions ls ++ (definition? ⟨definitions ls⟩ raw).toList :=
  List.foldl_concat ..

theorem mem_definitions {ls : List Text} {entry : Text × Text} : entry ∈ definitions ls ↔
    ∃ j raw, ls[j]? = some raw ∧ definition? ⟨definitions (ls.take j)⟩ raw = some entry := by
  induction ls using List.reverseRecOn with
  | nil => simp [definitions]
  | append_singleton ls last ih =>
      rw [definitions_concat, List.mem_append, ih, Option.mem_toList]
      constructor
      · rintro (⟨j, raw, hraw, hdef⟩ | hdef)
        · have hj : j < ls.length := (List.getElem?_eq_some_iff.mp hraw).1
          refine ⟨j, raw, ?_, ?_⟩
          · rw [List.getElem?_append_left hj, hraw]
          · rw [List.take_append_of_le_length (Nat.le_of_lt hj), hdef]
        · exact ⟨ls.length, last, List.getElem?_concat_length, by rw [List.take_left]; exact hdef⟩
      · rintro ⟨j, raw, hraw, hdef⟩
        by_cases hj : j < ls.length
        · rw [List.getElem?_append_left hj] at hraw
          rw [List.take_append_of_le_length (Nat.le_of_lt hj)] at hdef
          exact .inl ⟨j, raw, hraw, hdef⟩
        · have hlast : j = ls.length := by
            have hlt := (List.getElem?_eq_some_iff.mp hraw).1
            rw [List.length_append, List.length_singleton] at hlt
            omega
          rw [hlast, List.getElem?_concat_length] at hraw
          rw [hlast, List.take_left] at hdef
          cases hraw
          exact .inr hdef

theorem definition?_of_read {l : Line} (hl : read vs raw = .ok l) : definition? vs raw = l.defined := by
  rw [definition?, hl]
  rfl

theorem definition?_eq_some : definition? vs raw = some (name, value) ↔
    ∃ word, Keyword.set.InEitherCase word ∧ ' ' ∉ name ∧
      vs.expand raw = .ok (',' :: (word ++ ' ' :: (name ++ ' ' :: value))) := by
  constructor
  · intro h
    cases hl : read vs raw with
    | error e =>
        rw [definition?, hl] at h
        cases h
    | ok l =>
        rw [definition?_of_read hl] at h
        unfold defined at h
        split at h
        · split at h
          · next d hk =>
              obtain ⟨t, ht, body, rfl, hd⟩ := read_eq_directive hl
              obtain ⟨word, n, v, hword, hname, rfl, rfl⟩ := Directive.exists_of_parse_set hd hk
              rw [List.headD_cons, List.tail_cons, v.joinFields_fields] at h
              cases h
              exact ⟨word, hword, hname, ht⟩
          · cases h
        · cases h
  · rintro ⟨word, hword, hname, ht⟩
    rw [definition?_of_read (read_set hword hname ht), defined, if_pos rfl, List.headD_cons,
      List.tail_cons, value.joinFields_fields]

theorem defining_eq (l : Line) (vs : Variables) : l.defining vs =
    match l.defined with
    | none => .ok vs
    | some (name, value) => vs.define name value := by
  cases l with
  | silent | notes => rfl
  | directive d =>
      simp only [defining, defined]
      split <;> rfl

theorem through_eq_ok {vs' : Variables} (h : through vs raw = .ok vs') :
    vs'.entries = vs.entries ++ (definition? vs raw).toList ∧
      ∀ entry ∈ definition? vs raw, vs.get? entry.1 = none := by
  obtain ⟨l, hl, hd⟩ := ok_of_bind h
  rw [definition?_of_read hl]
  rw [defining_eq] at hd
  split at hd
  · next hn =>
      cases hd
      rw [hn]
      exact ⟨(List.append_nil _).symm, nofun⟩
  · next name value hs =>
      obtain ⟨hnone, he⟩ := Variables.define_eq_ok hd
      rw [hs]
      refine ⟨he, ?_⟩
      rintro _ ⟨⟩
      exact hnone

theorem not_comment_of_through (h : through vs raw = .error e) : raw.head? ≠ some '#' := by
  intro hc
  have hs : isSilent raw = true := by simp [isSilent, hc]
  rw [through, read_of_silent hs] at h
  cases h

theorem through_duplicate_iff (hv : ∀ e ∈ vs.entries, BraceFree e.2) :
    (∃ col, through vs raw = .error ⟨.duplicateVariable name, col⟩) ↔
      ∃ value, definition? vs raw = some (name, value) ∧ name ∈ vs.entries.map Prod.fst := by
  constructor
  · rintro ⟨col, h⟩
    obtain ⟨t, ht⟩ := AtFault.of_through hv h
    cases ht with
    | stuck _ h => cases h
    | rejected _ h => cases h
    | duplicateVariable ht hword hname hset hg =>
        rw [hset] at ht
        exact ⟨_, definition?_eq_some.mpr ⟨_, hword, hname, ht⟩, Variables.isSome_get?.mp hg⟩
  · rintro ⟨value, hdef, hname⟩
    obtain ⟨word, hword, hblank, ht⟩ := definition?_eq_some.mp hdef
    have hl := read_set hword hblank ht
    rw [definition?_of_read hl] at hdef
    obtain ⟨v, hg⟩ := Option.isSome_iff_exists.mp (Variables.isSome_get?.mpr hname)
    have hdup : defining vs (directive ⟨.set, name :: value.fields⟩) =
        .error ⟨.duplicateVariable name, 0⟩ := by
      simp only [defining_eq, hdef, Variables.define, hg]
    refine ⟨0, ?_⟩
    rw [through, hl]
    exact hdup

theorem through_unknown_iff (hv : ∀ e ∈ vs.entries, BraceFree e.2) :
    (∃ col, through vs raw = .error ⟨.unknownVariable name, col⟩) ↔
      ∃ pre post t, raw.head? ≠ some '#' ∧ raw = pre ++ '\x7b' :: (name ++ '\x7d' :: post) ∧
        BraceFree name ∧ vs.expand pre = .ok t ∧ name ∉ vs.entries.map Prod.fst := by
  constructor
  · rintro ⟨col, h⟩
    obtain ⟨t, ht⟩ := AtFault.of_through hv h
    cases ht with
    | rejected _ h => cases h
    | stuck hrewrites hstuck =>
        cases hstuck with
        | unknownVariable hb hn hg =>
            obtain ⟨pre, post, u, hsplit, hpre⟩ := hrewrites.exists_use hv rfl hb
            rw [← Variables.expand_pass hv] at hpre
            exact ⟨pre, post, u, not_comment_of_through h, hsplit, hn, hpre,
              Variables.get?_eq_none.mp hg⟩
  · rintro ⟨pre, post, t, hc, rfl, hn, hpre, hname⟩
    have hx := Variables.expand_eq_unknown hv hpre hn (Variables.get?_eq_none.mpr hname) post
    have hs : isSilent (pre ++ '\x7b' :: (name ++ '\x7d' :: post)) = false := by
      simp only [isSilent, hc, decide_false, Bool.or_false, decide_eq_false_iff_not]
      exact List.append_ne_nil_of_right_ne_nil pre (List.cons_ne_nil _ _)
    refine ⟨t.length + 1, ?_⟩
    rw [through, read_of_not_silent hs, hx]
    rfl

end Line

namespace Draft

variable {d d' : Draft} {raw : Text} {ls : List Text}

theorem Added.through (h : Added d raw d') (hs : d.stoppedAt = none) :
    Line.through d.vars raw = .ok d'.vars := by
  cases h with
  | past hp => simp [hs] at hp
  | read _ hl hv =>
      rw [Line.through, hl]
      exact hv

theorem Reads.entries_eq (h : Reads ls d) (hs : d.stoppedAt = none) :
    d.vars.entries = Line.definitions ls := by
  induction h with
  | nil => rfl
  | snoc h ha ih =>
      have hn := ha.stoppedAt_eq_none hs
      rw [(Line.through_eq_ok (ha.through hn)).1, Line.definitions_concat, ← ih hn]

theorem Reads.names_nodup (h : Reads ls d) : (d.vars.entries.map Prod.fst).Nodup := by
  induction h with
  | nil => exact List.nodup_nil
  | @snoc ls raw d d' h ha ih =>
      cases ha with
      | past => exact ih
      | read hs hl hv =>
          obtain ⟨he, hnew⟩ := Line.through_eq_ok ((Added.read hs hl hv).through hs)
          rw [he]
          cases hdef : Line.definition? d.vars raw with
          | none => simpa using ih
          | some entry =>
              have hname := Variables.get?_eq_none.mp (hnew entry hdef)
              simpa using ih.concat hname

theorem Reads.exists_stop (h : Reads ls d) {n : Nat} (hs : d.stoppedAt = some n) :
    ∃ before raw after d₀ dir, ls = before ++ raw :: after ∧ Reads before d₀ ∧
      d₀.stoppedAt = none ∧ n = before.length + 1 ∧ d.vars = d₀.vars ∧
      Line.read d₀.vars raw = .ok (.directive dir) ∧ dir.keyword = .stop := by
  induction h with
  | nil => cases hs
  | @snoc ls raw d d' h ha ih =>
      cases ha with
      | past =>
          obtain ⟨before, stop, after, d₀, dir, rfl, hrest⟩ := ih hs
          exact ⟨before, stop, after ++ [raw], d₀, dir, by simp, hrest⟩
      | @read l vars hn hl hv =>
          cases l with
          | silent | notes => cases hs
          | directive dir =>
              have hk : dir.keyword = .stop := by
                by_contra hk
                simp [next, Line.stops, hk] at hs
              have hvars : vars = d.vars := by simpa [Line.defining, hk] using hv.symm
              refine ⟨ls, raw, [], d, dir, rfl, h, hn, ?_, hvars, hl, hk⟩
              rw [← h.lines_eq hn]
              simpa [next, Line.stops, hk] using hs.symm

end Draft

namespace Script

variable {source raw name value : Text} {s before : Script} {j k : Nat}

/-- How many lines there are before the one that stops the script, or at all if none does. -/
def extent (source : Text) (s : Script) : Nat := s.stoppedAt.elim source.lines.length (· - 1)

theorem stoppedAt_eq_some (h : compile source = .ok s) : s.stoppedAt = some (k + 1) ↔
    ∃ before raw d, compile (source.firstLines k) = .ok before ∧ before.stoppedAt = none ∧
      source.lines[k]? = some raw ∧ Line.read before.vars raw = .ok (.directive d) ∧
      d.keyword = .stop := by
  obtain ⟨d, hd, rfl⟩ := ok_of_map h
  constructor
  · intro hs
    obtain ⟨before, raw, after, d₀, dir, hl, hd₀, hs₀, hn, -, hread, hk⟩ :=
      (Draft.reads_of_foldlM hd).exists_stop hs
    obtain rfl : k = before.length := Nat.succ.inj hn
    have htake : source.lines.take before.length = before := by rw [hl, List.take_left]
    exact ⟨.ofDraft d₀, raw, dir, compile_firstLines_of_lines (htake.symm ▸ hd₀.foldlM), hs₀,
      by simp [hl], hread, hk⟩
  · rintro ⟨before, raw, dir, hbefore, hs, hraw, hread, hk⟩
    obtain ⟨d₀, hd₀, rfl⟩ := compile_firstLines_eq_ok.mp hbefore
    have hlines := Draft.lines_at hd₀ hs hraw
    have hdef : (Line.directive dir).defining d₀.vars = .ok d₀.vars := by simp [Line.defining, hk]
    have hstop : (d₀.next (.directive dir) d₀.vars).stoppedAt = some (k + 1) := by
      simp [Draft.next, Line.stops, hk, hlines]
    rw [Draft.foldlM_at hd₀ hraw, (Draft.Added.read hs hread hdef).add] at hd
    change (source.lines.drop (k + 1)).foldlM Draft.add _ = .ok d at hd
    rw [Draft.foldlM_of_stopped (by rw [hstop]; rfl)] at hd
    cases hd
    exact hstop

theorem stoppedAt_pos (h : compile source = .ok s) (hk : s.stoppedAt = some k) : 0 < k := by
  obtain ⟨d, hd, rfl⟩ := reads_of_compile h
  obtain ⟨before, raw, after, d₀, dir, -, -, -, rfl, -⟩ := hd.exists_stop hk
  exact Nat.succ_pos _

theorem entries_eq (h : compile source = .ok s) :
    s.vars.entries = Line.definitions (source.lines.take (s.extent source)) := by
  obtain ⟨d, hd, rfl⟩ := reads_of_compile h
  cases hs : d.stoppedAt with
  | none =>
      have hall : (ofDraft d).extent source = source.lines.length := by simp [extent, ofDraft, hs]
      rw [hall, List.take_length]
      exact hd.entries_eq hs
  | some n =>
      obtain ⟨before, raw, after, d₀, dir, hl, hd₀, hs₀, rfl, hvars, -⟩ := hd.exists_stop hs
      have hall : (ofDraft d).extent source = before.length := by simp [extent, ofDraft, hs]
      rw [hall, hl, List.take_left, ← hd₀.entries_eq hs₀, ← hvars]
      rfl

theorem entries_eq_of_running (h : compile (source.firstLines k) = .ok before)
    (hs : before.stoppedAt = none) :
    before.vars.entries = Line.definitions (source.lines.take k) := by
  obtain ⟨d, hd, rfl⟩ := compile_firstLines_eq_ok.mp h
  exact (Draft.reads_of_foldlM hd).entries_eq hs

theorem running_of_lt_extent (h : compile source = .ok s) (hj : j < s.extent source) :
    ∃ before, compile (source.firstLines (j + 1)) = .ok before ∧ before.stoppedAt = none := by
  obtain ⟨d, hd, rfl⟩ := ok_of_map h
  rw [← List.take_append_drop (j + 1) source.lines, List.foldlM_append] at hd
  obtain ⟨d₁, hd₁, hrest⟩ := ok_of_bind hd
  refine ⟨.ofDraft d₁, compile_firstLines_of_lines hd₁, ?_⟩
  by_contra hne
  obtain ⟨n, hs⟩ := Option.ne_none_iff_exists'.mp hne
  change d₁.stoppedAt = some n at hs
  obtain ⟨before, raw, after, d₀, dir, hl, -, -, rfl, -⟩ :=
    (Draft.reads_of_foldlM hd₁).exists_stop hs
  rw [Draft.foldlM_of_stopped (by rw [hs]; rfl)] at hrest
  cases hrest
  have hend : (ofDraft d).extent source = before.length := by simp [extent, ofDraft, hs]
  have hlen := congrArg List.length hl
  simp only [List.length_take, List.length_append, List.length_cons] at hlen
  omega

theorem entries_of_le {s₁ s₂ : Script} (hjk : j ≤ k) (h₁ : compile (source.firstLines j) = .ok s₁)
    (h₂ : compile (source.firstLines k) = .ok s₂) : s₁.vars.entries <+: s₂.vars.entries := by
  obtain ⟨d₁, hd₁, rfl⟩ := compile_firstLines_eq_ok.mp h₁
  obtain ⟨d₂, hd₂, rfl⟩ := compile_firstLines_eq_ok.mp h₂
  have htake : (source.lines.take k).take j = source.lines.take j := by
    rw [List.take_take, Nat.min_eq_left hjk]
  rw [← List.take_append_drop j (source.lines.take k), htake, List.foldlM_append, hd₁] at hd₂
  exact (Draft.prefix_of_foldlM (d := d₁) hd₂).2

theorem names_nodup (h : compile source = .ok s) : (s.vars.entries.map Prod.fst).Nodup := by
  obtain ⟨d, hd, rfl⟩ := reads_of_compile h
  exact hd.names_nodup

theorem get?_below (h : compile source = .ok s) (hj : j < s.extent source)
    (hraw : source.lines[j]? = some raw)
    (hdef : Line.definition? ⟨Line.definitions (source.lines.take j)⟩ raw = some (name, value))
    (hk : j < k) (hbefore : compile (source.firstLines k) = .ok before) :
    before.vars.get? name = some value := by
  obtain ⟨s₁, h₁, hs⟩ := running_of_lt_extent h hj
  have hmem : (name, value) ∈ s₁.vars.entries := by
    rw [entries_eq_of_running h₁ hs, List.take_add_one, hraw, Option.toList_some,
      Line.definitions_concat, hdef]
    simp
  exact Variables.get?_of_mem (names_nodup hbefore) ((entries_of_le hk h₁ hbefore).subset hmem)

theorem error_at_iff {cause : CompileError.Cause} :
    (∃ e, compile source = .error e ∧ e.line = k + 1 ∧ e.cause = cause) ↔
    ∃ before raw, compile (source.firstLines k) = .ok before ∧ before.stoppedAt = none ∧
      source.lines[k]? = some raw ∧ ∃ col, Line.through before.vars raw = .error ⟨cause, col⟩ := by
  constructor
  · rintro ⟨⟨e, line⟩, h, rfl, rfl⟩
    obtain ⟨j, before, raw, hline, hbefore, hs, hraw, hthrough⟩ := compile_eq_error_iff.mp h
    obtain rfl : k = j := Nat.succ.inj hline
    exact ⟨before, raw, hbefore, hs, hraw, e.col, hthrough⟩
  · rintro ⟨before, raw, hbefore, hs, hraw, col, hthrough⟩
    exact ⟨LineError.atLine ⟨cause, col⟩ (k + 1),
      compile_eq_error_iff.mpr ⟨k, before, raw, rfl, hbefore, hs, hraw, hthrough⟩, rfl, rfl⟩

theorem duplicate_iff : (∃ e, compile source = .error e ∧ e.line = k + 1 ∧
      e.cause = .duplicateVariable name) ↔
    ∃ before raw value, compile (source.firstLines k) = .ok before ∧ before.stoppedAt = none ∧
      source.lines[k]? = some raw ∧ Line.definition? before.vars raw = some (name, value) ∧
      name ∈ (Line.definitions (source.lines.take k)).map Prod.fst := by
  rw [error_at_iff]
  constructor
  · rintro ⟨before, raw, hbefore, hs, hraw, hcol⟩
    obtain ⟨value, hdef, hname⟩ :=
      (Line.through_duplicate_iff (braceFree_of_compile hbefore)).mp hcol
    exact ⟨before, raw, value, hbefore, hs, hraw, hdef, entries_eq_of_running hbefore hs ▸ hname⟩
  · rintro ⟨before, raw, value, hbefore, hs, hraw, hdef, hname⟩
    refine ⟨before, raw, hbefore, hs, hraw, ?_⟩
    rw [← entries_eq_of_running hbefore hs] at hname
    exact (Line.through_duplicate_iff (braceFree_of_compile hbefore)).mpr ⟨value, hdef, hname⟩

theorem unknown_iff : (∃ e, compile source = .error e ∧ e.line = k + 1 ∧
      e.cause = .unknownVariable name) ↔
    ∃ before raw pre post t, compile (source.firstLines k) = .ok before ∧ before.stoppedAt = none ∧
      source.lines[k]? = some raw ∧ raw.head? ≠ some '#' ∧
      raw = pre ++ '\x7b' :: (name ++ '\x7d' :: post) ∧ BraceFree name ∧
      before.vars.expand pre = .ok t ∧
      name ∉ (Line.definitions (source.lines.take k)).map Prod.fst := by
  rw [error_at_iff]
  constructor
  · rintro ⟨before, raw, hbefore, hs, hraw, hcol⟩
    obtain ⟨pre, post, t, hc, hsplit, hn, hpre, hname⟩ :=
      (Line.through_unknown_iff (braceFree_of_compile hbefore)).mp hcol
    exact ⟨before, raw, pre, post, t, hbefore, hs, hraw, hc, hsplit, hn, hpre,
      entries_eq_of_running hbefore hs ▸ hname⟩
  · rintro ⟨before, raw, pre, post, t, hbefore, hs, hraw, hc, hsplit, hn, hpre, hname⟩
    refine ⟨before, raw, hbefore, hs, hraw, ?_⟩
    rw [← entries_eq_of_running hbefore hs] at hname
    exact (Line.through_unknown_iff (braceFree_of_compile hbefore)).mpr
      ⟨pre, post, t, hc, hsplit, hn, hpre, hname⟩

/-- What the lines of a script come to define, up to the one that stops it. -/
structure Defines (source : Text) : Prop where
  definition_iff (vs : Variables) (raw name value : Text) :
    Line.definition? vs raw = some (name, value) ↔
      ∃ word, Keyword.set.InEitherCase word ∧ ' ' ∉ name ∧
        vs.expand raw = .ok (',' :: (word ++ ' ' :: (name ++ ' ' :: value)))
  definitions_iff (ls : List Text) (entry : Text × Text) : entry ∈ Line.definitions ls ↔
    ∃ j raw, ls[j]? = some raw ∧
      Line.definition? ⟨Line.definitions (ls.take j)⟩ raw = some entry
  entries (s : Script) : compile source = .ok s →
    s.vars.entries = Line.definitions (source.lines.take (s.extent source))
  names (s : Script) : compile source = .ok s → (s.vars.entries.map Prod.fst).Nodup
  stop_pos (s : Script) : compile source = .ok s → ∀ n, s.stoppedAt = some n → 0 < n
  stop_iff (s : Script) : compile source = .ok s → ∀ k, s.stoppedAt = some (k + 1) ↔
    ∃ before raw d, compile (source.firstLines k) = .ok before ∧ before.stoppedAt = none ∧
      source.lines[k]? = some raw ∧ Line.read before.vars raw = .ok (.directive d) ∧
      d.keyword = .stop
  inForce (s : Script) : compile source = .ok s →
    ∀ (j k : Nat) (raw name value : Text) (before : Script), j < s.extent source →
      source.lines[j]? = some raw →
      Line.definition? ⟨Line.definitions (source.lines.take j)⟩ raw = some (name, value) →
      j < k → compile (source.firstLines k) = .ok before → before.vars.get? name = some value
  again_iff (k : Nat) (name : Text) :
    (∃ e, compile source = .error e ∧ e.line = k + 1 ∧ e.cause = .duplicateVariable name) ↔
    ∃ before raw value, compile (source.firstLines k) = .ok before ∧ before.stoppedAt = none ∧
      source.lines[k]? = some raw ∧ Line.definition? before.vars raw = some (name, value) ∧
      name ∈ (Line.definitions (source.lines.take k)).map Prod.fst
  unknown_iff (k : Nat) (name : Text) :
    (∃ e, compile source = .error e ∧ e.line = k + 1 ∧ e.cause = .unknownVariable name) ↔
    ∃ before raw pre post t, compile (source.firstLines k) = .ok before ∧
      before.stoppedAt = none ∧ source.lines[k]? = some raw ∧ raw.head? ≠ some '#' ∧
      raw = pre ++ '\x7b' :: (name ++ '\x7d' :: post) ∧ BraceFree name ∧
      before.vars.expand pre = .ok t ∧
      name ∉ (Line.definitions (source.lines.take k)).map Prod.fst

/-- The variables of a script are what the lines before the one that stops it define, in their order
and no name twice, and a value is in force for all lines below its definition. A line fails as a
second definition if a line before it defines the name. It fails for a name that is not known if the
first use in it that cannot be replaced is complete and no line before it defines the name. -/
theorem compile_definitions (source : Text) : Defines source where
  definition_iff _ _ _ _ := Line.definition?_eq_some
  definitions_iff _ _ := Line.mem_definitions
  entries _ h := entries_eq h
  names _ h := names_nodup h
  stop_pos _ h _ := stoppedAt_pos h
  stop_iff _ h _ := stoppedAt_eq_some h
  inForce _ h _ _ _ _ _ _ hj hraw hdef hk hbefore := get?_below h hj hraw hdef hk hbefore
  again_iff _ _ := duplicate_iff
  unknown_iff _ _ := unknown_iff

/-- A name that is put together from a value, with a definition of it below the end; a name that comes
to be a second one only when its use is replaced; and a definition that comes too late. -/
theorem compile_definitions_late :
    let source : Text := ",SET x a\n,SET \x7bx\x7db \x7bx\x7dc\n,STOP\n,SET ab d".toList
    let again : Text := ",SET x y\n,SET y x\n,sEt \x7by\x7d b".toList
    let late : Text := "# \x7bx\x7d\n\x7bx\x7d\n,SET x a".toList
    ∃ s before, compile source = .ok s ∧
      s.vars.entries = Line.definitions (source.lines.take 2) ∧
      s.vars.entries = [(['x'], ['a']), (['a', 'b'], ['a', 'c'])] ∧
      (s.vars.entries.map Prod.fst).Nodup ∧ compile (source.firstLines 3) = .ok before ∧
      before.vars.get? ['a', 'b'] = some ['a', 'c'] ∧
      (∃ e, compile again = .error e ∧ e.line = 3 ∧ e.cause = .duplicateVariable ['x']) ∧
      ∃ e, compile late = .error e ∧ e.line = 2 ∧ e.cause = .unknownVariable ['x'] := by
  intro source again late
  have h : compile source = .ok _ := rfl
  have hbefore : compile (source.firstLines 3) = .ok _ := rfl
  have hdefines := compile_definitions source
  have hagain := (compile_definitions again).again_iff
  have hlate := (compile_definitions late).unknown_iff
  refine ⟨_, _, h, hdefines.entries _ h, rfl, hdefines.names _ h, hbefore, ?_, ?_, ?_⟩
  · exact hdefines.inForce _ h 1 3 ",SET \x7bx\x7db \x7bx\x7dc".toList _ _ _ (by decide) rfl rfl (by decide) hbefore
  · exact (hagain 2 ['x']).mpr ⟨_, _, ['b'], rfl, rfl, rfl, rfl, by decide⟩
  · exact (hlate 1 ['x']).mpr ⟨_, _, [], [], [], rfl, rfl, rfl, by decide, rfl, by decide, rfl, by decide⟩

end Script

end ChordScript
