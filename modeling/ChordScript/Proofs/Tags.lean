import Mathlib.Data.List.Induction
import ChordScript.Document

namespace ChordScript

namespace TagIndex

theorem lookup_filter (entries : List (Text × Nat)) (name other : Text) :
    (entries.filter (·.1 ≠ name)).lookup other =
      if other = name then none else entries.lookup other := by
  induction entries with
  | nil => simp
  | cons e entries ih =>
      obtain ⟨n, i⟩ := e
      by_cases hn : n = name
      · rw [List.filter_cons_of_neg (by simpa using hn), ih, List.lookup_cons, hn]
        by_cases ho : other = name <;> simp [ho, beq_false_of_ne]
      · rw [List.filter_cons_of_pos (by simpa using hn), List.lookup_cons, List.lookup_cons, ih]
        by_cases ho : other = n
        · simp [ho, hn]
        · simp [beq_false_of_ne ho]

theorem get?_insert (t : TagIndex) (name other : Text) (index : Nat) :
    (t.insert name index).get? other = if other = name then some index else t.get? other := by
  rw [get?, insert, List.lookup_cons, lookup_filter]
  by_cases h : other = name <;> simp [h, beq_false_of_ne, get?]

theorem ofPlaces_snoc (places : List TagPlace) (p : TagPlace) :
    ofPlaces (places ++ [p]) = (ofPlaces places).insert p.name p.index := by
  rw [ofPlaces, List.foldl_append]
  rfl

theorem get?_ofPlaces (places : List TagPlace) (name : Text) :
    (ofPlaces places).get? name = (places.reverse.find? (·.name = name)).map TagPlace.index := by
  induction places using List.reverseRecOn with
  | nil => rfl
  | append_singleton places p ih =>
      rw [ofPlaces_snoc, get?_insert, ih, List.reverse_append, List.reverse_singleton,
        List.singleton_append, List.find?_cons]
      by_cases h : name = p.name <;> simp [h, eq_comm]

end TagIndex

namespace TagPlace

variable {a : Action} {p : TagPlace} {i : Nat}

theorem ofAction?_eq_some : ofAction? a i = some p ↔
    (∃ args, a.step = .obey ⟨.tag, p.name :: args⟩) ∧ a.line = p.line ∧ i = p.index := by
  unfold ofAction?
  split
  · next name args hs =>
      rw [Option.some.injEq]
      constructor
      · rintro rfl
        exact ⟨⟨args, hs⟩, rfl, rfl⟩
      · rintro ⟨⟨args', hs'⟩, hl, hi⟩
        rw [hs] at hs'
        cases p
        cases hs'
        cases hl
        cases hi
        rfl
  · next hs =>
      refine iff_of_false nofun ?_
      rintro ⟨⟨args, hs'⟩, -⟩
      exact hs _ _ hs'

theorem mem_all {actions : List Action} :
    p ∈ all actions ↔ ∃ a, actions[p.index]? = some a ∧ ofAction? a p.index = some p := by
  rw [all, List.mem_filterMap]
  constructor
  · rintro ⟨⟨a, i⟩, hm, hp⟩
    obtain ⟨-, -, rfl⟩ := ofAction?_eq_some.mp hp
    exact ⟨a, List.mem_zipIdx_iff_getElem?.mp hm, hp⟩
  · rintro ⟨a, ha, hp⟩
    exact ⟨(a, p.index), List.mem_zipIdx_iff_getElem?.mpr ha, hp⟩

end TagPlace

theorem Document.action_of_tag {actions : Array Action} {name : Text} {i : Nat}
    (h : (ofActions actions).tags.get? name = some i) :
    ∃ a args, actions[i]? = some a ∧ a.step = .obey ⟨.tag, name :: args⟩ := by
  rw [ofActions, TagIndex.get?_ofPlaces, Option.map_eq_some_iff] at h
  obtain ⟨p, hp, rfl⟩ := h
  obtain rfl : p.name = name := by simpa using List.find?_some hp
  obtain ⟨a, ha, hat⟩ := TagPlace.mem_all.mp (List.mem_reverse.mp (List.mem_of_find?_eq_some hp))
  obtain ⟨⟨args, hs⟩, -⟩ := TagPlace.ofAction?_eq_some.mp hat
  rw [Array.getElem?_toList] at ha
  exact ⟨a, args, ha, hs⟩

end ChordScript
