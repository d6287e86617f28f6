import Mathlib.Data.List.Induction
import TimeSeries.KeyMap

/-!
# What a map holds

A map made of a list of entries holds the last entry of every key, and it has no other entries than
those that are found by their keys.
-/

namespace TimeSeries.KeyMap

variable {α : Type}

theorem insertList_append (m : KeyMap α) (l l' : List (String × α)) :
    m.insertList (l ++ l') = (m.insertList l).insertList l' := List.foldl_append

theorem ofList_concat (l : List (String × α)) (e : String × α) :
    ofList (l ++ [e]) = (ofList l).insert e.1 e.2 := by
  rw [ofList, insertList, List.foldl_append]
  rfl

/-- The last entry of a key is found. -/
theorem get?_ofList (l : List (String × α)) (k : String) :
    (ofList l).get? k = (l.reverse.find? fun e => e.1 = k).map Prod.snd := by
  induction l using List.reverseRecOn with
  | nil => rfl
  | append_singleton l e ih =>
      rw [ofList_concat, List.reverse_append]
      by_cases hkey : e.1 = k
      · subst hkey
        rw [get?_insert_self]
        simp
      · rw [get?_insert_of_ne _ (Ne.symm hkey), ih]
        simp [hkey]

/-- Whether entries are kept or not may depend on their keys. -/
theorem get?_ofList_filter (keep : String → Bool) (l : List (String × α)) (k : String) :
    (ofList (l.filter fun e => keep e.1)).get? k = if keep k then (ofList l).get? k else none := by
  have hkeep : ∀ e : String × α, (keep e.1 = true ∧ decide (e.1 = k) = true) ↔
      keep k = true ∧ e.1 = k := by
    intro e
    by_cases hkey : e.1 = k <;> simp [hkey]
  rw [get?_ofList, get?_ofList, ← List.filter_reverse, List.find?_filter]
  simp only [hkeep]
  cases keep k with
  | true => simp
  | false => simp

theorem get?_eq_none_of_not_mem_keys {m : KeyMap α} {k : String} (h : k ∉ m.keys) :
    m.get? k = none := by
  obtain ⟨entries, ordered⟩ := m
  replace h : k ∉ entries.map Prod.fst := h
  change lookup k entries = none
  clear ordered
  induction entries with
  | nil => rfl
  | cons e entries ih =>
      rw [List.map_cons, List.mem_cons, not_or] at h
      rw [lookup, if_neg h.1]
      exact ih h.2

theorem lookup_eq_some_iff {l : List (String × α)} (h : l.Pairwise fun a b => a.1 < b.1)
    {k : String} {v : α} : lookup k l = some v ↔ (k, v) ∈ l := by
  induction l with
  | nil => exact iff_of_false (fun hnone => by cases hnone) List.not_mem_nil
  | cons e l ih =>
      obtain ⟨hhead, hrest⟩ := List.pairwise_cons.1 h
      rw [lookup, List.mem_cons, Prod.ext_iff]
      by_cases hkey : k = e.1
      · -- the keys behind the first one are larger, so no later entry has its key
        have hlater : (k, v) ∉ l := by
          intro hmem
          have hlt := hhead _ hmem
          rw [hkey] at hlt
          exact String.lt_irrefl _ hlt
        rw [if_pos hkey, Option.some_inj, or_iff_left hlater]
        exact ⟨fun hv => ⟨hkey, hv.symm⟩, fun hentry => hentry.2.symm⟩
      · rw [if_neg hkey, ih hrest, or_iff_right fun hentry => hkey hentry.1]

theorem get?_eq_some_iff {m : KeyMap α} {k : String} {v : α} :
    m.get? k = some v ↔ (k, v) ∈ m.toList := lookup_eq_some_iff m.ordered

end TimeSeries.KeyMap
