import Mathlib.Data.List.Dedup
import Mathlib.Data.List.Induction
import TimeSeries.Flux.Operator

/-!
# The properties of an operator

An operator is given by settings from left to right. Its properties have the names of the settings,
each name once and in the order of the first setting under it, and under each name the value of the
last one.
-/

namespace TimeSeries.Flux.Operator

variable {name : String} {value : Property} {l : List (String × Property)}

theorem map_fst_setProperty (name : String) (value : Property) (l : List (String × Property)) :
    (setProperty name value l).map Prod.fst =
      if name ∈ l.map Prod.fst then l.map Prod.fst else l.map Prod.fst ++ [name] := by
  induction l with
  | nil => rfl
  | cons e l ih =>
      rw [setProperty]
      by_cases he : e.1 = name
      · simp [he]
      · rw [if_neg he, List.map_cons, ih, List.map_cons]
        have hmem : name ∈ e.1 :: l.map Prod.fst ↔ name ∈ l.map Prod.fst := by
          rw [List.mem_cons, or_iff_right (Ne.symm he)]
        simp only [hmem]
        split_ifs <;> rfl

theorem nodup_setProperty (h : (l.map Prod.fst).Nodup) :
    ((setProperty name value l).map Prod.fst).Nodup := by
  rw [map_fst_setProperty]
  split_ifs with hmem
  · exact h
  · exact h.append (List.nodup_singleton name) (by simpa using hmem)

theorem mem_setProperty (h : (l.map Prod.fst).Nodup) {e : String × Property} :
    e ∈ setProperty name value l ↔ e = (name, value) ∨ e ∈ l ∧ e.1 ≠ name := by
  induction l with
  | nil => simp [setProperty]
  | cons d l ih =>
      obtain ⟨hd, hl⟩ := List.nodup_cons.1 (List.map_cons ▸ h)
      rw [setProperty]
      by_cases hname : d.1 = name
      · -- No later entry has the name, so what stands behind the new one is kept.
        have hlater : e ∈ l → e.1 ≠ name := fun he heq =>
          hd (hname.trans heq.symm ▸ List.mem_map_of_mem he)
        rw [if_pos hname, List.mem_cons, List.mem_cons]
        refine or_congr_right ⟨fun he => ⟨.inr he, hlater he⟩, fun he => ?_⟩
        rcases he with ⟨rfl | he, hne⟩
        · exact absurd hname hne
        · exact he
      · rw [if_neg hname, List.mem_cons, ih hl, List.mem_cons]
        constructor
        · rintro (rfl | rfl | ⟨he, hne⟩)
          · exact .inr ⟨.inl rfl, hname⟩
          · exact .inl rfl
          · exact .inr ⟨.inr he, hne⟩
        · rintro (rfl | ⟨rfl | he, hne⟩)
          · exact .inr (.inl rfl)
          · exact .inl rfl
          · exact .inr (.inr ⟨he, hne⟩)

theorem properties_ofProperties_concat (name : String) (l : List (String × Property))
    (e : String × Property) :
    (ofProperties name (l ++ [e])).properties =
      setProperty e.1 e.2 (ofProperties name l).properties := by
  rw [ofProperties, List.foldl_append]
  rfl

/-- The names of the properties in the order in which they were first set. -/
theorem map_fst_ofProperties (name : String) (l : List (String × Property)) :
    (ofProperties name l).properties.map Prod.fst = (l.map Prod.fst).eraseDups := by
  induction l using List.reverseRecOn with
  | nil => rfl
  | append_singleton l e ih =>
      rw [properties_ofProperties_concat, map_fst_setProperty, ih, List.map_append,
        List.eraseDups_append]
      by_cases he : e.1 ∈ l.map Prod.fst
      · simp [he, List.removeAll]
      · simp [he, List.removeAll, List.eraseDups_cons]

theorem nodup_ofProperties (name : String) (l : List (String × Property)) :
    ((ofProperties name l).properties.map Prod.fst).Nodup := by
  induction l using List.reverseRecOn with
  | nil => exact List.nodup_nil
  | append_singleton l e ih =>
      rw [properties_ofProperties_concat]
      exact nodup_setProperty ih

/-- The last value that is set under a name. -/
def lastSet? (l : List (String × Property)) (name : String) : Option Property :=
  (l.reverse.find? fun e => e.1 = name).map Prod.snd

theorem lastSet?_concat (l : List (String × Property)) (e : String × Property) (name : String) :
    lastSet? (l ++ [e]) name = if e.1 = name then some e.2 else lastSet? l name := by
  rw [lastSet?, List.reverse_concat, List.find?_cons]
  by_cases he : e.1 = name <;> simp [he, lastSet?]

theorem mem_properties_ofProperties (name : String) (l : List (String × Property)) (k : String)
    (p : Property) : (k, p) ∈ (ofProperties name l).properties ↔ lastSet? l k = some p := by
  induction l using List.reverseRecOn with
  | nil => simp [ofProperties, lastSet?]
  | append_singleton l e ih =>
      rw [properties_ofProperties_concat, mem_setProperty (nodup_ofProperties name l), ih,
        lastSet?_concat, Prod.mk.injEq]
      by_cases he : e.1 = k
      · simp [he, eq_comm]
      · simp [he, Ne.symm he]

end TimeSeries.Flux.Operator
