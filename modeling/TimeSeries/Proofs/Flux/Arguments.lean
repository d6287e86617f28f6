import TimeSeries.Proofs.Flux.Parameters
import TimeSeries.Proofs.Flux.Writing

/-!
# The arguments of a call

A call shows its effective properties: for each name, in the order in which the names were first
set, the value that was set last, if it has a text. Their texts stand between the parentheses with
commas between them. What is left out leaves no trace, wherever it stood: up to the first property
with a text nothing is written (`arguments_zero`), and behind it every other one brings its comma
along (`arguments_succ`).

A setting that is replaced later does not occur in the call at all, so it cannot fail either.
-/

namespace TimeSeries.Flux

open LineBuffer

variable (params : Parameters)

namespace Property

/-- The property has a text, if its parameter is bound. -/
def resolves : Property → Bool
  | .literal l => !l.isVacant
  | .parameter name => (params.get? name).any fun l => !l.isVacant
  | .duration _ => true
  | .expression raw => raw != ""

/-- The text that a call shows of a property. -/
def shownText? (p : Property) : Option String := (p.text? params).toOption.join

theorem text?_of_bound {p : Property} (h : ∀ n ∈ p.references, params.isUnbound n = false) :
    p.text? params = .ok (p.shownText? params) := by
  have hfault := p.fault?_references params
  have hnone : params.fault? p.references = none := by
    rw [Parameters.fault?, Option.map_eq_none_iff, List.find?_eq_none]
    simpa using h
  rw [hnone] at hfault
  rw [shownText?]
  cases htext : p.text? params with
  | ok t => rfl
  | error e =>
      rw [htext] at hfault
      cases hfault

theorem isSome_shownText? (p : Property) : (p.shownText? params).isSome = p.resolves params := by
  cases p with
  | literal l => exact l.isSome_text?
  | parameter name =>
      rw [shownText?, text?, resolves]
      cases params.get? name with
      | none => rfl
      | some l => exact l.isSome_text?
  | duration d => rfl
  | expression raw =>
      by_cases hraw : raw = "" <;> simp [shownText?, text?, resolves, hraw, Except.toOption]

/-- The text of a property is what it writes onto the empty text. -/
theorem write_of_shownText? {p : Property} {t : String} (h : p.shownText? params = some t) :
    p.write params {} = (⟨t⟩, .ok true) := by
  rw [write_eq]
  rw [shownText?] at h
  cases htext : p.text? params with
  | ok t' =>
      rw [htext] at h
      obtain rfl : t' = some t := h
      exact Prod.ext (congrArg LineBuffer.mk String.empty_append) rfl
  | error e =>
      rw [htext] at h
      cases h

end Property

namespace Operator

/-- The names and the texts of the properties that a call shows. -/
def shown (l : List (String × Property)) : List (String × String) :=
  l.filterMap fun e => (e.2.shownText? params).map (e.1, ·)

def argumentText (e : String × String) : String := e.1 ++ ": " ++ e.2

theorem shown_cons_none {e : String × Property} (h : e.2.shownText? params = none)
    (l : List (String × Property)) : shown params (e :: l) = shown params l := by
  rw [shown, List.filterMap_cons_none (by rw [h]; rfl)]
  rfl

theorem shown_cons_some {e : String × Property} {t : String}
    (h : e.2.shownText? params = some t) (l : List (String × Property)) :
    shown params (e :: l) = (e.1, t) :: shown params l := by
  rw [shown, List.filterMap_cons_some (by rw [h]; rfl)]
  rfl

section Bound

variable {l : List (String × Property)}
  (hl : ∀ e ∈ l, ∀ n ∈ e.2.references, params.isUnbound n = false)

include hl

/-- Behind a property, each of the next ones has a comma in front. -/
theorem arguments_succ (written : Nat) :
    arguments params (written + 1) l =
      Draft.ofText (String.join ((shown params l).map fun e => ", " ++ argumentText e) ++ ")") := by
  induction l generalizing written with
  | nil => rfl
  | cons e l ih =>
      have hrest := ih fun d hd => hl d (List.mem_cons_of_mem e hd)
      rw [arguments, Property.text?_of_bound params (hl e List.mem_cons_self)]
      cases htext : e.2.shownText? params with
      | none => rw [shown_cons_none params htext, ← hrest]
      | some t =>
          rw [shown_cons_some params htext, List.map_cons, String.join_cons,
            if_pos written.succ_pos]
          simp only [hrest, Draft.ofText_append_ofText, argumentText, String.append_assoc]

theorem arguments_zero :
    arguments params 0 l =
      Draft.ofText (", ".intercalate ((shown params l).map argumentText) ++ ")") := by
  induction l with
  | nil => rfl
  | cons e l ih =>
      have hl' : ∀ d ∈ l, ∀ n ∈ d.2.references, params.isUnbound n = false :=
        fun d hd => hl d (List.mem_cons_of_mem e hd)
      rw [arguments, Property.text?_of_bound params (hl e List.mem_cons_self)]
      cases htext : e.2.shownText? params with
      | none => rw [shown_cons_none params htext, ← ih hl']
      | some t =>
          rw [shown_cons_some params htext, List.map_cons, intercalate_cons_eq, List.map_map,
            if_neg (Nat.lt_irrefl 0)]
          simp only [arguments_succ params hl', Draft.ofText_append_ofText, argumentText,
            String.empty_append, String.append_assoc, Function.comp_def]

end Bound

theorem map_fst_shown (l : List (String × Property)) :
    (shown params l).map Prod.fst =
      (l.filter fun e => e.2.resolves params).map Prod.fst := by
  induction l with
  | nil => rfl
  | cons e l ih =>
      have hresolves := e.2.isSome_shownText? params
      cases htext : e.2.shownText? params with
      | none =>
          rw [htext] at hresolves
          rw [shown_cons_none params htext, List.filter_cons_of_neg (by simp [← hresolves]), ih]
      | some t =>
          rw [htext] at hresolves
          rw [shown_cons_some params htext, List.filter_cons_of_pos (by simp [← hresolves]),
            List.map_cons, List.map_cons, ih]

theorem name_ofProperties (name : String) (settings : List (String × Property)) :
    (ofProperties name settings).name = name := by
  induction settings using List.reverseRecOn with
  | nil => rfl
  | append_singleton settings e ih =>
      rw [ofProperties, List.foldl_append]
      exact ih

/-- The properties of an operator are found in its settings. -/
theorem ofProperties_eq (name : String) (settings : List (String × Property)) :
    ofProperties name settings =
      { name
        properties := (settings.map Prod.fst).eraseDups.filterMap fun k =>
          (lastSet? settings k).map fun p => (k, p) } := by
  have hlast : ∀ e ∈ (ofProperties name settings).properties,
      (lastSet? settings e.1).map (fun p => (e.1, p)) = some e := by
    intro e he
    rw [(mem_properties_ofProperties name settings e.1 e.2).1 he]
    rfl
  have hproperties := (List.filterMap_congr hlast).trans (List.filterMap_some ..)
  rw [← map_fst_ofProperties name, List.filterMap_map]
  calc ofProperties name settings
    _ = ⟨(ofProperties name settings).name, (ofProperties name settings).properties⟩ := rfl
    _ = ⟨name, (ofProperties name settings).properties⟩ := by rw [name_ofProperties]
    _ = _ := congrArg (Operator.mk name) hproperties.symm

/-- A setting that is replaced later does not matter. -/
theorem ofProperties_of_replaced (name : String) (front back : List (String × Property))
    {k : String} (hk : k ∈ back.map Prod.fst) (p p' : Property) :
    ofProperties name (front ++ (k, p) :: back) = ofProperties name (front ++ (k, p') :: back) := by
  have hlast (j : String) :
      lastSet? (front ++ (k, p) :: back) j = lastSet? (front ++ (k, p') :: back) j := by
    simp only [lastSet?, List.reverse_append, List.reverse_cons, List.append_assoc,
      List.find?_append, List.singleton_append, List.find?_cons]
    by_cases hj : k = j
    · -- the later setting is found first
      subst hj
      obtain ⟨e, he, hname⟩ := List.mem_map.1 hk
      have hfound : (back.reverse.find? fun e => e.1 = k).isSome = true :=
        List.find?_isSome.2 ⟨e, List.mem_reverse.2 he, by simpa using hname⟩
      obtain ⟨d, hd⟩ := Option.isSome_iff_exists.1 hfound
      rw [hd]
      rfl
    · simp [hj]
  rw [ofProperties_eq, ofProperties_eq]
  simp only [hlast, List.map_append, List.map_cons]

/-- With all parameters of the final settings bound, a call is written behind any text as its name
and its effective properties in parentheses: the names in the order in which they were first set, as
far as the value set last has a text, each with the text that this value has alone. A setting that
is replaced later has no influence, whatever its value. -/
theorem write_shows_effective_properties (name : String) (settings : List (String × Property))
    (b : LineBuffer) :
    ((∀ k p, lastSet? settings k = some p → ∀ n ∈ p.references, params.isUnbound n = false) →
      ∃ shown : List (String × String),
        (ofProperties name settings).write params b =
          (b.append
              (name ++ "(" ++ ", ".intercalate (shown.map fun e => e.1 ++ ": " ++ e.2) ++ ")"),
            .ok ()) ∧
        shown.map Prod.fst = (settings.map Prod.fst).eraseDups.filter
          (fun k => (lastSet? settings k).any (Property.resolves params)) ∧
        ∀ e ∈ shown, ∃ p, lastSet? settings e.1 = some p ∧
          p.write params {} = (⟨e.2⟩, .ok true)) ∧
    ∀ (front back : List (String × Property)) (k : String) (p p' : Property),
      k ∈ back.map Prod.fst →
        ofProperties name (front ++ (k, p) :: back) =
          ofProperties name (front ++ (k, p') :: back) := by
  refine ⟨fun hbound => ?_, fun front back k p p' hk =>
    ofProperties_of_replaced name front back hk p p'⟩
  have hlast : ∀ e ∈ (ofProperties name settings).properties,
      lastSet? settings e.1 = some e.2 :=
    fun e he => (mem_properties_ofProperties name settings e.1 e.2).1 he
  refine ⟨shown params (ofProperties name settings).properties, ?_, ?_, fun e he => ?_⟩
  · rw [write_eq, draft, name_ofProperties, arguments_zero params fun e he =>
      hbound e.1 e.2 (hlast e he), Draft.ofText_append_ofText, ← String.append_assoc]
    rfl
  · rw [map_fst_shown, ← map_fst_ofProperties name, List.filter_map]
    refine congrArg (List.map Prod.fst) (List.filter_congr fun e he => ?_)
    rw [Function.comp_apply, hlast e he]
    rfl
  · obtain ⟨d, hd, hshown⟩ := List.mem_filterMap.1 he
    obtain ⟨t, ht, rfl⟩ := Option.map_eq_some_iff.1 hshown
    exact ⟨d.2, hlast d hd, d.2.write_of_shownText? params ht⟩

/-- Settings of which a `null`, an empty list, an empty expression and an empty record are left out,
and of which one was replaced that refers to a parameter without a binding. -/
def replacedSettings : List (String × Property) :=
  [("a", .literal (.value .null)), ("b", .parameter "unbound"), ("c", .literal (.list [.null])),
    ("d", .expression ""), ("e", .duration ⟨-1, .hours⟩), ("b", .parameter "n"),
    ("f", .literal (.record KeyMap.empty))]

def boundSeven : Parameters := KeyMap.ofList [("n", .value (.long 7))]

theorem write_shows_effective_properties_of_replaced :
    (∀ k p, lastSet? replacedSettings k = some p →
      ∀ n ∈ p.references, boundSeven.isUnbound n = false) ∧
    (∃ shown : List (String × String),
      (ofProperties "x" replacedSettings).write boundSeven ⟨"q, "⟩ =
        ((LineBuffer.mk "q, ").append
            ("x" ++ "(" ++ ", ".intercalate (shown.map fun e => e.1 ++ ": " ++ e.2) ++ ")"),
          .ok ()) ∧
      shown.map Prod.fst = ["b", "e"] ∧
      ∀ e ∈ shown, ∃ p, lastSet? replacedSettings e.1 = some p ∧
        p.write boundSeven {} = (⟨e.2⟩, .ok true)) ∧
    "b" ∈ [("b", Property.parameter "n")].map Prod.fst ∧
    ofProperties "x" ([("c", .expression "1")] ++ ("b", .parameter "unbound") ::
        [("b", .parameter "n")]) =
      ofProperties "x" ([("c", .expression "1")] ++ ("b", .literal (.value .null)) ::
        [("b", .parameter "n")]) := by
  have hbound : ∀ k p, lastSet? replacedSettings k = some p →
      ∀ n ∈ p.references, boundSeven.isUnbound n = false := by
    have hall : ∀ e ∈ (ofProperties "x" replacedSettings).properties,
        ∀ n ∈ e.2.references, boundSeven.isUnbound n = false := by decide
    exact fun k p hp => hall (k, p) ((mem_properties_ofProperties "x" replacedSettings k p).2 hp)
  have hmem : "b" ∈ [("b", Property.parameter "n")].map Prod.fst := by decide
  obtain ⟨hwrite, hreplaced⟩ :=
    write_shows_effective_properties boundSeven "x" replacedSettings ⟨"q, "⟩
  exact ⟨hbound, hwrite hbound, hmem, hreplaced _ _ "b" _ _ hmem⟩

example : (ofProperties "x" replacedSettings).write boundSeven ⟨"q, "⟩ =
    (⟨"q, x(b: 7, e: -1h)"⟩, .ok ()) := by decide

end Operator

end TimeSeries.Flux
