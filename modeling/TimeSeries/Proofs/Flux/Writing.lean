import TimeSeries.Flux.Writing
import TimeSeries.Proofs.Point.LineBuffer

/-!
# What is written onto a text

Writing a literal, a property or a call onto a text appends what its draft says, whatever stood
there before. A literal writes nothing exactly when it is vacant: `null`, or a list or a record in
which nothing else than `null` is left.
-/

namespace TimeSeries

open LineBuffer

theorem Value.isSome_literal? (v : Value) : v.literal?.isSome = !v.isNull := by cases v <;> rfl

theorem Value.write_eq (b : LineBuffer) (v : Value) :
    v.write b = (b.append (v.literal?.getD ""), v.literal?.isSome) := by
  rw [write]
  cases v.literal? with
  | none => rw [Option.getD_none, append_empty]; rfl
  | some t => rfl

namespace Flux

namespace Literal

/-- There is nothing to write. -/
def isVacant : Literal → Bool
  | .value v => v.isNull
  | .list l => l.all Value.isNull
  | .record r => r.toList.all fun e => e.2.isNull

section Parts

variable {α : Type} {write : LineBuffer → α → LineBuffer} {text : α → String}
  (hwrite : ∀ b a, write b a = b.append (text a)) (b : LineBuffer)

include hwrite

theorem writeParts_succ (n : Nat) (parts : List α) :
    writeParts write (n + 1) b parts =
      b.append (String.join (parts.map fun a => ", " ++ text a)) := by
  induction parts generalizing b n with
  | nil => exact (append_empty b).symm
  | cons a parts ih =>
      rw [writeParts, if_pos n.succ_pos, hwrite, ih, append_append, append_append, List.map_cons,
        String.join_cons, String.append_assoc]

theorem writeParts_zero (parts : List α) :
    writeParts write 0 b parts = b.append (", ".intercalate (parts.map text)) := by
  cases parts with
  | nil => rw [List.map_nil, String.intercalate_nil, append_empty]; rfl
  | cons a parts =>
      rw [writeParts, if_neg (Nat.lt_irrefl 0), hwrite, writeParts_succ hwrite, append_append,
        List.map_cons, intercalate_cons_eq, List.map_map]
      rfl

theorem writeBracketed_eq (left right : String) (parts : List α) :
    writeBracketed left right write b parts =
      (b.append ((bracketed left right (parts.map text)).getD ""),
        (bracketed left right (parts.map text)).isSome) := by
  cases parts with
  | nil => exact congrArg (·, false) (append_empty b).symm
  | cons a parts =>
      rw [writeBracketed, if_neg (by simp), writeParts_zero hwrite, append_append, append_append]
      simp [bracketed, String.append_assoc]

end Parts

/-- What is left behind a filter has a text each. -/
theorem filterMap_eq_map_filter {α : Type} {text? : α → Option String} {keep : α → Bool}
    (h : ∀ a, (text? a).isSome = keep a) (l : List α) :
    l.filterMap text? = (l.filter keep).map fun a => (text? a).getD "" := by
  induction l with
  | nil => rfl
  | cons a l ih =>
      have ha := h a
      cases htext : text? a with
      | none =>
          rw [htext] at ha
          rw [List.filterMap_cons_none htext, List.filter_cons_of_neg (by simp [← ha]), ih]
      | some t =>
          rw [htext] at ha
          rw [List.filterMap_cons_some htext, List.filter_cons_of_pos ha.symm, List.map_cons, htext,
            ih]
          rfl

theorem isSome_entryText? (e : String × Value) : (entryText? e).isSome = !e.2.isNull := by
  rw [entryText?, Option.isSome_map, Value.isSome_literal?]

theorem write_eq (b : LineBuffer) (l : Literal) :
    l.write b = (b.append (l.text?.getD ""), l.text?.isSome) := by
  cases l with
  | value v => exact v.write_eq b
  | list l =>
      have hpart (b : LineBuffer) (v : Value) : (v.write b).1 = b.append (v.literal?.getD "") := by
        rw [Value.write_eq]
      rw [write, text?, filterMap_eq_map_filter Value.isSome_literal?, writeBracketed_eq hpart]
  | record r =>
      have hpart (b : LineBuffer) (e : String × Value) :
          (e.2.write ((b.append (Text.quote e.1)).append ": ")).1 =
            b.append (Text.quote e.1 ++ ": " ++ e.2.literal?.getD "") := by
        rw [Value.write_eq, append_append, append_append, String.append_assoc]
      have hentries : (r.toList.filter fun e => !e.2.isNull).map (fun e => (entryText? e).getD "") =
          (r.toList.filter fun e => !e.2.isNull).map
            fun e => Text.quote e.1 ++ ": " ++ e.2.literal?.getD "" := by
        refine List.map_congr_left fun e he => ?_
        have hsome : e.2.literal?.isSome = true := by
          rw [Value.isSome_literal?]
          exact (List.mem_filter.1 he).2
        obtain ⟨t, ht⟩ := Option.isSome_iff_exists.1 hsome
        rw [entryText?, ht]
        rfl
      rw [write, text?, filterMap_eq_map_filter isSome_entryText?, hentries,
        writeBracketed_eq hpart]

theorem isSome_bracketed (left right : String) (parts : List String) :
    (bracketed left right parts).isSome = !parts.isEmpty := by cases parts <;> rfl

theorem isSome_text? (l : Literal) : l.text?.isSome = !l.isVacant := by
  have hempty {α : Type} (p : α → Bool) (l : List α) :
      (l.filter fun a => !p a).isEmpty = l.all p := by
    rw [Bool.eq_iff_iff, List.isEmpty_iff, List.filter_eq_nil_iff, List.all_eq_true]
    simp
  cases l with
  | value v => exact v.isSome_literal?
  | list l =>
      rw [text?, isSome_bracketed, filterMap_eq_map_filter Value.isSome_literal?, List.isEmpty_map,
        hempty, isVacant]
  | record r =>
      rw [text?, isSome_bracketed, filterMap_eq_map_filter isSome_entryText?, List.isEmpty_map,
        hempty fun e : String × Value => e.2.isNull, isVacant]

end Literal

theorem Property.write_eq (params : Parameters) (b : LineBuffer) (p : Property) :
    p.write params b =
      match p.text? params with
      | .ok t => (b.append (t.getD ""), .ok t.isSome)
      | .error e => (b, .error e) := by
  cases p with
  | literal l => rw [write, text?, Literal.write_eq]
  | parameter name =>
      rw [write, text?]
      cases params.get? name with
      | none => rfl
      | some l => simp only [Literal.write_eq]
  | duration d =>
      rw [write, text?, append_append]
      rfl
  | expression raw =>
      rw [write, text?]
      by_cases hraw : raw = ""
      · simp [hraw, append_empty]
      · simp [hraw]

namespace Draft

/-- How the writing of a draft ended. -/
def outcome (d : Draft) : Except Error Unit :=
  match d.failure with
  | some e => .error e
  | none => .ok ()

theorem ofText_append_ofText (s t : String) : ofText s ++ ofText t = ofText (s ++ t) := rfl

theorem text_ofText_append (s : String) (d : Draft) : (ofText s ++ d).text = s ++ d.text := rfl

theorem outcome_ofText_append (s : String) (d : Draft) : (ofText s ++ d).outcome = d.outcome := rfl

end Draft

namespace Operator

variable (params : Parameters)

theorem writeArguments_eq (written : Nat) (b : LineBuffer) (l : List (String × Property)) :
    writeArguments params written b l =
      (b.append (arguments params written l).text, (arguments params written l).outcome) := by
  induction l generalizing written b with
  | nil => rfl
  | cons e l ih =>
      obtain ⟨name, value⟩ := e
      have hlabel : ((if 0 < written then b.append ", " else b).append name).append ": " =
          b.append ((if 0 < written then ", " else "") ++ name ++ ": ") := by
        split <;> simp [append_append, String.append_assoc]
      rw [writeArguments, arguments, hlabel]
      simp only [Property.write_eq]
      cases value.text? params with
      | error e =>
          simp only [Draft.text_ofText_append, Draft.outcome_ofText_append]
          exact Prod.ext (congrArg b.append String.append_empty.symm) rfl
      | ok t =>
          cases t with
          | none =>
              -- the name is taken back, and the next property is the first one if this one was
              simp only [Option.getD_none, append_empty, Option.isSome_none, truncate_append]
              exact ih written b
          | some t =>
              simp only [Option.getD_some, append_append, Option.isSome_some,
                Draft.text_ofText_append, Draft.outcome_ofText_append, ih]

theorem write_eq (b : LineBuffer) (o : Operator) :
    o.write params b = (b.append (o.draft params).text, (o.draft params).outcome) := by
  rw [write, writeArguments_eq, draft, append_append, append_append, Draft.text_ofText_append,
    Draft.outcome_ofText_append, String.append_assoc]

end Operator

end Flux

end TimeSeries
