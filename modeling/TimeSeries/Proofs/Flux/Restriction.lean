import TimeSeries.Proofs.Flux.Phrase

/-!
# Restrictions are read back

A restriction is printed with parentheses around a group of two or more and nowhere else. Read back,
its text is the `condition` of the restriction: groups of one element are that element, and empty
groups are truth values. So the text holds for the same rows as the restriction does.

The text of a restriction is one operand wherever an operand is awaited (`run_text`). It does not
matter how many `not`s stand in front of it and which level it belongs to, since a comparison is
complete before the next connective is seen and a group brings its own level with it.
-/

namespace TimeSeries.Flux

namespace Restriction

mutual

/-- What the text of a restriction says. -/
def condition : Restriction → Condition
  | .compare column op value => .compare column op (value.literal?.getD "null")
  | .present column => .present column
  | .not r => .not r.condition
  | .and l => Condition.conjunction (conditions l)
  | .or l => Condition.disjunction (conditions l)

def conditions : List Restriction → List Condition
  | [] => []
  | r :: l => r.condition :: conditions l

end

section Truth

variable {ρ : Type*} (i : Interpretation ρ) (row : ρ)

mutual

/-- The restriction holds for a row. Comparisons are made with the literals of values. -/
def holds : Restriction → Bool
  | .compare column op value => i.compares row column op (value.literal?.getD "null")
  | .present column => i.has row column
  | .not r => !r.holds
  | .and l => (truths l).all id
  | .or l => (truths l).any id

def truths : List Restriction → List Bool
  | [] => []
  | r :: l => r.holds :: truths l

end

mutual

theorem holds_condition (r : Restriction) : r.condition.holds i row = r.holds i row := by
  cases r with
  | compare column op value => rfl
  | present column => rfl
  | not r => rw [condition, Condition.holds, holds, holds_condition r]
  | and l => rw [condition, Condition.holds_conjunction, holds, truths_conditions l]
  | or l => rw [condition, Condition.holds_disjunction, holds, truths_conditions l]

theorem truths_conditions (l : List Restriction) :
    Condition.truths i row (conditions l) = truths i row l := by
  cases l with
  | nil => rfl
  | cons r l => rw [conditions, Condition.truths, truths, holds_condition r, truths_conditions l]

end

end Truth

end Restriction

namespace ReadState

variable {s t : ReadState}

@[simp] theorem run_nil (s : ReadState) : s.run [] = some s := by
  simp [run, tokens?]

theorem run_space (s : ReadState) (l : List Char) : s.run (' ' :: l) = s.run l := by
  rw [run, tokens?, if_pos rfl, run]

/-- A token is taken, and the rest of the text is read behind it. -/
theorem run_token {text rest : List Char} {token : Token} (htext : text ≠ [])
    (htoken : readToken (text ++ rest) = some (token, rest)) (hstep : s.step token = some t) :
    s.run (text ++ rest) = t.run rest := by
  obtain ⟨c, l, rfl⟩ := List.exists_cons_of_ne_nil htext
  have hspace : c ≠ ' ' := by
    rintro rfl
    cases htoken
  have hlength : rest.length < (c :: (l ++ rest)).length := by
    simp only [List.length_cons, List.length_append]
    omega
  rw [List.cons_append] at htoken ⊢
  rw [run, tokens?, if_neg hspace, htoken, Option.bind_some, dif_pos hlength, run]
  cases tokens? rest with
  | none => rfl
  | some tokens =>
      rw [Option.map_some, Option.bind_some, Option.bind_some, List.foldlM_cons, hstep]
      rfl

theorem run_word {w : String} {rest : List Char} (hw : isWordText w = true) (hne : w ≠ "")
    (hrest : Ends rest) (hstep : s.step (.phrase w) = some t) :
    s.run (w.toList ++ rest) = t.run rest :=
  run_token (mt String.toList_eq_nil_iff.1 hne) (readToken_word hw hne hrest) hstep

theorem run_column {name : String} {rest : List Char} (hstep : s.step (.column name) = some t) :
    s.run ((Restriction.columnText name).toList ++ rest) = t.run rest :=
  run_token (by simp [Restriction.columnText]) (readToken_column name rest) hstep

theorem run_sign {op : Comparison} {rest : List Char} (hstep : s.step (.sign op) = some t) :
    s.run (op.sign.toList ++ ' ' :: rest) = t.run rest := by
  have hsign : readToken (op.sign.toList ++ ' ' :: rest) = some (.sign op, ' ' :: rest) := by
    cases op <;> rfl
  rw [run_token (by cases op <;> decide) hsign hstep, run_space]

theorem run_literal {v : Value} {rest : List Char} (hrest : Ends rest)
    (hstep : s.step (.phrase (v.literal?.getD "null")) = some t) :
    s.run ((v.literal?.getD "null").toList ++ rest) = t.run rest := by
  refine run_token ?_ (readToken_literal v hrest) hstep
  intro hnil
  have htoken := readToken_literal v ends_nil
  rw [hnil] at htoken
  cases htoken

/-- What stands between two parentheses is one operand. -/
theorem run_parentheses (hs : s.awaited = .operand) {inner rest : List Char} {v : Level}
    (hinner : ∀ outer, run ⟨{}, outer, .operand⟩ (inner ++ ')' :: rest) =
      run ⟨v, outer, .connective⟩ (')' :: rest)) :
    s.run ('(' :: (inner ++ ')' :: rest)) = (s.take v.condition).run rest := by
  have hopening : s.step .opening = some ⟨{}, s.level :: s.outer, .operand⟩ := by
    simp [step, hs]
  calc s.run (['('] ++ (inner ++ ')' :: rest))
      = run ⟨{}, s.level :: s.outer, .operand⟩ (inner ++ ')' :: rest) :=
        run_token (List.cons_ne_nil _ _) rfl hopening
    _ = run ⟨v, s.level :: s.outer, .connective⟩ ([')'] ++ rest) := hinner _
    _ = (s.take v.condition).run rest := run_token (List.cons_ne_nil _ _) rfl rfl

/-- The text of a connective ends the operand in front of it and leads to the next one. -/
structure Joins (joiner : String) (connect : Level → Level) : Prop where
  ends : ∀ rest, Ends (joiner.toList ++ rest)
  run_eq : ∀ (s : ReadState) (rest : List Char), s.awaited = .connective →
    s.run (joiner.toList ++ rest) = run ⟨connect s.level, s.outer, .operand⟩ rest

theorem joins_and : Joins " and " id where
  ends rest := by simp [Ends]
  run_eq s rest hs := by
    have htext : " and ".toList ++ rest = ' ' :: ("and".toList ++ ' ' :: rest) := by simp
    have hand : s.step (.phrase "and") = some ⟨s.level, s.outer, .operand⟩ := by simp [step, hs]
    rw [htext, run_space, run_word (by decide) (by decide) (ends_space _) hand, run_space, id]

theorem joins_or : Joins " or " Level.next where
  ends rest := by simp [Ends]
  run_eq s rest hs := by
    have htext : " or ".toList ++ rest = ' ' :: ("or".toList ++ ' ' :: rest) := by simp
    have hor : s.step (.phrase "or") = some ⟨s.level.next, s.outer, .operand⟩ := by
      simp [step, hs]
    rw [htext, run_space, run_word (by decide) (by decide) (ends_space _) hor, run_space]

end ReadState

namespace Level

/-- A level with more operands, and a connective between each two of them. -/
def gather (connect : Level → Level) : Level → List Condition → Level
  | v, [] => v
  | v, [c] => v.add c
  | v, c :: d :: l => gather connect (connect (v.add c)) (d :: l)

variable {v : Level}

theorem condition_gather_id (hchoices : v.choices = []) (hnegations : v.negations = 0)
    {l : List Condition} (hl : l ≠ []) :
    (gather id v l).condition = Condition.conjunction (v.parts ++ l) := by
  induction l generalizing v with
  | nil => exact absurd rfl hl
  | cons c l ih =>
      have hadd : (v.add c).parts = v.parts ++ [c] := by rw [add, hnegations]; rfl
      cases l with
      | nil =>
          rw [gather, condition, hadd]
          simp [add, hchoices, Condition.disjunction]
      | cons d l =>
          rw [gather, id, ih (v := v.add c) hchoices rfl (List.cons_ne_nil _ _), hadd,
            List.append_assoc]
          rfl

theorem condition_gather_next (hparts : v.parts = []) (hnegations : v.negations = 0)
    {l : List Condition} (hl : l ≠ []) :
    (gather next v l).condition = Condition.disjunction (v.choices ++ l) := by
  induction l generalizing v with
  | nil => exact absurd rfl hl
  | cons c l ih =>
      have hadd : (v.add c).parts = [c] := by rw [add, hnegations, hparts]; rfl
      cases l with
      | nil =>
          rw [gather, condition, hadd]
          rfl
      | cons d l =>
          have hnext : ((v.add c).next).choices = v.choices ++ [c] := by
            rw [next, hadd]
            rfl
          rw [gather, ih (v := (v.add c).next) rfl rfl (List.cons_ne_nil _ _), hnext,
            List.append_assoc]
          rfl

end Level

namespace Restriction

/-- A group of two or more in parentheses is one operand. -/
theorem run_group {s : ReadState} (hs : s.awaited = .operand) {joiner identity : String} {v : Level}
    {r q : Restriction} {l : List Restriction} {rest : List Char}
    (hinner : ∀ (outer : List Level) (rest : List Char), Ends rest →
      ReadState.run ⟨{}, outer, .operand⟩
          ((joiner.intercalate (texts (r :: q :: l))).toList ++ rest) =
        ReadState.run ⟨v, outer, .connective⟩ rest) :
    s.run ((group joiner identity (texts (r :: q :: l))).toList ++ rest) =
      (s.take v.condition).run rest := by
  have htext : (group joiner identity (texts (r :: q :: l))).toList ++ rest =
      '(' :: ((joiner.intercalate (texts (r :: q :: l))).toList ++ ')' :: rest) := by
    simp [texts, group]
  rw [htext, ReadState.run_parentheses hs fun outer => hinner outer _ (ends_closing rest)]

mutual

/-- The text of a restriction is one operand. -/
theorem run_text (r : Restriction) {s : ReadState} (hs : s.awaited = .operand) {rest : List Char}
    (hrest : Ends rest) : s.run (r.text.toList ++ rest) = (s.take r.condition).run rest := by
  cases r with
  | compare column op value =>
      have htext : (Restriction.compare column op value).text.toList ++ rest =
          (columnText column).toList ++
            ' ' :: (op.sign.toList ++ ' ' :: ((value.literal?.getD "null").toList ++ rest)) := by
        simp [text]
      have hcolumn : s.step (.column column) = some { s with awaited := .sign column } := by
        simp [ReadState.step, hs]
      rw [htext, ReadState.run_column hcolumn, ReadState.run_space, ReadState.run_sign rfl,
        ReadState.run_literal hrest rfl]
      rfl
  | present column =>
      have htext : (Restriction.present column).text.toList ++ rest =
          "exists".toList ++ ' ' :: ((columnText column).toList ++ rest) := by
        simp [text]
      have hexists : s.step (.phrase "exists") = some { s with awaited := .column } := by
        simp [ReadState.step, hs]
      rw [htext, ReadState.run_word (by decide) (by decide) (ends_space _) hexists,
        ReadState.run_space, ReadState.run_column rfl]
      rfl
  | not r =>
      have htext : (Restriction.not r).text.toList ++ rest =
          "not".toList ++ ' ' :: (r.text.toList ++ rest) := by
        simp [text]
      have hnot : s.step (.phrase "not") = some { s with level := s.level.negate } := by
        simp [ReadState.step, hs]
      rw [htext, ReadState.run_word (by decide) (by decide) (ends_space _) hnot,
        ReadState.run_space, run_text r (s := { s with level := s.level.negate }) hs hrest]
      rfl
  | and l =>
      cases l with
      | nil =>
          have htrue : s.step (.phrase "true") = some (s.take (.truth true)) := by
            simp [ReadState.step, hs]
          exact ReadState.run_word (by decide) (by decide) hrest htrue
      | cons r l =>
          cases l with
          | nil => exact run_text r hs hrest
          | cons q l =>
              have hlevel := Level.condition_gather_id (v := {}) rfl rfl
                (l := conditions (r :: q :: l)) (by simp [conditions])
              rw [text, run_group hs (fun outer rest hrest => run_texts (r :: q :: l)
                ReadState.joins_and (List.cons_ne_nil _ _) {} outer hrest), hlevel]
              rfl
  | or l =>
      cases l with
      | nil =>
          have hfalse : s.step (.phrase "false") = some (s.take (.truth false)) := by
            simp [ReadState.step, hs]
          exact ReadState.run_word (by decide) (by decide) hrest hfalse
      | cons r l =>
          cases l with
          | nil => exact run_text r hs hrest
          | cons q l =>
              have hlevel := Level.condition_gather_next (v := {}) rfl rfl
                (l := conditions (r :: q :: l)) (by simp [conditions])
              rw [text, run_group hs (fun outer rest hrest => run_texts (r :: q :: l)
                ReadState.joins_or (List.cons_ne_nil _ _) {} outer hrest), hlevel]
              rfl

/-- The texts of restrictions with a connective between each two of them are as many operands of one
level. -/
theorem run_texts (l : List Restriction) {connect : Level → Level} {joiner : String}
    (hjoiner : ReadState.Joins joiner connect) (hl : l ≠ []) (v : Level) (outer : List Level)
    {rest : List Char} (hrest : Ends rest) :
    ReadState.run ⟨v, outer, .operand⟩ ((joiner.intercalate (texts l)).toList ++ rest) =
      ReadState.run ⟨Level.gather connect v (conditions l), outer, .connective⟩ rest := by
  cases l with
  | nil => exact absurd rfl hl
  | cons r l =>
      cases l with
      | nil =>
          rw [texts, texts, String.intercalate_singleton, run_text r rfl hrest]
          rfl
      | cons q l =>
          have htext : (joiner.intercalate (texts (r :: q :: l))).toList ++ rest =
              r.text.toList ++ (joiner.toList ++
                ((joiner.intercalate (texts (q :: l))).toList ++ rest)) := by
            rw [texts, String.intercalate_cons_of_ne_nil (by simp [texts])]
            simp
          rw [htext, run_text r rfl (hjoiner.ends _), hjoiner.run_eq _ _ rfl,
            run_texts (q :: l) hjoiner (List.cons_ne_nil _ _) _ _ hrest]
          rfl

end

/-- The text of a restriction is read as its condition, to the last character, and it holds for the
same rows as the restriction. -/
theorem read_text (r : Restriction) :
    Condition.read r.text = some r.condition ∧
      ∀ {ρ : Type*} (i : Interpretation ρ) (row : ρ),
        (Condition.read r.text).map (·.holds i row) = some (r.holds i row) := by
  have hread : Condition.read r.text = some r.condition := by
    have htext := run_text r (s := {}) rfl ends_nil
    rw [List.append_nil, ReadState.run_nil] at htext
    rw [Condition.read, htext, Option.bind_some]
    rfl
  refine ⟨hread, fun i row => ?_⟩
  rw [hread, Option.map_some, holds_condition]

end Restriction

end TimeSeries.Flux
