import TimeSeries.Http.Complaint
import TimeSeries.Proofs.Text.Lines
import TimeSeries.Proofs.Text.Search

/-!
# Which lines a complaint rejects

A complaint about a write quotes lines of the request verbatim, each between an opening phrase and
an apostrophe with a colon, and gives a reason behind each of them. The quotes are looked for from
left to right, and each of them ends at the first mark of its end. So no quote has that mark inside:
a line with the mark is never found, and lines without it are found as they are.
-/

namespace TimeSeries.Http

open Text

theorem quotedLines_eq (message : List Char) :
    quotedLines message =
      match splitAt? quoteStart message with
      | none => []
      | some (_, rest) =>
        match splitAt? quoteEnd rest with
        | some (line, after) => line :: quotedLines after
        | none => ((splitLast? '\'' rest).map Prod.fst).toList := by
  rw [quotedLines]
  split
  · next hstart => simp only [hstart]
  · next hstart =>
      simp only [hstart]
      split
      · next hend => simp only [hend]
      · next hend =>
          simp only [hend]
          cases splitLast? '\'' _ <;> rfl

/-- No quote goes beyond a mark of its end. -/
theorem not_infix_of_mem_quotedLines {message line : List Char} (h : line ∈ quotedLines message) :
    ¬ quoteEnd <:+: line := by
  induction message using quotedLines.induct with
  | case1 message hstart =>
      rw [quotedLines_eq, hstart] at h
      cases h
  | case2 message front rest hstart hlength first after hend hless ih =>
      rw [quotedLines_eq, hstart] at h
      simp only [hend] at h
      rcases List.mem_cons.1 h with rfl | h
      · exact not_infix_of_splitAt? (by decide) hend
      · exact ih h
  | case3 message front rest hstart hlength hend last after hlast =>
      rw [quotedLines_eq, hstart] at h
      simp only [hend, hlast] at h
      have hrest : last <:+: rest := eq_of_splitLast? hlast ▸ (List.prefix_append _ _).isInfix
      rw [List.mem_singleton.1 h]
      exact fun hpart => splitAt?_eq_none_iff.1 hend (hpart.trans hrest)
  | case4 message front rest hstart hlength hend hlast =>
      rw [quotedLines_eq, hstart] at h
      simp only [hend, hlast] at h
      cases h

/-- A line without the mark of its end is quoted as it is, and the rest is read behind it. -/
theorem quotedLines_append {front line : List Char} (hfront : ¬ quoteStart <:+: front)
    (hline : ¬ quoteEnd <:+: line) (after : List Char) :
    quotedLines (front ++ (quoteStart ++ (line ++ (quoteEnd ++ after)))) =
      line :: quotedLines after := by
  have hstart : splitAt? quoteStart (front ++ (quoteStart ++ (line ++ (quoteEnd ++ after)))) =
      some (front, line ++ (quoteEnd ++ after)) := splitAt?_append (by decide) hfront _
  have hend : splitAt? quoteEnd (line ++ (quoteEnd ++ after)) = some (line, after) :=
    splitAt?_append (by decide) hline _
  rw [quotedLines_eq, hstart]
  simp only [hend]

/-- How a line that could not be read is quoted, with the reason behind it. -/
def quotation (line reason : String) : String :=
  "unable to parse '" ++ line ++ "': " ++ reason ++ ";"

/-- The complaint about lines with a reason for each. -/
def partialWrite (l : List (String × String)) : String :=
  "partial write: " ++ String.join (l.map fun e => quotation e.1 e.2)

theorem toList_quotation (line reason : String) :
    (quotation line reason).toList =
      quoteStart ++ (line.toList ++ (quoteEnd ++ (reason.toList ++ [';']))) := by
  unfold quotation quoteStart quoteEnd
  simp only [String.toList_append, List.append_assoc]
  rfl

/-- The phrase in front of a quote does not end with a semicolon, so a reason does not complete
one. -/
theorem not_infix_reason {reason : List Char} (h : ¬ quoteStart <:+: reason) :
    ¬ quoteStart <:+: reason ++ [';'] := by
  rw [List.infix_concat_iff, not_or]
  refine ⟨fun ⟨front, hsuffix⟩ => ?_, h⟩
  have hlast := congrArg List.getLast? hsuffix
  rw [List.getLast?_append, List.getLast?_concat] at hlast
  cases hlast

theorem quotedLines_quotations {l : List (String × String)}
    (hlines : ∀ e ∈ l, ¬ quoteEnd <:+: e.1.toList)
    (hreasons : ∀ e ∈ l, ¬ quoteStart <:+: e.2.toList) {front : List Char}
    (hfront : ¬ quoteStart <:+: front) :
    quotedLines (front ++ l.flatMap fun e => (quotation e.1 e.2).toList) =
      l.map fun e => e.1.toList := by
  induction l generalizing front with
  | nil =>
      rw [List.flatMap_nil, List.append_nil, quotedLines_eq, splitAt?_eq_none_iff.2 hfront]
      rfl
  | cons e l ih =>
      obtain ⟨hline, hmore⟩ := List.forall_mem_cons.1 hlines
      obtain ⟨hreason, hothers⟩ := List.forall_mem_cons.1 hreasons
      have hmessage : front ++ (e :: l).flatMap (fun e => (quotation e.1 e.2).toList) =
          front ++ (quoteStart ++ (e.1.toList ++ (quoteEnd ++ (e.2.toList ++ [';'] ++
            l.flatMap fun e => (quotation e.1 e.2).toList)))) := by
        simp [toList_quotation]
      rw [hmessage, quotedLines_append hfront hline, ih hmore hothers (not_infix_reason hreason),
        List.map_cons]

theorem mem_rejectedLines {message body : String} {i : Nat} :
    i ∈ rejectedLines message body ↔
      ∃ line, (lines body)[i]? = some line ∧ line.toList ∈ quotedLines message.toList := by
  rw [rejectedLines, List.mem_filterMap]
  constructor
  · rintro ⟨⟨line, k⟩, hline, hk⟩
    by_cases hquoted : (quotedLines message.toList).contains line.toList = true
    · cases (if_pos hquoted).symm.trans hk
      exact ⟨line, List.mem_zipIdx_iff_getElem?.1 hline, List.contains_iff_mem.1 hquoted⟩
    · cases (if_neg hquoted).symm.trans hk
  · rintro ⟨line, hline, hquoted⟩
    exact ⟨(line, i), List.mem_zipIdx_iff_getElem?.2 hline,
      if_pos (List.contains_iff_mem.2 hquoted)⟩

theorem pairwise_rejectedLines (message body : String) :
    (rejectedLines message body).Pairwise (· < ·) := by
  have hplaces : rejectedLines message body =
      ((lines body).zipIdx.filter fun e =>
        (quotedLines message.toList).contains e.1.toList).map Prod.snd := by
    rw [rejectedLines, ← List.filterMap_eq_map, List.filterMap_filter]
    refine List.filterMap_congr fun e _ => ?_
    split_ifs <;> rfl
  rw [hplaces]
  refine List.Pairwise.sublist (List.filter_sublist.map Prod.snd) ?_
  rw [List.zipIdx_map_snd]
  exact List.pairwise_lt_range'

theorem quotedLines_partialWrite {l : List (String × String)}
    (hlines : ∀ e ∈ l, ¬ quoteEnd <:+: e.1.toList)
    (hreasons : ∀ e ∈ l, ¬ quoteStart <:+: e.2.toList) :
    quotedLines (partialWrite l).toList = l.map fun e => e.1.toList := by
  have hjoin : (String.join (l.map fun e => quotation e.1 e.2)).toList =
      l.flatMap fun e => (quotation e.1 e.2).toList :=
    String.toList_join.trans (List.flatMap_map _ _ _)
  have htext : (partialWrite l).toList =
      "partial write: ".toList ++ l.flatMap fun e => (quotation e.1 e.2).toList :=
    String.toList_append.trans (congrArg _ hjoin)
  exact htext ▸ quotedLines_quotations hlines hreasons (by decide)

/-- A body of records is complained about. The rejected lines are the places of the records that are
quoted, in increasing order, exactly if none of these has the mark of the end of a quote inside. A
record with the mark is not rejected by any complaint. -/
theorem rejectedLines_partialWrite {records : List String}
    (hrecords : ∀ s ∈ records, EndsInLine s ∧ hasLineFeed s = false) {l : List (String × String)}
    (hquoted : ∀ e ∈ l, e.1 ∈ records) (hreasons : ∀ e ∈ l, ¬ quoteStart <:+: e.2.toList) :
    let body := "\n".intercalate records
    (∀ message, (rejectedLines message body).Pairwise (· < ·) ∧
      ∀ i ∈ rejectedLines message body, ∀ s, records[i]? = some s → ¬ quoteEnd <:+: s.toList) ∧
    ((∀ i, i ∈ rejectedLines (partialWrite l) body ↔
        ∃ s, records[i]? = some s ∧ s ∈ l.map Prod.fst) ↔
      ∀ e ∈ l, ¬ quoteEnd <:+: e.1.toList) := by
  intro body
  have hlines : lines body = records := lines_of_singleLines hrecords
  have hfree : ∀ message, ∀ i ∈ rejectedLines message body, ∀ s, records[i]? = some s →
      ¬ quoteEnd <:+: s.toList := by
    intro message i hi s hs
    obtain ⟨line, hline, hquote⟩ := mem_rejectedLines.1 hi
    rw [hlines, hs] at hline
    cases hline
    exact not_infix_of_mem_quotedLines hquote
  refine ⟨fun message => ⟨pairwise_rejectedLines message body, hfree message⟩, ?_, ?_⟩
  · intro h e he
    obtain ⟨i, hi⟩ := List.mem_iff_getElem?.1 (hquoted e he)
    exact hfree _ i ((h i).2 ⟨e.1, hi, List.mem_map_of_mem he⟩) e.1 hi
  · intro h i
    rw [mem_rejectedLines, hlines, quotedLines_partialWrite h hreasons]
    refine exists_congr fun s => and_congr_right fun _ => ?_
    rw [List.mem_map, List.mem_map]
    exact exists_congr fun e => and_congr_right fun _ => String.toList_inj

/-- The second and the fourth of four records could not be read. -/
theorem rejectedLines_partialWrite_of_two :
    let records := ["cpu value=1i", "cpu value=", "mem free=2i", "mem free=x"]
    let l := [("cpu value=", "missing fields"), ("mem free=x", "not a 'number'")]
    ∀ i, i ∈ rejectedLines (partialWrite l) ("\n".intercalate records) ↔ i = 1 ∨ i = 3 := by
  intro records l i
  have hrecords : ∀ s ∈ records, EndsInLine s ∧ hasLineFeed s = false := by
    simp [records, EndsInLine, hasLineFeed]
  have hquoted : ∀ e ∈ l, e.1 ∈ records := by decide
  have hreasons : ∀ e ∈ l, ¬ quoteStart <:+: e.2.toList := by decide
  have hlines : ∀ e ∈ l, ¬ quoteEnd <:+: e.1.toList := by decide
  rw [(rejectedLines_partialWrite hrecords hquoted hreasons).2.2 hlines]
  rcases i with _ | _ | _ | _ | i <;> simp [records, l]

/-- The second of two records is quoted in full, and it is not rejected. -/
theorem marked_record_is_not_rejected :
    lines "a f=1i\nm s=\"say 'hi': ok\"" = ["a f=1i", "m s=\"say 'hi': ok\""] ∧
      rejectedLines "partial write: unable to parse 'm s=\"say 'hi': ok\"': bad timestamp;"
        "a f=1i\nm s=\"say 'hi': ok\"" = [] := by
  have hlines : lines "a f=1i\nm s=\"say 'hi': ok\"" = ["a f=1i", "m s=\"say 'hi': ok\""] := by
    decide
  have hmessage :
      "partial write: unable to parse 'm s=\"say 'hi': ok\"': bad timestamp;".toList =
        "partial write: ".toList ++ (quoteStart ++ ("m s=\"say 'hi".toList ++ (quoteEnd ++
          "ok\"': bad timestamp;".toList))) := by
    decide
  have hquoted : quotedLines
      "partial write: unable to parse 'm s=\"say 'hi': ok\"': bad timestamp;".toList =
        ["m s=\"say 'hi".toList] := by
    have hafter : splitAt? quoteStart "ok\"': bad timestamp;".toList = none := by decide
    rw [hmessage, quotedLines_append (by decide) (by decide), quotedLines_eq, hafter]
  refine ⟨hlines, ?_⟩
  simp only [rejectedLines, hquoted, hlines]
  decide

end TimeSeries.Http
