import PenPlot.Proofs.Commands
import PenPlot.Proofs.Merging
import PenPlot.Proofs.Scanning

/-!
# Documents behind documents

A document with another behind it comes to what the two come to one after the other, each on its own:
the route through it is the route through the first and then that through the second, if the first comes
to its end. The tracker that the first leaves behind is not new, but routes do not know of it.
-/

namespace PenPlot

variable {α : Type} [Scalar α]

namespace Route

variable {sheet : Sheet α} {around : Surroundings α}

/-- The route depends on nothing but the elements that are taken. -/
theorem ofMarkup_congr {markup other : Markup} (h : markup.take? = other.take?) :
    ofMarkup sheet around markup = ofMarkup sheet around other := by
  cases htake : markup.take? with
  | error flaw => rw [ofMarkup_of_error htake, ofMarkup_of_error (h ▸ htake)]
  | ok taken =>
    cases taken with
    | none => rw [ofMarkup_of_none htake, ofMarkup_of_none (h ▸ htake)]
    | some found =>
      obtain ⟨element, rest⟩ := found
      have hother : other.take? = .ok (some (element, rest)) := h ▸ htake
      rw [ofMarkup_of_some htake sheet around, ofMarkup_of_some hother sheet around]

omit [Scalar α] in
theorem push_append (station : Station α) (first second : Route α) :
    (first.push station).append second = (first.append second).push station := by
  cases hstop : first.stop <;> simp [append, push, hstop]

omit [Scalar α] in
theorem append_assoc (first second third : Route α) :
    (first.append second).append third = first.append (second.append third) := by
  cases hfirst : first.stop with
  | some stop => simp [append, hfirst]
  | none =>
    cases hsecond : second.stop <;> simp [append, hfirst, hsecond]

omit [Scalar α] in
theorem stop_append {first : Route α} (h : first.stop = none) (second : Route α) :
    (first.append second).stop = second.stop := by
  simp only [append, h]

omit [Scalar α] in
theorem stop_append_eq_none {first second : Route α} :
    (first.append second).stop = none ↔ first.stop = none ∧ second.stop = none := by
  cases hstop : first.stop <;> simp [append, hstop]

/-- A route that comes to the end of markup continues through the markup behind. -/
theorem ofMarkup_append {first : Markup} (h : (ofMarkup sheet around first).stop = none)
    (second : Markup) :
    ofMarkup sheet around (first.append second) =
      (ofMarkup sheet around first).append (ofMarkup sheet around second) := by
  fun_induction ofMarkup sheet around first with
  | case1 around first flaw htake => cases h
  | case2 around first htake =>
    obtain ⟨text, rfl⟩ := Markup.eq_plain_of_take? htake
    have hlast : Markup.append ⟨[], .plain text⟩ second = second.ledBy text := rfl
    rw [hlast, ofMarkup_congr (Markup.take?_ledBy text second)]
    rfl
  | case3 around first element rest htake _ station fault hfault => cases h
  | case4 around first element rest htake _ station hok ih =>
    rw [ofMarkup_of_some (Markup.take?_append htake second) sheet around, push_append, ← ih h]
    simp only [station] at hok
    simp only [hok, station]
  | case5 around first element rest htake _ station inner hok ihinner ihrest =>
    have hrest := (stop_append_eq_none.1 h).2
    rw [ofMarkup_of_some (Markup.take?_append htake second) sheet around, push_append,
      append_assoc, ← ihrest hrest]
    simp only [station] at hok
    simp only [hok, station]

/-- A route comes to the end of a text only if the text does not break off inside a tag. -/
theorem ending_of_stop_eq_none {markup : Markup} (h : (ofMarkup sheet around markup).stop = none) :
    ∃ text, markup.ending = .plain text := by
  fun_induction ofMarkup sheet around markup with
  | case1 around markup flaw htake => cases h
  | case2 around markup htake =>
    obtain ⟨text, rfl⟩ := Markup.eq_plain_of_take? htake
    exact ⟨text, rfl⟩
  | case3 around markup element rest htake _ station fault hfault => cases h
  | case4 around markup element rest htake _ station hok ih =>
    rw [← Markup.ending_take? htake]
    exact ih h
  | case5 around markup element rest htake _ station inner hok ihinner ihrest =>
    rw [← Markup.ending_take? htake]
    exact ihrest (stop_append_eq_none.1 h).2

/-- The route through two documents, one behind the other. -/
theorem ofText_append {first : List Char} (h : (ofText sheet first).stop = none)
    (second : List Char) :
    ofText sheet (first ++ second) = (ofText sheet first).append (ofText sheet second) := by
  obtain ⟨text, hending⟩ := ending_of_stop_eq_none h
  rw [ofText, Markup.scan_append hending second]
  exact ofMarkup_append h (.scan second)

theorem commands_append {first : Route α} (h : first.stop = none) (flattener : Flattener)
    (second : Route α) :
    (first.append second).commands flattener =
      first.commands flattener ++ second.commands flattener := by
  rw [commands, shapes_append h, List.flatMap_append]
  rfl

/-- The tally of a route that continues another is the merge of the two tallies. -/
theorem tally_append {first : Route α} (h : first.stop = none) (flattener : Flattener)
    (second : Route α) :
    (first.append second).tally flattener =
      (first.tally flattener).merge (second.tally flattener) := by
  have hcounts : (first.append second).counts flattener =
      first.counts flattener + second.counts flattener := by
    rw [counts, shapes_append h, List.map_append, PenCounts.total_append]
    rfl
  have htaken : (first.append second).taken.foldl Station.count {} =
      (first.taken.foldl Station.count {}).merge (second.taken.foldl Station.count {}) := by
    rw [taken_append h, List.foldl_append, ← Station.foldl_count_merge, Tally.merge_empty]
  rw [tally, hcounts, htaken]
  rfl

end Route

/-- A pass over a document that it can come to the end of, with another document behind it, sends what
the two passes send one after the other. It comes to the end just if the second pass does, and then its
tally is the merge of the two tallies; otherwise it stops at the fault of the second. -/
theorem Pass.ofText_append_eq_merge {sheet : Sheet α} {first : List Char} {tally : Tally}
    (h : (ofText sheet first).result = .ok tally) (second : List Char) :
    (ofText sheet (first ++ second)).commands =
        (ofText sheet first).commands ++ (ofText sheet second).commands ∧
      (ofText sheet (first ++ second)).result =
        (ofText sheet second).result.map tally.merge := by
  rw [result_ofText] at h
  cases hstop : (Route.ofText sheet first).stop with
  | some stop =>
    rw [hstop] at h
    cases h
  | none =>
    rw [hstop] at h
    cases h
    have hroute := Route.ofText_append hstop second
    refine ⟨?_, ?_⟩
    · rw [commands_ofText, commands_ofText, commands_ofText, hroute, Route.commands_append hstop]
    · rw [result_ofText, result_ofText, hroute, Route.stop_append hstop, Route.tally_append hstop]
      cases (Route.ofText sheet second).stop <;> rfl

/-- The first document ends with a stroke out of the view box, and the second breaks off. -/
theorem Pass.ofText_append_eq_merge_broken :
    let sheet : Sheet Float := ⟨⟨10, 10⟩, ⟨2, false⟩⟩
    let first := "<svg viewBox='0 0 10 10'><line x1='1' y1='2' x2='3' y2='40'/></svg>".toList
    let second := "<svg viewBox='0 0 10 10'><line x1='1' y1='2' x2='3' y2='4'/></svg><g".toList
    let tally : Tally :=
      { containers := 1, shapes := 1, pen := ⟨1, 0, 1⟩, byElement := [("line", 1), ("svg", 1)] }
    (ofText sheet first).result = .ok tally ∧
      (ofText sheet (first ++ second)).commands =
        (ofText sheet first).commands ++ (ofText sheet second).commands ∧
      (ofText sheet (first ++ second)).result = (ofText sheet second).result.map tally.merge ∧
      (ofText sheet second).commands = [.move ⟨1, 2⟩, .draw ⟨3, 4⟩] ∧
      (ofText sheet second).result = .error (.markup (.missingTerminator "<g".toList)) := by
  refine ⟨?hresult, (ofText_append_eq_merge ?hresult _).1,
    (ofText_append_eq_merge ?hresult _).2, ?_, ?_⟩
  all_goals decide +kernel

end PenPlot
