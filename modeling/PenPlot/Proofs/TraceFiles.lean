import PenPlot.Proofs.JsonTexts
import PenPlot.Proofs.Magnitudes
import PenPlot.Scalar.Machine

/-!
# What a trace file holds

Whatever a trace is told, one line is written, and it is a JSON object from which the names and messages
are read back as they were, and attribute texts without the blanks around them. No line breaks in its
middle, so the lines of a file are those that were written, in their order.
-/

namespace PenPlot

/-! ## Visible texts -/

namespace TraceValue

theorem le_toNat_of_mem_quoted {text : List Char} {c : Char} (h : c ∈ quoted text) :
    0x20 ≤ c.toNat := by
  rw [quoted, List.cons_append, List.mem_cons, List.mem_append, List.mem_singleton] at h
  rcases h with rfl | h | rfl
  · decide
  · exact Text.le_toNat_of_mem_jsonEscape h
  · decide

theorem mem_of_mem_intercalate {texts : List (List Char)} {c : Char}
    (h : c ∈ List.intercalate [','] texts) : c = ',' ∨ ∃ text ∈ texts, c ∈ text := by
  induction texts with
  | nil => cases h
  | cons text texts ih =>
    by_cases hlast : texts = []
    · rw [hlast, List.intercalate_singleton] at h
      exact .inr ⟨text, List.mem_cons_self, h⟩
    · rw [List.intercalate_cons_of_ne_nil hlast, List.mem_append, List.mem_append,
        List.mem_singleton] at h
      rcases h with (h | h) | h
      · exact .inr ⟨text, List.mem_cons_self, h⟩
      · exact .inl h
      · exact (ih h).imp_right fun ⟨other, hother, hc⟩ => ⟨other, List.mem_cons_of_mem _ hother, hc⟩

theorem le_toNat_of_mem_object {members : List (String × List Char)}
    (h : ∀ member ∈ members, ∀ c ∈ member.2, 0x20 ≤ c.toNat) {c : Char} (hc : c ∈ object members) :
    0x20 ≤ c.toNat := by
  rw [object, List.cons_append, List.mem_cons, List.mem_append, List.mem_singleton] at hc
  rcases hc with rfl | hc | rfl
  · decide
  · rcases mem_of_mem_intercalate hc with rfl | ⟨text, htext, hc⟩
    · decide
    · obtain ⟨member, hmember, rfl⟩ := List.mem_map.1 htext
      rcases List.mem_append.1 hc with hc | hc
      · exact le_toNat_of_mem_quoted hc
      · rcases List.mem_cons.1 hc with rfl | hc
        · decide
        · exact h member hmember c hc
  · decide

theorem three_le_length_object {members : List (String × List Char)} (h : members ≠ []) :
    3 ≤ (object members).length := by
  obtain ⟨⟨name, value⟩, members, rfl⟩ := List.exists_cons_of_ne_nil h
  simp [object, quoted]

end TraceValue

namespace TraceEvent

/-- The object that the line of an event is. -/
def value (pass : Nat) (event : TraceEvent) : JsonValue :=
  let head (kind : String) : List (List Char × JsonValue) :=
    [("type".toList, .string kind.toList), ("pass".toList, .number (Nat.toDigits 10 pass))]
  .object <|
    match event with
    | element depth name attributes =>
      head "svgpen.element" ++
        [("depth".toList, .number (Nat.toDigits 10 depth)), ("element".toList, .string name),
          ("attributes".toList, .string (Text.trim attributes))]
    | fault message => head "svgpen.error" ++ [("message".toList, .string message)]
    | finished took tally =>
      head "svgpen.summary" ++
        [("ms".toList, .number (Decimal.fixed timePlaces took.milliseconds).toList),
          ("counts".toList,
            .object (tally.entries.map fun (name, n) => (name.toList, .number (Nat.toDigits 10 n))))]

theorem takes_entries (inner : FrontReader JsonValue) (entries : List (String × Nat)) :
    (JsonValue.reader (JsonValue.reader inner)).Takes (TraceValue.counts entries).written
      (.object (entries.map fun (name, n) => (name.toList, .number (Nat.toDigits 10 n)))) := by
  refine JsonValue.takes_object ?_
  rw [List.forall₂_map_left_iff, List.forall₂_map_right_iff, List.forall₂_same]
  exact fun entry _ => ⟨rfl, JsonValue.takes_numeral inner (Text.isNumeral_toDigits entry.2)⟩

theorem takes_line (inner : FrontReader JsonValue) (pass : Nat) (event : TraceEvent) :
    (JsonValue.reader (JsonValue.reader (JsonValue.reader inner))).Takes (event.line pass)
      (event.value pass) := by
  have htext := JsonValue.takes_quoted (JsonValue.reader inner)
  have hcount (n : Nat) := JsonValue.takes_numeral (JsonValue.reader inner) (Text.isNumeral_toDigits n)
  refine JsonValue.takes_object ?_
  cases event with
  | element depth name attributes =>
    exact .cons ⟨rfl, htext _⟩ <| .cons ⟨rfl, hcount pass⟩ <| .cons ⟨rfl, hcount depth⟩ <|
      .cons ⟨rfl, htext name⟩ <| .cons ⟨rfl, htext (Text.trim attributes)⟩ .nil
  | fault message =>
    exact .cons ⟨rfl, htext _⟩ <| .cons ⟨rfl, hcount pass⟩ <| .cons ⟨rfl, htext message⟩ .nil
  | finished took tally =>
    have htime := JsonValue.takes_numeral (JsonValue.reader inner)
      (Text.isNumeral_fixed timePlaces took.isFinite_milliseconds)
    exact .cons ⟨rfl, htext _⟩ <| .cons ⟨rfl, hcount pass⟩ <| .cons ⟨rfl, htime⟩ <|
      .cons ⟨rfl, takes_entries inner tally.entries⟩ .nil

/-- The line is read as that object. -/
theorem read?_line (pass : Nat) (event : TraceEvent) :
    JsonValue.read? (event.line pass) = some (event.value pass) := by
  -- The text is longer than its values are nested, whatever the event.
  obtain ⟨depth, hdepth⟩ :=
    Nat.exists_eq_add_of_le' (TraceValue.three_le_length_object (List.cons_ne_nil _ _))
  refine JsonValue.read?_of_takes ?_
  rw [line, TraceLine.writtenWith, hdepth]
  exact takes_line (JsonValue.readerBelow depth) pass event

theorem le_toNat_of_mem_line {pass : Nat} {event : TraceEvent} {c : Char} (h : c ∈ event.line pass) :
    0x20 ≤ c.toNat := by
  have htext (text : List Char) : ∀ c ∈ TraceValue.quoted text, 0x20 ≤ c.toNat :=
    fun _ => TraceValue.le_toNat_of_mem_quoted
  have hnumeral {text : List Char} (h : Text.IsNumeral text) : ∀ c ∈ text, 0x20 ≤ c.toNat :=
    fun c hc => Text.le_toNat_of_isPlain (h.2 c hc)
  have hcount (n : Nat) := hnumeral (Text.isNumeral_toDigits n)
  refine TraceValue.le_toNat_of_mem_object ?_ h
  refine List.forall_mem_cons.2 ⟨htext _, List.forall_mem_cons.2 ⟨hcount _, ?_⟩⟩
  cases event with
  | element depth name attributes =>
    exact List.forall_mem_cons.2 ⟨hcount depth, List.forall_mem_cons.2 ⟨htext name,
      List.forall_mem_singleton.2 (htext (Text.trim attributes))⟩⟩
  | fault message => exact List.forall_mem_singleton.2 (htext message)
  | finished took tally =>
    have htime := hnumeral (Text.isNumeral_fixed timePlaces took.isFinite_milliseconds)
    have hcounts : ∀ c ∈ (TraceValue.counts tally.entries).written, 0x20 ≤ c.toNat := by
      refine fun c => TraceValue.le_toNat_of_mem_object ?_
      intro member hmember
      obtain ⟨entry, -, rfl⟩ := List.mem_map.1 hmember
      exact hcount entry.2
    exact List.forall_mem_cons.2 ⟨htime, List.forall_mem_singleton.2 hcounts⟩

/-- A line does not break in its middle. -/
theorem lineEnd_notMem_line (pass : Nat) (event : TraceEvent) : '\n' ∉ event.line pass := by
  intro h
  have hvisible := le_toNat_of_mem_line h
  revert hvisible
  decide

/-! ## Files -/

theorem fileOf_eq_flatMap (events : List (Nat × TraceEvent)) :
    fileOf events = events.flatMap fun (pass, event) => event.line pass ++ ['\n'] := by
  rw [List.flatMap_eq_foldl, fileOf]
  simp only [writeTo, List.append_assoc]

/-- The lines of a file are those that were written, and nothing is behind the last. -/
theorem splitOn_fileOf (events : List (Nat × TraceEvent)) :
    (fileOf events).splitOn '\n' = (events.map fun (pass, event) => event.line pass) ++ [[]] := by
  rw [fileOf_eq_flatMap]
  induction events with
  | nil => rfl
  | cons first events ih =>
    obtain ⟨pass, event⟩ := first
    rw [List.flatMap_cons, List.append_assoc, List.cons_append, List.nil_append,
      List.splitOn_append_cons_self_of_not_mem (lineEnd_notMem_line pass event), ih]
    rfl

/-- Between quotation marks any text is escaped so that it is read as it was: every mark in it is
escaped, its last backslash belongs to a pair, and no control character is left. So whatever a trace is
told, one line is added to its file, which does not break in its middle and is read as one object with
the texts that the trace was told, where attributes come without the blanks around them. The lines of a
file are those that were written. -/
theorem fileOf_reads_back :
    (∀ text, JsonValue.read? ('"' :: Text.jsonEscape text ++ ['"']) = some (.string text) ∧
        Text.IsQuotable (Text.jsonEscape text)) ∧
      (∀ file pass (event : TraceEvent), ∃ line, event.writeTo file pass = file ++ line ++ ['\n'] ∧
        '\n' ∉ line ∧ JsonValue.read? line = some (event.value pass)) ∧
      ∀ events, (fileOf events).splitOn '\n' =
        (events.map fun (pass, event) => event.line pass) ++ [[]] := by
  refine ⟨fun text => ⟨JsonValue.read?_quoted text, Text.isQuotable_jsonEscape text⟩, ?_,
    splitOn_fileOf⟩
  intro file pass event
  exact ⟨event.line pass, rfl, lineEnd_notMem_line pass event, read?_line pass event⟩

/-- An element of no known kind may have blanks around its attributes, of which its visit tells. They
are not in the line that is written of it. -/
theorem blanks_around_attributes_lost :
    element 0 "unrecognized".toList " x='1' ".toList ∈
        ofPass ⟨0, 0, by decide⟩ (.ofText ⟨⟨10, 10⟩, ⟨2, false⟩⟩ "<text x='1' >".toList) ∧
      ∃ members,
        JsonValue.read? (line 0 (element 0 "unrecognized".toList " x='1' ".toList)) =
            some (.object members) ∧
          ("attributes".toList, .string " x='1' ".toList) ∉ members := by
  have htrimmed : Text.trim " x='1' ".toList ≠ " x='1' ".toList := by decide
  refine ⟨by decide +kernel, _, read?_line _ _, ?_⟩
  simpa using htrimmed.symm

end TraceEvent

end PenPlot
