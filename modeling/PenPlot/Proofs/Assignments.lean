import PenPlot.Proofs.Arguments
import PenPlot.Proofs.Spacing

/-!
# Attribute texts as they are written

An attribute text is written as settings with gaps between them, each setting a name, an equals sign and a
quoted value. A name stands in many places of such a text that do not set it: in longer names, at their
front, inside them or at their end, and in values. `attribute?_written` says that the look-up passes over
all of these and over nothing else, so that it comes to the first setting of just the name that is looked
up.
-/

namespace PenPlot

open Text

theorem isQuote_of_isSeparator {c : Char} (h : isSeparator c = true) : QuoteMarks.isQuote c = false := by
  rw [isSeparator, Bool.or_eq_true, beq_iff_eq] at h
  rcases h with hblank | rfl
  · exact isQuote_of_isBlank hblank
  · rfl

/-- A name that an attribute may have. -/
@[ext]
structure AttributeName where
  text : List Char
  ne_nil : text ≠ []
  plain : ∀ c ∈ text, isSeparator c = false ∧ c ≠ '=' ∧ QuoteMarks.isQuote c = false
  deriving DecidableEq

/-- A setting of an attribute, with the blanks around the equals sign and the quotation mark as they are
written. -/
structure Setting where
  name : AttributeName
  before : List Char
  behind : List Char
  mark : Char
  value : List Char
  isBlank_before : ∀ c ∈ before, isBlank c = true
  isBlank_behind : ∀ c ∈ behind, isBlank c = true
  isQuote_mark : QuoteMarks.isQuote mark = true
  unmarked : mark ∉ value

namespace Setting

/-- What stands behind the name. -/
def assignment (setting : Setting) : List Char :=
  setting.before ++ '=' :: (setting.behind ++ setting.mark :: (setting.value ++ [setting.mark]))

/-- How the setting is written. -/
def text (setting : Setting) : List Char := setting.name.text ++ setting.assignment

end Setting

/-- The text is settings with gaps around and between them, behind another setting if there is one. The gaps
between two settings are not empty. -/
inductive IsAttributeText : Option Setting → List Setting → List Char → Prop where
  /-- Behind the last setting there is only a gap. -/
  | nil {previous : Option Setting} {gap : List Char} : (∀ c ∈ gap, isGap c = true) →
      IsAttributeText previous [] gap
  /-- One more setting is in front. -/
  | cons {previous : Option Setting} {setting : Setting} {settings : List Setting}
      {gap rest : List Char} : (∀ c ∈ gap, isGap c = true) → (previous ≠ none → gap ≠ []) →
      IsAttributeText (some setting) settings rest →
      IsAttributeText previous (setting :: settings) (gap ++ (setting.text ++ rest))

/-! ## Assignments to a name -/

/-- What an occurrence of a name comes to, from the character before it and the text behind it. -/
def Assignment.ofOccurrence (occurrence : Option Char × List Char) : Assignment :=
  if mayPrecedeName occurrence.1 then read occurrence.2 else .absent

/-- All assignments to a name in a part of an attribute text, behind another character if there is one. -/
def assignmentsTo (name : List Char) (previous : Option Char) (text : List Char) : List Assignment :=
  ((occurrencesFrom name previous none text).map Assignment.ofOccurrence).filter (· != .absent)

theorem attribute?_eq_head? (name attributes : List Char) :
    attribute? name attributes =
      match (assignmentsTo name none attributes).head? with
      | some (.value text) => some text
      | _ => none := by
  rw [assignmentsTo, List.head?_filter]
  rfl

namespace AttributeName

variable {name : AttributeName} {previous : Option Char} {c : Char} {rest run : List Char}

theorem isBlank_of_mem (h : c ∈ name.text) : isBlank c = false := by
  have hplain := (name.plain c h).1
  simp only [isSeparator, Bool.or_eq_false_iff] at hplain
  exact hplain.1

theorem isGap_of_mem (h : c ∈ name.text) : isGap c = false := by
  refine Bool.eq_false_iff.2 fun hgap => ?_
  have hseparator := isSeparator_of_isGap hgap
  rw [(name.plain c h).1] at hseparator
  cases hseparator

theorem head?_ne (h : c ∉ name.text) : name.text.head? ≠ some c :=
  fun hhead => h (List.mem_of_head? hhead)

theorem head?_ne_of_isGap (hc : isGap c = true) (name : AttributeName) :
    name.text.head? ≠ some c := by
  refine head?_ne fun hmem => ?_
  rw [isGap_of_mem hmem] at hc
  cases hc

theorem not_isPrefixOf_of_head (h : name.text.head? ≠ some c) :
    ¬ name.text.isPrefixOf (c :: rest) = true := by
  intro hprefix
  obtain ⟨d, later, hname⟩ := List.exists_cons_of_ne_nil name.ne_nil
  rw [hname, List.isPrefixOf_iff_prefix, List.cons_prefix_cons] at hprefix
  exact h (by rw [hname, hprefix.1]; rfl)

/-- Nothing is assigned where the name may not begin or does not. -/
theorem assignmentsTo_cons (hquote : QuoteMarks.isQuote c = false)
    (h : mayPrecedeName previous = false ∨ ¬ name.text.isPrefixOf (c :: rest) = true) :
    assignmentsTo name.text previous (c :: rest) = assignmentsTo name.text (some c) rest := by
  have hplain : ¬ QuoteMarks.isQuote c = true := by simp [hquote]
  unfold assignmentsTo
  rw [occurrencesFrom, if_neg hplain]
  by_cases hprefix : name.text.isPrefixOf (c :: rest) = true
  · have hprevious := h.resolve_right (not_not_intro hprefix)
    have habsent : ∀ behind, Assignment.ofOccurrence (previous, behind) = .absent := by
      intro behind
      simp [Assignment.ofOccurrence, hprevious]
    simp only [if_pos hprefix, List.map_cons, habsent]
    rfl
  · simp only [if_neg hprefix]

/-- Where the name begins, the text behind it is read. -/
theorem assignmentsTo_name (name : AttributeName) (hprevious : mayPrecedeName previous = true)
    (behind : List Char) :
    assignmentsTo name.text previous (name.text ++ behind) =
      [Assignment.read behind].filter (· != .absent) ++
        assignmentsTo name.text name.text.head? (name.text.tail ++ behind) := by
  obtain ⟨c, later, hname⟩ := List.exists_cons_of_ne_nil name.ne_nil
  have hquote : ¬ QuoteMarks.isQuote c = true := by
    have hplain := (name.plain c (by simp [hname])).2.2
    simp [hplain]
  have hprefix : (c :: later).isPrefixOf (c :: (later ++ behind)) = true :=
    List.isPrefixOf_iff_prefix.2 (List.prefix_append (c :: later) behind)
  have hread : Assignment.ofOccurrence (previous, behind) = .read behind := if_pos hprevious
  have hdrop : (c :: (later ++ behind)).drop (c :: later).length = behind := by
    simp
  unfold assignmentsTo
  rw [hname, List.cons_append, occurrencesFrom, if_neg hquote]
  simp only [if_pos hprefix, hdrop, List.map_cons, hread, List.filter_cons, List.head?_cons,
    List.tail_cons]
  split <;> rfl

/-- A run of characters is passed over if the name begins with none of them, or if it may not begin at any
of them because no gap comes before. -/
theorem assignmentsTo_run (hquote : ∀ c ∈ run, QuoteMarks.isQuote c = false)
    (h : (∀ c ∈ run, name.text.head? ≠ some c) ∨
      mayPrecedeName previous = false ∧ ∀ c ∈ run, isGap c = false) :
    assignmentsTo name.text previous (run ++ rest) =
      assignmentsTo name.text (run.getLast?.or previous) rest := by
  induction run generalizing previous with
  | nil => rfl
  | cons c run ih =>
    obtain ⟨hc, hothers⟩ := List.forall_mem_cons.1 hquote
    have hlast : (c :: run).getLast?.or previous = run.getLast?.or (some c) := by
      rw [List.getLast?_cons]
      cases run.getLast? <;> rfl
    rw [List.cons_append, hlast]
    rcases h with hbegin | ⟨hprevious, hgap⟩
    · obtain ⟨hhead, hlater⟩ := List.forall_mem_cons.1 hbegin
      rw [assignmentsTo_cons hc (.inr (not_isPrefixOf_of_head hhead))]
      exact ih hothers (.inl hlater)
    · obtain ⟨hown, hlater⟩ := List.forall_mem_cons.1 hgap
      rw [assignmentsTo_cons hc (.inl hprevious)]
      exact ih hothers (.inr ⟨hown, hlater⟩)

theorem assignmentsTo_gap {gap : List Char} (name : AttributeName)
    (hgap : ∀ c ∈ gap, isGap c = true) (previous : Option Char) (rest : List Char) :
    assignmentsTo name.text previous (gap ++ rest) =
      assignmentsTo name.text (gap.getLast?.or previous) rest := by
  refine assignmentsTo_run ?_ (.inl ?_)
  · intro c hc
    exact isQuote_of_isSeparator (isSeparator_of_isGap (hgap c hc))
  · intro c hc
    exact head?_ne_of_isGap (hgap c hc) name

end AttributeName

theorem occurrencesFrom_inside {needle : List Char} {previous : Option Char} {mark : Char}
    {body : List Char} (h : mark ∉ body) (rest : List Char) :
    occurrencesFrom needle previous (some mark) (body ++ mark :: rest) =
      occurrencesFrom needle (some mark) none rest := by
  induction body generalizing previous with
  | nil => rw [List.nil_append, occurrencesFrom, if_pos rfl]
  | cons c body ih =>
    rw [List.mem_cons, not_or] at h
    rw [List.cons_append, occurrencesFrom, if_neg (Ne.symm h.1), ih h.2]

/-- Nothing is assigned inside a quotation. -/
theorem assignmentsTo_quotation {name : List Char} {previous : Option Char} {mark : Char}
    {body : List Char} (hmark : QuoteMarks.isQuote mark = true) (hbody : mark ∉ body)
    (rest : List Char) :
    assignmentsTo name previous (mark :: (body ++ mark :: rest)) =
      assignmentsTo name (some mark) rest := by
  rw [assignmentsTo, occurrencesFrom, if_pos hmark, occurrencesFrom_inside hbody, assignmentsTo]

/-! ## Settings -/

namespace Setting

variable {setting : Setting} {name : AttributeName} {previous : Option Char} {c : Char}
  {run rest : List Char}

theorem assignment_append (setting : Setting) (rest : List Char) :
    setting.assignment ++ rest = setting.before ++
      '=' :: (setting.behind ++ setting.mark :: (setting.value ++ setting.mark :: rest)) := by
  simp [assignment]

theorem read_assignment (setting : Setting) (rest : List Char) :
    Assignment.read (setting.assignment ++ rest) = .value setting.value := by
  have hequals : trimStart (setting.assignment ++ rest) =
      '=' :: (setting.behind ++ setting.mark :: (setting.value ++ setting.mark :: rest)) := by
    rw [assignment_append]
    refine dropWhile_append_of_head setting.isBlank_before ?_
    rintro c ⟨⟩
    decide
  have hmark : trimStart (setting.behind ++ setting.mark :: (setting.value ++ setting.mark :: rest)) =
      setting.mark :: (setting.value ++ setting.mark :: rest) := by
    refine dropWhile_append_of_head setting.isBlank_behind ?_
    rintro c ⟨⟩
    exact isBlank_of_isQuote setting.isQuote_mark
  have hclosed : setting.mark ∈ setting.value ++ setting.mark :: rest := by simp
  have hvalue : (setting.value ++ setting.mark :: rest).takeWhile (· != setting.mark) =
      setting.value := by
    rw [List.takeWhile_append_of_pos]
    · simp
    · intro c hc
      rw [bne_iff_ne]
      rintro rfl
      exact setting.unmarked hc
  rw [Assignment.read, hequals]
  simp only [hmark, if_pos setting.isQuote_mark, if_pos hclosed, hvalue]

theorem isBlank_or_eq_of_mem_front (h : c ∈ setting.before ++ '=' :: setting.behind) :
    isBlank c = true ∨ c = '=' := by
  rw [List.mem_append, List.mem_cons] at h
  rcases h with h | rfl | h
  · exact .inl (setting.isBlank_before c h)
  · exact .inr rfl
  · exact .inl (setting.isBlank_behind c h)

theorem isQuote_of_mem_front (h : c ∈ setting.before ++ '=' :: setting.behind) :
    QuoteMarks.isQuote c = false := by
  rcases isBlank_or_eq_of_mem_front h with hblank | rfl
  · exact isQuote_of_isBlank hblank
  · rfl

theorem notMem_name_of_mem_front (h : c ∈ setting.before ++ '=' :: setting.behind)
    (name : AttributeName) : c ∉ name.text := by
  intro hmem
  rcases isBlank_or_eq_of_mem_front h with hblank | rfl
  · rw [AttributeName.isBlank_of_mem hmem] at hblank
    cases hblank
  · exact (name.plain _ hmem).2.1 rfl

theorem assignment_append_split (setting : Setting) (rest : List Char) :
    setting.assignment ++ rest = (setting.before ++ '=' :: setting.behind) ++
      setting.mark :: (setting.value ++ setting.mark :: rest) := by
  simp [assignment]

/-- Nothing is assigned from the second character of the name of a setting to its end. -/
theorem assignmentsTo_inside (hprevious : mayPrecedeName previous = false)
    (hrun : ∀ c ∈ run, c ∈ setting.name.text) (rest : List Char) :
    assignmentsTo name.text previous (run ++ (setting.assignment ++ rest)) =
      assignmentsTo name.text (some setting.mark) rest := by
  rw [AttributeName.assignmentsTo_run, assignment_append_split, AttributeName.assignmentsTo_run,
    assignmentsTo_quotation setting.isQuote_mark setting.unmarked]
  · exact fun c hc => isQuote_of_mem_front hc
  · exact .inl fun c hc => AttributeName.head?_ne (notMem_name_of_mem_front hc name)
  · exact fun c hc => (setting.name.plain c (hrun c hc)).2.2
  · exact .inr ⟨hprevious, fun c hc => AttributeName.isGap_of_mem (hrun c hc)⟩

/-- Another name at the front of a setting is followed by the rest of a longer name. -/
theorem read_of_name_ne (hne : setting.name ≠ name) {behind : List Char}
    (h : name.text ++ behind = setting.name.text ++ (setting.assignment ++ rest)) :
    Assignment.read behind = .absent := by
  rcases List.append_eq_append_iff.1 h with ⟨tail, hname, rfl⟩ | ⟨tail, hname, hrest⟩
  · cases tail with
    | nil =>
      rw [List.append_nil] at hname
      exact absurd (AttributeName.ext hname) hne
    | cons c tail =>
      have hmem : c ∈ setting.name.text := by simp [hname]
      have hblank := AttributeName.isBlank_of_mem hmem
      have hequals := (setting.name.plain c hmem).2.1
      refine Assignment.read_of_ne ?_
      simpa [trimStart, hblank] using hequals
  · cases tail with
    | nil =>
      rw [List.append_nil] at hname
      exact absurd (AttributeName.ext hname.symm) hne
    | cons c tail =>
      -- A longer name would go on with the blank or the equals sign behind the name of the setting.
      have hmem : c ∈ name.text := by simp [hname]
      have hfront : c ∈ setting.before ++ '=' :: setting.behind := by
        rw [assignment_append] at hrest
        cases hbefore : setting.before with
        | nil =>
          rw [hbefore] at hrest
          exact List.mem_cons.2 (.inl (List.cons.inj hrest).1.symm)
        | cons d before =>
          rw [hbefore] at hrest
          exact List.mem_cons.2 (.inl (List.cons.inj hrest).1.symm)
      exact absurd hmem (notMem_name_of_mem_front hfront name)

/-- A setting assigns its value to its own name and nothing to any other. -/
theorem assignmentsTo_text (hprevious : mayPrecedeName previous = true) (name : AttributeName)
    (rest : List Char) :
    assignmentsTo name.text previous (setting.text ++ rest) =
      (if setting.name = name then [.value setting.value] else []) ++
        assignmentsTo name.text (some setting.mark) rest := by
  obtain ⟨c, later, hname⟩ := List.exists_cons_of_ne_nil setting.name.ne_nil
  have hmem : c ∈ setting.name.text := by simp [hname]
  have hgap : mayPrecedeName (some c) = false := AttributeName.isGap_of_mem hmem
  have hlater : ∀ d ∈ later, d ∈ setting.name.text := by
    intro d hd
    simp [hname, hd]
  have hinside : assignmentsTo name.text (some c) (later ++ (setting.assignment ++ rest)) =
      assignmentsTo name.text (some setting.mark) rest := assignmentsTo_inside hgap hlater rest
  rw [text, List.append_assoc]
  by_cases hprefix : name.text <+: setting.name.text ++ (setting.assignment ++ rest)
  · obtain ⟨behind, hbehind⟩ := hprefix
    have hhead : name.text.head? = some c ∧
        name.text.tail ++ behind = later ++ (setting.assignment ++ rest) := by
      obtain ⟨d, tail, htail⟩ := List.exists_cons_of_ne_nil name.ne_nil
      rw [hname, htail, List.cons_append, List.cons_append] at hbehind
      obtain ⟨rfl, hlater⟩ := List.cons.inj hbehind
      rw [htail]
      exact ⟨rfl, hlater⟩
    rw [← hbehind, name.assignmentsTo_name hprevious, hhead.1, hhead.2, hinside]
    by_cases heq : setting.name = name
    · subst heq
      rw [List.append_cancel_left hbehind, read_assignment, if_pos rfl]
      rfl
    · rw [read_of_name_ne heq hbehind, if_neg heq]
      rfl
  · have hne : setting.name ≠ name := by
      rintro rfl
      exact hprefix (List.prefix_append ..)
    rw [if_neg hne, hname, List.cons_append, AttributeName.assignmentsTo_cons, hinside]
    · rfl
    · exact (setting.name.plain c hmem).2.2
    · right
      rwa [List.isPrefixOf_iff_prefix, ← List.cons_append, ← hname]

end Setting

/-! ## Attribute texts -/

namespace IsAttributeText

variable {previous : Option Setting} {settings : List Setting} {text : List Char}

/-- What is assigned to a name in an attribute text is what the settings of that name say. -/
theorem assignmentsTo_eq (h : IsAttributeText previous settings text) (name : AttributeName) :
    assignmentsTo name.text (previous.map Setting.mark) text =
      (settings.filter (·.name = name)).map (.value ·.value) := by
  induction h with
  | @nil previous gap hgap =>
    have hend : gap ++ [] = gap := List.append_nil gap
    rw [← hend, name.assignmentsTo_gap hgap]
    rfl
  | @cons previous setting settings gap rest hgap hne _ ih =>
    have hprevious : mayPrecedeName (gap.getLast?.or (previous.map Setting.mark)) = true := by
      cases hlast : gap.getLast? with
      | none =>
        have hnone : previous = none := by
          by_contra hsome
          exact hne hsome (List.getLast?_eq_none_iff.1 hlast)
        rw [hnone]
        rfl
      | some c => exact hgap c (List.mem_of_getLast? hlast)
    rw [Option.map_some] at ih
    rw [name.assignmentsTo_gap hgap, Setting.assignmentsTo_text hprevious, ih]
    by_cases heq : setting.name = name
    · simp [heq]
    · simp [heq]

end IsAttributeText

/-- The value of a name in an attribute text is that of the first setting of just this name, and there is
none if no setting has this name. Nothing else in the text assigns a value to the name: neither a name
that is longer or shorter nor what stands in a value. -/
theorem attribute?_written {settings : List Setting} {text : List Char}
    (h : IsAttributeText none settings text) (name : AttributeName) :
    attribute? name.text text = (settings.find? (·.name = name)).map Setting.value ∧
      assignmentsTo name.text none text =
        (settings.filter (·.name = name)).map (.value ·.value) := by
  have hall := h.assignmentsTo_eq name
  refine ⟨?_, hall⟩
  replace hall : assignmentsTo name.text none text = _ := hall
  rw [attribute?_eq_head?, hall, List.head?_map, List.head?_filter]
  cases settings.find? (·.name = name) <;> rfl

/-- Longer names, a value in which assignments stand, and a quotation mark in quotation marks of the other
kind. -/
theorem attribute?_written_lookalikes :
    let x : AttributeName := ⟨['x'], by decide, List.forall_mem_singleton.2 (by decide)⟩
    let one : AttributeName := ⟨['1'], by decide, List.forall_mem_singleton.2 (by decide)⟩
    let cx : AttributeName :=
      ⟨['c', 'x'], by decide, List.forall_mem_cons.2 ⟨by decide, List.forall_mem_singleton.2 (by decide)⟩⟩
    let x1 : AttributeName :=
      ⟨['x', '1'], by decide, List.forall_mem_cons.2 ⟨by decide, List.forall_mem_singleton.2 (by decide)⟩⟩
    let first : Setting := ⟨cx, [], [], '"', "é x='1'".toList,
      List.forall_mem_nil _, List.forall_mem_nil _, rfl, by decide⟩
    let second : Setting := ⟨x1, [' '], [], '\'', [],
      List.forall_mem_singleton.2 rfl, List.forall_mem_nil _, rfl, by decide⟩
    let third : Setting := ⟨x, [], ['\u00a0'], '"', "it's".toList,
      List.forall_mem_nil _, List.forall_mem_singleton.2 rfl, rfl, by decide⟩
    let text := "\ncx=\"é x='1'\" x1 ='',x=\u00a0\"it's\"".toList
    IsAttributeText none [first, second, third] text ∧
      attribute? x.text text = some "it's".toList ∧ attribute? x1.text text = some [] ∧
      attribute? one.text text = none ∧ assignmentsTo x.text none text = [.value "it's".toList] := by
  intro x one cx x1 first second third text
  have hlast : IsAttributeText (some second) [third] ([','] ++ (third.text ++ [])) :=
    .cons (List.forall_mem_singleton.2 rfl) (by decide) (.nil (List.forall_mem_nil _))
  have hlater : IsAttributeText (some first) [second, third]
      ([' '] ++ (second.text ++ ([','] ++ (third.text ++ [])))) :=
    .cons (List.forall_mem_singleton.2 rfl) (by decide) hlast
  have htext : IsAttributeText none [first, second, third]
      (['\n'] ++ (first.text ++ ([' '] ++ (second.text ++ ([','] ++ (third.text ++ [])))))) :=
    .cons (List.forall_mem_singleton.2 rfl) (by decide) hlater
  have hwritten : IsAttributeText none [first, second, third] text := htext
  obtain ⟨hvalue, hall⟩ := attribute?_written hwritten x
  have hempty := (attribute?_written hwritten x1).1
  have hnone := (attribute?_written hwritten one).1
  exact ⟨hwritten, hvalue, hempty, hnone, hall⟩

end PenPlot
