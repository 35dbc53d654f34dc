import PenPlot.Proofs.Arguments
import PenPlot.Scalar.Machine

/-!
# Lists of numbers as they are written

A list of numbers is written as number literals with gaps around and between them. A gap between two
literals may be empty where the second cannot be taken for a part of the first. From which literals a text
is written is no matter of choice, since each of them is the longest that stands there.
`readNumbers_written` says that these texts are read as the values of their literals, in order, and that
all other texts are rejected.
-/

namespace PenPlot

open Text

/-- The text is the literals with gaps around and between them. A gap between two literals may be empty
only where the second may touch the first. -/
def IsNumberList (literals : List Literal) (text : List Char) : Prop :=
  IsTokenText none (literals.map .number) text

/-- A text that begins with literals up to a gap at its end begins with no others. -/
theorem BeginsWithTokens.literals_eq {first second : List Literal} {text gap other : List Char}
    (hgap : ∀ c ∈ gap, isGap c = true) (hother : ∀ c ∈ other, isGap c = true)
    (hfirst : BeginsWithTokens (first.map .number) text gap)
    (hsecond : BeginsWithTokens (second.map .number) text other) : first = second := by
  induction first generalizing text second with
  | nil =>
    cases hfirst
    have hnil := hsecond.eq_nil_of_skipGaps (skipGaps_eq_nil_iff.2 hgap)
    exact (List.map_eq_nil_iff.1 hnil).symm
  | cons literal first ih =>
    cases second with
    | nil =>
      cases hsecond
      cases hfirst.eq_nil_of_skipGaps (skipGaps_eq_nil_iff.2 hother)
    | cons literal' second =>
      obtain ⟨hvalid, behind, hends, hskip, hlater⟩ := BeginsWithTokens.cons_iff.1 hfirst
      obtain ⟨hvalid', behind', hends', hskip', hlater'⟩ := BeginsWithTokens.cons_iff.1 hsecond
      have hread := Literal.read?_eq_some_iff.2 ⟨hvalid, hends, hskip⟩
      rw [Literal.read?_eq_some_iff.2 ⟨hvalid', hends', hskip'⟩] at hread
      cases hread
      rw [ih hlater hlater']

/-- No text is written from two lists of literals. -/
theorem IsNumberList.eq {first second : List Literal} {text : List Char} (hfirst : IsNumberList first text)
    (hsecond : IsNumberList second text) : first = second := by
  obtain ⟨gap, hgap, hfirst⟩ := isTokenText_none_iff.1 hfirst
  obtain ⟨other, hother, hsecond⟩ := isTokenText_none_iff.1 hsecond
  exact BeginsWithTokens.literals_eq hgap hother hfirst hsecond

variable {α : Type} [Scalar α] {text rest : List Char}

/-- A number is read just if a literal stands at the front of the text, whose value it is, and ends
there. -/
theorem readNumber_eq_ok_iff {value : α} :
    readNumber text = .ok (value, rest) ↔
      ∃ literal : Literal, literal.value = value ∧ literal.Valid ∧ literal.Ends rest ∧
        text = literal.text ++ rest := by
  rw [readNumber]
  constructor
  · intro h
    split at h
    · next literal rest hread =>
      cases h
      obtain ⟨hvalid, hends, htext⟩ := Literal.read?_eq_some_iff.1 hread
      exact ⟨literal, rfl, hvalid, hends, htext⟩
    · cases h
  · rintro ⟨literal, rfl, hvalid, hends, htext⟩
    rw [Literal.read?_eq_some_iff.2 ⟨hvalid, hends, htext⟩]

/-- Where no number is read, no literal stands at the front of the text. -/
theorem readNumber_eq_error_iff {flaw : ListFlaw} :
    readNumber (α := α) text = .error flaw ↔ Literal.read? text = none ∧ flaw = .notNumber text := by
  rw [readNumber]
  cases Literal.read? text with
  | none => simp [eq_comm]
  | some found => simp

/-- No numbers are read just if the text is a gap. -/
theorem readNumbers_eq_ok_nil_iff :
    readNumbers (α := α) text = .ok [] ↔ ∀ c ∈ text, isGap c = true := by
  rw [← skipGaps_eq_nil_iff]
  cases hskip : skipGaps text with
  | nil => simp [readNumbers_of_nil hskip]
  | cons c behind =>
    rw [readNumbers_of_cons hskip]
    cases readNumber (α := α) (c :: behind) with
    | error flaw => simp [Except.bind]
    | ok found =>
      cases hlater : readNumbers (α := α) found.2 <;> simp [Except.bind, Except.map, hlater]

/-- The first number stands behind the gap in front, and the others behind it. -/
theorem readNumbers_eq_ok_cons_iff {value : α} {values : List α} :
    readNumbers text = .ok (value :: values) ↔
      ∃ rest, readNumber (skipGaps text) = .ok (value, rest) ∧ readNumbers rest = .ok values := by
  cases hskip : skipGaps text with
  | nil =>
    have hnone : readNumber (α := α) [] = .error (.notNumber []) := rfl
    simp [readNumbers_of_nil hskip, hnone]
  | cons c behind =>
    rw [readNumbers_of_cons hskip]
    cases readNumber (α := α) (c :: behind) with
    | error flaw => simp [Except.bind]
    | ok found =>
      obtain ⟨first, rest⟩ := found
      cases hlater : readNumbers (α := α) rest with
      | error flaw => simp [Except.bind, Except.map, hlater]
      | ok later => simp [Except.bind, Except.map, hlater, and_assoc]

/-- Numbers are read just if the text is a list of literals whose values they are. -/
theorem readNumbers_eq_ok_iff {values : List α} :
    readNumbers text = .ok values ↔
      ∃ literals, literals.map Literal.value = values ∧ IsNumberList literals text := by
  simp only [IsNumberList, isTokenText_none_iff]
  induction values generalizing text with
  | nil =>
    rw [readNumbers_eq_ok_nil_iff]
    constructor
    · intro hgap
      exact ⟨[], rfl, text, hgap, .nil text⟩
    · rintro ⟨literals, hvalues, gap, hgap, htokens⟩
      obtain rfl : literals = [] := List.map_eq_nil_iff.1 hvalues
      cases htokens
      exact hgap
  | cons value values ih =>
    rw [readNumbers_eq_ok_cons_iff]
    constructor
    · rintro ⟨rest, hnumber, hlater⟩
      obtain ⟨literal, rfl, hvalid, hends, hskip⟩ := readNumber_eq_ok_iff.1 hnumber
      obtain ⟨literals, rfl, gap, hgap, htokens⟩ := ih.1 hlater
      exact ⟨literal :: literals, rfl, gap, hgap,
        BeginsWithTokens.cons_iff.2 ⟨hvalid, rest, hends, hskip, htokens⟩⟩
    · rintro ⟨literals, hvalues, gap, hgap, htokens⟩
      obtain ⟨literal, literals, rfl, rfl, rfl⟩ := List.map_eq_cons_iff.1 hvalues
      obtain ⟨hvalid, rest, hends, hskip, hlater⟩ := BeginsWithTokens.cons_iff.1 htokens
      exact ⟨rest, readNumber_eq_ok_iff.2 ⟨literal, rfl, hvalid, hends, hskip⟩,
        ih.2 ⟨literals, rfl, gap, hgap, hlater⟩⟩

/-- A text that is rejected is rejected at a place where no literal stands, and the flaw shows the text from
there on. -/
theorem exists_of_readNumbers_eq_error {flaw : ListFlaw} (h : readNumbers (α := α) text = .error flaw) :
    ∃ front rest, text = front ++ rest ∧ rest ≠ [] ∧ Literal.read? rest = none ∧
      flaw = .notNumber rest := by
  fun_induction readNumbers (α := α) text with
  | case1 text hskip => cases h
  | case2 text c behind hskip flaw' hnumber =>
    cases h
    obtain ⟨gap, -, htext⟩ := exists_gap_append_skipGaps text
    obtain ⟨hnone, rfl⟩ := readNumber_eq_error_iff.1 hnumber
    exact ⟨gap, c :: behind, hskip ▸ htext, List.cons_ne_nil c behind, hnone, rfl⟩
  | case3 text c behind hskip value rest hnumber _ flaw' hlater ih =>
    cases h
    obtain ⟨gap, -, htext⟩ := exists_gap_append_skipGaps text
    obtain ⟨literal, -, -, -, hbehind⟩ := readNumber_eq_ok_iff.1 hnumber
    obtain ⟨front, last, rfl, hfound⟩ := ih hlater
    refine ⟨gap ++ (literal.text ++ front), last, ?_, hfound⟩
    rw [htext, hskip, hbehind]
    simp
  | case4 text c behind hskip value rest hnumber _ values hlater => cases h

/-- A text that is written from literals is read as their values, in order, and no other literals write it.
Every other text is rejected, at a place behind which no literal stands. -/
theorem readNumbers_written (text : List Char) :
    (∀ literals, IsNumberList literals text →
        readNumbers (α := α) text = .ok (literals.map Literal.value) ∧
          ∀ others, IsNumberList others text → others = literals) ∧
      ((∀ literals, ¬ IsNumberList literals text) →
        ∃ front rest, text = front ++ rest ∧ rest ≠ [] ∧
          (∀ literal : Literal, literal.Valid → ¬ literal.text <+: rest) ∧
          readNumbers (α := α) text = .error (.notNumber rest)) := by
  constructor
  · intro literals hwritten
    exact ⟨readNumbers_eq_ok_iff.2 ⟨literals, rfl, hwritten⟩, fun others hothers => hothers.eq hwritten⟩
  · intro hnone
    cases hread : readNumbers (α := α) text with
    | error flaw =>
      obtain ⟨front, rest, htext, hne, hliteral, rfl⟩ := exists_of_readNumbers_eq_error hread
      refine ⟨front, rest, htext, hne, ?_, rfl⟩
      rintro literal hvalid ⟨behind, hbehind⟩
      exact Literal.read?_eq_none_iff.1 hliteral literal hvalid behind hbehind.symm
    | ok values =>
      obtain ⟨literals, -, hwritten⟩ := readNumbers_eq_ok_iff.1 hread
      exact absurd hwritten (hnone literals)

/-- Four literals that touch each other, and a text with half an exponent. -/
theorem readNumbers_written_touching :
    let one : Literal := ⟨none, ['1'], some [], none⟩
    let half : Literal := ⟨none, [], some ['5'], some ⟨true, some .minus, ['1']⟩⟩
    let fifth : Literal := ⟨none, [], some ['2'], none⟩
    let minusThree : Literal := ⟨some .minus, ['3'], none, none⟩
    let text := ",1..5E-1.2-3\t".toList
    IsNumberList [one, half, fifth, minusThree] text ∧
      readNumbers (α := Float) text = .ok ([one, half, fifth, minusThree].map Literal.value) ∧
      readNumbers (α := Float) text = .ok [1, 0.05, 0.2, -3] ∧
      (∀ others, ¬ IsNumberList others "4e-".toList) ∧
      ∃ front rest, "4e-".toList = front ++ rest ∧ rest ≠ [] ∧
        (∀ literal : Literal, literal.Valid → ¬ literal.text <+: rest) ∧
        readNumbers (α := Float) "4e-".toList = .error (.notNumber rest) := by
  intro one half fifth minusThree text
  have hone : one.Valid := ⟨List.forall_mem_singleton.2 rfl, nofun, .inl nofun, nofun⟩
  have hhalf : half.Valid := by
    refine ⟨nofun, List.forall_mem_singleton.2 rfl, .inr nofun, ?_⟩
    rintro exponent ⟨⟩
    exact ⟨List.forall_mem_singleton.2 rfl, nofun⟩
  have hfifth : fifth.Valid := ⟨nofun, List.forall_mem_singleton.2 rfl, .inr nofun, nofun⟩
  have hminusThree : minusThree.Valid := ⟨List.forall_mem_singleton.2 rfl, nofun, .inl nofun, nofun⟩
  have hend : IsTokenText (some (.number minusThree)) [] ['\t'] := .nil (List.forall_mem_singleton.2 rfl)
  have hlast : IsTokenText (some (.number fifth)) [.number minusThree]
      (minusThree.text ++ ['\t']) := .touch (.inl ⟨.minus, rfl⟩) hminusThree hend
  have hthird : IsTokenText (some (.number half)) [.number fifth, .number minusThree]
      (fifth.text ++ (minusThree.text ++ ['\t'])) := .touch (.inr ⟨rfl, .inl nofun⟩) hfifth hlast
  have hsecond : IsTokenText (some (.number one)) [.number half, .number fifth, .number minusThree]
      (half.text ++ (fifth.text ++ (minusThree.text ++ ['\t']))) :=
    .touch (.inr ⟨rfl, .inl nofun⟩) hhalf hthird
  have hfirst : IsTokenText none
      [.number one, .number half, .number fifth, .number minusThree]
      ([','] ++ (one.text ++ (half.text ++ (fifth.text ++ (minusThree.text ++ ['\t']))))) :=
    .cons (List.forall_mem_singleton.2 rfl) (fun _ => nofun) hone hsecond
  have hwritten : IsNumberList [one, half, fifth, minusThree] text := hfirst
  have hbroken : ∀ others, ¬ IsNumberList others "4e-".toList := by
    intro others hothers
    have hread := readNumbers_eq_ok_iff (α := Float).2 ⟨others, rfl, hothers⟩
    have herror : readNumbers (α := Float) "4e-".toList = .error (.notNumber "e-".toList) := by
      decide +kernel
    rw [herror] at hread
    cases hread
  have hread := readNumbers_written (α := Float) text
  exact ⟨hwritten, (hread.1 _ hwritten).1, by decide +kernel, hbroken,
    (readNumbers_written (α := Float) "4e-".toList).2 hbroken⟩

end PenPlot
