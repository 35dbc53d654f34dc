import Mathlib.Data.List.Infix
import PenPlot.Proofs.Folding

/-!
# Comments do not show

A text may be cut anywhere, inside a tag or inside a quoted value as well, and comments may be put
between the pieces: the text that is read is the same. The reason is that neither mark of a comment
overlaps with itself. A piece without the opening mark has none where it meets the mark of the next
comment either, so it is kept to its last character; likewise a comment runs to the first closing mark
behind its body and no further. What is left is the text itself, and only then are line breaks folded.
-/

namespace PenPlot.Source

/-! ## Marks -/

/-- No piece of the mark, apart from none and all of it, begins it and ends it. -/
def Unbordered (mark : List Char) : Prop :=
  ∀ piece ∈ mark.inits, piece ∈ mark.tails → piece = [] ∨ piece = mark

instance (mark : List Char) : Decidable (Unbordered mark) :=
  inferInstanceAs (Decidable (∀ piece ∈ mark.inits, piece ∈ mark.tails → piece = [] ∨ piece = mark))

/-- A mark does not begin in text that is free of it and then run on into the same mark behind. -/
theorem Unbordered.not_prefix_append {mark text : List Char} (hmark : Unbordered mark)
    (hne : text ≠ []) (htext : ¬ mark <+: text) (rest : List Char) :
    ¬ mark <+: text ++ (mark ++ rest) := by
  rintro ⟨more, hmore⟩
  rcases List.append_eq_append_iff.1 hmore with ⟨behind, hbehind, -⟩ | ⟨piece, hpiece, hrest⟩
  · exact htext ⟨behind, hbehind.symm⟩
  · -- The mark is the text and a piece that begins the mark again.
    have hsuffix : piece ∈ mark.tails := (List.mem_tails _ _).2 ⟨text, hpiece.symm⟩
    have hlength : piece.length ≤ mark.length := (List.mem_tails _ _).1 hsuffix |>.length_le
    have hbegins : piece ∈ mark.inits := by
      rw [List.mem_inits]
      exact List.prefix_of_prefix_length_le ⟨more, hrest.symm⟩ (List.prefix_append mark rest) hlength
    rcases hmark piece hbegins hsuffix with hnil | hall
    · rw [hnil, List.append_nil] at hpiece
      exact htext ⟨[], by rw [List.append_nil, hpiece]⟩
    · have hcount := congrArg List.length hpiece
      rw [List.length_append, hall] at hcount
      have hpos := List.length_pos_of_ne_nil hne
      omega

/-- What opens a comment. -/
def opening : List Char := "<!--".toList

/-- What closes a comment. -/
def closing : List Char := "-->".toList

theorem unbordered_opening : Unbordered opening := by decide

theorem unbordered_closing : Unbordered closing := by decide

/-! ## Dropping comments step by step -/

theorem dropComments_opening (rest : List Char) :
    dropComments false (opening ++ rest) = dropComments true rest := rfl

theorem dropComments_closing (rest : List Char) :
    dropComments true (closing ++ rest) = dropComments false rest := rfl

/-- Outside comments a character is kept unless a comment opens with it. -/
theorem dropComments_cons_of_outside {c : Char} {rest : List Char} (h : ¬ opening <+: c :: rest) :
    dropComments false (c :: rest) = c :: dropComments false rest := by
  have hopens : ∀ body, c = '<' → rest = '!' :: '-' :: '-' :: body → False := by
    rintro body rfl rfl
    exact h ⟨body, rfl⟩
  exact dropComments.eq_3 c rest hopens

/-- Inside a comment a character is dropped unless the comment closes with it. -/
theorem dropComments_cons_of_inside {c : Char} {rest : List Char} (h : ¬ closing <+: c :: rest) :
    dropComments true (c :: rest) = dropComments true rest := by
  have hcloses : ∀ behind, c = '-' → rest = '-' :: '>' :: behind → False := by
    rintro behind rfl rfl
    exact h ⟨behind, rfl⟩
  exact dropComments.eq_5 c rest hcloses

/-- Text without an opening mark is kept up to the next comment. -/
theorem dropComments_append_opening {text : List Char} (h : ¬ opening <:+: text)
    (rest : List Char) :
    dropComments false (text ++ (opening ++ rest)) = text ++ dropComments true rest := by
  induction text with
  | nil => exact dropComments_opening rest
  | cons c text ih =>
    rw [List.infix_cons_iff, not_or] at h
    obtain ⟨hfront, hinfix⟩ := h
    have hopens := unbordered_opening.not_prefix_append (List.cons_ne_nil c text) hfront rest
    rw [List.cons_append] at hopens ⊢
    rw [dropComments_cons_of_outside hopens, ih hinfix, List.cons_append]

/-- A comment whose body has no closing mark ends at the mark behind the body. -/
theorem dropComments_append_closing {body : List Char} (h : ¬ closing <:+: body)
    (rest : List Char) :
    dropComments true (body ++ (closing ++ rest)) = dropComments false rest := by
  induction body with
  | nil => exact dropComments_closing rest
  | cons c body ih =>
    rw [List.infix_cons_iff, not_or] at h
    obtain ⟨hfront, hinfix⟩ := h
    have hcloses := unbordered_closing.not_prefix_append (List.cons_ne_nil c body) hfront rest
    rw [List.cons_append] at hcloses ⊢
    rw [dropComments_cons_of_inside hcloses, ih hinfix]

/-- A comment that is never closed runs to the end. -/
theorem dropComments_eq_nil {body : List Char} (h : ¬ closing <:+: body) :
    dropComments true body = [] := by
  induction body with
  | nil => rfl
  | cons c body ih =>
    rw [List.infix_cons_iff, not_or] at h
    obtain ⟨hfront, hinfix⟩ := h
    rw [dropComments_cons_of_inside hfront, ih hinfix]

/-! ## Texts with comments -/

/-- A comment. -/
structure Comment where
  /-- The text between the marks. -/
  body : List Char
  /-- The comment does not close in it. -/
  noClosing : ¬ closing <:+: body

/-- The comment as it is written. -/
def Comment.text (comment : Comment) : List Char := opening ++ comment.body ++ closing

/-- A text in pieces, with comments between them. -/
structure Commented where
  /-- The piece before the first comment. -/
  first : List Char
  /-- The comments, each with the piece behind it. -/
  later : List (Comment × List Char)

namespace Commented

/-- The text as it is written. -/
def text (commented : Commented) : List Char :=
  commented.first ++ commented.later.flatMap fun (comment, piece) => comment.text ++ piece

/-- The text without the comments. -/
def bare (commented : Commented) : List Char :=
  commented.first ++ commented.later.flatMap Prod.snd

/-- What is left of a text with comments, and of whatever stands behind it, are the pieces and what is
left of that, if no comment opens in the pieces. -/
theorem dropComments_text {first : List Char} {later : List (Comment × List Char)}
    (h : ¬ opening <:+: bare ⟨first, later⟩) {behind left : List Char}
    (hbehind : ∀ piece, ¬ opening <:+: piece → dropComments false (piece ++ behind) = piece ++ left) :
    dropComments false (text ⟨first, later⟩ ++ behind) = bare ⟨first, later⟩ ++ left := by
  induction later generalizing first with
  | nil =>
    have hfirst : bare ⟨first, []⟩ = first := List.append_nil first
    rw [hfirst] at h ⊢
    rw [← hbehind first h]
    exact congrArg (fun text => dropComments false (text ++ behind)) (List.append_nil first)
  | cons entry later ih =>
    obtain ⟨comment, piece⟩ := entry
    have htext : text ⟨first, (comment, piece) :: later⟩ ++ behind =
        first ++ (opening ++ (comment.body ++ (closing ++ (text ⟨piece, later⟩ ++ behind)))) := by
      simp [text, Comment.text]
    have hbare : bare ⟨first, (comment, piece) :: later⟩ = first ++ bare ⟨piece, later⟩ := rfl
    rw [hbare] at h
    have hfirst : ¬ opening <:+: first := fun hin =>
      h (hin.trans (List.prefix_append first _).isInfix)
    have hpieces : ¬ opening <:+: bare ⟨piece, later⟩ := fun hin =>
      h (hin.trans (List.suffix_append first _).isInfix)
    rw [htext, dropComments_append_opening hfirst, dropComments_append_closing comment.noClosing,
      ih hpieces, hbare, List.append_assoc]

end Commented

/-- Comments do not show. However a text in which no comment opens is cut and whatever comments are put
between the pieces, the same text is read, and so it is if a comment follows that is never closed. -/
theorem prepare_commented {document : List Char} (h : ¬ opening <:+: document)
    {commented : Commented} (hcut : commented.bare = document) :
    prepare commented.text = prepare document ∧
      ∀ unclosed : Comment,
        prepare (commented.text ++ (opening ++ unclosed.body)) = prepare document := by
  subst hcut
  have hself : dropComments false commented.bare = commented.bare := dropComments_eq_self h
  refine ⟨?_, ?_⟩
  · have hend : ∀ piece, ¬ opening <:+: piece →
        dropComments false (piece ++ []) = piece ++ [] := by
      intro piece hpiece
      rw [List.append_nil]
      exact dropComments_eq_self hpiece
    have hdrop := Commented.dropComments_text h hend
    rw [List.append_nil, List.append_nil] at hdrop
    rw [prepare, prepare, hself]
    exact congrArg (foldBreaks .text) hdrop
  · intro unclosed
    have hend : ∀ piece, ¬ opening <:+: piece →
        dropComments false (piece ++ (opening ++ unclosed.body)) = piece ++ [] := by
      intro piece hpiece
      rw [dropComments_append_opening hpiece, dropComments_eq_nil unclosed.noClosing]
    have hdrop := Commented.dropComments_text h hend
    rw [List.append_nil] at hdrop
    rw [prepare, prepare, hself]
    exact congrArg (foldBreaks .text) hdrop

/-- Comments stand behind three of the four characters that would open one, inside a name, and inside a
quoted value next to a line break; one holds an opening mark and another nothing but a dash. -/
theorem prepare_commented_anywhere :
    let document := "<!-><path d='M0 0\n L1 1'/>".toList
    let commented : Commented :=
      { first := "<!-".toList
        later :=
          [(⟨"-".toList, by decide⟩, "><pa".toList),
            (⟨" <!-- \"' > -".toList, by decide⟩, "th d='M0 0\n".toList),
            (⟨[], by decide⟩, " L1 1'/>".toList)] }
    let unclosed : Comment := ⟨"'-- >".toList, by decide⟩
    ¬ opening <:+: document ∧ commented.bare = document ∧
      prepare commented.text = prepare document ∧
      prepare (commented.text ++ (opening ++ unclosed.body)) = prepare document ∧
      prepare document = "<!-><path d='M0 0  L1 1'/>".toList := by
  refine ⟨?hopening, ?hcut, (prepare_commented ?hopening ?hcut).1,
    (prepare_commented ?hopening ?hcut).2 _, ?_⟩
  all_goals decide +kernel

end PenPlot.Source
