/-!
# Quotations

Inside a tag a quotation mark opens a quotation, which the next mark of the same kind closes; what
lies between means nothing to whoever searches the tag. The search here is written over symbols of
any type that tells its quotation marks, so that one definition serves a text as characters and the
same text as bytes.

The search result keeps the pieces of the text instead of positions: `seek_eq_found` says that they
are pieces of the text that was searched.
-/

namespace PenPlot.Text

/-- Symbols some of which are quotation marks. -/
class QuoteMarks (σ : Type) where
  /-- The symbol opens a quotation, and closes one that it opened. -/
  isQuote : σ → Bool

instance instQuoteMarksChar : QuoteMarks Char := ⟨fun c => c == '"' || c == '\''⟩

instance instQuoteMarksByte : QuoteMarks UInt8 := ⟨fun b => b == 0x22 || b == 0x27⟩

/-- What a search outside quotations comes to. -/
inductive Search (σ : Type) where
  /-- The text is `before ++ after`, and what was sought stands at the front of `after`. -/
  | found (before after : List σ)
  /-- The text ends without it. -/
  | absent
  /-- A quotation is opened, the text from its mark on being `quotation`, and never closed. -/
  | unclosed (quotation : List σ)
  deriving DecidableEq, Repr

/-- The same search result for a text with one more symbol in front. -/
def Search.after {σ : Type} (c : σ) : Search σ → Search σ
  | .found before rest => .found (c :: before) rest
  | .absent => .absent
  | .unclosed quotation => .unclosed quotation

section

variable {σ : Type} [DecidableEq σ] [QuoteMarks σ]

/-- The search in the middle of a text. `within` holds the mark of the quotation that the text begins
in, if it begins in one, with the text from that mark on. -/
def seekFrom (needle : List σ) (within : Option (σ × List σ)) : List σ → Search σ
  | [] =>
    match within with
    | none => .absent
    | some (_, quotation) => .unclosed quotation
  | c :: rest =>
    match within with
    | some (mark, quotation) =>
      (seekFrom needle (if c = mark then none else some (mark, quotation)) rest).after c
    | none =>
      if QuoteMarks.isQuote c then (seekFrom needle (some (c, c :: rest)) rest).after c
      else if needle.isPrefixOf (c :: rest) then .found [] (c :: rest)
      else (seekFrom needle none rest).after c

/-- Looks for the first place outside quotations at which `needle` stands. -/
def seek (needle text : List σ) : Search σ := seekFrom needle none text

/-- The places outside quotations at which `needle` stands, in order: for each the symbol before it,
if there is one, and the text behind the needle. A quotation that is never closed hides everything
after its mark. `previous` is the symbol before the text, `within` the mark of the quotation that the
text begins in. -/
def occurrencesFrom (needle : List σ) (previous within : Option σ) :
    List σ → List (Option σ × List σ)
  | [] => []
  | c :: rest =>
    match within with
    | some mark => occurrencesFrom needle (some c) (if c = mark then none else some mark) rest
    | none =>
      if QuoteMarks.isQuote c then occurrencesFrom needle (some c) (some c) rest
      else
        let later := occurrencesFrom needle (some c) none rest
        if needle.isPrefixOf (c :: rest) then (previous, (c :: rest).drop needle.length) :: later
        else later

/-- The places outside quotations at which `needle` stands. -/
def occurrences (needle text : List σ) : List (Option σ × List σ) :=
  occurrencesFrom needle none none text

theorem seekFrom_eq_found {needle : List σ} {within : Option (σ × List σ)}
    {text before after : List σ} (h : seekFrom needle within text = .found before after) :
    text = before ++ after ∧ after ≠ [] ∧ needle.isPrefixOf after := by
  induction text generalizing within before with
  | nil => cases within <;> simp [seekFrom] at h
  | cons c rest ih =>
    have step : ∀ {o : Option (σ × List σ)},
        (seekFrom needle o rest).after c = .found before after →
          c :: rest = before ++ after ∧ after ≠ [] ∧ needle.isPrefixOf after := by
      intro o ho
      cases hs : seekFrom needle o rest with
      | found b a =>
        rw [hs] at ho
        simp only [Search.after, Search.found.injEq] at ho
        obtain ⟨rfl, rfl⟩ := ho
        simpa using ih hs
      | absent => simp [hs, Search.after] at ho
      | unclosed q => simp [hs, Search.after] at ho
    cases within with
    | some mark => exact step (by simpa [seekFrom] using h)
    | none =>
      simp only [seekFrom] at h
      split at h
      · exact step h
      · split at h
        · next hp =>
          simp only [Search.found.injEq] at h
          obtain ⟨rfl, rfl⟩ := h
          exact ⟨rfl, List.cons_ne_nil _ _, hp⟩
        · exact step h

/-- What is found are two pieces of the text, and the second begins with what was sought. -/
theorem seek_eq_found {needle text before after : List σ}
    (h : seek needle text = .found before after) :
    text = before ++ after ∧ after ≠ [] ∧ needle.isPrefixOf after :=
  seekFrom_eq_found h

end

end PenPlot.Text
