import PenPlot.Markup.Search
import PenPlot.Proofs.Scanning
import PenPlot.Proofs.Slices

/-!
# Searching by position

The search outside quotations goes from byte to byte. Where it meets a quotation mark it cuts the text
behind the mark, to look for the mark that closes the quotation, and goes on behind that one. It may
begin anywhere, for it only cuts at quotation marks, and those are bytes that stand for themselves.

A search that begins between two characters finds what a search over characters finds.
-/

namespace PenPlot

open Text

namespace ByPosition

/-- The position of the first byte at or behind `i` at which `needle` stands outside quotations. -/
def find (needle haystack : List Char) (i : Nat) : Option (Except MarkupFlaw (Option Nat)) := do
  if h : i < byteLength haystack then
    let byte ← byte? i haystack
    if QuoteMarks.isQuote byte then
      match position? (· == Char.ofNat byte.toNat) (← from? (i + 1) haystack) with
      | none => return .error (.unclosedQuotation (← from? i haystack))
      | some length => find needle haystack (i + (length + 2))
    else if (bytes needle).isPrefixOf (← bytesFrom? i haystack) then return .ok (some i)
    else find needle haystack (i + 1)
  else return .ok none
termination_by byteLength haystack - i

end ByPosition

/-! ## The search over bytes -/

theorem eq_of_isQuote {c : Char} (h : QuoteMarks.isQuote c = true) : c = '"' ∨ c = '\'' := by
  simpa [QuoteMarks.isQuote] using h

theorem toNat_lt_of_isQuote {c : Char} (h : QuoteMarks.isQuote c = true) : c.toNat < 128 := by
  obtain rfl | rfl := eq_of_isQuote h
  · decide
  · decide

theorem toNat_lt_of_isQuoteByte {byte : UInt8} (h : QuoteMarks.isQuote byte = true) :
    byte.toNat < 128 := by
  have hmarks : byte = 0x22 ∨ byte = 0x27 := by simpa [QuoteMarks.isQuote] using h
  obtain rfl | rfl := hmarks
  · decide
  · decide

theorem isQuote_firstByte (c : Char) : QuoteMarks.isQuote (firstByte c) = QuoteMarks.isQuote c :=
  firstByte_eq (by decide +kernel) (fun _ => toNat_lt_of_isQuote) c

section

variable {needle haystack : List Char} {i : Nat}

theorem findByte_of_le (h : byteLength haystack ≤ i) : findByte needle haystack i = .ok none := by
  have hnil : (bytes haystack).drop i = [] := by
    rw [List.drop_eq_nil_iff, length_bytes]
    exact h
  rw [findByte, hnil]
  rfl

/-- What is found behind a part of the text is found. -/
theorem findByte_of_behind (front : List UInt8)
    (h : seek (bytes needle) ((bytes haystack).drop i) =
      (seek (bytes needle) ((bytes haystack).drop (i + front.length))).behind front) :
    findByte needle haystack i = findByte needle haystack (i + front.length) := by
  rw [findByte, findByte, h]
  cases seek (bytes needle) ((bytes haystack).drop (i + front.length)) with
  | found before rest => simp only [Search.behind, List.length_append, Nat.add_assoc]
  | absent => rfl
  | unclosed quotation => rfl

theorem drop_bytes_of_byte? {byte : UInt8} (h : byte? i haystack = some byte) :
    (bytes haystack).drop i = byte :: (bytes haystack).drop (i + 1) := by
  obtain ⟨hlt, rfl⟩ := List.getElem?_eq_some_iff.1 h
  exact List.drop_eq_getElem_cons hlt

theorem findByte_of_notQuote (needle : List Char) {byte : UInt8} (hbyte : byte? i haystack = some byte)
    (hquote : ¬ QuoteMarks.isQuote byte = true) :
    findByte needle haystack i =
      if (bytes needle).isPrefixOf ((bytes haystack).drop i) then .ok (some i)
      else findByte needle haystack (i + 1) := by
  have hdrop := drop_bytes_of_byte? hbyte
  split
  · next hfront =>
    rw [findByte, seek, hdrop, seekFrom, if_neg hquote, ← hdrop, if_pos hfront]
    rfl
  · next hfront =>
    refine findByte_of_behind [byte] ?_
    rw [seek, seek, hdrop, seekFrom, if_neg hquote, ← hdrop, if_neg hfront, Search.after_eq_behind]
    rfl

theorem findByte_of_quotation {front body rest : List Char} {mark : Char}
    (hmark : QuoteMarks.isQuote mark = true) (hbody : mark ∉ body) :
    findByte needle (front ++ mark :: (body ++ mark :: rest)) (byteLength front) =
      findByte needle (front ++ mark :: (body ++ mark :: rest))
        (byteLength front + (byteLength body + 2)) := by
  have hascii := toNat_lt_of_isQuote hmark
  have hquote : QuoteMarks.isQuote (firstByte mark) = true := by
    rw [isQuote_firstByte, hmark]
  have hlength : (firstByte mark :: (bytes body ++ [firstByte mark])).length = byteLength body + 2 := by
    simp [length_bytes]
  have hinner : (bytes (front ++ mark :: (body ++ mark :: rest))).drop
      (byteLength front + (firstByte mark :: (bytes body ++ [firstByte mark])).length) =
        bytes rest := by
    have hposition : byteLength (front ++ mark :: (body ++ [mark])) =
        byteLength front + (byteLength body + 2) := by
      simp only [byteLength_append, byteLength_cons, byteLength_nil, utf8Size_eq_one hascii]
      omega
    have hsplit : front ++ mark :: (body ++ mark :: rest) =
        front ++ mark :: (body ++ [mark]) ++ rest := by simp
    rw [hlength, ← hposition, hsplit, drop_bytes]
  rw [← hlength]
  refine findByte_of_behind _ ?_
  rw [hinner, drop_bytes, bytes_cons, bytes_append, bytes_cons, utf8EncodeChar_of_lt hascii,
    List.singleton_append, List.singleton_append, seek_quotation hquote (firstByte_notMem hascii hbody)]

theorem findByte_of_unclosed {front body : List Char} {mark : Char}
    (hmark : QuoteMarks.isQuote mark = true) (hbody : mark ∉ body) :
    findByte needle (front ++ mark :: body) (byteLength front) =
      .error (.unclosedQuotation (mark :: body)) := by
  have hascii := toNat_lt_of_isQuote hmark
  have hquote : QuoteMarks.isQuote (firstByte mark) = true := by
    rw [isQuote_firstByte, hmark]
  have hencode : bytes (mark :: body) = firstByte mark :: bytes body := by
    rw [bytes_cons, utf8EncodeChar_of_lt hascii, List.singleton_append]
  have hlength : byteLength (front ++ mark :: body) - (firstByte mark :: bytes body).length =
      byteLength front := by
    rw [← hencode, length_bytes, byteLength_append]
    omega
  rw [findByte, drop_bytes, hencode, seek, seekFrom, if_pos hquote,
    seekFrom_unclosed (firstByte_notMem hascii hbody)]
  simp only [Search.after, hlength, dropBytes_append]

end

namespace ByPosition

/-- No slice of a search is out of range, wherever the search begins. -/
theorem find_eq (needle haystack : List Char) (i : Nat) :
    find needle haystack i = some (findByte needle haystack i) := by
  induction hleft : byteLength haystack - i using Nat.strongRecOn generalizing i with
  | ind left ih =>
    subst hleft
    rw [find]
    by_cases hlt : i < byteLength haystack
    · obtain ⟨byte, hbyte⟩ : ∃ byte, byte? i haystack = some byte := by
        rw [← length_bytes] at hlt
        exact ⟨_, List.getElem?_eq_getElem hlt⟩
      rw [dif_pos hlt, hbyte, some_bind]
      by_cases hquote : QuoteMarks.isQuote byte = true
      · -- A quotation mark is a whole character, even if the search began inside one.
        rw [if_pos hquote]
        obtain ⟨front, mark, rest, rfl, rfl, hascii, rfl⟩ :=
          exists_of_byte? hbyte (toNat_lt_of_isQuoteByte hquote)
        have hmark : QuoteMarks.isQuote mark = true := by
          rw [← isQuote_firstByte, hquote]
        rw [from?_succ hascii, some_bind, ofNat_firstByte hascii]
        obtain hall | ⟨body, other, more, rfl, hbody, hother⟩ := exists_first (· == mark) rest
        · have hunclosed : mark ∉ rest := fun hmem => by simpa using hall mark hmem
          rw [position?_eq_none hall, from?_append, findByte_of_unclosed hmark hunclosed]
          rfl
        · obtain rfl : other = mark := beq_iff_eq.1 hother
          have hclosed : other ∉ body := fun hmem => by simpa using hbody other hmem
          rw [position?_append hbody hother, findByte_of_quotation hmark hclosed]
          exact ih _ (by omega) _ rfl
      · rw [if_neg hquote, findByte_of_notQuote needle hbyte hquote, bytesFrom?,
          if_pos (Nat.le_of_lt hlt), some_bind]
        split
        · rfl
        · exact ih _ (by omega) _ rfl
    · rw [dif_neg hlt, findByte_of_le (Nat.not_lt.1 hlt)]
      rfl

/-- What is found stands in the text, not before the search begins. -/
theorem bounds_of_find {needle haystack : List Char} {i j : Nat}
    (h : find needle haystack i = some (.ok (some j))) : i ≤ j ∧ j < byteLength haystack := by
  rw [find_eq, findByte] at h
  cases hseek : seek (bytes needle) ((bytes haystack).drop i) with
  | absent =>
    rw [hseek] at h
    cases h
  | unclosed quotation =>
    rw [hseek] at h
    cases h
  | found before rest =>
    rw [hseek] at h
    cases h
    obtain ⟨hsplit, hne, -⟩ := seek_eq_found hseek
    have hrest := List.length_pos_iff.2 hne
    have hlength := congrArg List.length hsplit
    rw [List.length_drop, length_bytes, List.length_append] at hlength
    omega

end ByPosition

/-! ## Searches between characters -/

namespace Text

/-- The bytes of a search result. -/
def Search.encode : Search Char → Search UInt8
  | .found before rest => .found (bytes before) (bytes rest)
  | .absent => .absent
  | .unclosed quotation => .unclosed (bytes quotation)

theorem Search.encode_after (c : Char) (search : Search Char) :
    (search.after c).encode = search.encode.behind (String.utf8EncodeChar c) := by
  cases search <;> rfl

/-- No word begins with a byte that begins no character. -/
theorem not_isPrefixOf_bytes {needle : List Char} (hneedle : needle ≠ []) {b : UInt8}
    (hb : ¬ b.IsUTF8FirstByte) (rest : List UInt8) :
    ¬ (bytes needle).isPrefixOf (b :: rest) = true := by
  obtain ⟨c, word, rfl⟩ := List.exists_cons_of_ne_nil hneedle
  obtain ⟨d, more, hencode⟩ := List.exists_cons_of_ne_nil (String.utf8EncodeChar_ne_nil (c := c))
  rw [bytes_cons, hencode, List.cons_append, List.isPrefixOf_iff_prefix, List.cons_prefix_cons]
  rintro ⟨rfl, -⟩
  have hfirst := UInt8.isUTF8FirstByte_getElem_zero_utf8EncodeChar (c := c)
  simp only [hencode, List.getElem_cons_zero] at hfirst
  exact hb hfirst

/-- Bytes that begin no character are passed over. -/
theorem seekFrom_tail {needle : List Char} (hneedle : needle ≠ []) {tail : List UInt8}
    (htail : ∀ b ∈ tail, 128 ≤ b.toNat ∧ ¬ b.IsUTF8FirstByte) (rest : List UInt8) :
    seekFrom (bytes needle) none (tail ++ rest) =
      (seekFrom (bytes needle) none rest).behind tail := by
  induction tail with
  | nil => rw [List.nil_append, Search.behind_nil]
  | cons b tail ih =>
    rw [List.forall_mem_cons] at htail
    obtain ⟨⟨hupper, hbegins⟩, htail⟩ := htail
    have hquote : ¬ QuoteMarks.isQuote b = true := by
      intro h
      have hlt := toNat_lt_of_isQuoteByte h
      omega
    have hfront := not_isPrefixOf_bytes hneedle hbegins (tail ++ rest)
    rw [List.cons_append, seekFrom, if_neg hquote, if_neg hfront, ih htail, Search.behind_after]

/-- The search over the bytes of a text is the search over the text. -/
theorem seekFrom_bytes {needle : List Char} (within : Option (Char × List Char))
    (hwithin : ∀ quotation ∈ within, quotation.1.toNat < 128) (text : List Char) :
    seekFrom (bytes needle) (within.map fun quotation => (firstByte quotation.1, bytes quotation.2))
      (bytes text) = (seekFrom needle within text).encode := by
  induction text generalizing within with
  | nil => cases within <;> rfl
  | cons c text ih =>
    rw [bytes_cons]
    cases within with
    | some quotation =>
      obtain ⟨mark, quotation⟩ := quotation
      have hmark : mark.toNat < 128 := hwithin _ rfl
      rw [seekFrom, Search.encode_after, Option.map_some]
      by_cases hc : c = mark
      · subst hc
        rw [if_pos rfl, utf8EncodeChar_of_lt hmark, List.singleton_append, seekFrom, if_pos rfl,
          Search.after_eq_behind]
        exact congrArg _ (ih none (by rintro _ ⟨⟩))
      · have hbytes : firstByte mark ∉ String.utf8EncodeChar c := by
          have hword : mark ∉ [c] := fun hmem => hc (List.mem_singleton.1 hmem).symm
          simpa using firstByte_notMem hmark hword
        rw [if_neg hc, seekFrom_inside hbytes]
        exact congrArg _ (ih (some (mark, quotation)) hwithin)
    | none =>
      rw [seekFrom]
      by_cases hquote : QuoteMarks.isQuote c = true
      · have hmark := toNat_lt_of_isQuote hquote
        have hbyte : QuoteMarks.isQuote (firstByte c) = true := by rw [isQuote_firstByte, hquote]
        rw [if_pos hquote, Search.encode_after, utf8EncodeChar_of_lt hmark, List.singleton_append,
          Option.map_none, seekFrom, if_pos hbyte, Search.after_eq_behind]
        have hinside := ih (some (c, c :: text)) (by rintro _ ⟨⟩; exact hmark)
        rw [Option.map_some, bytes_cons, utf8EncodeChar_of_lt hmark, List.singleton_append] at hinside
        exact congrArg _ hinside
      · have hbyte : ¬ QuoteMarks.isQuote (firstByte c) = true := by
          rw [isQuote_firstByte]
          exact hquote
        obtain ⟨tail, hencode, htail⟩ := exists_utf8EncodeChar_eq c
        have hprefix := isPrefixOf_bytes needle (c :: text)
        rw [bytes_cons, hencode, List.cons_append] at hprefix
        rw [if_neg hquote, Option.map_none, hencode, List.cons_append, seekFrom, if_neg hbyte, hprefix]
        by_cases hfront : needle.isPrefixOf (c :: text) = true
        · rw [if_pos hfront, if_pos hfront, Search.encode, bytes_nil, bytes_cons, hencode,
            List.cons_append]
        · have hneedle : needle ≠ [] := by
            rintro rfl
            exact hfront rfl
          rw [if_neg hfront, if_neg hfront, Search.encode_after, hencode,
            seekFrom_tail hneedle htail, Search.behind_after]
          exact congrArg _ (ih none (by rintro _ ⟨⟩))

theorem seek_bytes (needle text : List Char) :
    seek (bytes needle) (bytes text) = (seek needle text).encode :=
  seekFrom_bytes none nofun text

/-- A quotation that is never closed ends the text. -/
theorem seekFrom_eq_unclosed {needle : List Char} {within : Option (Char × List Char)}
    {text quotation : List Char} (h : seekFrom needle within text = .unclosed quotation) :
    (∃ mark, within = some (mark, quotation)) ∨ ∃ front, text = front ++ quotation := by
  induction text generalizing within with
  | nil =>
    cases within with
    | none => cases h
    | some pair =>
      cases h
      exact .inl ⟨pair.1, rfl⟩
  | cons c text ih =>
    have hlater : ∀ {within : Option (Char × List Char)},
        (seekFrom needle within text).after c = .unclosed quotation →
          (∃ mark, within = some (mark, quotation)) ∨ ∃ front, c :: text = front ++ quotation := by
      intro within hafter
      cases hsearch : seekFrom needle within text with
      | found before rest =>
        rw [hsearch] at hafter
        cases hafter
      | absent =>
        rw [hsearch] at hafter
        cases hafter
      | unclosed later =>
        rw [hsearch] at hafter
        cases hafter
        obtain hopen | ⟨front, rfl⟩ := ih hsearch
        · exact .inl hopen
        · exact .inr ⟨c :: front, rfl⟩
    rcases within with _ | ⟨mark, inner⟩
    · rw [seekFrom] at h
      split at h
      · obtain ⟨mark, hopen⟩ | hfront := hlater h
        · cases hopen
          exact .inr ⟨[], rfl⟩
        · exact .inr hfront
      · split at h
        · cases h
        · obtain ⟨mark, hopen⟩ | hfront := hlater h
          · cases hopen
          · exact .inr hfront
    · rw [seekFrom] at h
      obtain ⟨other, hopen⟩ | hfront := hlater h
      · split at hopen
        · cases hopen
        · exact .inl ⟨other, hopen ▸ rfl⟩
      · exact .inr hfront

end Text

/-- A search that begins between two characters is one over characters. -/
theorem findByte_append (needle front text : List Char) :
    findByte needle (front ++ text) (byteLength front) =
      match seek needle text with
      | .found before _ => .ok (some (byteLength front + byteLength before))
      | .absent => .ok none
      | .unclosed quotation => .error (.unclosedQuotation quotation) := by
  rw [findByte, drop_bytes, seek_bytes]
  cases hsearch : seek needle text with
  | found before rest => simp only [Search.encode, length_bytes]
  | absent => rfl
  | unclosed quotation =>
    obtain ⟨mark, hopen⟩ | ⟨body, rfl⟩ := seekFrom_eq_unclosed hsearch
    · cases hopen
    · have hlength : byteLength (front ++ (body ++ quotation)) - byteLength quotation =
          byteLength (front ++ body) := by
        simp only [byteLength_append]
        omega
      simp only [Search.encode, length_bytes, hlength]
      rw [← List.append_assoc, dropBytes_append]

end PenPlot
