import PenPlot.Markup.Attribute
import PenPlot.Proofs.Comments
import PenPlot.Proofs.Seeking

/-!
# Values looked up by position

The name of an attribute is looked for byte by byte, and each time it is found the search begins again at
the next byte. That may be inside a character, where nothing is found, or, if the name is empty, where it
is found but does not stand behind a gap: the bytes of a character that takes several are no gaps. So the
text is cut only behind a name that begins between characters, and there it ends between characters.
-/

namespace PenPlot

open Text

namespace ByPosition

/-- Whether a name may begin at a position, by the byte before it. -/
def mayBegin (i : Nat) (text : List Char) : Option Bool :=
  if i = 0 then some true else (byte? (i - 1) text).map isGapByte

/-- The value assigned by what stands behind a name, or what is found further on if none is. -/
def assigned (behind : List Char) (further : Option (Option (List Char))) :
    Option (Option (List Char)) := do
  match trimStart behind with
  | '=' :: text =>
    match trimStart text with
    | [] => return none
    | mark :: value =>
      if QuoteMarks.isQuote mark then
        let body ← from? 1 (mark :: value)
        match position? (· == mark) body with
        | none => return none
        | some stop => return some (← upTo? stop body)
      else further
  | _ => further

/-- The value assigned to a name at a position, or what is found further on if the name does not stand on
its own there. -/
def valueAt (name attributes : List Char) (i : Nat) (further : Option (Option (List Char))) :
    Option (Option (List Char)) := do
  if ← mayBegin i attributes then assigned (← from? (i + byteLength name) attributes) further
  else further

/-- The value of the first assignment to a name at or behind a position. -/
def valueOf (name attributes : List Char) (start : Nat) : Option (Option (List Char)) :=
  match _h : find name attributes start with
  | none => none
  | some (.ok (some i)) => valueAt name attributes i (valueOf name attributes (i + 1))
  | some (.ok none) | some (.error _) => some none
termination_by byteLength attributes - start
decreasing_by
  have hbounds := bounds_of_find _h
  omega

/-- The text without comments. -/
def stripComments (text : List Char) : Option (List Char) :=
  match positionOf? Source.opening text with
  | none => some text
  | some opening => do
    let kept ← upTo? opening text
    match positionOf? Source.closing (← from? (opening + 4) text) with
    | none => return kept
    | some closing =>
      match _h : from? (opening + 4 + closing + 3) text with
      | none => none
      | some rest => return kept ++ (← stripComments rest)
termination_by byteLength text
decreasing_by
  have hlength := byteLength_of_from? _h
  omega

/-- The text that is read for a source text. -/
def prepare (source : List Char) : Option (List Char) :=
  (stripComments source).map (Source.foldBreaks .text)

end ByPosition

/-! ## Occurrences -/

namespace Text

variable {σ : Type} [DecidableEq σ] [QuoteMarks σ] {needle : List σ}

/-- The first occurrence is the one that a search finds, and the others stand behind its first symbol. -/
theorem occurrencesFrom_eq (previous : Option σ) (within : Option (σ × List σ)) (text : List σ) :
    occurrencesFrom needle previous (within.map Prod.fst) text =
      match seekFrom needle within text with
      | .found before after =>
        (before.getLast?.or previous, after.drop needle.length) ::
          occurrencesFrom needle after.head? none after.tail
      | _ => [] := by
  induction text generalizing previous within with
  | nil => cases within <;> rfl
  | cons c text ih =>
    -- Behind the first symbol the same is found, with the first symbol before it.
    have hlater : ∀ within : Option (σ × List σ),
        occurrencesFrom needle (some c) (within.map Prod.fst) text =
          match (seekFrom needle within text).after c with
          | .found before after =>
            (before.getLast?.or previous, after.drop needle.length) ::
              occurrencesFrom needle after.head? none after.tail
          | _ => [] := by
      intro within
      rw [ih (some c) within]
      cases seekFrom needle within text with
      | found before after =>
        simp only [Search.after, List.getLast?_cons]
        cases before.getLast? <;> rfl
      | absent => rfl
      | unclosed quotation => rfl
    cases within with
    | some quotation =>
      obtain ⟨mark, quotation⟩ := quotation
      have hrest := hlater (if c = mark then none else some (mark, quotation))
      rw [seekFrom, ← hrest, Option.map_some, occurrencesFrom]
      split <;> rfl
    | none =>
      rw [Option.map_none, occurrencesFrom, seekFrom]
      by_cases hquote : QuoteMarks.isQuote c = true
      · rw [if_pos hquote, if_pos hquote, ← hlater (some (c, c :: text))]
        rfl
      · rw [if_neg hquote, if_neg hquote]
        by_cases hfront : needle.isPrefixOf (c :: text) = true
        · rw [if_pos hfront, if_pos hfront]
          rfl
        · rw [if_neg hfront, if_neg hfront, ← hlater none]
          rfl

theorem occurrencesFrom_of_seek (needle : List σ) (previous : Option σ) (text : List σ) :
    occurrencesFrom needle previous none text =
      match seek needle text with
      | .found before after =>
        (before.getLast?.or previous, after.drop needle.length) ::
          occurrencesFrom needle after.head? none after.tail
      | _ => [] :=
  occurrencesFrom_eq previous none text

end Text

/-! ## Values of attributes -/

/-- The value of the first assignment to a name in a part of an attribute text. -/
def valueFrom (name : List Char) (previous : Option Char) (text : List Char) : Option (List Char) :=
  let assignments : List Assignment :=
    (occurrencesFrom name previous none text).map fun (previous, behind) =>
      if mayPrecedeName previous then Assignment.read behind else .absent
  match assignments.find? (· != .absent) with
  | some (.value text) => some text
  | _ => none

namespace ByPosition

variable {front rest : List Char} {c : Char} {k : Nat}

/-- Between characters a name may begin behind the character before. -/
theorem mayBegin_append (front rest : List Char) :
    mayBegin (byteLength front) (front ++ rest) = some (mayPrecedeName front.getLast?) := by
  obtain rfl | ⟨init, d, rfl⟩ := List.eq_nil_or_concat front
  · rfl
  · rw [List.concat_eq_append]
    have hd := d.utf8Size_pos
    have hlength : byteLength (init ++ [d]) = byteLength init + d.utf8Size := by
      rw [byteLength_append, byteLength_cons, byteLength_nil, Nat.add_zero]
    have hsplit : init ++ [d] ++ rest = init ++ d :: rest := List.append_assoc ..
    have hbefore : byteLength init + d.utf8Size - 1 = byteLength init + (d.utf8Size - 1) := by omega
    rw [mayBegin, hlength, if_neg (by omega), hsplit, hbefore, List.getLast?_concat, mayPrecedeName]
    obtain hlt | hle := Nat.lt_or_ge d.toNat 128
    · rw [utf8Size_eq_one hlt, Nat.sub_self, Nat.add_zero, byte?_append, Option.map_some,
        isGapByte_firstByte]
    · obtain ⟨b, hb, hupper⟩ := byte?_of_le hle (k := d.utf8Size - 1) (by omega) init rest
      have hgap : isGap d = false := by
        refine Bool.eq_false_iff.2 fun h => ?_
        have hlt := toNat_lt_of_isGap h
        omega
      rw [hb, Option.map_some, isGapByte_of_le hupper, hgap]

theorem mayBegin_inside (hpos : 0 < k) (hk : k < c.utf8Size) :
    mayBegin (byteLength front + k) (front ++ c :: rest) = some false := by
  have hc : 128 ≤ c.toNat := by
    refine Nat.le_of_not_lt fun hlt => ?_
    rw [utf8Size_eq_one hlt] at hk
    omega
  have hbefore : byteLength front + k - 1 = byteLength front + (k - 1) := by omega
  obtain ⟨b, hb, hupper⟩ := byte?_of_le hc (k := k - 1) (by omega) front rest
  rw [mayBegin, if_neg (by omega), hbefore, hb, Option.map_some, isGapByte_of_le hupper]

/-- From inside a character the look-up goes on to its next byte. -/
theorem valueOf_inside (name : List Char) (hpos : 0 < k) (hk : k < c.utf8Size) :
    valueOf name (front ++ c :: rest) (byteLength front + k) =
      valueOf name (front ++ c :: rest) (byteLength front + k + 1) := by
  obtain ⟨b, hb, hupper, hbegins⟩ := byte?_inside hpos hk front rest
  have hquote : ¬ QuoteMarks.isQuote b = true := by
    intro h
    have hlt := toNat_lt_of_isQuoteByte h
    omega
  have hfind := findByte_of_notQuote name hb hquote
  by_cases hname : name = []
  · subst hname
    rw [if_pos (by rfl)] at hfind
    rw [valueOf, find_eq, hfind]
    simp only
    rw [valueAt, mayBegin_inside hpos hk]
    rfl
  · rw [drop_bytes_of_byte? hb, if_neg (not_isPrefixOf_bytes hname hbegins _)] at hfind
    rw [valueOf, find_eq, hfind, ← find_eq, ← valueOf]

theorem valueOf_skip (name : List Char) :
    valueOf name (front ++ c :: rest) (byteLength front + 1) =
      valueOf name (front ++ c :: rest) (byteLength front + c.utf8Size) := by
  have hc := c.utf8Size_pos
  have hsteps : ∀ k, 0 < k → k ≤ c.utf8Size →
      valueOf name (front ++ c :: rest) (byteLength front + 1) =
        valueOf name (front ++ c :: rest) (byteLength front + k) := by
    intro k hpos
    induction k, hpos using Nat.le_induction with
    | base => exact fun _ => rfl
    | succ k hpos ih =>
      intro hk
      rw [ih (by omega), valueOf_inside name hpos (by omega), Nat.add_assoc]
  exact hsteps _ hc (Nat.le_refl _)

end ByPosition

theorem valueFrom_of_nil {name : List Char} {previous : Option Char} {text : List Char}
    (h : occurrencesFrom name previous none text = []) : valueFrom name previous text = none := by
  rw [valueFrom, h]
  rfl

/-- The first occurrence decides, unless no value is assigned there. -/
theorem valueFrom_of_cons {name behind : List Char} {previous before next : Option Char}
    {text more : List Char}
    (h : occurrencesFrom name previous none text =
      (before, behind) :: occurrencesFrom name next none more) :
    valueFrom name previous text =
      match if mayPrecedeName before then Assignment.read behind else .absent with
      | .absent => valueFrom name next more
      | .value value => some value
      | .unfinished => none := by
  rw [valueFrom, h]
  simp only [List.map_cons, List.find?_cons]
  generalize (if mayPrecedeName before then Assignment.read behind else .absent) = assignment
  cases assignment <;> rfl

namespace ByPosition

theorem assigned_eq (behind : List Char) (further : Option (Option (List Char))) :
    assigned behind further =
      match Assignment.read behind with
      | .absent => further
      | .value value => some (some value)
      | .unfinished => some none := by
  rw [assigned]
  by_cases hequals : (trimStart behind).head? = some '='
  · obtain ⟨text, htext⟩ : ∃ text, trimStart behind = '=' :: text := by
      cases htrim : trimStart behind with
      | nil =>
        rw [htrim] at hequals
        cases hequals
      | cons d text =>
        rw [htrim] at hequals
        cases hequals
        exact ⟨text, rfl⟩
    rw [Assignment.read, htext]
    simp only
    cases htrim : trimStart text with
    | nil => rfl
    | cons mark value =>
      simp only
      by_cases hquote : QuoteMarks.isQuote mark = true
      · have hbody : from? 1 (mark :: value) = some value :=
          from?_succ (toNat_lt_of_isQuote hquote) [] value
        rw [if_pos hquote, if_pos hquote, hbody, some_bind, position?_eq]
        by_cases hmem : mark ∈ value
        · have hany : value.any (· == mark) = true := by
            rw [List.any_eq_true]
            exact ⟨mark, hmem, beq_self_eq_true mark⟩
          rw [if_pos hany, if_pos hmem]
          show (upTo? _ value >>= _) = _
          rw [upTo?_takeWhile]
          rfl
        · have hany : ¬ value.any (· == mark) = true := by
            rw [List.any_eq_true]
            rintro ⟨d, hd, heq⟩
            exact hmem (beq_iff_eq.1 heq ▸ hd)
          rw [if_neg hany, if_neg hmem]
          rfl
      · rw [if_neg hquote, if_neg hquote]
  · rw [Assignment.read_of_ne hequals]
    split
    · next heq => exact absurd (congrArg List.head? heq) hequals
    · rfl

/-- No slice of the look-up of a value is out of range, wherever it begins between characters. -/
theorem valueOf_append (name front text : List Char) :
    valueOf name (front ++ text) (byteLength front) =
      some (valueFrom name front.getLast? text) := by
  induction hlength : text.length using Nat.strongRecOn generalizing front text with
  | ind length ih =>
    subst hlength
    have hoccurrences := occurrencesFrom_of_seek name front.getLast? text
    rw [valueOf, find_eq, findByte_append]
    cases hseek : seek name text with
    | absent =>
      rw [hseek] at hoccurrences
      exact (congrArg some (valueFrom_of_nil hoccurrences)).symm
    | unclosed quotation =>
      rw [hseek] at hoccurrences
      exact (congrArg some (valueFrom_of_nil hoccurrences)).symm
    | found before after =>
      rw [hseek] at hoccurrences
      obtain ⟨rfl, hne, hfront⟩ := seek_eq_found hseek
      obtain ⟨c, more, rfl⟩ := List.exists_cons_of_ne_nil hne
      obtain ⟨behind, hbehind⟩ := List.isPrefixOf_iff_prefix.1 hfront
      have hdrop : (c :: more).drop name.length = behind := by
        rw [← hbehind, List.drop_left]
      have hstart : byteLength front + byteLength before = byteLength (front ++ before) :=
        (byteLength_append front before).symm
      have hbegin := mayBegin_append (front ++ before) (c :: more)
      have hcut : from? (byteLength (front ++ before) + byteLength name)
          (front ++ before ++ c :: more) = some behind := by
        rw [← byteLength_append, ← hbehind, ← List.append_assoc, from?_append]
      -- The search goes on behind the first character of the name.
      have hfurther : valueOf name (front ++ before ++ c :: more) (byteLength (front ++ before) + 1) =
          some (valueFrom name (some c) more) := by
        have hlonger : more.length < (before ++ c :: more).length := by
          rw [List.length_append, List.length_cons]
          omega
        have hlater := ih more.length hlonger (front ++ before ++ [c]) more rfl
        rw [List.append_assoc _ [c], List.singleton_append, List.getLast?_concat, byteLength_append,
          byteLength_cons, byteLength_nil, Nat.add_zero] at hlater
        rw [valueOf_skip, hlater]
      rw [List.getLast?_append] at hbegin
      simp only [hdrop, List.head?_cons, List.tail_cons] at hoccurrences
      rw [valueFrom_of_cons hoccurrences, ← List.append_assoc]
      simp only
      rw [valueAt, hstart, hbegin, some_bind, hfurther]
      cases mayPrecedeName (before.getLast?.or front.getLast?) with
      | false => rfl
      | true =>
        rw [if_pos rfl, if_pos rfl, hcut, some_bind, assigned_eq]
        cases Assignment.read behind <;> rfl

theorem valueOf_eq (name attributes : List Char) :
    valueOf name attributes 0 = some (attribute? name attributes) :=
  valueOf_append name [] attributes

end ByPosition

/-! ## Comments -/

namespace Source

/-- The text before the first opening mark is kept. -/
theorem dropComments_of_positionOf? {text : List Char} {i : Nat}
    (h : positionOf? opening text = some i) :
    ∃ kept rest, text = kept ++ (opening ++ rest) ∧ byteLength kept = i ∧
      dropComments false text = kept ++ dropComments true rest := by
  induction text generalizing i with
  | nil => cases h
  | cons c text ih =>
    rw [positionOf?] at h
    split at h
    · next hfront =>
      cases h
      obtain ⟨rest, hrest⟩ := List.isPrefixOf_iff_prefix.1 hfront
      refine ⟨[], rest, hrest.symm, rfl, ?_⟩
      rw [← hrest, dropComments_opening, List.nil_append]
    · next hfront =>
      rw [List.isPrefixOf_iff_prefix] at hfront
      obtain ⟨j, hj, rfl⟩ := Option.map_eq_some_iff.1 h
      obtain ⟨kept, rest, rfl, rfl, hdrop⟩ := ih hj
      refine ⟨c :: kept, rest, rfl, byteLength_cons c kept, ?_⟩
      rw [dropComments_cons_of_outside hfront, hdrop, List.cons_append]

theorem dropComments_of_noOpening {text : List Char} (h : positionOf? opening text = none) :
    dropComments false text = text := by
  induction text with
  | nil => rfl
  | cons c text ih =>
    rw [positionOf?] at h
    split at h
    · cases h
    · next hfront =>
      rw [List.isPrefixOf_iff_prefix] at hfront
      rw [dropComments_cons_of_outside hfront, ih (Option.map_eq_none_iff.1 h)]

theorem dropComments_true_of_positionOf? {text : List Char} {i : Nat}
    (h : positionOf? closing text = some i) :
    ∃ body rest, text = body ++ (closing ++ rest) ∧ byteLength body = i ∧
      dropComments true text = dropComments false rest := by
  induction text generalizing i with
  | nil => cases h
  | cons c text ih =>
    rw [positionOf?] at h
    split at h
    · next hfront =>
      cases h
      obtain ⟨rest, hrest⟩ := List.isPrefixOf_iff_prefix.1 hfront
      refine ⟨[], rest, hrest.symm, rfl, ?_⟩
      rw [← hrest, dropComments_closing]
    · next hfront =>
      rw [List.isPrefixOf_iff_prefix] at hfront
      obtain ⟨j, hj, rfl⟩ := Option.map_eq_some_iff.1 h
      obtain ⟨body, rest, rfl, rfl, hdrop⟩ := ih hj
      refine ⟨c :: body, rest, rfl, byteLength_cons c body, ?_⟩
      rw [dropComments_cons_of_inside hfront, hdrop]

theorem dropComments_true_of_noClosing {text : List Char} (h : positionOf? closing text = none) :
    dropComments true text = [] := by
  induction text with
  | nil => rfl
  | cons c text ih =>
    rw [positionOf?] at h
    split at h
    · cases h
    · next hfront =>
      rw [List.isPrefixOf_iff_prefix] at hfront
      rw [dropComments_cons_of_inside hfront, ih (Option.map_eq_none_iff.1 h)]

end Source

namespace ByPosition

theorem stripComments_eq (text : List Char) :
    stripComments text = some (Source.dropComments false text) := by
  induction hlength : text.length using Nat.strongRecOn generalizing text with
  | ind length ih =>
    subst hlength
    rw [stripComments]
    cases hopening : positionOf? Source.opening text with
    | none => exact (congrArg some (Source.dropComments_of_noOpening hopening)).symm
    | some i =>
      obtain ⟨kept, rest, rfl, rfl, hkept⟩ := Source.dropComments_of_positionOf? hopening
      have hmark : byteLength Source.opening = 4 := by decide
      have hinside : from? (byteLength kept + 4) (kept ++ (Source.opening ++ rest)) = some rest := by
        rw [← hmark, ← byteLength_append, ← List.append_assoc, from?_append]
      show (upTo? (byteLength kept) _ >>= _) = _
      rw [upTo?_append, some_bind, hinside, some_bind, hkept]
      cases hclosing : positionOf? Source.closing rest with
      | none =>
        rw [Source.dropComments_true_of_noClosing hclosing, List.append_nil]
        rfl
      | some j =>
        obtain ⟨body, more, rfl, rfl, hdropped⟩ :=
          Source.dropComments_true_of_positionOf? hclosing
        have hend : byteLength Source.closing = 3 := by decide
        have hbehind : from? (byteLength kept + 4 + byteLength body + 3)
            (kept ++ (Source.opening ++ (body ++ (Source.closing ++ more)))) = some more := by
          have hsplit : kept ++ (Source.opening ++ (body ++ (Source.closing ++ more))) =
              kept ++ Source.opening ++ body ++ Source.closing ++ more := by
            simp only [List.append_assoc]
          rw [hsplit, ← hmark, ← hend, ← byteLength_append, ← byteLength_append,
            ← byteLength_append, from?_append]
        have hshorter : more.length <
            (kept ++ (Source.opening ++ (body ++ (Source.closing ++ more)))).length := by
          have hlength : Source.opening.length = 4 := rfl
          simp only [List.length_append]
          omega
        simp only
        rw [hbehind]
        simp only
        rw [ih _ hshorter more rfl, some_bind, hdropped]
        rfl

theorem prepare_eq (source : List Char) : prepare source = some (Source.prepare source) := by
  rw [prepare, stripComments_eq]
  rfl

end ByPosition

end PenPlot
