import PenPlot.Plot.Walk
import PenPlot.Proofs.NumberLists
import PenPlot.Scalar.Machine

/-!
# Transform lists as they are written

A transform list is written as calls, with blanks and commas around and between them. A call is the name
of a function and, between parentheses, a list of numbers, of which some may be left out.
`Affine.readList_written` says that these texts are read as the product of the transforms of their calls
from left to right, and that all other texts are rejected.
-/

namespace PenPlot

open Text

/-- A call of a transform list. -/
inductive TransformCall (β : Type) where
  /-- All six coefficients. -/
  | matrix (a b c d e f : β)
  /-- A shift, along the ordinate if that is given. -/
  | translate (x : β) (y : Option β)
  /-- A stretch, the same along both axes if only one is given. -/
  | scale (x : β) (y : Option β)
  /-- A rotation, about the origin if no other point is given. -/
  | rotate (degrees : β) (center : Option (Point β))
  /-- A slant along the abscissa. -/
  | skewX (degrees : β)
  /-- A slant along the ordinate. -/
  | skewY (degrees : β)

namespace TransformCall

variable {β γ : Type}

/-- The function that is called. -/
def function : TransformCall β → TransformFunction
  | matrix .. => .matrix
  | translate .. => .translate
  | scale .. => .scale
  | rotate .. => .rotate
  | skewX _ => .skewX
  | skewY _ => .skewY

/-- The numbers between the parentheses. -/
def arguments : TransformCall β → List β
  | matrix a b c d e f => [a, b, c, d, e, f]
  | translate x y => x :: y.toList
  | scale x y => x :: y.toList
  | rotate degrees center => degrees :: (center.map fun p => [p.x, p.y]).getD []
  | skewX degrees => [degrees]
  | skewY degrees => [degrees]

/-- The call with other values for its numbers. -/
def map (f : β → γ) : TransformCall β → TransformCall γ
  | matrix a b c d e f' => matrix (f a) (f b) (f c) (f d) (f e) (f f')
  | translate x y => translate (f x) (y.map f)
  | scale x y => scale (f x) (y.map f)
  | rotate degrees center => rotate (f degrees) (center.map fun p => ⟨f p.x, f p.y⟩)
  | skewX degrees => skewX (f degrees)
  | skewY degrees => skewY (f degrees)

/-- The transform that the call is. -/
def affine {α : Type} [Scalar α] : TransformCall α → Affine α
  | matrix a b c d e f => ⟨a, b, c, d, e, f⟩
  | translate x y => .translate x (y.getD 0)
  | scale x y => .scale x (y.getD x)
  | rotate degrees none => .rotate (Scalar.ofDegrees degrees)
  | rotate degrees (some center) => .rotateAround (Scalar.ofDegrees degrees) center
  | skewX degrees => .skewX (Scalar.ofDegrees degrees)
  | skewY degrees => .skewY (Scalar.ofDegrees degrees)

@[simp]
theorem function_map (f : β → γ) (call : TransformCall β) : (call.map f).function = call.function := by
  cases call <;> rfl

@[simp]
theorem arguments_map (f : β → γ) (call : TransformCall β) :
    (call.map f).arguments = call.arguments.map f := by
  rcases call with _ | ⟨_, _ | _⟩ | ⟨_, _ | _⟩ | ⟨_, _ | _⟩ | _ | _ <;> rfl

/-- A function takes numbers just if they are those of a call, and then gives its transform. -/
theorem call?_eq_some_iff {α : Type} [Scalar α] {function : TransformFunction} {arguments : List α}
    {transform : Affine α} :
    function.call? arguments = some transform ↔
      ∃ call : TransformCall α, call.function = function ∧ call.arguments = arguments ∧
        call.affine = transform := by
  constructor
  · intro h
    unfold TransformFunction.call? at h
    split at h
    · cases h; exact ⟨.matrix .., rfl, rfl, rfl⟩
    · cases h; exact ⟨.translate _ none, rfl, rfl, rfl⟩
    · cases h; exact ⟨.translate _ (some _), rfl, rfl, rfl⟩
    · cases h; exact ⟨.scale _ none, rfl, rfl, rfl⟩
    · cases h; exact ⟨.scale _ (some _), rfl, rfl, rfl⟩
    · cases h; exact ⟨.rotate _ none, rfl, rfl, rfl⟩
    · cases h; exact ⟨.rotate _ (some _), rfl, rfl, rfl⟩
    · cases h; exact ⟨.skewX _, rfl, rfl, rfl⟩
    · cases h; exact ⟨.skewY _, rfl, rfl, rfl⟩
    · cases h
  · rintro ⟨call, rfl, rfl, rfl⟩
    rcases call with _ | ⟨_, _ | _⟩ | ⟨_, _ | _⟩ | ⟨_, _ | _⟩ | _ | _ <;> rfl

theorem exists_of_map_cons_toList {f : β → γ} {numbers : List β} {x : γ} {y : Option γ}
    (h : numbers.map f = x :: y.toList) :
    ∃ first second, f first = x ∧ Option.map f second = y ∧ numbers = first :: second.toList := by
  obtain ⟨first, later, rfl, rfl, hlater⟩ := List.map_eq_cons_iff.1 h
  cases y with
  | none =>
    obtain rfl := List.map_eq_nil_iff.1 hlater
    exact ⟨first, none, rfl, rfl, rfl⟩
  | some y =>
    obtain ⟨second, rfl, rfl⟩ := List.map_eq_singleton_iff.1 hlater
    exact ⟨first, some second, rfl, rfl, rfl⟩

/-- Numbers with the values of a call are those of a call themselves. -/
theorem exists_of_map_arguments {f : β → γ} {call : TransformCall γ} {numbers : List β}
    (h : numbers.map f = call.arguments) :
    ∃ written : TransformCall β, written.map f = call ∧ written.arguments = numbers := by
  cases call with
  | matrix =>
    simp only [arguments, List.map_eq_cons_iff, List.map_eq_nil_iff] at h
    obtain ⟨a, _, rfl, rfl, b, _, rfl, rfl, c, _, rfl, rfl, d, _, rfl, rfl, e, _, rfl, rfl,
      f', _, rfl, rfl, rfl⟩ := h
    exact ⟨.matrix a b c d e f', rfl, rfl⟩
  | translate =>
    obtain ⟨x, y, rfl, rfl, rfl⟩ := exists_of_map_cons_toList h
    exact ⟨.translate x y, rfl, rfl⟩
  | scale =>
    obtain ⟨x, y, rfl, rfl, rfl⟩ := exists_of_map_cons_toList h
    exact ⟨.scale x y, rfl, rfl⟩
  | rotate degrees center =>
    obtain ⟨degrees, later, rfl, rfl, hlater⟩ := List.map_eq_cons_iff.1 h
    cases center with
    | none =>
      obtain rfl := List.map_eq_nil_iff.1 hlater
      exact ⟨.rotate degrees none, rfl, rfl⟩
    | some center =>
      obtain ⟨x, _, rfl, hx, hlater⟩ := List.map_eq_cons_iff.1 hlater
      obtain ⟨y, rfl, hy⟩ := List.map_eq_singleton_iff.1 hlater
      refine ⟨.rotate degrees (some ⟨x, y⟩), ?_, rfl⟩
      rw [map, Option.map_some, hx, hy]
  | skewX =>
    obtain ⟨degrees, rfl, rfl⟩ := List.map_eq_singleton_iff.1 h
    exact ⟨.skewX degrees, rfl, rfl⟩
  | skewY =>
    obtain ⟨degrees, rfl, rfl⟩ := List.map_eq_singleton_iff.1 h
    exact ⟨.skewY degrees, rfl, rfl⟩

/-- The text is the call as it is written: the name, an opening parenthesis behind blanks, and the
arguments up to a closing one. -/
def IsText (call : TransformCall Literal) (text : List Char) : Prop :=
  ∃ blanks inside, (∀ c ∈ blanks, isBlank c = true) ∧ IsNumberList call.arguments inside ∧
    text = call.function.name.toList ++ (blanks ++ '(' :: (inside ++ [')']))

end TransformCall

/-! ## Names -/

namespace TransformFunction

variable {function other : TransformFunction} {text : List Char}

theorem eq_of_isPrefix (h : function.name.toList <+: other.name.toList) : function = other := by
  cases function <;> cases other <;> first | rfl | exact absurd h (by decide)

theorem ofPrefix?_eq_some_iff : ofPrefix? text = some function ↔ function.name.toList <+: text := by
  constructor
  · intro h
    have hfront : function.name.toList.isPrefixOf text = true := by
      simpa using List.find?_some h
    exact List.isPrefixOf_iff_prefix.1 hfront
  · intro h
    have hmem : function ∈ all := by cases function <;> decide
    have hsome : (ofPrefix? text).isSome = true :=
      List.find?_isSome.2 ⟨function, hmem, List.isPrefixOf_iff_prefix.2 h⟩
    obtain ⟨found, hfound⟩ := Option.isSome_iff_exists.1 hsome
    have hfront : found.name.toList.isPrefixOf text = true := by
      simpa using List.find?_some hfound
    have hprefix := List.isPrefixOf_iff_prefix.1 hfront
    -- Two names at the front of one text, so one is the beginning of the other.
    have heq : found = function := by
      rcases List.prefix_or_prefix_of_prefix hprefix h with h | h
      · exact eq_of_isPrefix h
      · exact (eq_of_isPrefix h).symm
    rw [hfound, heq]

theorem isSeparator_head_name (function : TransformFunction) (rest : List Char) :
    ∀ c ∈ (function.name.toList ++ rest).head?, isSeparator c = false := by
  cases function <;> rintro c ⟨⟩ <;> decide

end TransformFunction

/-! ## Calls -/

variable {α : Type} [Scalar α]

namespace Affine

variable {text rest : List Char}

theorem readCall_text {call : TransformCall Literal} (h : call.IsText text) (rest : List Char) :
    readCall (α := α) (text ++ rest) = .ok ((call.map Literal.value).affine, rest) := by
  obtain ⟨blanks, inside, hblanks, hinside, rfl⟩ := h
  have htext : call.function.name.toList ++ (blanks ++ '(' :: (inside ++ [')'])) ++ rest =
      call.function.name.toList ++ (blanks ++ '(' :: (inside ++ ')' :: rest)) := by simp
  have hfunction : TransformFunction.ofPrefix?
      (call.function.name.toList ++ (blanks ++ '(' :: (inside ++ ')' :: rest))) =
        some call.function := TransformFunction.ofPrefix?_eq_some_iff.2 (List.prefix_append ..)
  have hopen : trimStart (blanks ++ '(' :: (inside ++ ')' :: rest)) = '(' :: (inside ++ ')' :: rest) := by
    refine dropWhile_append_of_head hblanks ?_
    rintro c ⟨⟩
    decide
  have hplain : ∀ c ∈ inside, (c != ')') = true := by
    intro c hc
    have htoken := hinside.isTokenChar_of_mem hc
    rw [bne_iff_ne]
    rintro rfl
    exact absurd htoken (by decide)
  have hclose : (inside ++ ')' :: rest).dropWhile (· != ')') = ')' :: rest := by
    refine dropWhile_append_of_head hplain ?_
    rintro c ⟨⟩
    decide
  have hinner : (inside ++ ')' :: rest).takeWhile (· != ')') = inside := by
    rw [List.takeWhile_append_of_pos hplain]
    simp
  have hnumbers : readNumbers (α := α) inside = .ok (call.map Literal.value).arguments := by
    rw [TransformCall.arguments_map]
    exact readNumbers_eq_ok_iff.2 ⟨call.arguments, rfl, hinside⟩
  have hcall : call.function.call? (call.map (Literal.value (α := α))).arguments =
      some (call.map Literal.value).affine :=
    TransformCall.call?_eq_some_iff.2 ⟨call.map Literal.value, by simp, rfl, rfl⟩
  rw [htext, readCall, hfunction]
  simp only [List.drop_left, hopen, hclose, hinner, hnumbers, hcall]

/-- What is read one after the other when a call is read. -/
theorem stages_of_readCall {transform : Affine α} (h : readCall text = .ok (transform, rest)) :
    ∃ (function : TransformFunction) (behindName behind : List Char),
      text = function.name.toList ++ behindName ∧ trimStart behindName = '(' :: behind ∧
      behind.dropWhile (· != ')') = ')' :: rest ∧
      ∃ numbers, readNumbers (behind.takeWhile (· != ')')) = .ok numbers ∧
        function.call? numbers = some transform := by
  unfold readCall at h
  split at h
  · cases h
  · next function hfunction =>
    obtain ⟨behindName, rfl⟩ := TransformFunction.ofPrefix?_eq_some_iff.1 hfunction
    rw [List.drop_left] at h
    split at h
    · next behind hopen =>
      split at h
      · cases h
      · next mark behindClose hclose =>
        have hmark : mark = ')' := by
          have hstop := List.head?_dropWhile_not (· != ')') behind
          rw [hclose] at hstop
          simpa using hstop
        subst hmark
        split at h
        · cases h
        · next numbers hnumbers =>
          split at h
          · cases h
          · next hcall =>
            cases h
            exact ⟨function, behindName, behind, rfl, hopen, hclose, numbers, hnumbers, hcall⟩
    · cases h

theorem exists_of_readCall {transform : Affine α} (h : readCall text = .ok (transform, rest)) :
    ∃ call written, TransformCall.IsText call written ∧ text = written ++ rest ∧
      (call.map Literal.value).affine = transform := by
  obtain ⟨function, behindName, behind, rfl, hopen, hclose, numbers, hnumbers, hcall⟩ :=
    stages_of_readCall h
  obtain ⟨values, rfl, hvalues, rfl⟩ := TransformCall.call?_eq_some_iff.1 hcall
  obtain ⟨literals, hliterals, hinside⟩ := readNumbers_eq_ok_iff.1 hnumbers
  obtain ⟨call, rfl, rfl⟩ := TransformCall.exists_of_map_arguments (hliterals.trans hvalues.symm)
  have hbehind := List.takeWhile_append_dropWhile (p := (· != ')')) (l := behind)
  have hblanks := List.takeWhile_append_dropWhile (p := isBlank) (l := behindName)
  rw [hclose] at hbehind
  replace hopen : behindName.dropWhile isBlank = '(' :: behind := hopen
  rw [hopen] at hblanks
  have htext : behindName =
      behindName.takeWhile isBlank ++ '(' :: (behind.takeWhile (· != ')') ++ ')' :: rest) := by
    rw [hbehind, hblanks]
  refine ⟨call, _, ⟨behindName.takeWhile isBlank, behind.takeWhile (· != ')'),
    List.all_eq_true.1 List.all_takeWhile, hinside, rfl⟩, ?_, rfl⟩
  rw [TransformCall.function_map]
  conv => lhs; rw [htext]
  simp

end Affine

/-! ## Lists -/

/-- The text is the calls with blanks and commas around and between them. -/
inductive IsTransformList : List (TransformCall Literal) → List Char → Prop where
  /-- Behind the last call there are only blanks and commas. -/
  | nil {gap : List Char} : (∀ c ∈ gap, isSeparator c = true) → IsTransformList [] gap
  /-- One more call is in front. -/
  | cons {call : TransformCall Literal} {calls : List (TransformCall Literal)}
      {gap text rest : List Char} : (∀ c ∈ gap, isSeparator c = true) → call.IsText text →
      IsTransformList calls rest → IsTransformList (call :: calls) (gap ++ (text ++ rest))

/-- The product of the calls from left to right, with the values of the literals. -/
def TransformCall.product (calls : List (TransformCall Literal)) : Affine α :=
  (calls.map fun call => (call.map Literal.value).affine).foldl .comp .identity

namespace IsTransformList

variable {text : List Char} {call : TransformCall Literal} {calls : List (TransformCall Literal)}

theorem nil_iff : IsTransformList [] text ↔ skipSeparators text = [] := by
  rw [skipSeparators, List.dropWhile_eq_nil_iff]
  constructor
  · rintro ⟨hgap⟩
    exact hgap
  · exact .nil

theorem cons_iff :
    IsTransformList (call :: calls) text ↔
      ∃ written rest, call.IsText written ∧ skipSeparators text = written ++ rest ∧
        IsTransformList calls rest := by
  constructor
  · intro h
    cases h with
    | @cons _ _ gap written rest hgap hcall hlater =>
      refine ⟨written, rest, hcall, ?_, hlater⟩
      obtain ⟨blanks, inside, -, -, rfl⟩ := hcall
      refine dropWhile_append_of_head hgap ?_
      rw [List.append_assoc]
      exact call.function.isSeparator_head_name _
  · rintro ⟨written, rest, hcall, hskip, hlater⟩
    have hgap : ∀ c ∈ text.takeWhile isSeparator, isSeparator c = true :=
      List.all_eq_true.1 List.all_takeWhile
    have htext := List.takeWhile_append_dropWhile (p := isSeparator) (l := text)
    replace hskip : text.dropWhile isSeparator = written ++ rest := hskip
    rw [hskip] at htext
    rw [← htext]
    exact .cons hgap hcall hlater

theorem append {later : List (TransformCall Literal)} {rest : List Char}
    (hcalls : IsTransformList calls text) (hlater : IsTransformList later rest) :
    IsTransformList (calls ++ later) (text ++ rest) := by
  induction hcalls with
  | @nil gap hgap =>
    cases hlater with
    | nil hrest => exact .nil (List.forall_mem_append.2 ⟨hgap, hrest⟩)
    | cons hrest hcall hothers =>
      rw [← List.append_assoc]
      exact .cons (List.forall_mem_append.2 ⟨hgap, hrest⟩) hcall hothers
  | cons hgap hcall _ ih =>
    rw [List.append_assoc, List.append_assoc]
    exact .cons hgap hcall ih

end IsTransformList

namespace Affine

variable {text : List Char}

/-- The calls of a text are multiplied to a transform just if the text is a list of calls. -/
theorem readCalls_eq_ok_iff {transform result : Affine α} :
    readCalls transform (skipSeparators text) = .ok result ↔
      ∃ calls, IsTransformList calls text ∧
        (calls.map fun call => (call.map Literal.value).affine).foldl .comp transform = result := by
  induction hlength : text.length using Nat.strongRecOn generalizing text transform with
  | ind length ih =>
    subst hlength
    by_cases hskip : skipSeparators text = []
    · rw [hskip, readCalls_nil]
      constructor
      · rintro ⟨⟩
        exact ⟨[], IsTransformList.nil_iff.2 hskip, rfl⟩
      · rintro ⟨calls, hcalls, rfl⟩
        cases calls with
        | nil => rfl
        | cons call calls =>
          obtain ⟨written, rest, ⟨blanks, inside, -, -, rfl⟩, hfront, -⟩ :=
            IsTransformList.cons_iff.1 hcalls
          rw [hskip] at hfront
          simp at hfront
    · rw [readCalls_of_ne_nil hskip]
      have hle : (skipSeparators text).length ≤ text.length := (List.dropWhile_sublist _).length_le
      constructor
      · intro h
        cases hcall : readCall (α := α) (skipSeparators text) with
        | error flaw =>
          rw [hcall] at h
          cases h
        | ok found =>
          obtain ⟨first, rest⟩ := found
          rw [hcall] at h
          have hlt := length_readCall_lt hcall
          obtain ⟨call, written, hwritten, hfront, rfl⟩ := exists_of_readCall hcall
          obtain ⟨calls, hcalls, rfl⟩ := (ih rest.length (by omega) rfl).1 h
          exact ⟨call :: calls,
            IsTransformList.cons_iff.2 ⟨written, rest, hwritten, hfront, hcalls⟩, rfl⟩
      · rintro ⟨calls, hcalls, rfl⟩
        cases calls with
        | nil => exact absurd (IsTransformList.nil_iff.1 hcalls) hskip
        | cons call calls =>
          obtain ⟨written, rest, hwritten, hfront, hlater⟩ := IsTransformList.cons_iff.1 hcalls
          have hcall := readCall_text (α := α) hwritten rest
          rw [← hfront] at hcall
          have hlt := length_readCall_lt hcall
          rw [hcall]
          exact (ih rest.length (by omega) rfl).2 ⟨calls, hlater, rfl⟩

theorem readList_eq_ok_iff {transform : Affine α} :
    readList text = .ok transform ↔
      ∃ calls, IsTransformList calls text ∧ TransformCall.product calls = transform :=
  readCalls_eq_ok_iff

end Affine

theorem result_ownTransform_of_some {attributes raw : List Char} (elementName : String)
    (h : attribute? "transform".toList attributes = some raw) :
    (ownTransform (α := α) elementName attributes).result =
      (Affine.readList raw).mapError fun flaw => .value ⟨elementName, "transform"⟩ (.transform flaw) := by
  simp only [ownTransform, h, Reading.located]
  cases Affine.readList (α := α) raw <;> rfl

/-- A text that is written as calls is read as their product from the left, and every other text is
rejected, with a fault of the value of `transform` on the element that has it. Two lists that are read,
one written behind the other, are read as one. -/
theorem Affine.readList_written :
    (∀ calls raw, IsTransformList calls raw →
        readList (α := α) raw = .ok (TransformCall.product calls)) ∧
      (∀ raw, (∀ calls, ¬ IsTransformList calls raw) →
        ∃ flaw, readList (α := α) raw = .error flaw ∧
          ∀ elementName attributes, attribute? "transform".toList attributes = some raw →
            (ownTransform (α := α) elementName attributes).result =
              .error (.value ⟨elementName, "transform"⟩ (.transform flaw))) ∧
      ∀ first second (a b : Affine α), readList first = .ok a → readList second = .ok b →
        ∃ calls later, a = TransformCall.product calls ∧ b = TransformCall.product later ∧
          readList (α := α) (first ++ second) = .ok (TransformCall.product (calls ++ later)) := by
  refine ⟨?_, ?_, ?_⟩
  · intro calls raw hcalls
    exact readList_eq_ok_iff.2 ⟨calls, hcalls, rfl⟩
  · intro raw hnone
    cases hread : readList (α := α) raw with
    | ok transform =>
      obtain ⟨calls, hcalls, -⟩ := readList_eq_ok_iff.1 hread
      exact absurd hcalls (hnone calls)
    | error flaw =>
      refine ⟨flaw, rfl, ?_⟩
      intro elementName attributes hraw
      rw [result_ownTransform_of_some elementName hraw, hread]
      rfl
  · intro first second a b hfirst hsecond
    obtain ⟨calls, hcalls, rfl⟩ := readList_eq_ok_iff.1 hfirst
    obtain ⟨later, hlater, rfl⟩ := readList_eq_ok_iff.1 hsecond
    exact ⟨calls, later, rfl, rfl,
      readList_eq_ok_iff.2 ⟨calls ++ later, hcalls.append hlater, rfl⟩⟩

/-- Two calls that touch each other, one with two numbers that do, and a call with too many numbers. -/
theorem Affine.readList_written_touching :
    let one : Literal := ⟨none, ['1'], none, none⟩
    let two : Literal := ⟨none, ['2'], none, none⟩
    let minusTwo : Literal := ⟨some .minus, ['2'], none, none⟩
    let text := ",translate (1-2)scale(2)\u00a0".toList
    let broken := "scale(1 2 3)".toList
    IsTransformList [.translate one (some minusTwo), .scale two none] text ∧
      readList (α := Float) text =
        .ok (TransformCall.product [.translate one (some minusTwo), .scale two none]) ∧
      readList (α := Float) text = .ok ⟨2, 0, 0, 2, 1, -2⟩ ∧
      (∀ calls, ¬ IsTransformList calls broken) ∧
      (∃ flaw, readList (α := Float) broken = .error flaw ∧
        (ownTransform (α := Float) "g" ("transform='".toList ++ broken ++ ['\''])).result =
          .error (.value ⟨"g", "transform"⟩ (.transform flaw))) ∧
      ∃ calls later, TransformCall.product calls = Affine.mk (2 : Float) 0 0 2 1 (-2) ∧
        TransformCall.product later = Affine.mk (2 : Float) 0 0 2 1 (-2) ∧
        readList (α := Float) (text ++ text) = .ok (TransformCall.product (calls ++ later)) := by
  intro one two minusTwo text broken
  have hone : one.Valid := ⟨List.forall_mem_singleton.2 rfl, nofun, .inl nofun, nofun⟩
  have htwo : two.Valid := ⟨List.forall_mem_singleton.2 rfl, nofun, .inl nofun, nofun⟩
  have hminusTwo : minusTwo.Valid := ⟨List.forall_mem_singleton.2 rfl, nofun, .inl nofun, nofun⟩
  have hsecond : IsTokenText (some (.number one)) [.number minusTwo] (minusTwo.text ++ []) :=
    .touch (.inl ⟨.minus, rfl⟩) hminusTwo (.nil nofun)
  have hshift : IsNumberList [one, minusTwo] ([] ++ (one.text ++ (minusTwo.text ++ []))) :=
    .cons nofun (fun _ => nofun) hone hsecond
  have hstretch : IsNumberList [two] ([] ++ (two.text ++ [])) :=
    .cons nofun (fun _ => nofun) htwo (.nil nofun)
  have htranslate : (TransformCall.translate one (some minusTwo)).IsText "translate (1-2)".toList :=
    ⟨[' '], _, List.forall_mem_singleton.2 rfl, hshift, by decide⟩
  have hscale : (TransformCall.scale two none).IsText "scale(2)".toList :=
    ⟨[], _, nofun, hstretch, by decide⟩
  have hlast : IsTransformList [.scale two none] ([] ++ ("scale(2)".toList ++ ['\u00a0'])) :=
    .cons nofun hscale (.nil (List.forall_mem_singleton.2 rfl))
  have htext : IsTransformList [.translate one (some minusTwo), .scale two none] text :=
    .cons (List.forall_mem_singleton.2 (by decide)) htranslate hlast
  have hvalue : readList (α := Float) text = .ok ⟨2, 0, 0, 2, 1, -2⟩ := by decide +kernel
  have hbroken : ∀ calls, ¬ IsTransformList calls broken := by
    intro calls hcalls
    have hread := readList_eq_ok_iff (α := Float).2 ⟨calls, hcalls, rfl⟩
    have herror : (readList (α := Float) broken).toBool = false := by decide +kernel
    rw [hread] at herror
    cases herror
  obtain ⟨haccepted, hrejected, happended⟩ := readList_written (α := Float)
  obtain ⟨flaw, herror, hreported⟩ := hrejected broken hbroken
  obtain ⟨calls, later, hcalls, hlater, htwice⟩ := happended text text _ _ hvalue hvalue
  exact ⟨htext, haccepted _ text htext, hvalue, hbroken,
    ⟨flaw, herror, hreported "g" _ (by decide)⟩, calls, later, hcalls.symm, hlater.symm, htwice⟩

end PenPlot
