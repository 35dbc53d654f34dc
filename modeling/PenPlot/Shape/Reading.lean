import PenPlot.Fault
import PenPlot.Markup.Attribute
import PenPlot.Markup.Kind

/-!
# Reading attributes

Reading the attributes of an element gives a value or a fault, and warnings in either case. What is
read is composed in sequence: the first fault ends the reading, and the warnings are those of all
that was read up to there, in order.
-/

namespace PenPlot

/-- What reading attributes comes to. -/
structure Reading (α β : Type) where
  /-- The warnings, in order. -/
  warnings : List (LengthWarning α)
  /-- The value, or the fault that ended the reading. -/
  result : Except (Fault α) β

namespace Reading

variable {α β γ : Type}

/-- A value that is there without reading. -/
def ok (value : β) : Reading α β := ⟨[], .ok value⟩

/-- A fault. -/
def fail (fault : Fault α) : Reading α β := ⟨[], .error fault⟩

/-- Reads on with the value. -/
def andThen (reading : Reading α β) (next : β → Reading α γ) : Reading α γ :=
  match reading.result with
  | .error fault => ⟨reading.warnings, .error fault⟩
  | .ok value => ⟨reading.warnings ++ (next value).warnings, (next value).result⟩

instance instMonad : Monad (Reading α) where
  pure := ok
  bind := andThen

theorem result_bind (reading : Reading α β) (next : β → Reading α γ) :
    (reading >>= next).result = reading.result.bind fun value => (next value).result := by
  obtain ⟨warnings, fault | value⟩ := reading <;> rfl

theorem warnings_bind_of_ok {reading : Reading α β} {value : β} (h : reading.result = .ok value)
    (next : β → Reading α γ) :
    (reading >>= next).warnings = reading.warnings ++ (next value).warnings := by
  obtain ⟨warnings, result⟩ := reading
  cases h
  rfl

theorem result_bind_eq_ok {reading : Reading α β} {next : β → Reading α γ} {value : γ} :
    (reading >>= next).result = .ok value ↔
      ∃ first, reading.result = .ok first ∧ (next first).result = .ok value := by
  obtain ⟨warnings, fault | first⟩ := reading <;> simp [bind, andThen]

theorem result_bind_eq_error {reading : Reading α β} {next : β → Reading α γ} {fault : Fault α} :
    (reading >>= next).result = .error fault ↔
      reading.result = .error fault ∨
        ∃ first, reading.result = .ok first ∧ (next first).result = .error fault := by
  obtain ⟨warnings, fault | first⟩ := reading <;> simp [bind, andThen]

@[simp] theorem result_pure (value : β) : (pure value : Reading α β).result = .ok value := rfl

/-- What a reader of values comes to, with its fault at the place of the value. -/
def located (elementName attributeName : String) (result : Except (Fault α) β) : Reading α β :=
  ⟨[], result.mapError (.located elementName attributeName)⟩

variable [Scalar α]

/-- The length that an attribute gives, or a default where there is none. -/
def lengthOr (default : α) (attributes : List Char) (name : String) : Reading α α :=
  let (value, warnings) := readLength ((attribute? name.toList attributes).getD []) default
  ⟨warnings, .ok value⟩

/-- The length that an attribute gives, or zero. -/
def length (attributes : List Char) (name : String) : Reading α α := lengthOr 0 attributes name

/-- A length is never at fault. -/
theorem exists_result_length (attributes : List Char) (name : String) :
    ∃ value, (length (α := α) attributes name).result = .ok value := ⟨_, rfl⟩

/-- The length that an attribute of a shape gives, which must not be negative. -/
def nonNegative (kind : ShapeKind) (attributes : List Char) (name : String) : Reading α α := do
  let value ← length attributes name
  if value < 0 then fail (.value ⟨kind.name, name⟩ (.negative value)) else ok value

end Reading

end PenPlot
