import PenPlot.Proofs.Commands
import PenPlot.Settings

/-!
# Where faults are looked for

A fault of a value names an element and an attribute. The element is the last that a walk took, and the
attribute is one that the element has, for otherwise its default would have been read, and no default is
at fault. There is one exception: the extent of a drawing is judged as a whole and under the name of
its width, so a height that is not positive is reported as a width even of a drawing without one.
-/

namespace PenPlot

open Text

namespace Reading

variable {α β γ : Type}

/-- Any fault is one of a value, at a place and with a flaw as described. -/
def Blames (described : Place → ValueFlaw α → Prop) (reading : Reading α β) : Prop :=
  ∀ fault, reading.result = .error fault →
    ∃ place flaw, fault = .value place flaw ∧ described place flaw

namespace Blames

variable {described other : Place → ValueFlaw α → Prop} {reading : Reading α β}

theorem of_ok {value : β} (h : reading.result = .ok value) : reading.Blames described := by
  intro fault hfault
  rw [h] at hfault
  cases hfault

theorem of_fail {place : Place} {flaw : ValueFlaw α} (h : described place flaw) :
    (fail (.value place flaw) : Reading α β).Blames described := by
  rintro fault ⟨⟩
  exact ⟨place, flaw, rfl, h⟩

/-- A value is blamed where it has been looked up, wherever its reader takes it to be. -/
theorem of_located {elementName attributeName : String} {ε : Type} {result : Except ε β}
    {raise : ε → Fault α} (hraise : ∀ flaw, ∃ place valueFlaw, raise flaw = .value place valueFlaw)
    (h : ∀ flaw, described ⟨elementName, attributeName⟩ flaw) :
    (located elementName attributeName (result.mapError raise)).Blames described := by
  cases result with
  | error flaw =>
    obtain ⟨place, valueFlaw, hvalue⟩ := hraise flaw
    intro fault hfault
    cases hfault
    rw [hvalue]
    exact ⟨_, valueFlaw, rfl, h valueFlaw⟩
  | ok value => exact of_ok rfl

theorem bind {next : β → Reading α γ} (h : reading.Blames described)
    (hnext : ∀ value, reading.result = .ok value → (next value).Blames described) :
    (reading >>= next).Blames described := by
  intro fault hfault
  rcases result_bind_eq_error.1 hfault with hfault | ⟨value, hvalue, hfault⟩
  · exact h fault hfault
  · exact hnext value hvalue fault hfault

theorem mono (h : reading.Blames described)
    (himp : ∀ place flaw, described place flaw → other place flaw) : reading.Blames other := by
  intro fault hfault
  obtain ⟨place, flaw, rfl, hdescribed⟩ := h fault hfault
  exact ⟨place, flaw, rfl, himp place flaw hdescribed⟩

end Blames

end Reading

/-- The place is an attribute of the element, and the element gives it a value. -/
structure Place.IsIn (place : Place) (elementName : String) (attributes : List Char) : Prop where
  element : place.elementName = elementName
  known : place.attributeName ≠ Place.unknown
  carried : ∃ value, attribute? place.attributeName.toList attributes = some value

theorem Place.isIn {elementName attributeName : String} {attributes value : List Char}
    (hknown : attributeName ≠ Place.unknown)
    (h : attribute? attributeName.toList attributes = some value) :
    Place.IsIn ⟨elementName, attributeName⟩ elementName attributes :=
  ⟨rfl, hknown, value, h⟩

/-- A drawing without `viewBox` and without a width is blamed for its width, because the height that it
has makes no proper window with the width of the canvas. -/
structure IsMisplaced {α : Type} [Scalar α] (canvas : Size α) (elementName : String)
    (attributes : List Char) (place : Place) (flaw : ValueFlaw α) : Prop where
  element : elementName = "svg"
  place : place = ⟨"svg", "width"⟩
  viewBox : attribute? "viewBox".toList attributes = none
  width : attribute? "width".toList attributes = none
  height : ∃ text, attribute? "height".toList attributes = some text ∧
    flaw = .windowSize canvas.width (readLength text canvas.height).1

/-! ## What the readers blame -/

section

open Reading

variable {α : Type} [Scalar α] {attributes : List Char}

theorem result_lengthOr_of_none {name : String} (h : attribute? name.toList attributes = none)
    (default : α) : (lengthOr default attributes name).result = .ok default := by
  rw [lengthOr, h]
  rfl

theorem result_lengthOr_of_some {name : String} {text : List Char}
    (h : attribute? name.toList attributes = some text) (default : α) :
    (lengthOr default attributes name).result = .ok (readLength text default).1 := by
  rw [lengthOr, h]
  rfl

theorem blames_ownTransform (elementName : String) :
    (ownTransform (α := α) elementName attributes).Blames
      fun place _ => place.IsIn elementName attributes := by
  rw [ownTransform]
  cases h : attribute? "transform".toList attributes with
  | none => exact .of_ok rfl
  | some text => exact .of_located (fun _ => ⟨_, _, rfl⟩) fun _ => Place.isIn (by decide) h

/-- A length that is not given is zero, and so not negative. -/
theorem blames_nonNegative (hzero : ¬ (0 : α) < 0) (kind : ShapeKind) {name : String}
    (hname : name ≠ Place.unknown) :
    (nonNegative (α := α) kind attributes name).Blames
      fun place _ => place.IsIn kind.name attributes := by
  refine .bind (.of_ok rfl) ?_
  intro value hvalue
  split
  · next hnegative =>
    cases hgiven : attribute? name.toList attributes with
    | none =>
      cases (result_lengthOr_of_none hgiven 0).symm.trans hvalue
      exact absurd hnegative hzero
    | some text => exact .of_fail (Place.isIn hname hgiven)
  · exact .of_ok rfl

namespace Outline

theorem blames_poly (kind : ShapeKind) (closed : Bool) :
    (poly (α := α) kind closed attributes).Blames
      fun place _ => place.IsIn kind.name attributes := by
  rw [poly]
  cases h : attribute? "points".toList attributes with
  | none =>
    have hread : (located (α := α) kind.name "points"
        ((readNumbers (α := α) []).mapError .ofList)).result = .ok [] := by
      rw [readNumbers_of_nil rfl]
      rfl
    refine .bind (.of_ok hread) ?_
    intro values hvalues
    cases hread.symm.trans hvalues
    exact .of_ok rfl
  | some text =>
    refine .bind (.of_located (fun _ => ⟨_, _, rfl⟩) fun _ => Place.isIn (by decide) h) fun values _ => ?_
    split
    · exact .of_ok rfl
    · exact .of_fail (Place.isIn (by decide) h)

theorem blames_cornerRadii (hzero : ¬ (0 : α) < 0) :
    (cornerRadii (α := α) attributes).Blames
      fun place _ => place.IsIn "rect" attributes := by
  have hradius : ∀ {name : String}, name ≠ Place.unknown →
      (nonNegative (α := α) .rect attributes name).Blames
        fun place _ => place.IsIn "rect" attributes :=
    fun hname => blames_nonNegative hzero .rect hname
  rw [cornerRadii]
  split
  · exact .of_ok rfl
  · exact (hradius (by decide)).bind fun _ _ => .of_ok rfl
  · exact (hradius (by decide)).bind fun _ _ => .of_ok rfl
  · exact (hradius (by decide)).bind fun _ _ => (hradius (by decide)).bind fun _ _ => .of_ok rfl

theorem blames_rect (hzero : ¬ (0 : α) < 0) :
    (rect (α := α) attributes).Blames
      fun place _ => place.IsIn "rect" attributes := by
  refine .bind (.of_ok rfl) fun x _ => .bind (.of_ok rfl) fun y _ => ?_
  refine (blames_nonNegative hzero .rect (by decide)).bind fun width _ => ?_
  refine (blames_nonNegative hzero .rect (by decide)).bind fun height _ => ?_
  split
  · exact .of_ok rfl
  · refine (blames_cornerRadii hzero).bind fun radii _ => ?_
    dsimp only
    split <;> exact .of_ok rfl

theorem blames_ellipse (described : Place → ValueFlaw α → Prop) (rx ry : α) :
    (ellipse rx ry attributes).Blames described := by
  rw [ellipse]
  split <;> exact .of_ok rfl

theorem blames_path :
    (path (α := α) attributes).Blames fun place _ => place.IsIn "path" attributes := by
  rw [path]
  cases h : attribute? "d".toList attributes with
  | none => exact .of_ok rfl
  | some data => exact .of_located (fun _ => ⟨_, _, rfl⟩) fun _ => Place.isIn (by decide) h

theorem blames_ofShape (hzero : ¬ (0 : α) < 0) (kind : ShapeKind) :
    (ofShape (α := α) kind attributes).Blames
      fun place _ => place.IsIn kind.name attributes := by
  cases kind with
  | line => exact .of_ok rfl
  | polyline => exact blames_poly .polyline false
  | polygon => exact blames_poly .polygon true
  | rect => exact blames_rect hzero
  | circle =>
    exact (blames_nonNegative hzero .circle (by decide)).bind fun r _ => blames_ellipse _ r r
  | ellipse =>
    refine (blames_nonNegative hzero .ellipse (by decide)).bind fun rx _ => ?_
    exact (blames_nonNegative hzero .ellipse (by decide)).bind fun ry _ => blames_ellipse _ rx ry
  | path => exact blames_path

end Outline

theorem blames_checked {described : Place → ValueFlaw α → Prop} {name : String} {window : Window α}
    (h : window.isProper = false →
      described ⟨"svg", name⟩ (.windowSize window.width window.height)) :
    (Window.checked name window).Blames described := by
  rw [Window.checked]
  cases hproper : window.isProper with
  | true => exact .of_ok rfl
  | false => exact .of_fail (h hproper)

/-- The canvas stands in for the extent that is not given, and is no fault. -/
theorem blames_windowOfAttributes {canvas : Size α}
    (hcanvas : (Window.mk 0 0 canvas.width canvas.height).isProper = true) :
    (Window.ofAttributes attributes canvas).Blames fun place flaw =>
      place.IsIn "svg" attributes ∨ IsMisplaced canvas "svg" attributes place flaw := by
  rw [Window.ofAttributes]
  cases hbox : attribute? "viewBox".toList attributes with
  | some text =>
    have hin : Place.IsIn ⟨"svg", "viewBox"⟩ "svg" attributes := Place.isIn (by decide) hbox
    refine .bind (.of_located (fun _ => ⟨_, _, rfl⟩) fun _ => .inl hin) fun values _ => ?_
    split
    · exact blames_checked fun _ => .inl hin
    · exact .of_fail (.inl hin)
  | none =>
    refine .bind (.of_ok rfl) fun width hwidth => .bind (.of_ok rfl) fun height hheight => ?_
    refine blames_checked fun himproper => ?_
    cases hwidthGiven : attribute? "width".toList attributes with
    | some _ => exact .inl (Place.isIn (by decide) hwidthGiven)
    | none =>
      cases (result_lengthOr_of_none hwidthGiven canvas.width).symm.trans hwidth
      cases hheightGiven : attribute? "height".toList attributes with
      | none =>
        cases (result_lengthOr_of_none hheightGiven canvas.height).symm.trans hheight
        rw [hcanvas] at himproper
        cases himproper
      | some text =>
        cases (result_lengthOr_of_some hheightGiven canvas.height).symm.trans hheight
        exact .inr ⟨rfl, rfl, hbox, hwidthGiven, text, hheightGiven, rfl⟩

theorem blames_containerTransform {sheet : Sheet α}
    (hcanvas : (Window.mk 0 0 sheet.canvas.width sheet.canvas.height).isProper = true)
    (scope : Scope α) (kind : ContainerKind) :
    (sheet.containerTransform scope kind attributes).Blames fun place flaw =>
      place.IsIn kind.name attributes ∨
        IsMisplaced sheet.canvas kind.name attributes place flaw := by
  cases kind with
  | group =>
    refine .bind ?_ fun _ _ => .of_ok rfl
    exact (blames_ownTransform "g").mono fun _ _ => .inl
  | svg =>
    rw [Sheet.containerTransform]
    dsimp only
    split
    · exact .of_ok rfl
    · exact (blames_windowOfAttributes hcanvas).bind fun _ _ => .of_ok rfl

/-- An element is blamed for an attribute that it has, or for a width that it does not have. -/
theorem Station.blames_evaluate (hzero : ¬ (0 : α) < 0) {sheet : Sheet α}
    (hcanvas : (Window.mk 0 0 sheet.canvas.width sheet.canvas.height).isProper = true)
    (station : Station α) :
    (station.evaluate sheet).Blames fun place flaw =>
      place.IsIn station.kind.name station.attributes ∨
        IsMisplaced sheet.canvas station.kind.name station.attributes place flaw := by
  obtain ⟨kind, attributes, around⟩ := station
  cases kind with
  | unrecognized => exact .of_ok rfl
  | container kind =>
    exact (blames_containerTransform hcanvas around.scope kind).bind fun _ _ => .of_ok rfl
  | shape kind =>
    rw [evaluate]
    dsimp only
    split
    · refine Blames.mono ?_ fun _ _ => .inl
      refine (blames_ownTransform kind.name).bind fun own _ => .bind ?_ fun _ _ => .of_ok rfl
      exact (Outline.blames_ofShape hzero kind).bind fun _ _ => .of_ok rfl
    · exact .of_ok rfl

end

theorem ElementKind.name_ne_unknown (kind : ElementKind) : kind.name ≠ Place.unknown := by
  rcases kind with (_ | _) | (_ | _ | _ | _ | _ | _ | _) | _ <;> decide

/-- The canvas of a plotter is a proper window. -/
theorem Settings.isProper_of_plotter {settings : Settings} {create : String → Option IoFault}
    {plotter : Plotter} (h : settings.plotter create = .ok plotter) :
    (Window.mk 0 0 plotter.sheet.canvas.width plotter.sheet.canvas.height).isProper = true := by
  rw [Settings.plotter] at h
  split at h
  · cases h
  · next hcanvas =>
    split at h
    · cases h
    · split at h
      · cases h
      · cases h
        rw [Bool.not_eq_true', Bool.not_eq_false, Bool.and_eq_true, Bool.and_eq_true,
          Bool.and_eq_true] at hcanvas
        obtain ⟨⟨⟨hwidthFinite, hheightFinite⟩, hwidth⟩, hheight⟩ := hcanvas
        rw [Window.isProper, Bool.and_eq_true, Bool.and_eq_true, Bool.and_eq_true]
        exact ⟨⟨⟨hwidth, hheight⟩, hwidthFinite⟩, hheightFinite⟩

/-- A fault of a value that ends a walk is one of the last element that was taken. -/
theorem exists_station_of_walkThrough_error {α σ : Type} [Scalar α] {sheet : Sheet α}
    {sink : Sink α σ} {receiver : σ} {document : List Char} {place : Place} {flaw : ValueFlaw α}
    (h : (walkThrough sheet sink receiver document).1 = .error (.value place flaw)) :
    ∃ station : Station α, (station.evaluate sheet).result = .error (.value place flaw) ∧
      (walkThrough sheet sink receiver document).2.visits.back? = some station.visit := by
  obtain ⟨hresult, hadvanced⟩ := walkThrough_follows sheet sink receiver document
  have hsound := Route.sound_ofMarkup sheet .bare (.scan document)
  rw [h] at hresult
  cases hstop : (Route.ofText sheet document).stop with
  | none =>
    rw [hstop] at hresult
    cases hresult
  | some stop =>
    obtain ⟨failing, fault⟩ := stop
    rw [hstop] at hresult
    cases hresult
    cases failing with
    | none =>
      obtain ⟨flaw, hflaw⟩ := hsound.broken _ hstop
      cases hflaw
    | some station =>
      refine ⟨station, hsound.failed station _ hstop, ?_⟩
      rw [← Array.getLast?_toList, hadvanced.visits, Route.taken, hstop]
      simp

/-- If a plotter stops at a fault of a value, then the fault names the last element that was taken. The
attribute that it names is never unknown, and has a value, unless a drawing is blamed for its width
where it gives just a height. -/
theorem place_of_walkThrough_error {σ : Type} {settings : Settings}
    {create : String → Option IoFault} {plotter : Plotter}
    (hplotter : settings.plotter create = .ok plotter) {sink : Sink Float σ} {receiver : σ}
    {document : List Char} {place : Place} {flaw : ValueFlaw Float}
    (h : (walkThrough plotter.sheet sink receiver document).1 = .error (.value place flaw)) :
    ∃ visit, (walkThrough plotter.sheet sink receiver document).2.visits.back? = some visit ∧
      place.elementName = visit.kind.name ∧ visit.kind ≠ .unrecognized ∧
      place.elementName ≠ Place.unknown ∧ place.attributeName ≠ Place.unknown ∧
      (attribute? place.attributeName.toList visit.attributes = none ↔
        IsMisplaced plotter.sheet.canvas visit.kind.name visit.attributes place flaw) := by
  obtain ⟨station, hfault, hlast⟩ := exists_station_of_walkThrough_error h
  have hzero : ¬ (0 : Float) < 0 := by decide +kernel
  have hkind : station.kind ≠ .unrecognized := by
    intro hkind
    rw [Station.evaluate, hkind] at hfault
    cases hfault
  obtain ⟨_, _, ⟨⟩, hblamed⟩ :=
    station.blames_evaluate hzero (Settings.isProper_of_plotter hplotter) _ hfault
  have hnamed : place.elementName = station.kind.name ∧ place.attributeName ≠ Place.unknown := by
    rcases hblamed with hin | hmisplaced
    · exact ⟨hin.element, hin.known⟩
    · rw [hmisplaced.element, hmisplaced.place]
      exact ⟨rfl, by decide⟩
  refine ⟨station.visit, hlast, hnamed.1, hkind, ?_, hnamed.2, ?_, ?_⟩
  · rw [hnamed.1]
    exact station.kind.name_ne_unknown
  · intro hnone
    rcases hblamed with hin | hmisplaced
    · obtain ⟨value, hvalue⟩ := hin.carried
      cases hnone.symm.trans hvalue
    · exact hmisplaced
  · intro hmisplaced
    rw [hmisplaced.place]
    exact hmisplaced.width

/-- The plotter that is made where nothing is asked for. -/
theorem Settings.plotter_standard (create : String → Option IoFault) :
    standard.plotter create =
      .ok ⟨⟨⟨defaultExtent, defaultExtent⟩, .ofResolution Flattener.defaultResolution false⟩, none⟩ := by
  rw [plotter, if_neg (by decide +kernel), if_neg (by decide)]
  rfl

/-- The second polygon is the last element that is taken, and has the points that it is blamed for. -/
theorem place_of_walkThrough_error_points :
    let plotter : Plotter :=
      ⟨⟨⟨350, 350⟩, .ofResolution Flattener.defaultResolution false⟩, none⟩
    let document := ("<svg height='5'><g><polygon points='1 2'/></g>" ++
      "<polygon points='1 2 3'/><rect width='-1'/></svg>").toList
    let place : Place := ⟨"polygon", "points"⟩
    let visit : Visit := ⟨.shape .polygon, "points='1 2 3'".toList, 1⟩
    (walkThrough plotter.sheet .counting (0, 0) document).1 = .error (.value place (.oddCount 3)) ∧
      (walkThrough plotter.sheet .counting (0, 0) document).2.visits.back? = some visit ∧
      (attribute? place.attributeName.toList visit.attributes = none ↔
        IsMisplaced plotter.sheet.canvas visit.kind.name visit.attributes place (.oddCount 3)) := by
  intro plotter document place visit
  have herror : (walkThrough plotter.sheet .counting (0, 0) document).1 =
      .error (.value place (.oddCount 3)) := by decide +kernel
  have hlast : (walkThrough plotter.sheet .counting (0, 0) document).2.visits.back? = some visit := by
    decide +kernel
  obtain ⟨last, hback, -, -, -, -, hiff⟩ :=
    place_of_walkThrough_error (Settings.plotter_standard fun _ => none) herror
  cases hlast.symm.trans hback
  exact ⟨herror, hlast, hiff⟩

/-- A drawing that has only a height, which is negative, is blamed for a width that it does not have. -/
theorem place_of_walkThrough_error_misplaced :
    let plotter : Plotter :=
      ⟨⟨⟨350, 350⟩, .ofResolution Flattener.defaultResolution false⟩, none⟩
    let document := "<svg height='-5'></svg>".toList
    let visit : Visit := ⟨.container .svg, "height='-5'".toList, 0⟩
    Settings.standard.plotter (fun _ => none) = .ok plotter ∧
      (walkThrough plotter.sheet .counting (0, 0) document).1 =
        .error (.value ⟨"svg", "width"⟩ (.windowSize 350 (-5))) ∧
      (walkThrough plotter.sheet .counting (0, 0) document).2.visits = #[visit] ∧
      ¬ ∃ value, attribute? "width".toList visit.attributes = some value := by
  refine ⟨Settings.plotter_standard fun _ => none, ?_, ?_, ?_⟩
  · decide +kernel
  · decide +kernel
  · rintro ⟨value, hvalue⟩
    have hnone : attribute? "width".toList "height='-5'".toList = none := by decide +kernel
    cases hnone.symm.trans hvalue

end PenPlot
