import PenPlot.Proofs.Counting
import PenPlot.Proofs.Drawing
import PenPlot.Scalar.Machine

/-!
# Where the pencil stands before a segment

A segment of a path says where it starts, but the edge that it is drawn as does not: an edge is drawn
from where the pencil stands. So two places are kept up, the current point while the path is followed and
the tip of the pencil while it is drawn. They agree before every segment that draws, because the tip
behind a segment is where the segment ends (`Drawing.run_followAll_edges`), be it an arc that is left out
or the closing of a subpath, and the next segment starts there. Before a move they need not agree, and
nothing depends on the tip then.
-/

namespace PenPlot

open Segment

variable {α τ : Type} [Scalar α]

/-- The commands that draw a segment from where it says that it starts. -/
def Segment.commands (flattener : Flattener) (transform : Affine α) (segment : Segment α) :
    List (PenCommand α) :=
  segment.edge.commands flattener transform (segment.origin?.getD segment.target)

/-- A segment is drawn as it says from where it starts, and a move from anywhere. -/
theorem Segment.commands_edge (flattener : Flattener) (transform : Affine α) {start : Point α}
    {segment : Segment α} (h : ∀ origin ∈ segment.origin?, origin = start) :
    segment.edge.commands flattener transform start = segment.commands flattener transform := by
  rw [commands]
  cases horigin : segment.origin? with
  | some origin => rw [h origin horigin, Option.getD_some]
  | none =>
    cases segment with
    | move stop => rfl
    | _ => cases horigin

/-- Segments that form a chain are each drawn from where they say that they start. -/
theorem Flattener.flattenFrom_edges (flattener : Flattener) (transform : Affine α) {start : Point α}
    {segments : List (Segment α)}
    (hhead : ∀ first ∈ segments.head?, ∀ origin ∈ first.origin?, origin = start)
    (hchain : segments.IsChain Follows) :
    flattener.flattenFrom transform start (segments.map edge) =
      segments.flatMap (Segment.commands flattener transform) := by
  induction segments generalizing start with
  | nil => rfl
  | cons segment segments ih =>
    obtain ⟨hnext, hlater⟩ := List.isChain_cons.1 hchain
    rw [List.map_cons, Flattener.flattenFrom, commands_edge flattener transform (hhead segment rfl),
      target_edge, ih hnext hlater]
    rfl

namespace Drawing

/-- Edges behind others are followed from where those leave the pencil. -/
theorem followAll_append (flattener : Flattener) (transform : Affine α) (sink : Sink α τ)
    (first second : List (Edge α)) :
    followAll flattener transform sink (first ++ second) =
      (followAll flattener transform sink first >>= fun _ =>
        followAll flattener transform sink second) := by
  induction first with
  | nil => rfl
  | cons edge first ih =>
    refine Drawing.ext fun pencil => ?_
    rw [List.cons_append, followAll, followAll, ih, EStateM.run_bind, EStateM.run_bind,
      EStateM.run_bind, run_follow]
    rfl

/-- Behind segments the pencil stands where the last of them ends. -/
theorem run_followAll_edges (flattener : Flattener) (transform : Affine α) (sink : Sink α τ)
    (segments : List (Segment α)) (pencil : Pencil α τ) :
    ∃ reached, (followAll flattener transform sink (segments.map edge)).run pencil = .ok () reached ∧
      reached.tip = (segments.getLast?.map target).getD pencil.tip := by
  induction segments generalizing pencil with
  | nil => exact ⟨pencil, rfl, rfl⟩
  | cons segment segments ih =>
    obtain ⟨reached, hrun, htip⟩ := ih
      { pencil with
        tip := segment.edge.target flattener pencil.tip
        receiver :=
          sink.receiveAll pencil.receiver (segment.edge.commands flattener transform pencil.tip) }
    refine ⟨reached, ?_, ?_⟩
    · rw [List.map_cons, followAll, EStateM.run_bind, run_follow]
      exact hrun
    · rw [htip, target_edge, List.getLast?_cons]
      cases segments.getLast? <;> rfl

end Drawing

namespace Flattener

open Drawing

/-- A path that can be followed is drawn by following its segments, and no warning is given. -/
theorem run_drawShape_path {attributes data : List Char} {segments : List (Segment α)}
    (hdata : attribute? "d".toList attributes = some data)
    (hsegments : ((PathState.initial (α := α)).run data).1 = .ok segments) (flattener : Flattener)
    (transform : Affine α) (sink : Sink α τ) (pencil : Pencil α τ) :
    (flattener.drawShape sink .path attributes transform).run pencil =
      (followAll flattener transform sink (segments.map edge)).run pencil := by
  have houtline : (Outline.ofShape (α := α) .path attributes).result =
      .ok (segments.map edge) := by
    simp only [Outline.ofShape, Outline.path, hdata, hsegments]
    rfl
  have hwarnings : (Outline.ofShape (α := α) .path attributes).warnings = [] := by
    simp only [Outline.ofShape, Outline.path, hdata]
    rfl
  rw [drawShape_eq, EStateM.run_bind, run_read_of_ok houtline, hwarnings, List.append_nil]

/-- While a path is drawn, the pencil stands before each segment that draws where the segment says that
it starts. So what is sent for the path is sent for its segments, each drawn from its own start. -/
theorem drawShape_path_tips {attributes data : List Char} {segments : List (Segment α)}
    (hdata : attribute? "d".toList attributes = some data)
    (hsegments : ((PathState.initial (α := α)).run data).1 = .ok segments) (flattener : Flattener)
    (transform : Affine α) (sink : Sink α τ) (pencil : Pencil α τ) :
    (∀ before segment after, segments = before ++ segment :: after →
      ∃ reached, (followAll flattener transform sink (before.map edge)).run pencil =
          .ok () reached ∧
        (∀ origin ∈ segment.origin?, reached.tip = origin) ∧
        (flattener.drawShape sink .path attributes transform).run pencil =
          (followAll flattener transform sink (edge segment :: after.map edge)).run reached) ∧
      ∃ drawn, (flattener.drawShape sink .path attributes transform).run pencil = .ok () drawn ∧
        drawn.receiver = sink.receiveAll pencil.receiver
          (segments.flatMap (Segment.commands flattener transform)) := by
  obtain ⟨-, hchain⟩ := PathState.chain_of_run hsegments
  have hmove := PathState.head_run hsegments
  rw [run_drawShape_path hdata hsegments]
  constructor
  · rintro before segment after rfl
    obtain ⟨reached, hrun, htip⟩ := run_followAll_edges flattener transform sink before pencil
    refine ⟨reached, hrun, ?_, ?_⟩
    · intro origin horigin
      obtain ⟨-, -, hfollows⟩ := List.isChain_append.1 hchain
      cases hlast : before.getLast? with
      | some last =>
        -- The segment starts where the one before it ends, and there the pencil stands.
        rw [htip, hlast, hfollows last hlast segment rfl origin horigin]
        rfl
      | none =>
        -- The first segment of a path is a move.
        obtain rfl := List.getLast?_eq_none_iff.1 hlast
        obtain ⟨stop, rfl⟩ := hmove segment rfl
        cases horigin
    · rw [List.map_append, followAll_append, EStateM.run_bind, hrun]
      rfl
  · have hhead : ∀ first ∈ segments.head?, ∀ origin ∈ first.origin?, origin = pencil.tip := by
      intro first hfirst origin horigin
      obtain ⟨stop, rfl⟩ := hmove first hfirst
      cases horigin
    obtain ⟨tip, hrun⟩ := run_followAll flattener transform sink (segments.map edge) pencil
    rw [flattenFrom_edges flattener transform hhead hchain] at hrun
    exact ⟨_, hrun, rfl⟩

/-- Behind a straight arc and one that is left out, the closing of a subpath is drawn from where the
second arc ends, with lines subdivided. -/
theorem drawShape_path_tips_arcs :
    let data := "M1 2h3a0 1 0 0 0 4 4a5 5 0 0 0 0 0zl1 1".toList
    let attributes := "d='M1 2h3a0 1 0 0 0 4 4a5 5 0 0 0 0 0zl1 1'".toList
    let before : List (Segment Float) :=
      [.move ⟨1, 2⟩, .line ⟨1, 2⟩ ⟨4, 2⟩, .arc ⟨4, 2⟩ ⟨0, 1, 0, false, false, ⟨8, 6⟩⟩,
        .arc ⟨8, 6⟩ ⟨5, 5, 0, false, false, ⟨8, 6⟩⟩]
    let segments := before ++ .close ⟨8, 6⟩ ⟨1, 2⟩ :: [.line ⟨1, 2⟩ ⟨2, 3⟩]
    let flattener : Flattener := ⟨2, true⟩
    let pencil : Pencil Float (Array (PenCommand Float)) := ⟨.origin, #[], []⟩
    attribute? "d".toList attributes = some data ∧
      ((PathState.initial (α := Float)).run data).1 = .ok segments ∧
      ∃ reached, (followAll flattener .identity .recording (before.map edge)).run pencil =
          .ok () reached ∧ reached.tip = ⟨8, 6⟩ := by
  intro data attributes before segments flattener pencil
  have hdata : attribute? "d".toList attributes = some data := by decide +kernel
  have hsegments : ((PathState.initial (α := Float)).run data).1 = .ok segments := by
    decide +kernel
  obtain ⟨htips, -⟩ :=
    drawShape_path_tips hdata hsegments flattener .identity .recording pencil
  obtain ⟨reached, hrun, htip, -⟩ := htips before _ _ rfl
  exact ⟨hdata, hsegments, reached, hrun, htip _ rfl⟩

end Flattener

end PenPlot
