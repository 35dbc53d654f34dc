import Mathlib.Control.Monad.Basic
import Mathlib.Data.List.Chain
import PenPlot.Proofs.Leading
import PenPlot.Proofs.Steps
import PenPlot.Scalar.Machine

/-!
# The segments of a path form a chain

A segment says itself where it starts, although whoever draws it goes on from where the segment before
ended. Both are the same point. What carries this through a path is the state that is remembered from
step to step: its current point is where the last segment ended, and its subpath started where the last
move went, which is also where the closing of the subpath goes back to.
-/

namespace PenPlot

namespace Segment

variable {α : Type}

/-- Where a segment that draws starts. -/
def origin? : Segment α → Option (Point α)
  | move _ => none
  | line start _ | quadratic start _ _ | cubic start _ _ _ | arc start _ | close start _ => some start

/-- Where a move goes. -/
def moveTarget? : Segment α → Option (Point α)
  | move stop => some stop
  | _ => none

/-- Where the last move goes. -/
def lastMove? (segments : List (Segment α)) : Option (Point α) :=
  (segments.filterMap moveTarget?).getLast?

/-- A segment starts where the one before it ends, if it draws. -/
def Follows (before segment : Segment α) : Prop :=
  ∀ origin ∈ segment.origin?, origin = before.target

theorem lastMove?_cons (first : Segment α) (segments : List (Segment α)) :
    lastMove? (first :: segments) = (lastMove? segments).or first.moveTarget? := by
  cases hfirst : first.moveTarget? with
  | none => simp [lastMove?, hfirst]
  | some stop =>
    rw [lastMove?, List.filterMap_cons_some hfirst, List.getLast?_cons, lastMove?]
    cases (segments.filterMap moveTarget?).getLast? <;> rfl

theorem exists_lastMove?_of_move (stop : Point α) (segments : List (Segment α)) :
    ∃ last, lastMove? (move stop :: segments) = some last := by
  rw [lastMove?_cons]
  cases lastMove? segments with
  | none => exact ⟨stop, rfl⟩
  | some last => exact ⟨last, rfl⟩

end Segment

open Segment

namespace PathState

variable {α : Type}

/-- Segments lead from one state to another. -/
structure Leads (state last : PathState α) (segments : List (Segment α)) : Prop where
  /-- The first segment starts at the current point. -/
  head : ∀ first ∈ segments.head?, ∀ origin ∈ first.origin?, origin = state.current
  /-- Each of the others starts where the one before it ends. -/
  chain : segments.IsChain Follows
  /-- A subpath is closed where the last move went, or where it started before the first move. -/
  closes : ∀ before origin stop after, segments = before ++ .close origin stop :: after →
    stop = (lastMove? before).getD state.start
  /-- The current point is where the last segment ends. -/
  current : last.current = (segments.getLast?.map target).getD state.current
  /-- The subpath starts where the last move goes. -/
  start : last.start = (lastMove? segments).getD state.start

theorem Leads.nil (state : PathState α) : state.Leads state [] where
  head := by simp
  chain := .nil
  closes before origin stop after h := by simp at h
  current := rfl
  start := rfl

/-- Behind a segment that leads to a state stand segments that lead on from there. -/
theorem Leads.cons {state next last : PathState α} {segment : Segment α}
    {segments : List (Segment α)} (hfirst : state.Leads next [segment])
    (hrest : next.Leads last segments) : state.Leads last (segment :: segments) where
  head := hfirst.head
  chain := by
    refine hrest.chain.cons ?_
    intro second hsecond origin horigin
    have hcurrent : next.current = segment.target := hfirst.current
    rw [hrest.head second hsecond origin horigin, hcurrent]
  closes before origin stop after h := by
    cases before with
    | nil =>
      obtain ⟨rfl, -⟩ := List.cons.inj h
      exact hfirst.closes [] origin stop [] rfl
    | cons first before =>
      obtain ⟨rfl, hsegments⟩ := List.cons.inj h
      have hstart : next.start = (lastMove? [segment]).getD state.start := hfirst.start
      have hstop := hrest.closes before origin stop after hsegments
      rw [hstop, hstart, lastMove?_cons, lastMove?_cons]
      cases lastMove? before <;> rfl
  current := by
    have hcurrent : next.current = segment.target := hfirst.current
    rw [hrest.current, List.getLast?_cons, hcurrent]
    cases segments.getLast? <;> rfl
  start := by
    have hstart : next.start = (lastMove? [segment]).getD state.start := hfirst.start
    rw [hrest.start, hstart, lastMove?_cons, lastMove?_cons]
    cases lastMove? segments <;> rfl

variable [Scalar α]

/-- The segment of a step leads to the state behind the step. -/
theorem advance_leads (state : PathState α) (mode : CoordinateMode) (step : Step α) :
    state.Leads (state.advance mode step).2 [(state.advance mode step).1] := by
  have hcloses : ∀ origin stop, (state.advance mode step).1 = .close origin stop →
      stop = state.start := by
    intro origin stop h
    cases step with
    | close =>
      cases h
      rfl
    | horizontal x => cases mode <;> cases h
    | vertical y => cases mode <;> cases h
    | _ => cases h
  refine ⟨?_, .singleton _, ?_, ?_, ?_⟩
  · intro first hfirst origin horigin
    cases hfirst
    cases step with
    | move stop => cases horigin
    | horizontal x => cases mode <;> (cases horigin; rfl)
    | vertical y => cases mode <;> (cases horigin; rfl)
    | _ =>
      cases horigin
      rfl
  · intro before origin stop after h
    cases before with
    | nil => exact hcloses origin stop (List.cons.inj h).1
    | cons first before => simp at h
  · cases step with
    | horizontal x => cases mode <;> rfl
    | vertical y => cases mode <;> rfl
    | _ => rfl
  · cases step with
    | horizontal x => cases mode <;> rfl
    | vertical y => cases mode <;> rfl
    | _ => rfl

theorem take_leads (state : PathState α) (steps : List (CoordinateMode × Step α)) :
    state.Leads (state.take steps).2 (state.take steps).1 := by
  induction steps generalizing state with
  | nil => exact .nil state
  | cons first steps ih =>
    obtain ⟨mode, step⟩ := first
    have hfirst := state.advance_leads mode step
    have hrest := ih (state.advance mode step).2
    exact hfirst.cons hrest

/-- Path data that is followed to the end gives segments that begin with a move, if there are any. Each
segment that draws starts where the segment before it ends, and each closing of a subpath ends where the
last move before it went. Behind them the current point is where the last segment ends, and the subpath
starts where the last move went; without segments both are what they were. -/
theorem run_chained {state last : PathState α} {data : List Char} {segments : List (Segment α)}
    (h : state.run data = (.ok segments, last)) :
    (∀ first ∈ segments.head?, ∃ stop, first = .move stop) ∧
      segments.IsChain Follows ∧
      (∀ before origin stop after, segments = before ++ .close origin stop :: after →
        lastMove? before = some stop) ∧
      last.current = (segments.getLast?.map target).getD state.current ∧
      last.start = (lastMove? segments).getD state.start := by
  have hmove : ∀ first ∈ segments.head?, ∃ stop, first = .move stop := head_run (by rw [h])
  obtain ⟨steps, -, -, htake⟩ := run_eq_ok_iff.1 h
  have hleads := state.take_leads steps
  rw [htake] at hleads
  refine ⟨hmove, hleads.chain, ?_, hleads.current, hleads.start⟩
  intro before origin stop after hsegments
  have hstop := hleads.closes before origin stop after hsegments
  cases before with
  | nil =>
    obtain ⟨_, hclose⟩ := hmove (.close origin stop) (by simp [hsegments])
    cases hclose
  | cons first before =>
    obtain ⟨start, rfl⟩ := hmove first (by simp [hsegments])
    obtain ⟨latest, hlatest⟩ := exists_lastMove?_of_move start before
    rw [hlatest] at hstop ⊢
    rw [hstop]
    rfl

/-- Two subpaths, of which the first is closed twice and the second starts with implied lines, followed
from a state in which a subpath was under way. -/
theorem run_chained_two_subpaths :
    let state : PathState Float := ⟨⟨7, 8⟩, ⟨9, 9⟩, some (.cubic, ⟨1, 1⟩)⟩
    let data := "M1 2h3q1 1 2 0zzm1 1 2 0a1 1 0 0 0 4 4".toList
    let segments : List (Segment Float) :=
      [.move ⟨1, 2⟩, .line ⟨1, 2⟩ ⟨4, 2⟩, .quadratic ⟨4, 2⟩ ⟨5, 3⟩ ⟨6, 2⟩, .close ⟨6, 2⟩ ⟨1, 2⟩,
        .close ⟨1, 2⟩ ⟨1, 2⟩, .move ⟨2, 3⟩, .line ⟨2, 3⟩ ⟨4, 3⟩,
        .arc ⟨4, 3⟩ ⟨1, 1, 0, false, false, ⟨8, 7⟩⟩]
    let last : PathState Float := ⟨⟨8, 7⟩, ⟨2, 3⟩, none⟩
    state.run data = (.ok segments, last) ∧ segments.IsChain Follows ∧
      last.current = (segments.getLast?.map target).getD state.current ∧
      last.start = (lastMove? segments).getD state.start := by
  intro state data segments last
  have hrun : state.run data = (.ok segments, last) := by decide +kernel
  obtain ⟨-, hchain, -, hcurrent, hstart⟩ := run_chained hrun
  exact ⟨hrun, hchain, hcurrent, hstart⟩

end PathState

end PenPlot
