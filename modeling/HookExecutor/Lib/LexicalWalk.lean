import Mathlib.Data.List.Basic

/-!
# Lexical walks

The directory that a sequence of path segments leads to when nothing but the
segments is looked at: a segment may stay where it is, go up one directory, or
go down by a name. Going up from the root stays there.
-/

namespace LexicalWalk

variable {α : Type}

inductive Segment (α : Type) where
  | here
  | up
  | down (name : α)
  deriving DecidableEq

/-- The directory reached from another one. A directory is the names that lead
down to it from the root. -/
def step (dir : List α) : Segment α → List α
  | .here => dir
  | .up => dir.dropLast
  | .down name => dir ++ [name]

def walk (segments : List (Segment α)) : List α := segments.foldl step []

def NeverUp (segments : List (Segment α)) : Prop := .up ∉ segments

def Segment.moves : Segment α → Bool
  | .here => false
  | .up => true
  | .down _ => true

theorem foldl_step_moves (dir : List α) (segments : List (Segment α)) :
    (segments.filter Segment.moves).foldl step dir = segments.foldl step dir := by
  induction segments generalizing dir with
  | nil => rfl
  | cons segment segments ih =>
    cases segment with
    | here => exact ih dir
    | up => exact ih (step dir .up)
    | down name => exact ih (step dir (.down name))

/-- Segments that stay where they are do not matter. -/
theorem walk_moves (segments : List (Segment α)) :
    walk (segments.filter Segment.moves) = walk segments :=
  foldl_step_moves [] segments

/-- A walk that never goes up never leaves a directory it has reached. -/
theorem isPrefix_foldl_step {segments : List (Segment α)} (h : NeverUp segments) (dir : List α) :
    dir <+: segments.foldl step dir := by
  induction segments generalizing dir with
  | nil => exact List.prefix_rfl
  | cons segment segments ih =>
    have hrest : NeverUp segments := fun hup => h (List.mem_cons_of_mem _ hup)
    cases segment with
    | here => exact ih hrest dir
    | up => exact absurd List.mem_cons_self h
    | down name => exact (List.prefix_append dir [name]).trans (ih hrest (dir ++ [name]))

theorem walk_isPrefix {first segments : List (Segment α)} (hstart : first <+: segments)
    (h : NeverUp segments) : walk first <+: walk segments := by
  obtain ⟨rest, rfl⟩ := hstart
  have hrest : NeverUp rest := fun hup => h (List.mem_append_right first hup)
  rw [walk, walk, List.foldl_append]
  exact isPrefix_foldl_step hrest _

/-- What the segments of one walk start with, those of another apart from the
ones that stay, leads to a directory at or above where the other ends. -/
theorem walk_isPrefix_of_moves {first segments : List (Segment α)}
    (hstart : first.filter Segment.moves <+: segments.filter Segment.moves)
    (h : NeverUp segments) : walk first <+: walk segments := by
  rw [← walk_moves first, ← walk_moves segments]
  exact walk_isPrefix hstart fun hup => h (List.mem_of_mem_filter hup)

end LexicalWalk
