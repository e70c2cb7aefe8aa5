import HookExecutor.Executor.Script
import HookExecutor.Lib.LexicalWalk

/-!
# Where accepted script paths lead

The containment check compares components; what it is for is a statement about
the text: read from the root of the filesystem, one segment at a time, an
accepted path never goes up and ends at or below a permitted directory.
-/

namespace HookExecutor

open Text LexicalWalk

namespace Executor

/-- How one segment of a path moves. -/
def readSegment (segment : String) : Segment String :=
  if segment = "" ∨ segment = "." then .here
  else if segment = ".." then .up
  else .down segment

/-- A path as a walk from the root of the filesystem. -/
def pathSegments (path : String) : List (Segment String) := (split '/' path).map readSegment

namespace PathComponent

/-- How a component moves; naming the root stays there. -/
def toSegment : PathComponent → Segment String
  | .rootDir => .here
  | .parentDir => .up
  | .normal name => .down name

end PathComponent

theorem names_moves (segments : List String) :
    (((segments.filter fun s => s != "" && s != ".").map fun s =>
        if s = ".." then PathComponent.parentDir else .normal s).map
          PathComponent.toSegment).filter Segment.moves =
      (segments.map readSegment).filter Segment.moves := by
  induction segments with
  | nil => rfl
  | cons segment segments ih =>
    rw [List.map_map] at ih ⊢
    by_cases hempty : segment = ""
    · simpa [readSegment, hempty, Segment.moves] using ih
    by_cases hdot : segment = "."
    · simpa [readSegment, hdot, Segment.moves] using ih
    by_cases hup : segment = ".."
    · simpa [readSegment, hup, List.filter_cons, Segment.moves, PathComponent.toSegment] using ih
    · simpa [readSegment, hempty, hdot, hup, List.filter_cons, Segment.moves,
        PathComponent.toSegment] using ih

/-- The components of a path are the moves of its walk. -/
theorem pathComponents_moves (path : String) :
    ((pathComponents path).map PathComponent.toSegment).filter Segment.moves =
      (pathSegments path).filter Segment.moves := by
  rw [pathComponents, pathSegments]
  split
  · exact names_moves _
  · exact names_moves _

/-- The segments of a path that reading it does not pass over. -/
def keptSegments (path : String) : List String :=
  (split '/' path).filter fun s => s != "" && s != "."

theorem split_rooted {segments : List String} (h : ∀ s ∈ segments, '/' ∉ s.toList) :
    split '/' ("/" ++ "/".intercalate segments) =
      "" :: if segments = [] then [""] else segments := by
  have hslash : ("/" ++ "/".intercalate segments).toList =
      [] ++ '/' :: List.intercalate ['/'] (segments.map String.toList) := by
    simp [String.toList_append, String.toList_intercalate]
  rw [split, hslash, splitChars_append List.not_mem_nil]
  cases segments with
  | nil => rfl
  | cons first rest =>
    rw [splitChars_intercalate (by simp) (by simpa using h)]
    simp

theorem componentText_names (segments : List String) :
    (segments.map fun s => if s = ".." then PathComponent.parentDir else .normal s).map
      componentText = segments := by
  induction segments with
  | nil => rfl
  | cons segment segments ih =>
    rw [List.map_cons, List.map_cons, ih]
    split
    · simp_all [componentText]
    · rfl

/-- Joining the components of a path and reading the result changes nothing,
so containment may compare the components themselves. -/
theorem pathComponents_componentsText {path : String} (h : isAbsolute path = true) :
    pathComponents (componentsText (pathComponents path)) = pathComponents path := by
  have hslash : ∀ s ∈ keptSegments path, '/' ∉ s.toList := by
    intro s hs
    obtain ⟨piece, hpiece, rfl⟩ := List.mem_map.mp (List.mem_of_mem_filter hs)
    simpa using notMem_of_mem_splitChars hpiece
  have htext : componentsText (pathComponents path) =
      "/" ++ "/".intercalate (keptSegments path) := by
    rw [pathComponents, if_pos h]
    show "/" ++ "/".intercalate _ = _
    rw [componentText_names]
    rfl
  have habsolute : isAbsolute ("/" ++ "/".intercalate (keptSegments path)) = true := by
    simp [isAbsolute, String.toList_append]
  have hkept : (split '/' ("/" ++ "/".intercalate (keptSegments path))).filter
      (fun s => s != "" && s != ".") = keptSegments path := by
    rw [split_rooted hslash]
    by_cases hnil : keptSegments path = []
    · rw [if_pos hnil, hnil]
      rfl
    · rw [if_neg hnil, List.filter_cons_of_neg (by simp), keptSegments, List.filter_filter]
      simp
  rw [htext, pathComponents, if_pos habsolute, hkept, pathComponents, if_pos h]
  rfl
theorem neverUp_of_parentDir_notMem {path : String} (h : .parentDir ∉ pathComponents path) :
    NeverUp (pathSegments path) := by
  intro hup
  have hmoves : Segment.up ∈ (pathSegments path).filter Segment.moves :=
    List.mem_filter.mpr ⟨hup, rfl⟩
  rw [← pathComponents_moves] at hmoves
  obtain ⟨component, hmem, hcomponent⟩ := List.mem_map.mp (List.mem_of_mem_filter hmoves)
  cases component with
  | rootDir => cases hcomponent
  | parentDir => exact h hmem
  | normal name => cases hcomponent

theorem walk_isPrefix_of_components {root path : String}
    (hstart : pathComponents root <+: pathComponents path) (h : NeverUp (pathSegments path)) :
    walk (pathSegments root) <+: walk (pathSegments path) := by
  apply walk_isPrefix_of_moves _ h
  rw [← pathComponents_moves, ← pathComponents_moves]
  exact (hstart.map PathComponent.toSegment).filter Segment.moves

theorem isWithinRoots_iff {candidate : String} {roots : List String} :
    isWithinRoots candidate roots = true ↔
      (roots ≠ [] → ∃ root ∈ roots, pathComponents root <+: pathComponents candidate) := by
  cases roots with
  | nil => simp [isWithinRoots]
  | cons root roots => simp [isWithinRoots]

theorem validateScriptPath_eq_ok_iff {path : String} {roots : List String} :
    validateScriptPath path roots = .ok () ↔
      Char.ofNat 0 ∉ path.toList ∧ isAbsolute path = true ∧
        .parentDir ∉ pathComponents path ∧ isWithinRoots path roots = true := by
  rw [validateScriptPath]
  split
  · simp_all
  · split
    · simp_all
    · split
      · simp_all
      · split
        · simp_all
        · simp_all

/-- A path accepted under the configured roots is absolute, has no NUL, never
goes up, and ends at or below one of the roots if there are any. -/
theorem accepted_path_confined (path raw : String)
    (h : validateScriptPath path (parseScriptRoots raw) = .ok ()) :
    isAbsolute path = true ∧ Char.ofNat 0 ∉ path.toList ∧ NeverUp (pathSegments path) ∧
      (parseScriptRoots raw ≠ [] →
        ∃ root ∈ parseScriptRoots raw, walk (pathSegments root) <+: walk (pathSegments path)) := by
  obtain ⟨hnul, habsolute, hparent, hroots⟩ := validateScriptPath_eq_ok_iff.mp h
  have hup : NeverUp (pathSegments path) := neverUp_of_parentDir_notMem hparent
  refine ⟨habsolute, hnul, hup, ?_⟩
  intro hne
  obtain ⟨root, hroot, hstart⟩ := isWithinRoots_iff.mp hroots hne
  exact ⟨root, hroot, walk_isPrefix_of_components hstart hup⟩

theorem accepted_path_confined_dots :
    ∃ root ∈ parseScriptRoots "relative, /opt//hooks ,,",
      walk (pathSegments root) <+: walk (pathSegments "/opt/./hooks//run.sh") := by
  have haccepted : validateScriptPath "/opt/./hooks//run.sh"
      (parseScriptRoots "relative, /opt//hooks ,,") = .ok () := by decide
  exact (accepted_path_confined _ _ haccepted).2.2.2 (by decide)

end Executor

end HookExecutor
