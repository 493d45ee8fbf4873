import ReactorNet.Lib.Bytes

/-!
# ReactorNet — names of files

A pathname is read segment by segment: an empty segment and a single dot stay where they
are, two dots go up, and every other one goes down. Links are not followed, so what is said
here is said about names.

* `resolve_append` — a name below a directory, without two dots, stays below it.
-/

namespace ReactorNet.Lib

/-- What stands between the slashes. -/
def segments (path : Bytes) : List Bytes := path.splitOn 0x2F

/-- The directory that one segment leads to; `".."` at the root stays there. -/
def enter (dir : List Bytes) (segment : Bytes) : List Bytes :=
  if segment = [] ∨ segment = [0x2E] then dir
  else if segment = [0x2E, 0x2E] then dir.dropLast
  else dir ++ [segment]

/-- The names from the root to what a path names, seen from a directory. -/
def resolve (cwd : List Bytes) (path : Bytes) : List Bytes :=
  (segments path).foldl enter (if path.head? = some 0x2F then [] else cwd)

theorem segments_append (dir rest : Bytes) :
    segments (dir ++ 0x2F :: rest) = segments dir ++ segments rest :=
  List.splitOn_append_cons_self ..

/-- A segment stands in the path as it is. -/
theorem infix_of_mem_segments {path segment : Bytes} (h : segment ∈ segments path) :
    segment <:+: path := by
  -- the first segment is where the path starts, which the induction has to know
  suffices hBoth : (∃ first rest, segments path = first :: rest ∧ first <+: path) ∧
      ∀ x ∈ segments path, x <:+: path from hBoth.2 segment h
  clear h segment
  induction path with
  | nil => simp [segments]
  | cons b path ih =>
    obtain ⟨⟨first, rest, hSegments, hFirst⟩, hAll⟩ := ih
    by_cases hb : b = 0x2F
    · subst hb
      have hSplit : segments (0x2F :: path) = [] :: segments path := by
        simpa [segments] using segments_append [] path
      rw [hSplit]
      refine ⟨⟨[], _, rfl, List.nil_prefix⟩, fun x hx => ?_⟩
      rcases List.mem_cons.mp hx with rfl | hx
      · exact List.nil_infix
      · exact List.infix_cons (hAll x hx)
    · have hSplit : segments (b :: path) = (b :: first) :: rest := by
        rw [segments, List.splitOn_cons_eq_if_modifyHead]
        rw [segments] at hSegments
        simp [hb, hSegments]
      rw [hSplit]
      have hPrefix : b :: first <+: b :: path := List.cons_prefix_cons.mpr ⟨rfl, hFirst⟩
      refine ⟨⟨b :: first, rest, rfl, hPrefix⟩, fun x hx => ?_⟩
      rcases List.mem_cons.mp hx with rfl | hx
      · exact hPrefix.isInfix
      · exact List.infix_cons (hAll x (hSegments ▸ List.mem_cons_of_mem _ hx))

theorem prefix_foldl_enter {names : List Bytes} (h : [0x2E, 0x2E] ∉ names) (dir : List Bytes) :
    dir <+: names.foldl enter dir := by
  induction names generalizing dir with
  | nil => exact List.prefix_refl dir
  | cons name names ih =>
    have hRest := ih (fun hMem => h (List.mem_cons_of_mem _ hMem)) (enter dir name)
    have hName : name ≠ [0x2E, 0x2E] := fun hEq => h (hEq ▸ List.mem_cons_self ..)
    rw [List.foldl_cons]
    refine List.IsPrefix.trans ?_ hRest
    rw [enter, if_neg hName]
    split_ifs
    · exact List.prefix_refl dir
    · exact List.prefix_append dir [name]

/-- **A name below a directory stays below it.** -/
theorem resolve_append (cwd : List Bytes) {dir rest : Bytes} (hDir : dir ≠ [])
    (h : [0x2E, 0x2E] ∉ segments rest) : resolve cwd dir <+: resolve cwd (dir ++ 0x2F :: rest) := by
  have hHead : (dir ++ 0x2F :: rest).head? = dir.head? := by
    rw [List.head?_append_of_ne_nil _ hDir]
  rw [resolve, resolve, segments_append, List.foldl_append, hHead]
  exact prefix_foldl_enter h _

end ReactorNet.Lib
