import FlowScript.Text.Blank

/-!
# Paths

Paths are texts whose segments are divided by slashes.
-/

namespace FlowScript.Path

/-- Resolves the dots among segments. What climbs above the start is kept, unless the path starts at
the root. -/
def settle (rooted : Bool) (segments : List (List Char)) : List (List Char) :=
  (segments.foldl
    (fun (done : List (List Char)) segment =>
      if segment.isEmpty || segment == ['.'] then done
      else if segment == ['.', '.'] then
        match done with
        | [] => if rooted then [] else [segment]
        | last :: rest => if last == ['.', '.'] then segment :: done else rest
      else segment :: done)
    []).reverse

/-- The shortest path that names the same place. -/
def clean (path : List Char) : List Char :=
  let rooted := path.head? == some '/'
  let body := Text.glue ['/'] (settle rooted (Text.cut '/' path))
  if rooted then '/' :: body
  else if body.isEmpty then ['.']
  else body

/-- The path of a name inside a directory. -/
def join (dir name : String) : String :=
  if dir.isEmpty then
    if name.isEmpty then "" else String.ofList (clean name.toList)
  else String.ofList (clean (dir.toList ++ '/' :: name.toList))

/-- What is left of a path without its last segment, the dividing slash included. -/
def parent (path : List Char) : List Char :=
  ((path.reverse.dropWhile (· == '/')).dropWhile (· != '/')).reverse

theorem length_parent_lt {path : List Char} (h : path ≠ []) :
    (parent path).length < path.length := by
  have hrev : path.reverse ≠ [] := by simpa using h
  have hlen : path.reverse.length = path.length := List.length_reverse
  rw [parent, List.length_reverse, ← hlen]
  cases hr : path.reverse with
  | nil => exact absurd hr hrev
  | cons c cs =>
    have hle : ∀ p q : Char → Bool, ((cs.dropWhile p).dropWhile q).length ≤ cs.length :=
      fun p q => Nat.le_trans (List.dropWhile_suffix q).length_le (List.dropWhile_suffix p).length_le
    by_cases hc : c = '/'
    · simp only [hc, List.dropWhile_cons, beq_self_eq_true, if_true, List.length_cons]
      exact Nat.lt_succ_of_le (hle _ _)
    · have hb : (c == '/') = false := by simpa using hc
      have hn : (c != '/') = true := by simpa using hc
      simp only [List.dropWhile_cons, hb, hn, if_true, List.length_cons, Bool.false_eq_true, if_false]
      exact Nat.lt_succ_of_le (List.dropWhile_suffix _).length_le

end FlowScript.Path
