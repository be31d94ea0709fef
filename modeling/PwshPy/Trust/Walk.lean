import PwshPy.Trust.Stat

/-! # The walk along a path that root would run

`pwshpy_uv_distrust` takes a path one component at a time and puts a link's target in
its place, so that each directory on the way is judged, and prints what it finds.
-/

namespace PwshPy.Trust

open Effects (Asking)
open Effects.Asking (question)
open FileTree (SLASH MAXSYMLINKS)
open Shell (captured)

/-- `${_w_rest%%/*}` -/
def first_name (rest : PyStr) : PyStr := rest.takeWhile (· ≠ SLASH)

/-- `${_w_rest#*/}`, empty where no slash is left. -/
def after_name (rest : PyStr) : PyStr := (rest.dropWhile (· ≠ SLASH)).drop 1

/-- `${_w_cur%/*}` -/
def parent_text (cur : PyStr) : PyStr :=
  if SLASH ∈ cur then (cur.rdropWhile (· ≠ SLASH)).dropLast else cur

/-- The variables of the walk. -/
structure Walk where
  cur : PyStr
  next : PyStr
  rest : PyStr
  hops : Nat
  ancestor : PyStr

/-- What the walk prints behind its loop. -/
def Walk.finish (w : Walk) : Sh PyStr :=
  pwshpy_leaf_distrust (if w.cur = [] then [SLASH] else w.cur) >>= fun why =>
    if captured why ≠ [] then pure (py "its directory " ++ captured why)
    else if w.ancestor ≠ [] then pure (py "its ancestor " ++ w.ancestor)
    else pwshpy_leaf_distrust w.next

theorem length_after_name {rest : PyStr} (h : rest ≠ []) : (after_name rest).length < rest.length := by
  have hsuffix := (List.dropWhile_suffix (fun c => decide (c ≠ SLASH)) (l := rest)).length_le
  have hpos := List.length_pos_iff.mpr h
  rw [after_name, List.length_drop]
  omega

theorem walk_step {hops : Nat} {rest later : PyStr} (h : later.length < rest.length) :
    Prod.Lex (· < ·) (· < ·) (MAXSYMLINKS - hops, later.length) (MAXSYMLINKS - hops, rest.length) :=
  .right _ h

theorem walk_link {hops : Nat} {rest later : PyStr} (h : ¬MAXSYMLINKS < hops + 1) :
    Prod.Lex (· < ·) (· < ·) (MAXSYMLINKS - (hops + 1), later.length)
      (MAXSYMLINKS - hops, rest.length) := by
  refine .left _ _ ?_
  omega

/-- The target of a link, or why it is refused. -/
def read_link (next : PyStr) : Sh (Except PyStr PyStr) :=
  pwshpy_stat next >>= fun
    | none => pure (.error (py "the symlink " ++ next ++ py " cannot be inspected"))
    | some st =>
        if !pwshpy_trusted_uid st.uid then pure (.error (py "the symlink " ++ not_root next st))
        else
          question (Query.readlink next) >>= fun
            | none => pure (.error (py "the symlink " ++ next ++ py " cannot be read"))
            | some out => pure (.ok (captured out))

/-- The walk with the target of a link in its place. -/
def Walk.linked (w : Walk) (next rest target : PyStr) : Walk :=
  let absolute := target.head? = some SLASH
  let shown := if absolute then target.drop 1 else target
  { cur := if absolute then [] else w.cur
    next
    rest := if rest = [] then shown else shown ++ SLASH :: rest
    hops := w.hops + 1
    ancestor := w.ancestor }

/-- The first ancestor that fails is kept. -/
def Walk.judge (w : Walk) (next : PyStr) : Sh PyStr :=
  if w.ancestor = [] then captured <$> pwshpy_ancestor_distrust next else pure w.ancestor

/-- The loop of the walk. -/
def Walk.loop (path : PyStr) (w : Walk) : Sh PyStr :=
  if _ : w.rest = [] then w.finish
  else
    let comp := first_name w.rest
    let rest := after_name w.rest
    if comp = [] ∨ comp = py "." then Walk.loop path { w with rest }
    else if comp = py ".." then Walk.loop path { w with cur := parent_text w.cur, rest }
    else
      let next := w.cur ++ SLASH :: comp
      question (Query.islink next) >>= fun islink =>
        if islink = true then
          if _ : MAXSYMLINKS < w.hops + 1 then pure (path ++ py " passes more than 40 symlinks")
          else
            read_link next >>= fun
              | .error why => pure why
              | .ok target => Walk.loop path (w.linked next rest target)
        else if rest = [] then Walk.finish { w with next, rest }
        else w.judge next >>= fun ancestor => Walk.loop path { w with cur := next, next, rest, ancestor }
termination_by (MAXSYMLINKS - w.hops, w.rest.length)
decreasing_by
  · exact walk_step (length_after_name ‹_›)
  · exact walk_step (length_after_name ‹_›)
  · exact walk_link ‹_›
  · exact walk_step (length_after_name ‹_›)

section Loop

variable {path : PyStr} {w : Walk}

theorem loop_done (h : w.rest = []) : w.loop path = w.finish := by
  rw [Walk.loop, dif_pos h]

variable (hrest : w.rest ≠ [])
include hrest

theorem loop_skip (hempty : first_name w.rest = [] ∨ first_name w.rest = py ".") :
    w.loop path = Walk.loop path { w with rest := after_name w.rest } := by
  rw [Walk.loop, dif_neg hrest]
  simp only [if_pos hempty]

theorem loop_up (hdots : first_name w.rest = py "..") :
    w.loop path =
      Walk.loop path { w with cur := parent_text w.cur, rest := after_name w.rest } := by
  have hempty : ¬(py ".." = [] ∨ py ".." = py ".") := by decide
  rw [Walk.loop, dif_neg hrest]
  simp only [hdots, if_neg hempty, if_true]

theorem loop_name (hempty : ¬(first_name w.rest = [] ∨ first_name w.rest = py "."))
    (hdots : first_name w.rest ≠ py "..") :
    w.loop path = question (Query.islink (w.cur ++ SLASH :: first_name w.rest)) >>= fun islink =>
      if islink = true then
        if MAXSYMLINKS < w.hops + 1 then pure (path ++ py " passes more than 40 symlinks")
        else
          read_link (w.cur ++ SLASH :: first_name w.rest) >>= fun
            | .error why => pure why
            | .ok target => Walk.loop path
                (w.linked (w.cur ++ SLASH :: first_name w.rest) (after_name w.rest) target)
      else if after_name w.rest = [] then
        Walk.finish { w with next := w.cur ++ SLASH :: first_name w.rest, rest := after_name w.rest }
      else
        w.judge (w.cur ++ SLASH :: first_name w.rest) >>= fun ancestor =>
          Walk.loop path
            { w with
              cur := w.cur ++ SLASH :: first_name w.rest
              next := w.cur ++ SLASH :: first_name w.rest
              rest := after_name w.rest
              ancestor } := by
  rw [Walk.loop, dif_neg hrest]
  simp only [if_neg hempty, if_neg hdots]
  rfl

end Loop

/-- Why the program at the path may not run as root, or nothing. -/
def pwshpy_uv_distrust (path : PyStr) : Sh PyStr :=
  if path.head? = some SLASH then
    pwshpy_ancestor_distrust [SLASH] >>= fun ancestor =>
      Walk.loop path
        { cur := [], next := [], rest := path.drop 1, hops := 0, ancestor := captured ancestor }
  else pure (path ++ py " is not an absolute path")

end PwshPy.Trust
