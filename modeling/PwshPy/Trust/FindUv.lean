import PwshPy.Trust.CleanPath

/-! # The uv of a root run, and the directories it may search

`pwshpy_find_uv` takes the first acceptable uv, and `pwshpy_trusted_path` the
directories that no other account decides.
-/

namespace PwshPy.Trust

open Effects (Asking)
open Effects.Asking
open FileTree
open Relation (ReflTransGen)
open Shell (captured)

/-! ## The search -/

/-- The variables the search reads; one that is not set is empty. -/
structure Settings where
  as_root : Bool
  caller_path : PyStr
  cache_home : PyStr
  HOME : PyStr
  XDG_BIN_HOME : PyStr
  CARGO_HOME : PyStr

def COLON : Nat := 0x3a

/-- The words of an unquoted value with `IFS` a colon: a colon ends a word. -/
def path_entries (value : PyStr) : List PyStr :=
  let parts := value.splitOn COLON
  if parts.getLast? = some [] then parts.dropLast else parts

/-- `${dir:-.}` -/
def or_dot (dir : PyStr) : PyStr := if dir = [] then py "." else dir

def say (line : PyStr) : Sh Unit := question (Query.stderr line)

/-- Whether this run may execute the uv at the path. -/
def pwshpy_uv_acceptable (v : Settings) (path : PyStr) : Sh Bool :=
  if path = [] then pure false
  else
    question (Query.executable path) >>= fun executable =>
      if executable = false then pure false
      else if v.as_root = false then pure true
      else
        question (Query.isfile path) >>= fun isfile =>
          if isfile = false then pure false
          else
            pwshpy_uv_distrust path >>= fun why =>
              if captured why = [] then pure true
              else
                say (py "pwshpy: skipping uv at " ++ path ++ py ": " ++ captured why ++
                  py " (as root only a uv no other account can modify is run)") >>= fun _ => pure false

/-- `${home%/}` -/
def without_slash (home : PyStr) : PyStr :=
  if home.getLast? = some SLASH then home.dropLast else home

def pwshpy_uv_home (v : Settings) : PyStr :=
  if v.as_root then parent_text v.cache_home else without_slash v.HOME

/-- The first of the paths that is acceptable. -/
def first_acceptable (v : Settings) : List PyStr → Sh (Option PyStr)
  | [] => pure none
  | path :: paths =>
      pwshpy_uv_acceptable v path >>= fun
        | true => pure (some path)
        | false => first_acceptable v paths

/-- The candidates on the caller's `PATH`, which only a root run takes itself. -/
def path_candidates (v : Settings) : List PyStr :=
  (path_entries v.caller_path).map fun dir => or_dot dir ++ py "/uv"

/-- `${XDG_BIN_HOME:+$XDG_BIN_HOME/uv}` and the like -/
def below (dir : PyStr) (name : PyStr) : PyStr := if dir = [] then [] else dir ++ name

def fixed_candidates (v : Settings) : List PyStr :=
  let home := captured (pwshpy_uv_home v)
  [home ++ py "/.local/bin/uv", home ++ py "/.cargo/bin/uv", py "/usr/local/bin/uv",
    if v.as_root then [] else below v.XDG_BIN_HOME (py "/uv"),
    if v.as_root then [] else below v.CARGO_HOME (py "/bin/uv")]

/-- What the search prints, none where it fails. -/
def pwshpy_find_uv (v : Settings) : Sh (Option PyStr) :=
  if v.as_root then
    first_acceptable v (path_candidates v) >>= fun
      | some path => pure (some path)
      | none => first_acceptable v (fixed_candidates v)
  else
    question (Query.command (py "uv")) >>= fun
      | some _ => question (Query.command (py "uv")) >>= fun found => pure (some (found.getD []))
      | none => first_acceptable v (fixed_candidates v)

/-! ## The directories of `PATH` -/

/-- `${_tp_out:+$_tp_out:}$_tp_dir` -/
def joined_path (out dir : PyStr) : PyStr := (if out = [] then [] else out ++ [COLON]) ++ dir

def left_off (dir why : PyStr) : PyStr :=
  py "pwshpy: leaving " ++ or_dot dir ++ py " off uv's PATH: " ++ why ++
    py " (as root uv runs git and other tools only from directories no other account can modify)"

/-- The loop over the directories. -/
def trusted_entries (out : PyStr) : List PyStr → Sh PyStr
  | [] => pure out
  | dir :: dirs =>
      pwshpy_uv_distrust (or_dot dir ++ py "/.") >>= fun why =>
        if captured why = [] then trusted_entries (joined_path out dir) dirs
        else say (left_off dir (captured why)) >>= fun _ => trusted_entries out dirs

def pwshpy_trusted_path (path : PyStr) : Sh PyStr := trusted_entries [] (path_entries path)

/-! ## What the search settles for -/

section Sound

variable {tools : Tools} {v : Settings} {t t' : Volume} {path : PyStr}

theorem Settled.later (h : Settled t path) (hlater : Later t t') : Settled t' path := by
  intro t'' h''
  obtain ⟨hresolve, hsealed⟩ := h t' hlater
  obtain ⟨hresolve', hsealed'⟩ := h t'' (hlater.trans h'')
  refine ⟨hresolve'.trans hresolve.symm, fun i hi => ?_⟩
  rw [hresolve] at hi
  obtain ⟨hbefore, hsame⟩ := hsealed i hi
  obtain ⟨-, hsame'⟩ := hsealed' i hi
  exact ⟨sealed_of_inode_eq hsame hbefore, hsame'.trans hsame.symm⟩

theorem acceptable_settled (htools : tools.Shows) (htidy : Tidy Root t) (hroot : v.as_root = true)
    (path : PyStr) : Ends tools (fun accepted t' => accepted = true → Settled t' path)
      (pwshpy_uv_acceptable v path) t := by
  have hrefused : ∀ t, Ends tools (fun accepted t' => accepted = true → Settled t' path)
      (pure false : Sh Bool) t := fun t =>
    endsIn_pure fun _ _ h => nomatch h
  have hnot : v.as_root ≠ false := by simp [hroot]
  rw [pwshpy_uv_acceptable]
  simp only [if_neg hnot]
  split_ifs with hempty
  · exact hrefused t
  refine endsIn_question fun t₁ h₁ => ?_
  split_ifs with hexecutable
  · exact hrefused t₁
  refine endsIn_question fun t₂ h₂ => ?_
  split_ifs with hfile
  · exact hrefused t₂
  have htidy₂ := (htidy.later h₁).later h₂
  refine endsIn_bind ((uv_distrust_silent htools path htidy₂).mono fun why t₃ hwhy => ?_)
  by_cases hsilent : captured why = []
  · simp only [if_pos hsilent]
    exact endsIn_pure fun t₄ h₄ _ => (hwhy hsilent).later h₄
  · simp only [if_neg hsilent]
    exact endsIn_question fun t₄ _ => hrefused t₄

theorem first_acceptable_settled (htools : tools.Shows) (htidy : Tidy Root t) (hroot : v.as_root = true)
    (paths : List PyStr) :
    Ends tools (fun found t' => ∀ uv, found = some uv → uv ∈ paths ∧ Settled t' uv)
      (first_acceptable v paths) t := by
  induction paths generalizing t with
  | nil => exact endsIn_pure fun _ _ uv h => nomatch h
  | cons path paths ih =>
      refine endsIn_bind ((acceptable_settled htools htidy hroot path).and_later.mono
        fun accepted t₁ haccepted => ?_)
      obtain ⟨hsettled, h₁⟩ := haccepted
      cases accepted with
      | true =>
          refine endsIn_pure fun t₂ h₂ uv huv => ?_
          obtain rfl := Option.some.inj huv
          exact ⟨List.mem_cons_self, (hsettled rfl).later h₂⟩
      | false =>
          refine (ih (htidy.later h₁)).mono fun found t₂ hfound uv huv => ?_
          obtain ⟨hmem, hsettled⟩ := hfound uv huv
          exact ⟨List.mem_cons_of_mem _ hmem, hsettled⟩

theorem find_uv_settled (htools : tools.Shows) (htidy : Tidy Root t) (hroot : v.as_root = true) :
    Ends tools (fun found t' => ∀ uv, found = some uv →
        uv ∈ path_candidates v ++ fixed_candidates v ∧ Settled t' uv) (pwshpy_find_uv v) t := by
  rw [pwshpy_find_uv, if_pos hroot]
  refine endsIn_bind ((first_acceptable_settled htools htidy hroot (path_candidates v)).and_later.mono
    fun found t₁ hfound => ?_)
  obtain ⟨hfound, h₁⟩ := hfound
  cases found with
  | some path =>
      refine endsIn_pure fun t₂ h₂ uv huv => ?_
      obtain rfl := Option.some.inj huv
      obtain ⟨hmem, hsettled⟩ := hfound path rfl
      exact ⟨List.mem_append_left _ hmem, hsettled.later h₂⟩
  | none =>
      refine (first_acceptable_settled htools (htidy.later h₁) hroot (fixed_candidates v)).mono
        fun found t₂ hfixed uv huv => ?_
      obtain ⟨hmem, hsettled⟩ := hfixed uv huv
      exact ⟨List.mem_append_right _ hmem, hsettled⟩

end Sound

/-! ## What it does not miss -/

/-- The path of a program that only root decides about, spelled without links and dots,
and with no ACL that `ls` shows. -/
structure Usable (tools : Tools) (t : Volume) (path : PyStr) (n : Name) (names : List Name) (j : Ino)
    (stack : List Ino) : Prop where
  spelled : path = pathOf (n :: names)
  clean : Clean tools t (n :: names) (j :: stack)
  dir : Sealed Root t (t.top stack)
  file : Sealed Root t j
  regular : is_regular t j = true
  executable : may_execute t j = true

section Found

variable {tools : Tools} {v : Settings} {t t' : Volume} {path : PyStr} {n : Name} {names : List Name}
  {j : Ino} {stack : List Ino}

theorem Usable.later (h : Usable tools t path n names j stack) (hlater : Later t t') :
    Usable tools t' path n names j stack := by
  have hfile := h.clean.held.sealed_later hlater h.file
  have hdir := h.clean.parent.held.sealed_later hlater h.dir
  have hnode : t'.node j = t.node j := congrArg Inode.node hfile
  have hattrs : t'.attrs j = t.attrs j := congrArg Inode.attrs hfile
  constructor
  case spelled => exact h.spelled
  case clean => exact h.clean.later hlater
  case dir =>
    rw [Held.top_later hlater]
    exact sealed_of_inode_eq hdir h.dir
  case file => exact sealed_of_inode_eq hfile h.file
  case regular =>
    rw [is_regular, hnode]
    exact h.regular
  case executable =>
    rw [may_execute, hnode, hattrs]
    exact h.executable

theorem Usable.resolve (h : Usable tools t path n names j stack) : t.resolve true path = some j :=
  h.spelled ▸ h.clean.held.resolve_end h.clean.proper

theorem Usable.ne_nil (h : Usable tools t path n names j stack) : path ≠ [] := by
  rw [h.spelled, pathOf]
  exact List.append_ne_nil_of_right_ne_nil _ (List.cons_ne_nil _ _)

theorem acceptable_usable (h : Usable tools t path n names j stack) :
    Ends tools (fun accepted _ => accepted = true)
      (pwshpy_uv_acceptable v path) t := by
  rw [pwshpy_uv_acceptable, if_neg h.ne_nil]
  refine endsIn_question fun t₁ h₁ => ?_
  have husable := h.later h₁
  have hexecutable : answer tools t₁ (.executable path) = true :=
    (congrArg (Option.any (may_execute t₁)) husable.resolve).trans husable.executable
  rw [hexecutable]
  simp only [Bool.true_eq_false, if_false]
  by_cases hroot : v.as_root = false
  · rw [if_pos hroot]
    exact endsIn_pure fun _ _ => rfl
  rw [if_neg hroot]
  refine endsIn_question fun t₂ h₂ => ?_
  have husable₂ := husable.later h₂
  have hregular : answer tools t₂ (.isfile path) = true :=
    (congrArg (Option.any (is_regular t₂)) husable₂.resolve).trans husable₂.regular
  rw [hregular]
  simp only [Bool.true_eq_false, if_false]
  have hsilent := uv_distrust_clean husable₂.clean husable₂.dir husable₂.file
  rw [← husable₂.spelled] at hsilent
  refine endsIn_bind (hsilent.mono fun why t₃ hwhy => ?_)
  have hnone : captured why = [] := by
    rw [hwhy]
    rfl
  simp only [if_pos hnone]
  exact endsIn_pure fun _ _ => rfl

/-- A candidate in front that is refused hides none behind it. -/
theorem first_acceptable_found (h : Usable tools t path n names j stack)
    {paths : List PyStr} (hpath : path ∈ paths) :
    Ends tools (fun found _ => found ≠ none) (first_acceptable v paths) t := by
  induction paths generalizing t with
  | nil => cases hpath
  | cons first paths ih =>
      rcases List.mem_cons.mp hpath with rfl | hlater
      · refine endsIn_bind ((acceptable_usable h).mono fun accepted t₁ haccepted => ?_)
        rw [haccepted]
        exact endsIn_pure fun _ _ => Option.some_ne_none path
      · refine endsIn_bind fun accepted t₁ hrun => ?_
        cases accepted with
        | true => exact endsIn_pure fun _ _ => Option.some_ne_none first
        | false => exact ih (h.later hrun.later) hlater

theorem find_uv_found (hroot : v.as_root = true)
    (h : Usable tools t path n names j stack) (hpath : path ∈ path_candidates v ++ fixed_candidates v) :
    Ends tools (fun found _ => found ≠ none) (pwshpy_find_uv v) t := by
  rw [pwshpy_find_uv, if_pos hroot]
  rcases List.mem_append.mp hpath with hpath | hpath
  · refine endsIn_bind ((first_acceptable_found h hpath).mono fun found t₁ hfound => ?_)
    cases found with
    | none => exact absurd rfl hfound
    | some uv => exact endsIn_pure fun _ _ => Option.some_ne_none uv
  · refine endsIn_bind fun found t₁ hrun => ?_
    cases found with
    | none => exact first_acceptable_found (h.later hrun.later) hpath
    | some uv => exact endsIn_pure fun _ _ => Option.some_ne_none uv

end Found

theorem usable_uvTree : Usable gnuTools uvTree (py "/bin/uv") (py "uv") [py "bin"] 2 [1] where
  spelled := by decide
  clean := clean_uvTree
  dir := ⟨rfl, rfl, rfl, rfl⟩
  file := ⟨rfl, rfl, rfl, rfl⟩
  regular := rfl
  executable := by decide

/-- The caller's `PATH` has `/tmp` in front. -/
def tmpFirst : Settings where
  as_root := true
  caller_path := py "/tmp:/bin"
  cache_home := py "/root/.cache"
  HOME := py "/root"
  XDG_BIN_HOME := []
  CARGO_HOME := []

section Entries

variable {tools : Tools} {t t' : Volume} {dir : PyStr} {names : List Name} {stack : List Ino}

/-- A path of root's that only root decides about, spelled without links and dots, and
with no ACL that `ls` shows. -/
structure Searchable (tools : Tools) (t : Volume) (dir : PyStr) (names : List Name)
    (stack : List Ino) : Prop where
  spelled : dir = pathOf names
  below : names ≠ []
  clean : Clean tools t names stack
  top : Sealed Root t (t.top stack)

theorem Searchable.later (h : Searchable tools t dir names stack) (hlater : Later t t') :
    Searchable tools t' dir names stack := by
  refine ⟨h.spelled, h.below, h.clean.later hlater, ?_⟩
  rw [Held.top_later hlater]
  exact sealed_of_inode_eq (h.clean.held.sealed_later hlater h.top) h.top

theorem Searchable.silent (h : Searchable tools t dir names stack) :
    Ends tools (fun text _ => text = []) (pwshpy_uv_distrust (or_dot dir ++ py "/.")) t := by
  have hdir : dir ≠ [] := by
    rw [h.spelled]
    cases names with
    | nil => exact absurd rfl h.below
    | cons n names => exact List.append_ne_nil_of_right_ne_nil _ (List.cons_ne_nil _ _)
  rw [or_dot, if_neg hdir, h.spelled]
  exact uv_distrust_clean_dir h.clean h.below h.top

theorem absolute_of_silent (path : PyStr) :
    Ends tools (fun text _ => captured text = [] → path.head? = some SLASH) (pwshpy_uv_distrust path)
      t := by
  rw [pwshpy_uv_distrust]
  split_ifs with habsolute
  · exact fun _ _ _ _ => habsolute
  · exact prints_loud (List.mem_append_right _ (by decide)) _

theorem ne_nil_of_absolute (h : (or_dot dir ++ py "/.").head? = some SLASH) : dir ≠ [] := by
  intro hnil
  rw [hnil] at h
  revert h
  decide

/-- The loop keeps some of the directories in their order, and those that only root
decides about. -/
theorem trusted_entries_kept (hshows : tools.Shows) (htidy : Tidy Root t)
    (dirs : List PyStr) (out : PyStr) :
    Ends tools
      (fun text t' => ∃ kept : List PyStr, text = kept.foldl joined_path out ∧ kept.Sublist dirs ∧
        (∀ dir ∈ kept, dir ≠ [] ∧ Settled t' (dir ++ py "/.")) ∧
          ∀ dir ∈ dirs, ∀ names stack, Searchable tools t dir names stack → dir ∈ kept)
      (trusted_entries out dirs) t := by
  induction dirs generalizing t out with
  | nil =>
      exact endsIn_pure fun _ _ => ⟨[], rfl, .refl _, List.forall_mem_nil _, List.forall_mem_nil _⟩
  | cons dir dirs ih =>
      have hclean : Ends tools (fun text _ => ∀ names stack, Searchable tools t dir names stack → text = [])
          (pwshpy_uv_distrust (or_dot dir ++ py "/.")) t := fun text t₁ hrun names stack hdir =>
        hdir.silent text t₁ hrun
      refine endsIn_bind ((((uv_distrust_silent hshows _ htidy).and (absolute_of_silent _)).and
        hclean).and_later.mono fun why t₁ hwhy => ?_)
      obtain ⟨⟨⟨hsettled, habsolute⟩, hclean⟩, h₁⟩ := hwhy
      by_cases hsilent : captured why = []
      · simp only [if_pos hsilent]
        have hdir := ne_nil_of_absolute (habsolute hsilent)
        have hsettled := hsettled hsilent
        rw [or_dot, if_neg hdir] at hsettled
        refine (ih (htidy.later h₁) (joined_path out dir)).and_later.mono fun text t₂ hrest => ?_
        obtain ⟨⟨kept, htext, hsublist, hkept, hsearchable⟩, h₂⟩ := hrest
        refine ⟨dir :: kept, htext, hsublist.cons_cons dir,
          List.forall_mem_cons.mpr ⟨⟨hdir, hsettled.later h₂⟩, hkept⟩, ?_⟩
        rw [List.forall_mem_cons]
        exact ⟨fun _ _ _ => List.mem_cons_self, fun other hother names stack h =>
          List.mem_cons_of_mem _ (hsearchable other hother names stack (h.later h₁))⟩
      · simp only [if_neg hsilent]
        refine endsIn_question fun t₂ h₂ => ?_
        refine (ih ((htidy.later h₁).later h₂) out).mono fun text t₃ hrest => ?_
        obtain ⟨kept, htext, hsublist, hkept, hsearchable⟩ := hrest
        refine ⟨kept, htext, hsublist.cons dir, hkept, ?_⟩
        rw [List.forall_mem_cons]
        refine ⟨fun names stack h => ?_, fun other hother names stack h =>
          hsearchable other hother names stack ((h.later h₁).later h₂)⟩
        rw [hclean names stack h] at hsilent
        exact absurd rfl hsilent

end Entries

/-! ### The printed list read back -/

theorem colon_of_mem_entries {value dir : PyStr} (h : dir ∈ path_entries value) : COLON ∉ dir := by
  have hpart : dir ∈ value.splitOn COLON := by
    simp only [path_entries] at h
    split_ifs at h
    · exact List.dropLast_subset _ h
    · exact h
  intro hmem
  have hno := Shell.of_mem_splitOnP hpart COLON hmem
  rw [beq_self_eq_true] at hno
  cases hno

theorem foldl_joined_path {out : PyStr} (hout : out ≠ []) (kept : List PyStr) :
    kept.foldl joined_path out = [COLON].intercalate (out :: kept) := by
  induction kept generalizing out with
  | nil => simp [List.intercalate]
  | cons dir kept ih =>
      have hnext : joined_path out dir ≠ [] := by simp [joined_path, hout]
      rw [List.foldl_cons, ih hnext]
      cases kept with
      | nil => simp [List.intercalate, joined_path, hout]
      | cons next kept => simp [List.intercalate, joined_path, hout]

theorem path_entries_joined {kept : List PyStr} (h : ∀ dir ∈ kept, dir ≠ [] ∧ COLON ∉ dir) :
    path_entries (kept.foldl joined_path []) = kept := by
  cases kept with
  | nil => rfl
  | cons dir kept =>
      have hdir := (h dir List.mem_cons_self).1
      have hfirst : joined_path [] dir = dir := rfl
      have hsplit : ([COLON].intercalate (dir :: kept)).splitOn COLON = dir :: kept :=
        List.splitOn_intercalate _ (fun dir hdir => (h dir hdir).2) (List.cons_ne_nil _ _)
      rw [List.foldl_cons, hfirst, foldl_joined_path hdir, path_entries, hsplit, if_neg]
      intro hlast
      exact (h [] (List.mem_of_getLast? hlast)).1 rfl

end PwshPy.Trust
