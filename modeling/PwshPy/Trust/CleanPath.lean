import PwshPy.Trust.WalkSound

/-! # A path the walk finds no fault with

Directories of root without access lists, closed to writers or sticky, and no link on
the way: whatever the other accounts do meanwhile the walk says nothing about them.
-/

namespace PwshPy.Trust

open Effects (Asking)
open Effects.Asking
open FileTree
open Relation (ReflTransGen)
open Shell (captured)

/-- `ls` shows no ACL of the inode. -/
def Tools.Unmarked (tools : Tools) (i : Ino) (a : Attrs) : Prop :=
  (tools.mark i a).head? ≠ some 0x2b ∧
    ((tools.mark i a).head? = some 0x40 → tools.acl_lines i a = false)

/-- A chain the walk has nothing to say of. -/
structure Clean (tools : Tools) (t : Volume) (names : List Name) (stack : List Ino) : Prop where
  held : Held Root t names stack
  proper : ∀ n ∈ names, Proper n
  unmarked : ∀ i ∈ t.root :: stack, tools.Unmarked i (t.attrs i)

namespace Clean

variable {tools : Tools} {t t' : Volume} {names : List Name} {stack : List Ino} {n : Name} {j : Ino}

theorem later (h : Clean tools t names stack) (hlater : Later t t') : Clean tools t' names stack := by
  have hheld := h.held.later hlater
  refine ⟨hheld, h.proper, fun i hi => ?_⟩
  have hroot : t'.top [] = t.top [] := Held.top_later hlater
  rw [Volume.top_nil, Volume.top_nil] at hroot
  rw [hroot] at hi
  rw [h.held.attrs_later hlater i hi]
  exact h.unmarked i hi

theorem parent (h : Clean tools t (n :: names) (j :: stack)) : Clean tools t names stack := by
  have hheld : Held Root t names stack := h.held.parent
  refine ⟨hheld, fun m hm => h.proper m (List.mem_of_mem_tail hm), fun i hi => h.unmarked i ?_⟩
  rcases List.mem_cons.mp hi with hi | hi
  · exact hi ▸ List.mem_cons_self
  · exact List.mem_cons_of_mem _ (List.mem_cons_of_mem _ hi)

theorem top (h : Clean tools t names stack) :
    tools.Unmarked (t.top stack) (t.attrs (t.top stack)) := by
  refine h.unmarked _ ?_
  cases stack with
  | nil => exact List.mem_cons_self
  | cons i stack => exact List.mem_cons_of_mem _ List.mem_cons_self

end Clean

/-- The path goes on naming this inode, which is no link. -/
def Stays (t : Volume) (path : PyStr) (i : Ino) : Prop :=
  ∀ t', Later t t' → t'.resolve false path = some i ∧ t'.attrs i = t.attrs i ∧
    (t'.node i).isLink = false

section Stays

variable {tools : Tools} {t t' : Volume} {path : PyStr} {names : List Name} {stack : List Ino}
  {n : Name} {i j : Ino}

theorem Stays.later (h : Stays t path i) (hlater : Later t t') : Stays t' path i := fun t'' h'' =>
  have hsame := (h t'' (hlater.trans h'')).2.1
  ⟨(h t'' (hlater.trans h'')).1, hsame.trans (h t' hlater).2.1.symm, (h t'' (hlater.trans h'')).2.2⟩

theorem Clean.stays (h : Clean tools t names stack) : Stays t (Held.text names) (t.top stack) := by
  intro t' hlater
  have htop : t.top stack ∈ t.root :: stack := by
    cases stack with
    | nil => exact List.mem_cons_self
    | cons i stack => exact List.mem_cons_of_mem _ List.mem_cons_self
  have hheld := h.held.later hlater
  have hguarded := hheld.guarded
  have hresolve := hheld.resolve_self h.proper
  rw [Held.top_later hlater] at hguarded hresolve
  exact ⟨hresolve, h.held.attrs_later hlater _ htop, hguarded.noLink⟩

theorem Clean.stays_child (h : Clean tools t (n :: names) (j :: stack)) :
    Stays t (pathOf (n :: names)) j := by
  have htext : Held.text (n :: names) = pathOf (n :: names) := if_neg (by simp [pathOf])
  exact htext ▸ h.stays

end Stays

/-! ## The judgements -/

section Judge

variable {tools : Tools} {path : PyStr} {t : Volume} {i : Ino}

theorem trusted_uid_zero : pwshpy_trusted_uid (decimal 0) = true := by
  decide

theorem has_acl_clean (hpath : Stays t path i) (hmark : tools.Unmarked i (t.attrs i)) :
    Ends tools (fun acl _ => acl = false) (pwshpy_has_acl path (listing tools t i)) t := by
  obtain ⟨-, -, hlink⟩ := hpath t .refl
  unfold pwshpy_has_acl
  rw [mark_listing tools t i hlink]
  split
  · rename_i hplus
    exact absurd hplus hmark.1
  · rename_i hat
    refine endsIn_reply (q := Query.acl_lines path) fun t₁ t₂ h₁ _ => ?_
    obtain ⟨hi, hattrs, -⟩ := hpath t₁ h₁
    have hreply : answer tools t₁ (.acl_lines path) = tools.acl_lines i (t₁.attrs i) :=
      congrArg (Option.any fun j => tools.acl_lines j (t₁.attrs j)) hi
    rw [hreply, hattrs]
    exact hmark.2 hat
  · exact endsIn_pure fun _ _ => rfl

theorem stat_clean (hpath : Stays t path i) :
    answer tools t (.ls path) = some (listing tools t i) :=
  congrArg (Option.map (listing tools t)) (hpath t .refl).1

theorem leaf_clean (hpath : Stays t path i) (hmark : tools.Unmarked i (t.attrs i))
    (hsealed : Sealed Root t i) :
    Ends tools (fun text _ => text = []) (pwshpy_leaf_distrust path) t := by
  refine endsIn_question fun t₁ h₁ => ?_
  have hpath₁ := hpath.later h₁
  obtain ⟨-, hattrs, hlink⟩ := hpath t₁ h₁
  rw [stat_clean hpath₁]
  refine endsIn_bind ((has_acl_clean hpath₁ (hattrs ▸ hmark)).mono fun acl t₂ hacl => ?_)
  have howner : (t₁.attrs i).uid = 0 := by
    rw [hattrs]
    exact hsealed.owner
  have hroot : pwshpy_trusted_uid (listing tools t₁ i).uid = true := by
    rw [listing, howner]
    exact trusted_uid_zero
  have hother : other_writes (listing tools t₁ i) = false := by
    rw [other_writes_listing, hlink, hattrs, hsealed.other, Bool.or_false]
  have hgroup : group_writes (listing tools t₁ i) = false := by
    rw [group_writes_listing, hlink, hattrs, hsealed.group, Bool.or_false]
  simp only [hacl, hother, hgroup, hroot, Bool.false_eq_true, if_false, Bool.not_true]
  exact endsIn_pure fun _ _ => rfl

theorem ancestor_clean (hpath : Stays t path i) (hguarded : Guarded Root t i)
    (hmark : tools.Unmarked i (t.attrs i)) :
    Ends tools (fun text _ => text = []) (pwshpy_ancestor_distrust path) t := by
  refine endsIn_question fun t₁ h₁ => ?_
  have hpath₁ := hpath.later h₁
  obtain ⟨-, hattrs, hlink⟩ := hpath t₁ h₁
  rw [stat_clean hpath₁]
  refine endsIn_bind ((has_acl_clean hpath₁ (hattrs ▸ hmark)).mono fun acl t₂ hfound => ?_)
  have howner : (t₁.attrs i).uid = 0 := by
    rw [hattrs]
    exact hguarded.owner
  have hroot : pwshpy_trusted_uid (listing tools t₁ i).uid = true := by
    rw [listing, howner]
    exact trusted_uid_zero
  simp only [hfound, hroot, Bool.false_eq_true, if_false, Bool.not_true]
  rw [is_sticky_listing, other_writes_listing, group_writes_listing, hlink, hattrs]
  simp only [Bool.not_false, Bool.true_and, Bool.false_or]
  by_cases hsticky : (t.attrs i).sticky = true
  · rw [if_pos hsticky]
    exact endsIn_pure fun _ _ => rfl
  · have hopen := mt hguarded.sticky hsticky
    rw [not_or, not_or] at hopen
    rw [if_neg hsticky, if_neg hopen.2.1, if_neg hopen.1]
    exact endsIn_pure fun _ _ => rfl

end Judge

/-! ## The walk -/

/-- These names and then this text. -/
def joined : List Name → PyStr → PyStr
  | [], tail => tail
  | n :: names, tail => n ++ SLASH :: joined names tail

theorem first_name_append {n : Name} (h : SLASH ∉ n) (rest : PyStr) :
    first_name (n ++ SLASH :: rest) = n := by
  have hkept : ∀ c ∈ n, decide (c ≠ SLASH) = true := fun c hc =>
    decide_eq_true fun hslash => h (hslash ▸ hc)
  rw [first_name, List.takeWhile_append_of_pos hkept, List.takeWhile_cons_of_neg (by decide),
    List.append_nil]

theorem after_name_append {n : Name} (h : SLASH ∉ n) (rest : PyStr) :
    after_name (n ++ SLASH :: rest) = rest := by
  have hkept : ∀ c ∈ n, decide (c ≠ SLASH) = true := fun c hc =>
    decide_eq_true fun hslash => h (hslash ▸ hc)
  rw [after_name, List.dropWhile_append_of_pos hkept, List.dropWhile_cons_of_neg (by decide),
    List.drop_one, List.tail_cons]

theorem first_name_self {n : Name} (h : SLASH ∉ n) : first_name n = n :=
  List.takeWhile_eq_self_iff.mpr fun _ hc => decide_eq_true fun hslash => h (hslash ▸ hc)

theorem after_name_self {n : Name} (h : SLASH ∉ n) : after_name n = [] := by
  have hall : n.dropWhile (fun c => decide (c ≠ SLASH)) = [] :=
    List.dropWhile_eq_nil_iff.mpr fun c hc => decide_eq_true fun hslash => h (hslash ▸ hc)
  rw [after_name, hall, List.drop_nil]

theorem joined_append (names later : List Name) (tail : PyStr) :
    joined (names ++ later) tail = joined names (joined later tail) := by
  induction names with
  | nil => rfl
  | cons n names ih => rw [List.cons_append, joined, joined, ih]

theorem pathOf_joined (names : List Name) (tail : PyStr) :
    pathOf names ++ SLASH :: tail = SLASH :: joined names.reverse tail := by
  induction names generalizing tail with
  | nil => rfl
  | cons n names ih =>
      rw [pathOf, List.append_assoc, List.cons_append, ih, List.reverse_cons, joined_append]
      rfl

theorem Clean.to_root {tools : Tools} {t : Volume} {names : List Name} {stack : List Ino}
    (h : Clean tools t names stack) : Clean tools t [] [] :=
  ⟨h.held.to_root, List.forall_mem_nil _, fun i hi =>
    h.unmarked i (List.mem_singleton.mp hi ▸ List.mem_cons_self)⟩

section Walk

variable {tools : Tools} {path : PyStr} {t : Volume} {names : List Name} {stack : List Ino} {n : Name}
  {j : Ino}

theorem islink_clean {path : PyStr} {i : Ino} (hpath : Stays t path i) :
    answer tools t (.islink path) = false := by
  obtain ⟨hi, -, hlink⟩ := hpath t .refl
  exact (congrArg (Option.any fun i => (t.node i).isLink) hi).trans hlink

/-- The directories of a clean chain are passed. -/
theorem loop_through {post : PyStr → Volume → Prop} (h : Clean tools t names stack)
    {tail : PyStr} (htail : tail ≠ [])
    (hrest : ∀ t' next, Later t t' → (names ≠ [] → next = pathOf names) → Ends tools post
      (Walk.loop path { cur := pathOf names, next, rest := tail, hops := 0, ancestor := [] }) t')
    (next : PyStr) : Ends tools post
      (Walk.loop path
        { cur := [], next, rest := joined names.reverse tail, hops := 0, ancestor := [] }) t := by
  induction names generalizing stack tail with
  | nil => exact hrest t next .refl fun hne => absurd rfl hne
  | cons n names ih =>
      cases stack with
      | nil => cases h.held
      | cons j stack =>
          rw [List.reverse_cons, joined_append]
          refine ih h.parent (by simp [joined]) fun t₁ next₁ h₁ _ => ?_
          have hproper : Proper n := h.proper n List.mem_cons_self
          have hfirst : first_name (n ++ SLASH :: tail) = n := first_name_append hproper.slash tail
          have hafter : after_name (n ++ SLASH :: tail) = tail := after_name_append hproper.slash tail
          have hclean := h.later h₁
          rw [show joined [n] tail = n ++ SLASH :: tail from rfl, loop_name]
          · rw [hfirst, hafter]
            refine endsIn_question fun t₂ h₂ => ?_
            have hclean₂ := hclean.later h₂
            have hstays : Stays t₂ (pathOf names ++ SLASH :: n) j := hclean₂.stays_child
            rw [islink_clean hstays]
            simp only [Bool.false_eq_true, if_false, if_neg htail]
            rw [Walk.judge, if_pos rfl]
            have hguarded : Guarded Root t₂ j := hclean₂.held.guarded
            refine endsIn_bind (endsIn_map ((ancestor_clean hstays hguarded
              hclean₂.top).and_later.mono fun text t₃ htext => ?_))
            obtain ⟨hnil, h₃⟩ := htext
            rw [hnil]
            exact hrest t₃ _ ((h₁.trans h₂).trans h₃) fun _ => rfl
          · simp
          · rw [hfirst]
            exact hproper.not_dot
          · rw [hfirst]
            exact hproper.ne_dotdot

/-- What the walk prints of a directory and something in it that are sealed. -/
theorem finish_clean (h : Clean tools t names stack) (hsealed : Sealed Root t (t.top stack))
    {next : PyStr} {i : Ino} (hnext : Stays t next i) (hmark : tools.Unmarked i (t.attrs i))
    (hlast : Sealed Root t i) (rest : PyStr) : Ends tools (fun text _ => text = [])
      (Walk.finish { cur := pathOf names, next, rest, hops := 0, ancestor := [] }) t := by
  refine endsIn_bind ((leaf_clean h.stays h.top hsealed).and_later.mono fun why t₁ hwhy => ?_)
  obtain ⟨hwhy, h₁⟩ := hwhy
  have hnone : captured why = [] := by rw [hwhy]; rfl
  simp only [hnone, ne_eq, not_true_eq_false, if_false]
  have hattrs := (hnext t₁ h₁).2.1
  refine leaf_clean (hnext.later h₁) (hattrs ▸ hmark) ?_
  exact ⟨hattrs ▸ hlast.owner, hattrs ▸ hlast.acl, hattrs ▸ hlast.group, hattrs ▸ hlast.other⟩

/-- The walk along a clean chain, up to what is left behind it. -/
theorem walk_through {post : PyStr → Volume → Prop} (h : Clean tools t names stack)
    {tail : PyStr} (htail : tail ≠ []) (hpath : path = pathOf names ++ SLASH :: tail)
    (hrest : ∀ t' next, Later t t' → (names ≠ [] → next = pathOf names) → Ends tools post
      (Walk.loop path { cur := pathOf names, next, rest := tail, hops := 0, ancestor := [] }) t') :
    Ends tools post (pwshpy_uv_distrust path) t := by
  rw [pathOf_joined] at hpath
  have hdrop : path.drop 1 = joined names.reverse tail := by
    rw [hpath, List.drop_one, List.tail_cons]
  rw [pwshpy_uv_distrust, if_pos (hpath ▸ List.head?_cons), hdrop]
  have hroot := h.to_root
  have hstays : Stays t [SLASH] t.root := hroot.stays
  refine endsIn_bind ((ancestor_clean hstays hroot.held.guarded hroot.top).and_later.mono
    fun text t₁ htext => ?_)
  obtain ⟨hnil, h₁⟩ := htext
  rw [hnil]
  exact loop_through (h.later h₁) htail (fun t' next h' => hrest t' next (h₁.trans h')) []

theorem uv_distrust_clean (h : Clean tools t (n :: names) (j :: stack))
    (hdir : Sealed Root t (t.top stack)) (hfile : Sealed Root t j) :
    Ends tools (fun text _ => text = []) (pwshpy_uv_distrust (pathOf (n :: names))) t := by
  have hproper : Proper n := h.proper n List.mem_cons_self
  refine walk_through h.parent hproper.ne_nil rfl fun t₁ next₁ h₁ _ => ?_
  have hclean := h.later h₁
  have hfirst : first_name n = n := first_name_self hproper.slash
  have hafter : after_name n = [] := after_name_self hproper.slash
  rw [loop_name]
  · rw [hfirst, hafter]
    refine endsIn_question fun t₂ h₂ => ?_
    have hclean₂ := hclean.later h₂
    have hstays : Stays t₂ (pathOf names ++ SLASH :: n) j := hclean₂.stays_child
    have hlater : Later t t₂ := h₁.trans h₂
    rw [islink_clean hstays]
    simp only [Bool.false_eq_true, if_false, if_true]
    refine finish_clean hclean₂.parent ?_ hstays hclean₂.top ?_ []
    · rw [Held.top_later hlater]
      exact sealed_of_inode_eq (h.parent.held.sealed_later hlater hdir) hdir
    · exact sealed_of_inode_eq (h.held.sealed_later hlater hfile) hfile
  · exact hproper.ne_nil
  · rw [hfirst]
    exact hproper.not_dot
  · rw [hfirst]
    exact hproper.ne_dotdot

/-- A directory, which is asked about with a dot behind it. -/
theorem uv_distrust_clean_dir (h : Clean tools t names stack) (hnames : names ≠ [])
    (hdir : Sealed Root t (t.top stack)) :
    Ends tools (fun text _ => text = []) (pwshpy_uv_distrust (pathOf names ++ py "/.")) t := by
  have hdot : py "." ≠ [] := by decide
  refine walk_through h hdot rfl fun t₁ next₁ h₁ hnext => ?_
  have hclean := h.later h₁
  have hsealed : Sealed Root t₁ (t₁.top stack) := by
    rw [Held.top_later h₁]
    exact sealed_of_inode_eq (h.held.sealed_later h₁ hdir) hdir
  have hstays : Stays t₁ next₁ (t₁.top stack) := by
    have htext : Held.text names = pathOf names := by
      cases names with
      | nil => exact absurd rfl hnames
      | cons n names => exact if_neg (by simp [pathOf])
    rw [hnext hnames, ← htext]
    exact hclean.stays
  have hfirst : first_name (py ".") = py "." := by decide
  have hafter : after_name (py ".") = [] := by decide
  rw [loop_skip hdot (Or.inr hfirst), hafter, loop_done rfl]
  exact finish_clean hclean hsealed hstays hclean.top hsealed []

end Walk

/-! ## Silence and what it is worth -/

/-- `ls` of the GNU tools. -/
def gnuTools : Tools where
  mark _ a := if a.acl then [0x2b] else []
  acl_lines _ _ := false
  command _ _ := none

theorem gnuTools_shows : gnuTools.Shows := by
  intro i a h
  have hmark : gnuTools.mark i a = [0x2b] := if_pos h
  rw [hmark]
  exact Or.inl rfl

theorem gnuTools_unmarked {i : Ino} {a : Attrs} (h : a.acl = false) : gnuTools.Unmarked i a := by
  have hmark : gnuTools.mark i a = [] := if_neg (by rw [h]; decide)
  rw [Tools.Unmarked, hmark]
  exact ⟨nofun, nofun⟩

/-- `/bin/uv` and `/tmp`, all of root. -/
def uvTree : Volume where
  root := 0
  inode
    | 0 => ⟨⟨0, 0, 0x1ed, false⟩, .dir fun n =>
        if n = py "bin" then some 1 else if n = py "tmp" then some 3 else none⟩
    | 1 => ⟨⟨0, 0, 0x1ed, false⟩, .dir fun n => if n = py "uv" then some 2 else none⟩
    | 3 => ⟨⟨0, 0, 0x3ff, false⟩, .dir fun _ => none⟩
    | _ => ⟨⟨0, 0, 0x1ed, false⟩, .file []⟩

/-- An account has put a `uv` of its own into `/tmp`. -/
def plantedTree : Volume :=
  (uvTree.setInode 9 ⟨⟨1000, 1000, 0x1ed, false⟩, .file []⟩).setEntry 3 (py "uv") (some 9)

theorem clean_uvTree : Clean gnuTools uvTree [py "uv", py "bin"] [2, 1] := by
  have hroot : Held Root uvTree [] [] := .root rfl ⟨rfl, by decide, rfl⟩
  have hbin : Held Root uvTree [py "bin"] [1] := .child hroot rfl ⟨rfl, by decide, rfl⟩
  have hproper : ∀ n ∈ [py "uv", py "bin"], Proper n := by
    intro n hn
    rcases List.mem_pair.mp hn with rfl | rfl
    · exact ⟨by decide, by decide, by decide, by decide⟩
    · exact ⟨by decide, by decide, by decide, by decide⟩
  have hacl : ∀ i ∈ [0, 2, 1], (uvTree.attrs i).acl = false := by decide
  exact ⟨.child hbin rfl ⟨rfl, by decide, rfl⟩, hproper, fun i hi => gnuTools_unmarked (hacl i hi)⟩

theorem entry_uvTree {d i : Ino} {n : Name} (h : uvTree.entry d n = some i) : i ≤ 3 := by
  have hroot : ∀ m : Name, uvTree.entry 0 m =
      if m = py "bin" then some 1 else if m = py "tmp" then some 3 else none := fun _ => rfl
  have hbin : ∀ m : Name, uvTree.entry 1 m = if m = py "uv" then some 2 else none := fun _ => rfl
  match d with
  | 0 =>
      rw [hroot] at h
      split_ifs at h
      all_goals
        cases h
        decide
  | 1 =>
      rw [hbin] at h
      split_ifs at h
      cases h
      decide
  | 2 => cases h
  | 3 => cases h
  | _ + 4 => cases h

theorem isLink_uvTree (i : Ino) : (uvTree.node i).isLink = false := by
  match i with
  | 0 => rfl
  | 1 => rfl
  | 2 => rfl
  | 3 => rfl
  | _ + 4 => rfl

theorem tidy_uvTree : Tidy Root uvTree := by
  intro i target _ hlink
  have hno := isLink_uvTree i
  rw [hlink] at hno
  cases hno

theorem later_plantedTree : Later uvTree plantedTree := by
  have hother : ¬Root 1000 := by
    unfold Root
    omega
  refine ReflTransGen.single ⟨1000, hother, .create ?_ rfl ?_ rfl trivial⟩
  · exact Or.inr (Or.inr (Or.inl rfl))
  · rintro (hroot | ⟨d, n, hentry⟩)
    · cases hroot
    · exact absurd (entry_uvTree hentry) (by decide)

end PwshPy.Trust
