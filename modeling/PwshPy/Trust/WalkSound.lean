import PwshPy.Trust.Judged

/-! # A path the walk is silent about

The walk runs beside the other accounts. The invariant of its loop is about every
later state: what is left of the path leads from the directories it has judged to
where the kernel takes the whole path.
-/

namespace PwshPy.Trust

open Effects (Asking)
open Effects.Asking
open FileTree
open Relation (ReflTransGen)
open Shell (captured captured_append captured_line)

/-- The others can no longer change where the path leads, nor what it leads to. -/
def Settled (t : Volume) (path : PyStr) : Prop :=
  ∀ t', Later t t' → t'.resolve true path = t.resolve true path ∧
    ∀ i, t.resolve true path = some i → Sealed Root t i ∧ t'.inode i = t.inode i

/-! ## The text of the path -/

/-- The names the loop has left. -/
def names_left (rest : PyStr) : List Name := if rest = [] then [] else components rest

theorem names_left_of_ne {rest : PyStr} (h : rest ≠ []) : names_left rest = components rest :=
  if_neg h

/-- The first name, and what is left behind its slash. -/
theorem components_first (rest : PyStr) :
    ∃ blanks : List Name, (∀ n ∈ blanks, n = []) ∧
      components rest = first_name rest :: (names_left (after_name rest) ++ blanks) := by
  have hfirst : SLASH ∉ first_name rest := fun hmem => by
    simpa using List.mem_takeWhile_imp hmem
  have hsplit : first_name rest ++ rest.dropWhile (fun c => decide (c ≠ SLASH)) = rest :=
    List.takeWhile_append_dropWhile
  cases hdrop : rest.dropWhile fun c => decide (c ≠ SLASH) with
  | nil =>
      have hafter : after_name rest = [] := by rw [after_name, hdrop, List.drop_nil]
      rw [hdrop, List.append_nil] at hsplit
      refine ⟨[], fun n hn => absurd hn List.not_mem_nil, ?_⟩
      rw [hafter, names_left, if_pos rfl]
      rw [hsplit] at hfirst
      rw [components_eq_singleton hfirst, hsplit]
      rfl
  | cons c after =>
      have hslash : c = SLASH := by
        have hstop := List.head?_dropWhile_not (fun c => decide (c ≠ SLASH)) rest
        rw [hdrop] at hstop
        simpa using hstop
      have hafter : after_name rest = after := by rw [after_name, hdrop, List.drop_one, List.tail_cons]
      have hparts : components rest = first_name rest :: components after := by
        rw [hdrop, hslash] at hsplit
        rw [← hsplit, components_append]
        rw [hsplit, components_eq_singleton hfirst]
        rfl
      by_cases hempty : after = []
      · subst hempty
        refine ⟨[[]], fun n hn => List.mem_singleton.mp hn, ?_⟩
        rw [hparts, hafter, names_left, if_pos rfl]
        rfl
      · refine ⟨[], fun n hn => absurd hn List.not_mem_nil, ?_⟩
        rw [hparts, hafter, names_left_of_ne hempty, List.append_nil]

/-- A target before what is left. -/
theorem names_left_target (target rest : PyStr) :
    ∃ blanks : List Name, (∀ n ∈ blanks, n = []) ∧ components target ++ names_left rest =
      names_left (if rest = [] then target else target ++ SLASH :: rest) ++ blanks := by
  by_cases hrest : rest = []
  · subst hrest
    rw [if_pos rfl, names_left, if_pos rfl, List.append_nil]
    by_cases htarget : target = []
    · subst htarget
      exact ⟨[[]], fun n hn => List.mem_singleton.mp hn, rfl⟩
    · refine ⟨[], fun n hn => absurd hn List.not_mem_nil, ?_⟩
      rw [names_left_of_ne htarget, List.append_nil]
  · refine ⟨[], fun n hn => absurd hn List.not_mem_nil, ?_⟩
    have hne : target ++ SLASH :: rest ≠ [] := by simp
    rw [if_neg hrest, names_left_of_ne hrest, names_left_of_ne hne, components_append,
      List.append_nil]

theorem parent_text_pathOf {names : List Name} (h : ∀ n ∈ names, Proper n) :
    parent_text (pathOf names) = pathOf names.tail := by
  cases names with
  | nil => rfl
  | cons n names =>
      rw [List.forall_mem_cons] at h
      have hmem : SLASH ∈ pathOf (n :: names) := List.mem_append_right _ List.mem_cons_self
      have hkept : ∀ c ∈ n.reverse, decide (c ≠ SLASH) = true := fun c hc =>
        decide_eq_true fun hslash => h.1.slash (hslash ▸ List.mem_reverse.mp hc)
      have hdrop : (pathOf (n :: names)).rdropWhile (fun c => decide (c ≠ SLASH)) =
          pathOf names ++ [SLASH] := by
        rw [pathOf, List.rdropWhile, List.reverse_append, List.reverse_cons, List.append_assoc,
          List.dropWhile_append_of_pos hkept, List.singleton_append,
          List.dropWhile_cons_of_neg (by decide), List.reverse_cons, List.reverse_reverse]
      rw [parent_text, if_pos hmem, hdrop, List.dropLast_concat, List.tail_cons]

/-! ## Where the rest leads -/

/-- Whatever the others do, the path leads where these names lead from here, or to
nothing. -/
def LeadsTo (path : PyStr) (t : Volume) (links : Nat) (stack : List Ino) (names : List Name) : Prop :=
  (∀ t', Later t t' → t'.resolve true path = none) ∨
    ∀ t', Later t t' → t'.resolve true path = t'.namei true links stack names

namespace LeadsTo

variable {path : PyStr} {t t' : Volume} {links links' : Nat} {stack stack' : List Ino}
  {names names' : List Name}

theorem later (h : LeadsTo path t links stack names) (hlater : Later t t') :
    LeadsTo path t' links stack names :=
  h.imp (fun hnone s hs => hnone s (hlater.trans hs)) fun hall s hs => hall s (hlater.trans hs)

theorem step (h : LeadsTo path t links stack names) (hstep : ∀ t', Later t t' →
    t'.namei true links stack names = t'.namei true links' stack' names') :
    LeadsTo path t links' stack' names' :=
  h.imp_right fun hall s hs => (hall s hs).trans (hstep s hs)

theorem dead (h : LeadsTo path t links stack names)
    (hdead : ∀ t', Later t t' → t'.namei true links stack names = none) :
    LeadsTo path t links' stack' names' :=
  Or.inl <| h.elim id fun hall s hs => (hall s hs).trans (hdead s hs)

/-- Names that say nothing, behind an inode that is sealed where it stands. -/
theorem settled {i : Ino} (blanks : List Name) (h : LeadsTo path t links stack names)
    (hsealed : Sealed Root t i) (hkept : ∀ t', Later t t' → t'.inode i = t.inode i)
    (hleads : ∀ t', Later t t' → t'.namei true links stack names =
      if blanks = [] ∨ (t'.node i).isDir = true then some i else none) : Settled t path := by
  intro t' hlater
  rcases h with hnone | hall
  · rw [hnone t .refl, hnone t' hlater]
    exact ⟨rfl, fun i hi => nomatch hi⟩
  · have hsame : t'.node i = t.node i := congrArg Inode.node (hkept t' hlater)
    have hnow := (hall t .refl).trans (hleads t .refl)
    rw [hall t' hlater, hleads t' hlater, hnow, hsame]
    refine ⟨rfl, fun j hj => ?_⟩
    split at hj
    · obtain rfl := Option.some.inj hj
      exact ⟨hsealed, hkept t' hlater⟩
    · cases hj

end LeadsTo

/-! ## The loop -/

/-- What the variables of the loop stand for. -/
structure Follows (path : PyStr) (w : Walk) (t : Volume) (names : List Name) (stack : List Ino) :
    Prop where
  cur : w.cur = pathOf names
  proper : ∀ n ∈ names, Proper n
  held : Held Root t names stack
  hops : w.hops ≤ MAXSYMLINKS
  leads : ∃ blanks : List Name, (∀ n ∈ blanks, n = []) ∧
    LeadsTo path t (MAXSYMLINKS - w.hops) stack (names_left w.rest ++ blanks)

section Loop

variable {tools : Tools} {path : PyStr} {w : Walk} {t t' : Volume} {names : List Name} {stack : List Ino}

theorem Follows.later (h : Follows path w t names stack) (hlater : Later t t') :
    Follows path w t' names stack := by
  obtain ⟨blanks, hblanks, hleads⟩ := h.leads
  exact ⟨h.cur, h.proper, h.held.later hlater, h.hops, blanks, hblanks, hleads.later hlater⟩

/-- The first name that is left, before the others. -/
theorem Follows.first (h : Follows path w t names stack) (hrest : w.rest ≠ []) :
    ∃ blanks : List Name, (∀ n ∈ blanks, n = []) ∧
      LeadsTo path t (MAXSYMLINKS - w.hops) stack
        (first_name w.rest :: (names_left (after_name w.rest) ++ blanks)) := by
  obtain ⟨blanks, hblanks, hleads⟩ := h.leads
  obtain ⟨blanks', hblanks', hfirst⟩ := components_first w.rest
  refine ⟨blanks' ++ blanks, List.forall_mem_append.mpr ⟨hblanks', hblanks⟩, ?_⟩
  rw [names_left_of_ne hrest, hfirst, List.cons_append, List.append_assoc] at hleads
  exact hleads

theorem proper_first (hempty : ¬(first_name w.rest = [] ∨ first_name w.rest = py "."))
    (hdots : first_name w.rest ≠ py "..") : Proper (first_name w.rest) :=
  ⟨fun h => hempty (Or.inl h), fun h => hempty (Or.inr h), hdots, fun hmem => by
    simpa using List.mem_takeWhile_imp hmem⟩

/-- What the end of the walk says: it judged the directory, and then the last name. -/
theorem finish_silent (htools : tools.Shows) (hcur : w.cur = pathOf names)
    (hproper : ∀ n ∈ names, Proper n) (hheld : Held Root t names stack) (post : Volume → Prop)
    (hnext : ∀ t', Later t t' →
      Ends tools (fun text t'' => captured text = [] → post t'') (pwshpy_leaf_distrust w.next) t') :
    Ends tools (fun text t' => captured text = [] →
      Later t t' ∧ Sealed Root t' (t'.top stack) ∧ post t') w.finish t := by
  have htext : (if w.cur = [] then [SLASH] else w.cur) = Held.text names := by rw [hcur, Held.text]
  rw [Walk.finish, htext]
  refine endsIn_bind ((leaf_silent htools (hheld.fixed_self hproper)).and_later.mono fun why t₁ h₁ => ?_)
  obtain ⟨hwhy, h₁⟩ := h₁
  split_ifs with hfound hancestor
  · exact prints_loud (List.mem_append_left _ (by decide)) _
  · exact prints_loud (List.mem_append_left _ (by decide)) _
  · refine (hnext t₁ h₁).and_later.mono fun text t₂ h₂ hnil => ?_
    obtain ⟨hpost, h₂⟩ := h₂
    obtain ⟨i, hi, hsealed, -⟩ := hwhy (not_not.mp hfound)
    rw [(hheld.later h₁).resolve_self hproper] at hi
    obtain rfl := Option.some.inj hi
    refine ⟨h₁.trans h₂, ?_, hpost hnil⟩
    rw [Held.top_later h₂]
    exact sealed_of_inode_eq ((hheld.later h₁).sealed_later h₂ hsealed) hsealed

/-- A link that is refused is named. -/
theorem read_link_loud (next : PyStr) (t : Volume) :
    Ends tools (fun target _ => ∀ why, target = .error why → 0x20 ∈ why)
      (read_link next) t := by
  refine endsIn_question fun t₁ _ => ?_
  cases answer tools t₁ (.ls next) with
  | none =>
      refine endsIn_pure fun _ _ why hwhy => Except.error.inj hwhy ▸ ?_
      exact List.mem_append_right _ (by decide)
  | some st =>
      by_cases hroot : pwshpy_trusted_uid st.uid = true
      · simp only [hroot, Bool.not_true, Bool.false_eq_true, if_false]
        refine endsIn_question fun t₂ _ => ?_
        cases answer tools t₂ (.readlink next) with
        | none =>
            refine endsIn_pure fun _ _ why hwhy => Except.error.inj hwhy ▸ ?_
            exact List.mem_append_right _ (by decide)
        | some out => exact endsIn_pure fun _ _ why hwhy => nomatch hwhy
      · simp only [hroot, Bool.not_false, if_true]
        refine endsIn_pure fun _ _ why hwhy => Except.error.inj hwhy ▸ ?_
        exact List.mem_append_left _ (by decide)

/-- A walk that has something to say of a directory above says it, or something else. -/
theorem loop_loud (path : PyStr) (w : Walk) (hancestor : w.ancestor ≠ []) (t : Volume) :
    Ends tools (fun text _ => captured text ≠ []) (w.loop path) t := by
  have hpure : ∀ (text : PyStr) (t : Volume), 0x20 ∈ text →
      Ends tools (fun text _ => captured text ≠ []) (pure text) t := fun _ _ h =>
    endsIn_pure fun _ _ => loud h
  have hfinish : ∀ (w : Walk) (t : Volume), w.ancestor ≠ [] →
      Ends tools (fun text _ => captured text ≠ []) w.finish t := by
    intro w t hw
    rw [Walk.finish]
    refine endsIn_bind fun why t₁ _ => ?_
    by_cases hwhy : captured why ≠ []
    · simp only [if_pos hwhy]
      exact hpure _ t₁ (List.mem_append_left _ (by decide))
    · simp only [if_neg hwhy, if_pos hw]
      exact hpure _ t₁ (List.mem_append_left _ (by decide))
  by_cases hrest : w.rest = []
  · rw [loop_done hrest]
    exact hfinish w t hancestor
  by_cases hempty : first_name w.rest = [] ∨ first_name w.rest = py "."
  · rw [loop_skip hrest hempty]
    exact loop_loud path { w with rest := after_name w.rest } hancestor t
  by_cases hdots : first_name w.rest = py ".."
  · rw [loop_up hrest hdots]
    exact loop_loud path { w with cur := parent_text w.cur, rest := after_name w.rest } hancestor t
  rw [loop_name hrest hempty hdots]
  refine endsIn_question fun t₁ _ => ?_
  split_ifs with hlink hhops hlast
  · exact hpure _ t₁ (List.mem_append_right _ (by decide))
  · refine endsIn_bind ((read_link_loud _ t₁).mono fun target t₂ htarget => ?_)
    cases target with
    | error why => exact hpure why t₂ (htarget why rfl)
    | ok target =>
        exact loop_loud path
          (w.linked (w.cur ++ SLASH :: first_name w.rest) (after_name w.rest) target) hancestor t₂
  · exact hfinish _ t₁ hancestor
  · refine endsIn_bind ?_
    rw [Walk.judge, if_neg hancestor]
    exact endsIn_pure fun t₂ _ => loop_loud path
      { w with
        cur := w.cur ++ SLASH :: first_name w.rest
        next := w.cur ++ SLASH :: first_name w.rest
        rest := after_name w.rest } hancestor t₂
termination_by (MAXSYMLINKS - w.hops, w.rest.length)
decreasing_by
  · exact walk_step (length_after_name ‹_›)
  · exact walk_step (length_after_name ‹_›)
  · exact walk_link ‹_›
  · exact walk_step (length_after_name ‹_›)

/-! ### What a step keeps -/

theorem Follows.skip (h : Follows path w t names stack) (hrest : w.rest ≠ [])
    (hempty : first_name w.rest = [] ∨ first_name w.rest = py ".") :
    Follows path { w with rest := after_name w.rest } t names stack := by
  obtain ⟨blanks, hblanks, hleads⟩ := h.first hrest
  refine ⟨h.cur, h.proper, h.held, h.hops, blanks, hblanks, ?_⟩
  cases hdir : (t.node (t.top stack)).isDir with
  | true =>
      exact hleads.step fun t' h' => Volume.namei_dot ((h.held.isDir_later h').trans hdir) hempty
  | false =>
      exact hleads.dead fun t' h' => Volume.namei_not_dir ((h.held.isDir_later h').trans hdir)

theorem Follows.up (h : Follows path w t names stack) (hrest : w.rest ≠ [])
    (hdots : first_name w.rest = py "..") :
    Follows path { w with cur := parent_text w.cur, rest := after_name w.rest } t names.tail
      stack.tail := by
  obtain ⟨blanks, hblanks, hleads⟩ := h.first hrest
  refine ⟨?_, fun n hn => h.proper n (List.mem_of_mem_tail hn), h.held.parent, h.hops, blanks,
    hblanks, ?_⟩
  · exact h.cur ▸ parent_text_pathOf h.proper
  rw [hdots] at hleads
  cases hdir : (t.node (t.top stack)).isDir with
  | true =>
      exact hleads.step fun t' h' => Volume.namei_dotdot ((h.held.isDir_later h').trans hdir)
  | false =>
      exact hleads.dead fun t' h' => Volume.namei_not_dir ((h.held.isDir_later h').trans hdir)

theorem Follows.child {j : Ino} (h : Follows path w t names stack) (hrest : w.rest ≠ [])
    (hproper : Proper (first_name w.rest)) (hentry : t.entry (t.top stack) (first_name w.rest) = some j)
    (hguarded : Guarded Root t j) (ancestor : PyStr) :
    Follows path
      { w with
        cur := w.cur ++ SLASH :: first_name w.rest
        next := w.cur ++ SLASH :: first_name w.rest
        rest := after_name w.rest
        ancestor } t (first_name w.rest :: names) (j :: stack) := by
  obtain ⟨blanks, hblanks, hleads⟩ := h.first hrest
  have hbelow : Below Root t names stack (first_name w.rest) j := ⟨h.held, hentry, hguarded.owner⟩
  refine ⟨?_, List.forall_mem_cons.mpr ⟨hproper, h.proper⟩, .child h.held hentry hguarded, h.hops,
    blanks, hblanks, ?_⟩
  · rw [h.cur, pathOf]
  exact hleads.step fun t' h' => Volume.namei_child hproper (hbelow.later h').entry
    ((hbelow.isLink_later h').trans hguarded.noLink)

/-- A link of root below the chain: its target comes before what is left. -/
theorem Follows.link {j : Ino} {target : PyStr} (h : Follows path w t names stack)
    (hrest : w.rest ≠ []) (hproper : Proper (first_name w.rest)) (hhops : ¬MAXSYMLINKS < w.hops + 1)
    (hbelow : Below Root t names stack (first_name w.rest) j) (hlink : t.node j = .link target)
    (next : PyStr) :
    ∃ names' stack', Follows path (w.linked next (after_name w.rest) target) t names' stack' := by
  obtain ⟨blanks, hblanks, hleads⟩ := h.first hrest
  have hlinks : MAXSYMLINKS - w.hops = (MAXSYMLINKS - (w.hops + 1)) + 1 := by omega
  have hbefore : w.hops + 1 ≤ MAXSYMLINKS := by omega
  rw [hlinks] at hleads
  by_cases habsolute : target.head? = some SLASH
  · have hne : target ≠ [] := fun hnil => by
      rw [hnil] at habsolute
      cases habsolute
    obtain ⟨shown, rfl⟩ := List.head?_eq_some_iff.mp habsolute
    have hroot : Held Root t [] [] := h.held.to_root
    obtain ⟨blanks', hblanks', hjoined⟩ := names_left_target shown (after_name w.rest)
    refine ⟨[], [], ?_, List.forall_mem_nil _, hroot, hbefore, blanks' ++ blanks,
      List.forall_mem_append.mpr ⟨hblanks', hblanks⟩, hleads.step fun t' h' => ?_⟩
    · simp only [Walk.linked, if_pos habsolute]
      rfl
    have hdir : (t'.node (t'.top [])).isDir = true := (hroot.later h').isDir_root
    have hparts : components (SLASH :: shown) = [] :: components shown := components_append [] shown
    rw [Volume.namei_link hproper (hbelow.later h').entry (hbelow.target_later h' hlink) hne,
      if_pos habsolute, hparts, List.cons_append, Volume.namei_dot hdir (Or.inl rfl),
      ← List.append_assoc, hjoined, List.append_assoc]
    simp only [Walk.linked, if_pos habsolute, List.drop_one, List.tail_cons]
  · obtain ⟨blanks', hblanks', hjoined⟩ := names_left_target target (after_name w.rest)
    refine ⟨names, stack, ?_, h.proper, h.held, hbefore, blanks' ++ blanks,
      List.forall_mem_append.mpr ⟨hblanks', hblanks⟩, ?_⟩
    · exact (if_neg habsolute).trans h.cur
    by_cases hne : target = []
    · subst hne
      exact hleads.dead fun t' h' => Volume.namei_empty_link hproper (hbelow.later h').entry
        (hbelow.target_later h' hlink)
    · refine hleads.step fun t' h' => ?_
      rw [Volume.namei_link hproper (hbelow.later h').entry (hbelow.target_later h' hlink) hne,
        if_neg habsolute, ← List.append_assoc, hjoined, List.append_assoc]
      simp only [Walk.linked, if_neg habsolute]

/-- The link whose target was read is root's, and its target stays. -/
theorem read_link_silent (htidy : Tidy Root t) (hheld : Held Root t names stack)
    (hnames : ∀ n ∈ names, Proper n) {n : Name} (hn : Proper n) :
    Ends tools (fun read t' => ∀ target, read = .ok target →
      ∃ j, Below Root t' names stack n j ∧ t'.node j = .link target)
      (read_link (pathOf (n :: names))) t := by
  refine endsIn_question fun t₁ h₁ => ?_
  have hheld₁ := hheld.later h₁
  cases hj : t₁.resolve false (pathOf (n :: names)) with
  | none =>
      have hreply : answer tools t₁ (.ls (pathOf (n :: names))) = none :=
        congrArg (Option.map (listing tools t₁)) hj
      rw [hreply]
      exact endsIn_pure fun _ _ target htarget => nomatch htarget
  | some j =>
      have hreply : answer tools t₁ (.ls (pathOf (n :: names))) = some (listing tools t₁ j) :=
        congrArg (Option.map (listing tools t₁)) hj
      rw [hreply]
      rw [hheld₁.resolve_child hnames hn] at hj
      by_cases hroot : pwshpy_trusted_uid (listing tools t₁ j).uid = true
      · have hbelow : Below Root t₁ names stack n j := ⟨hheld₁, hj, trusted_uid_decimal hroot⟩
        simp only [hroot, Bool.not_true, Bool.false_eq_true, if_false]
        refine endsIn_question fun t₂ h₂ => ?_
        have hbelow₂ := hbelow.later h₂
        have hread : answer tools t₂ (.readlink (pathOf (n :: names))) =
            (link_target t₂ j).map (· ++ [LF]) := by
          have hentry := hbelow₂.held.resolve_child hnames hn
          rw [hbelow₂.entry] at hentry
          exact congrArg (fun i => (Option.bind i (link_target t₂)).map (· ++ [LF])) hentry
        rw [hread]
        cases hnode : t₂.node j with
        | link target =>
            have htarget : link_target t₂ j = some target := by rw [link_target, hnode]
            have htidy₂ := (htidy.later h₁).later h₂ j target hbelow₂.named hnode hbelow₂.owner
            rw [htarget]
            refine endsIn_pure fun t₃ h₃ read hok => ?_
            have hsame : captured (target ++ [LF]) = read := Except.ok.inj hok
            rw [captured_line htidy₂] at hsame
            exact ⟨j, hbelow₂.later h₃, hsame ▸ hbelow₂.target_later h₃ hnode⟩
        | _ =>
            have htarget : link_target t₂ j = none := by rw [link_target, hnode]
            rw [htarget]
            exact endsIn_pure fun _ _ target hok => nomatch hok
      · simp only [hroot, Bool.not_false, if_true]
        exact endsIn_pure fun _ _ target htarget => nomatch htarget

theorem judge_silent (htools : tools.Shows) (hancestor : w.ancestor = [])
    (hheld : Held Root t names stack) (hnames : ∀ n ∈ names, Proper n) {n : Name} (hn : Proper n) :
    Ends tools (fun ancestor t' => ancestor = [] → Held Root t' names stack ∧
      ∃ j, t'.entry (t'.top stack) n = some j ∧ Guarded Root t' j)
      (w.judge (pathOf (n :: names))) t := by
  rw [Walk.judge, if_pos hancestor]
  refine endsIn_map ((ancestor_silent htools (hheld.fixed hnames hn)).and_later.mono
    fun text t₁ htext hnil => ?_)
  obtain ⟨hguarded, h₁⟩ := htext
  obtain ⟨j, hj, hguarded⟩ := hguarded hnil
  have hheld₁ := hheld.later h₁
  rw [hheld₁.resolve_child hnames hn] at hj
  exact ⟨hheld₁, j, hj, hguarded⟩

/-- The last name of the path is judged as what it is in its directory. -/
theorem last_silent (htools : tools.Shows) (h : Follows path w t names stack) (hrest : w.rest ≠ [])
    (hproper : Proper (first_name w.rest)) (hlast : after_name w.rest = []) :
    Ends tools (fun text t' => captured text = [] → Settled t' path)
      (Walk.finish
        { w with next := pathOf (first_name w.rest :: names), rest := after_name w.rest }) t := by
  refine (finish_silent htools
    (w := { w with next := pathOf (first_name w.rest :: names), rest := after_name w.rest })
    h.cur h.proper h.held _
    fun t' h' => leaf_silent htools ((h.held.later h').fixed h.proper hproper)).mono
      fun text t' hsilent hnil => ?_
  obtain ⟨h', -, j, hj, hsealed, hlink⟩ := hsilent hnil
  have hf := h.later h'
  rw [hf.held.resolve_child h.proper hproper] at hj
  have hbelow : Below Root t' names stack (first_name w.rest) j := ⟨hf.held, hj, hsealed.owner⟩
  obtain ⟨blanks, hblanks, hleads⟩ := hf.first hrest
  rw [names_left, if_pos hlast, List.nil_append] at hleads
  refine hleads.settled blanks hsealed (fun t'' h'' => hbelow.sealed_later h'' hsealed)
    fun t'' h'' => ?_
  rw [Volume.namei_child hproper (hbelow.later h'').entry ((hbelow.isLink_later h'').trans hlink),
    Volume.namei_blank _ hblanks, Volume.top_cons]

/-! ### The walk -/

theorem loop_silent (htools : tools.Shows) (path : PyStr) (w : Walk) (t : Volume) (names : List Name)
    (stack : List Ino) (htidy : Tidy Root t) (h : Follows path w t names stack) :
    Ends tools (fun text t' => captured text = [] → Settled t' path) (w.loop path) t := by
  by_cases hancestor : w.ancestor ≠ []
  · exact (loop_loud path w hancestor t).mono fun _ _ hloud hnil => absurd hnil hloud
  by_cases hrest : w.rest = []
  · rw [loop_done hrest]
    refine (finish_silent htools h.cur h.proper h.held (fun _ => True)
      fun _ _ _ _ _ _ => trivial).mono fun text t' hsilent hnil => ?_
    obtain ⟨h', hsealed, -⟩ := hsilent hnil
    obtain ⟨blanks, hblanks, hleads⟩ := (h.later h').leads
    rw [names_left, if_pos hrest, List.nil_append] at hleads
    have hheld := h.held.later h'
    refine hleads.settled blanks hsealed (fun t'' h'' => hheld.sealed_later h'' hsealed)
      fun t'' h'' => ?_
    rw [Volume.namei_blank _ hblanks, Held.top_later h'']
  by_cases hempty : first_name w.rest = [] ∨ first_name w.rest = py "."
  · rw [loop_skip hrest hempty]
    exact loop_silent htools path { w with rest := after_name w.rest } t names stack htidy
      (h.skip hrest hempty)
  by_cases hdots : first_name w.rest = py ".."
  · rw [loop_up hrest hdots]
    exact loop_silent htools path { w with cur := parent_text w.cur, rest := after_name w.rest } t
      names.tail stack.tail htidy (h.up hrest hdots)
  have hproper := proper_first hempty hdots
  have hnext : w.cur ++ SLASH :: first_name w.rest = pathOf (first_name w.rest :: names) := by
    rw [h.cur, pathOf]
  rw [loop_name hrest hempty hdots]
  refine endsIn_question fun t₁ h₁ => ?_
  have hf₁ := h.later h₁
  split_ifs with hlink hhops hlast
  · exact prints_loud (List.mem_append_right _ (by decide)) _
  · rw [hnext]
    refine endsIn_bind (((read_link_silent (htidy.later h₁) hf₁.held h.proper hproper).and
      (read_link_loud _ t₁)).and_later.mono fun read t₂ hread => ?_)
    obtain ⟨⟨hread, hloud⟩, h₂⟩ := hread
    cases read with
    | error why => exact prints_loud (hloud why rfl) _
    | ok target =>
        obtain ⟨j, hbelow, htarget⟩ := hread target rfl
        obtain ⟨names', stack', hf₂⟩ := (hf₁.later h₂).link hrest hproper hhops hbelow htarget
          (pathOf (first_name w.rest :: names))
        exact loop_silent htools path
          (w.linked (pathOf (first_name w.rest :: names)) (after_name w.rest) target) t₂ names' stack'
          ((htidy.later h₁).later h₂) hf₂
  · rw [hnext]
    exact last_silent htools hf₁ hrest hproper hlast
  · rw [hnext]
    refine endsIn_bind ((judge_silent htools (not_not.mp hancestor) hf₁.held h.proper
      hproper).and_later.mono fun ancestor t₂ hjudge => ?_)
    obtain ⟨hjudge, h₂⟩ := hjudge
    by_cases hsilent : ancestor = []
    · obtain ⟨-, j, hentry, hguarded⟩ := hjudge hsilent
      have hf₂ := (hf₁.later h₂).child hrest hproper hentry hguarded ancestor
      rw [hnext] at hf₂
      exact loop_silent htools path
        { w with
          cur := pathOf (first_name w.rest :: names)
          next := pathOf (first_name w.rest :: names)
          rest := after_name w.rest
          ancestor } t₂ _ _ ((htidy.later h₁).later h₂) hf₂
    · exact (loop_loud path _ hsilent t₂).mono fun _ _ hloud hnil => absurd hnil hloud
termination_by (MAXSYMLINKS - w.hops, w.rest.length)
decreasing_by
  · exact walk_step (length_after_name ‹_›)
  · exact walk_step (length_after_name ‹_›)
  · exact walk_link ‹_›
  · exact walk_step (length_after_name ‹_›)

end Loop

/-! ## From the root -/

theorem follows_root {t : Volume} {path rest : PyStr} (hpath : path = SLASH :: rest)
    (hheld : Held Root t [] []) (ancestor : PyStr) :
    Follows path { cur := [], next := [], rest, hops := 0, ancestor } t [] [] := by
  have hresolve : ∀ t', Later t t' →
      t'.resolve true path = t'.namei true MAXSYMLINKS [] (components rest) := by
    intro t' h'
    have hparts : components (SLASH :: rest) = [] :: components rest := components_append [] rest
    have hdir : (t'.node (t'.top [])).isDir = true := (hheld.later h').isDir_root
    rw [Volume.resolve, hpath, if_pos List.head?_cons, hparts, Volume.namei_dot hdir (Or.inl rfl)]
  have hnames : ∃ blanks : List Name, (∀ n ∈ blanks, n = []) ∧
      components rest = names_left rest ++ blanks := by
    by_cases hrest : rest = []
    · subst hrest
      exact ⟨[[]], fun n hn => List.mem_singleton.mp hn, rfl⟩
    · exact ⟨[], List.forall_mem_nil _, by rw [names_left_of_ne hrest, List.append_nil]⟩
  obtain ⟨blanks, hblanks, hnames⟩ := hnames
  refine ⟨rfl, List.forall_mem_nil _, hheld, Nat.zero_le _, blanks, hblanks, Or.inr fun t' h' => ?_⟩
  rw [hresolve t' h', hnames]
  rfl

theorem uv_distrust_silent {tools : Tools} (htools : tools.Shows) (path : PyStr) {t : Volume}
    (htidy : Tidy Root t) :
    Ends tools (fun text t' => captured text = [] → Settled t' path) (pwshpy_uv_distrust path) t := by
  rw [pwshpy_uv_distrust]
  split_ifs with habsolute
  · obtain ⟨rest, hpath⟩ := List.head?_eq_some_iff.mp habsolute
    refine endsIn_bind ((ancestor_silent htools fixed_root).and_later.mono fun text t₁ htext => ?_)
    obtain ⟨hguarded, h₁⟩ := htext
    by_cases hsilent : captured text = []
    · obtain ⟨i, hi, hguarded⟩ := hguarded hsilent
      rw [Volume.resolve_root] at hi
      split_ifs at hi with hdir
      obtain rfl := Option.some.inj hi
      have hfollows := follows_root hpath (.root hdir hguarded) (captured text)
      have hdrop : path.drop 1 = rest := by rw [hpath, List.drop_one, List.tail_cons]
      rw [hdrop]
      exact loop_silent htools path _ t₁ [] [] (htidy.later h₁) hfollows
    · exact (loop_loud path _ hsilent t₁).mono fun _ _ hloud hnil => absurd hnil hloud
  · exact prints_loud (List.mem_append_right _ (by decide)) _

end PwshPy.Trust
