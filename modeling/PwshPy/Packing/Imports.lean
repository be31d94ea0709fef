import PwshPy.Text.PyStr

/-! # The imports of a source

A parsed source is a tree of which only the import statements matter. Dotted
names are kept as their parts, so joining and splitting at `.` disappear. What
the packer reads out of a statement is compared with what the interpreter
imports for it.
-/

namespace PwshPy.Packing

/-- A dotted name, part by part. -/
abbrev Dotted := List PyStr

/-- What stands behind `import` in `from base import …`. -/
inductive FromAlias where
  | star
  | name (n : PyStr)

/-- `ast.AST` down to the import statements. -/
inductive Node where
  | import_ (names : List Dotted)
  | importFrom (module : Option Dotted) (names : List FromAlias) (level : Nat)
  | other (children : List Node)

/-- `ast.iter_child_nodes` -/
def Node.children : Node → List Node
  | .other children => children
  | _ => []

/-- The node stands somewhere in the tree. -/
inductive Within : Node → Node → Prop where
  | self (node : Node) : Within node node
  | child {node child parent : Node} (hc : child ∈ parent.children) (h : Within node child) :
      Within node parent

noncomputable def weight : List Node → Nat
  | [] => 0
  | node :: todo => sizeOf node + weight todo

private theorem weight_append (ns ms : List Node) : weight (ns ++ ms) = weight ns + weight ms := by
  induction ns with
  | nil => simp [weight]
  | cons n ns ih =>
      simp only [List.cons_append, weight, ih]
      omega

private theorem weight_le_sizeOf (ns : List Node) : weight ns ≤ sizeOf ns := by
  induction ns with
  | nil => simp [weight]
  | cons n ns ih =>
      simp only [weight, List.cons.sizeOf_spec]
      omega

private theorem weight_children_lt (node : Node) : weight node.children < sizeOf node := by
  cases node with
  | other children =>
      have h := weight_le_sizeOf children
      simp only [Node.children, Node.other.sizeOf_spec]
      omega
  | import_ names =>
      simp only [Node.children, weight, Node.import_.sizeOf_spec]
      omega
  | importFrom module names level =>
      simp only [Node.children, weight, Node.importFrom.sizeOf_spec]
      omega

/-- `ast.walk`: breadth first, by a queue of nodes to do. -/
def walk : List Node → List Node
  | [] => []
  | node :: todo => node :: walk (todo ++ node.children)
  termination_by todo => weight todo
  decreasing_by
    have h := weight_children_lt node
    rw [weight_append]
    simp only [weight]
    omega

theorem mem_walk {node : Node} {todo : List Node} :
    node ∈ walk todo ↔ ∃ root ∈ todo, Within node root := by
  induction todo using walk.induct with
  | case1 => simp [walk]
  | case2 first todo ih =>
      rw [walk, List.mem_cons, ih]
      constructor
      · rintro (rfl | ⟨root, hroot, hin⟩)
        · exact ⟨_, List.mem_cons_self, .self _⟩
        · rcases List.mem_append.mp hroot with h | h
          · exact ⟨root, List.mem_cons_of_mem _ h, hin⟩
          · exact ⟨first, List.mem_cons_self, .child h hin⟩
      · rintro ⟨root, hroot, hin⟩
        rcases List.mem_cons.mp hroot with rfl | h
        · cases hin with
          | self => exact .inl rfl
          | child hc hin => exact .inr ⟨_, List.mem_append_right _ hc, hin⟩
        · exact .inr ⟨root, List.mem_append_left _ h, hin⟩

/-! ## The names the packer reads -/

/-- `_with_parents` -/
def with_parents (dotted : Dotted) : List Dotted :=
  (List.range dotted.length).map fun index => dotted.take (index + 1)

/-- `_resolve_from_base` -/
def resolve_from_base (module : Option Dotted) (level : Nat) (package : List PyStr) :
    Option Dotted :=
  if level = 0 then
    some (module.getD [])
  else
    let climb := level - 1
    if climb > package.length then
      none
    else
      some (package.take (package.length - climb) ++ module.getD [])

def from_candidates (base : Dotted) : FromAlias → List Dotted
  | .star => []
  | .name n => [base ++ [n]]

/-- `_node_candidates` -/
def node_candidates (package : List PyStr) : Node → List Dotted
  | .import_ names => names.flatMap with_parents
  | .importFrom module names level =>
      match resolve_from_base module level package with
      | none => []
      | some base => with_parents base ++ names.flatMap (from_candidates base)
  | .other _ => []

/-- `iter_import_candidates` of a parsed source. -/
def iter_import_candidates (tree : Node) (package : List PyStr) : List Dotted :=
  ((walk [tree]).flatMap (node_candidates package) |>.filter (· ≠ [])).eraseDups

theorem mem_iter_import_candidates {tree : Node} {package : List PyStr} {dotted : Dotted} :
    dotted ∈ iter_import_candidates tree package ↔
      dotted ≠ [] ∧ ∃ node, Within node tree ∧ dotted ∈ node_candidates package node := by
  simp only [iter_import_candidates, List.mem_eraseDups, List.mem_filter, List.mem_flatMap,
    mem_walk, List.mem_singleton, exists_eq_left, decide_eq_true_eq]
  exact and_comm

theorem mem_with_parents {dotted p : Dotted} :
    p ∈ with_parents dotted ↔ p ≠ [] ∧ p <+: dotted := by
  simp only [with_parents, List.mem_map, List.mem_range]
  constructor
  · rintro ⟨i, hi, rfl⟩
    refine ⟨?_, List.take_prefix _ _⟩
    have hlen := List.length_take (i := i + 1) (l := dotted)
    intro hnil
    rw [hnil] at hlen
    simp only [List.length_nil] at hlen
    omega
  · rintro ⟨hne, hp⟩
    have hpos := List.length_pos_iff.mpr hne
    have hle := hp.length_le
    refine ⟨p.length - 1, by omega, ?_⟩
    rw [show p.length - 1 + 1 = p.length by omega]
    exact (List.prefix_iff_eq_take.mp hp).symm

theorem first_mem_node_candidates {package : List PyStr} {node : Node} {first : PyStr}
    {rest : Dotted} (h : first :: rest ∈ node_candidates package node) :
    [first] ∈ node_candidates package node := by
  have hparent : ∀ dotted, first :: rest ∈ with_parents dotted → [first] ∈ with_parents dotted := by
    intro dotted hdotted
    have hbegins : [first] <+: first :: rest := ⟨rest, rfl⟩
    exact mem_with_parents.mpr ⟨List.cons_ne_nil _ _,
      hbegins.trans (mem_with_parents.mp hdotted).2⟩
  cases node with
  | other children => cases h
  | import_ names =>
      obtain ⟨dotted, hdotted, hmem⟩ := List.mem_flatMap.mp h
      exact List.mem_flatMap.mpr ⟨dotted, hdotted, hparent dotted hmem⟩
  | importFrom module names level =>
      simp only [node_candidates] at h ⊢
      cases hbase : resolve_from_base module level package with
      | none =>
          rw [hbase] at h
          cases h
      | some base =>
          simp only [hbase, List.mem_append, List.mem_flatMap] at h ⊢
          obtain hmem | ⟨target, htarget, hmem⟩ := h
          · exact Or.inl (hparent base hmem)
          · cases target with
            | star => cases hmem
            | name n =>
                -- without a base the name is its own first part
                cases base with
                | nil =>
                    obtain ⟨rfl, -⟩ := List.cons.inj (List.mem_singleton.mp hmem)
                    exact Or.inr ⟨.name first, htarget, List.mem_singleton_self _⟩
                | cons b base =>
                    obtain ⟨rfl, -⟩ := List.cons.inj (List.mem_singleton.mp hmem)
                    exact Or.inl (mem_with_parents.mpr ⟨List.cons_ne_nil _ _, ⟨base, rfl⟩⟩)

/-- The root of a candidate is a candidate. -/
theorem first_mem_candidates {tree : Node} {package : List PyStr} {dotted : Dotted}
    (h : dotted ∈ iter_import_candidates tree package) :
    [dotted.headD []] ∈ iter_import_candidates tree package := by
  obtain ⟨hne, node, hin, hmem⟩ := mem_iter_import_candidates.mp h
  cases dotted with
  | nil => exact absurd rfl hne
  | cons first rest =>
      exact mem_iter_import_candidates.mpr
        ⟨List.cons_ne_nil _ _, node, hin, first_mem_node_candidates hmem⟩

/-! ## The names the interpreter imports -/

/-- The absolute base of a `from` statement in a module whose `__package__` is
`parent`; a relative import needs as many packages as it has dots. -/
def importedBase (parent : List PyStr) (module : Option Dotted) (level : Nat) : Option Dotted :=
  if level = 0 then
    some (module.getD [])
  else if parent.length < level then
    none
  else
    some (parent.take (parent.length - (level - 1)) ++ module.getD [])

/-- The modules a statement names: each with its parents, and what a `from`
statement may take out of the base as a submodule. -/
inductive Names (parent : List PyStr) : Node → Dotted → Prop where
  | import_ {names : List Dotted} {dotted p : Dotted} (hd : dotted ∈ names) (hne : p ≠ [])
      (hp : p <+: dotted) : Names parent (.import_ names) p
  | base {module : Option Dotted} {names : List FromAlias} {level : Nat} {base p : Dotted}
      (hb : importedBase parent module level = some base) (hne : p ≠ []) (hp : p <+: base) :
      Names parent (.importFrom module names level) p
  | submodule {module : Option Dotted} {names : List FromAlias} {level : Nat} {base : Dotted}
      {n : PyStr} (hb : importedBase parent module level = some base) (hn : .name n ∈ names) :
      Names parent (.importFrom module names level) (base ++ [n])

namespace Names

variable {parent : List PyStr} {node : Node} {dotted : Dotted}

theorem ne_nil (h : Names parent node dotted) : dotted ≠ [] := by
  cases h with
  | import_ _ hne _ => exact hne
  | base _ hne _ => exact hne
  | submodule _ _ => simp

/-- The packages a named module lies in are named with it. -/
theorem of_prefix (h : Names parent node dotted) {p : Dotted} (hne : p ≠ [])
    (hp : p <+: dotted) : Names parent node p := by
  cases h with
  | import_ hd _ hq => exact .import_ hd hne (hp.trans hq)
  | base hb _ hq => exact .base hb hne (hp.trans hq)
  | submodule hb hn =>
      rcases List.prefix_concat_iff.mp hp with rfl | hq
      · exact .submodule hb hn
      · exact .base hb hne hq

/-- A script has no package, so it names by absolute imports alone, and these do
not depend on a package. -/
theorem of_script (h : Names [] node dotted) : Names parent node dotted := by
  have hbase {module : Option Dotted} {level : Nat} {base : Dotted}
      (hb : importedBase [] module level = some base) :
      importedBase parent module level = some base := by
    unfold importedBase at hb ⊢
    by_cases h0 : level = 0
    · simpa [h0] using hb
    · have hpos : 0 < level := by omega
      simp [h0, hpos] at hb
  cases h with
  | import_ hd hne hp => exact .import_ hd hne hp
  | base hb hne hp => exact .base (hbase hb) hne hp
  | submodule hb hn => exact .submodule (hbase hb) hn

end Names

/-- The packer climbs from the same packages, and once further. -/
theorem resolve_from_base_eq {parent : List PyStr} {module : Option Dotted} {level : Nat}
    {base : Dotted} (h : importedBase parent module level = some base) :
    resolve_from_base module level parent = some base := by
  unfold importedBase at h
  unfold resolve_from_base
  by_cases h0 : level = 0
  · simpa [h0] using h
  · by_cases hl : parent.length < level
    · simp [h0, hl] at h
    · have hclimb : ¬ level - 1 > parent.length := by omega
      simpa [h0, hl, hclimb] using h

theorem Names.mem_node_candidates {parent : List PyStr} {node : Node} {dotted : Dotted}
    (h : Names parent node dotted) : dotted ∈ node_candidates parent node := by
  cases h with
  | import_ hd hne hp =>
      exact List.mem_flatMap.mpr ⟨_, hd, mem_with_parents.mpr ⟨hne, hp⟩⟩
  | base hb hne hp =>
      simp only [node_candidates, resolve_from_base_eq hb]
      exact List.mem_append_left _ (mem_with_parents.mpr ⟨hne, hp⟩)
  | submodule hb hn =>
      simp only [node_candidates, resolve_from_base_eq hb]
      exact List.mem_append_right _ (List.mem_flatMap.mpr ⟨_, hn, by simp [from_candidates]⟩)

/-- Every module an import statement of the source names is a candidate. -/
theorem Names.mem_candidates {parent : List PyStr} {tree node : Node} {dotted : Dotted}
    (hin : Within node tree) (h : Names parent node dotted) :
    dotted ∈ iter_import_candidates tree parent :=
  mem_iter_import_candidates.mpr ⟨h.ne_nil, node, hin, h.mem_node_candidates⟩

end PwshPy.Packing
