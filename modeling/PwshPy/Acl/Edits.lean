import PwshPy.Acl.PosixAcl
import Mathlib.Data.List.Nodup

/-! # Edited ACLs stay valid

What a call writes is a valid ACL in canonical order, its mask the union of what
the mask bounds; only the requested entry and the mask can differ from what was
read.
-/

namespace PwshPy.Acl

open Bytes

/-! ## Valid ACLs -/

/-- One entry for the owner, the owning group and the others each, no two entries alike in tag and
id, and every field in range. -/
structure WellFormed (entries : List Entry) : Prop where
  owner : entries.countP (fun e => e.tag = .USER_OBJ) = 1
  owning_group : entries.countP (fun e => e.tag = .GROUP_OBJ) = 1
  other : entries.countP (fun e => e.tag = .OTHER) = 1
  distinct : (entries.map fun e => (e.tag, e.entry_id)).Nodup
  known : ∀ e ∈ entries, e.tag.order.isSome
  perms : ∀ e ∈ entries, e.perm < 8
  named_ids : ∀ e ∈ entries, e.named = true → e.entry_id < UNDEFINED_ID
  plain_ids : ∀ e ∈ entries, e.named = false → e.entry_id = UNDEFINED_ID

/-- Before in the canonical order of tags, then of ids. -/
def Before (a b : Entry) : Prop :=
  a.tag.order.getD 0 < b.tag.order.getD 0 ∨
    (a.tag.order.getD 0 = b.tag.order.getD 0 ∧ a.entry_id < b.entry_id)

/-- There is a mask exactly when there is a named entry, and it is the union of what it bounds. -/
structure Masked (entries : List Entry) : Prop where
  mask_iff : (∃ e ∈ entries, e.tag = .MASK) ↔ ∃ e ∈ entries, e.named = true
  mask_union : ∀ mask ∈ entries, mask.tag = .MASK → ∀ bit, mask.perm.testBit bit = true ↔
    ∃ e ∈ entries, e.group_class = true ∧ e.perm.testBit bit = true

/-- A valid ACL in canonical order. -/
structure Valid (entries : List Entry) : Prop where
  wellFormed : WellFormed entries
  masked : Masked entries
  ordered : entries.Pairwise Before

theorem WellFormed.perm {entries entries' : List Entry} (h : WellFormed entries)
    (hperm : entries.Perm entries') : WellFormed entries' where
  owner := (hperm.countP_eq _).symm.trans h.owner
  owning_group := (hperm.countP_eq _).symm.trans h.owning_group
  other := (hperm.countP_eq _).symm.trans h.other
  distinct := (hperm.map _).nodup_iff.mp h.distinct
  known := fun e he => h.known e (hperm.mem_iff.mpr he)
  perms := fun e he => h.perms e (hperm.mem_iff.mpr he)
  named_ids := fun e he => h.named_ids e (hperm.mem_iff.mpr he)
  plain_ids := fun e he => h.plain_ids e (hperm.mem_iff.mpr he)

theorem Masked.perm {entries entries' : List Entry} (h : Masked entries)
    (hperm : entries.Perm entries') : Masked entries' where
  mask_iff := by simpa only [hperm.mem_iff] using h.mask_iff
  mask_union := by simpa only [hperm.mem_iff] using h.mask_union

theorem base_entries_wellFormed (mode : Nat) : WellFormed (base_entries mode) where
  owner := by simp [base_entries]
  owning_group := by simp [base_entries]
  other := by simp [base_entries]
  distinct := by simp [base_entries]
  known := by simp [base_entries, AclTag.order]
  perms := by
    have hlow : ∀ n : Nat, n &&& 7 < 8 := fun n => Nat.lt_succ_of_le Nat.and_le_right
    simp [base_entries, hlow]
  named_ids := by simp [base_entries, Entry.named]
  plain_ids := by simp [base_entries]

/-! ## Bytes and entries -/

theorem ofValue_value {tag : AclTag} (h : tag.order.isSome) : AclTag.ofValue tag.value = tag := by
  cases tag with
  | unknown value => cases h
  | _ => rfl

theorem value_lt {tag : AclTag} (h : tag.order.isSome) : tag.value < 256 ^ 2 := by
  cases tag with
  | unknown value => cases h
  | _ => decide

/-- An entry as its bytes give it back: the id is cut to 32 bits. -/
def Entry.cut (e : Entry) : Entry := { e with entry_id := e.entry_id % 2 ^ 32 }

theorem Entry.cut_of_lt {e : Entry} (h : e.entry_id < 2 ^ 32) : e.cut = e := by
  rw [Entry.cut, Nat.mod_eq_of_lt h]

/-- Decoding gives back the entries encoded, their ids cut. -/
theorem unpack_entries_cut {ε : Type} {entries : List Entry}
    (hknown : ∀ e ∈ entries, e.tag.order.isSome) (hperms : ∀ e ∈ entries, e.perm < 256 ^ 2) :
    unpack_entries (entries.flatMap pack) =
      (.ok (entries.map Entry.cut) : Except (AclError ε) (List Entry)) := by
  induction entries with
  | nil => rfl
  | cons e rest ih =>
      obtain ⟨hknown, hknowns⟩ := List.forall_mem_cons.mp hknown
      obtain ⟨hperm, hperms⟩ := List.forall_mem_cons.mp hperms
      have htag := ofLe_le_of_lt (value_lt hknown)
      have hbits := ofLe_le_of_lt hperm
      have hident := ofLe_le 4 (e.entry_id % 2 ^ 32)
      have hlow : e.entry_id &&& 0xffffffff = e.entry_id % 2 ^ 32 :=
        Nat.and_two_pow_sub_one_eq_mod e.entry_id 32
      have hcut : e.entry_id % 2 ^ 32 % 256 ^ 4 = e.entry_id % 2 ^ 32 := Nat.mod_mod _ _
      rw [hcut] at hident
      simp only [le] at htag hbits hident
      rw [List.flatMap_cons, pack, hlow]
      simp only [le, List.cons_append, List.nil_append, unpack_entries, ih hknowns hperms, htag,
        hbits, hident, ofValue_value hknown, List.map_cons, Entry.cut]

theorem WellFormed.id_lt {entries : List Entry} (h : WellFormed entries) :
    ∀ e ∈ entries, e.entry_id < 2 ^ 32 := by
  intro e he
  by_cases hnamed : e.named = true
  · exact (h.named_ids e he hnamed).trans (by decide)
  · rw [h.plain_ids e he (Bool.not_eq_true _ ▸ hnamed)]
    decide

theorem WellFormed.unpack {ε : Type} {entries : List Entry} (h : WellFormed entries) :
    unpack (header ++ entries.flatMap pack) = (.ok entries : Except (AclError ε) (List Entry)) := by
  have hcut : entries.map Entry.cut = entries :=
    (List.map_congr_left fun e he => Entry.cut_of_lt (h.id_lt e he)).trans (List.map_id entries)
  rw [Acl.unpack, List.drop_left,
    unpack_entries_cut h.known fun e he => (h.perms e he).trans (by decide), hcut]

/-! ## The mask -/

theorem testBit_union {l : List Entry} {perm bit : Nat} :
    (l.foldl (fun perm e => perm ||| e.perm) perm).testBit bit = true ↔
      perm.testBit bit = true ∨ ∃ e ∈ l, e.perm.testBit bit = true := by
  induction l generalizing perm with
  | nil => simp
  | cons e rest ih =>
      rw [List.foldl_cons, ih, Nat.testBit_or, Bool.or_eq_true]
      simp [or_assoc]

theorem union_lt {k : Nat} {l : List Entry} (h : ∀ e ∈ l, e.perm < 2 ^ k) {perm : Nat}
    (hperm : perm < 2 ^ k) : l.foldl (fun perm e => perm ||| e.perm) perm < 2 ^ k := by
  induction l generalizing perm with
  | nil => exact hperm
  | cons e rest ih =>
      obtain ⟨he, hrest⟩ := List.forall_mem_cons.mp h
      exact ih hrest (Nat.or_lt_two_pow hperm he)

section Recompute

variable {entries : List Entry}

theorem named_ne_mask {e : Entry} (h : e.named = true) : e.tag ≠ .MASK := by
  intro htag
  simp [Entry.named, htag] at h

theorem group_class_ne_mask {e : Entry} (h : e.group_class = true) : e.tag ≠ .MASK := by
  intro htag
  simp [Entry.group_class, Entry.named, htag] at h

/-- The entries but the mask. -/
def unmasked (entries : List Entry) : List Entry := entries.filter fun e => e.tag ≠ .MASK

theorem mem_unmasked {e : Entry} : e ∈ unmasked entries ↔ e ∈ entries ∧ e.tag ≠ .MASK := by
  simp [unmasked, List.mem_filter]

/-- The mask that the entries call for. -/
def new_mask (entries : List Entry) : Entry where
  tag := .MASK
  perm := ((unmasked entries).filter Entry.group_class).foldl (fun perm e => perm ||| e.perm) 0
  entry_id := UNDEFINED_ID

theorem recomputed_unnamed (h : ∀ e ∈ entries, e.named = false) :
    with_recomputed_mask entries = unmasked entries := by
  refine if_pos ?_
  rw [List.isEmpty_iff, List.filter_eq_nil_iff]
  intro e he
  rw [h e (mem_unmasked.mp he).1]
  exact Bool.false_ne_true

theorem recomputed_named (h : ∃ e ∈ entries, e.named = true) :
    with_recomputed_mask entries = unmasked entries ++ [new_mask entries] := by
  obtain ⟨e, he, hnamed⟩ := h
  refine if_neg ?_
  rw [List.isEmpty_iff, List.filter_eq_nil_iff]
  intro hnone
  exact hnone e (mem_unmasked.mpr ⟨he, named_ne_mask hnamed⟩) hnamed

theorem named_or_unnamed (entries : List Entry) :
    (∃ e ∈ entries, e.named = true) ∨ ∀ e ∈ entries, e.named = false := by
  by_cases h : ∃ e ∈ entries, e.named = true
  · exact Or.inl h
  · refine Or.inr fun e he => ?_
    by_contra hnamed
    exact h ⟨e, he, Bool.not_eq_false _ ▸ hnamed⟩

theorem mem_recomputed {e : Entry} (h : e.tag ≠ .MASK) :
    e ∈ with_recomputed_mask entries ↔ e ∈ entries := by
  cases named_or_unnamed entries with
  | inl hnamed =>
      have hne : e ≠ new_mask entries := fun heq => h (heq ▸ rfl)
      rw [recomputed_named hnamed, List.mem_append, List.mem_singleton, mem_unmasked]
      simp [h, hne]
  | inr hunnamed =>
      rw [recomputed_unnamed hunnamed, mem_unmasked]
      simp [h]

theorem filter_recomputed {p : Entry → Bool} (hp : ∀ e, p e = true → e.tag ≠ .MASK) :
    (with_recomputed_mask entries).filter p = entries.filter p := by
  have hplain : (unmasked entries).filter p = entries.filter p := by
    rw [unmasked, List.filter_filter]
    congr 1
    funext e
    by_cases he : p e = true
    · simp [he, hp e he]
    · simp [he]
  cases named_or_unnamed entries with
  | inl hnamed =>
      have hmask : p (new_mask entries) = false := by
        by_contra htrue
        exact hp _ (Bool.not_eq_false _ ▸ htrue) rfl
      rw [recomputed_named hnamed, List.filter_append, hplain]
      simp [hmask]
  | inr hunnamed => rw [recomputed_unnamed hunnamed, hplain]

theorem countP_recomputed {p : Entry → Bool} (hp : ∀ e, p e = true → e.tag ≠ .MASK) :
    (with_recomputed_mask entries).countP p = entries.countP p := by
  rw [List.countP_eq_length_filter, filter_recomputed hp, List.countP_eq_length_filter]

/-- Every entry after the mask is recomputed is one from before or the new mask. -/
theorem mem_of_mem_recomputed {e : Entry} (h : e ∈ with_recomputed_mask entries) :
    e ∈ entries ∨ e = new_mask entries := by
  cases named_or_unnamed entries with
  | inl hnamed =>
      rw [recomputed_named hnamed, List.mem_append, List.mem_singleton, mem_unmasked] at h
      exact h.imp And.left id
  | inr hunnamed =>
      rw [recomputed_unnamed hunnamed, mem_unmasked] at h
      exact Or.inl h.1

theorem recomputed_distinct (h : (entries.map fun e => (e.tag, e.entry_id)).Nodup) :
    ((with_recomputed_mask entries).map fun e => (e.tag, e.entry_id)).Nodup := by
  have hplain : ((unmasked entries).map fun e => (e.tag, e.entry_id)).Nodup :=
    h.sublist (List.filter_sublist.map _)
  cases named_or_unnamed entries with
  | inl hnamed =>
      rw [recomputed_named hnamed, List.map_append, List.nodup_append]
      refine ⟨hplain, List.nodup_singleton _, ?_⟩
      intro a ha b hb hab
      obtain ⟨e, he, rfl⟩ := List.mem_map.mp ha
      rw [List.map_singleton, List.mem_singleton] at hb
      rw [hb] at hab
      exact (mem_unmasked.mp he).2 (Prod.mk.inj hab).1
  | inr hunnamed => rwa [recomputed_unnamed hunnamed]

theorem new_mask_perm_lt {k : Nat} (h : ∀ e ∈ entries, e.perm < 2 ^ k) :
    (new_mask entries).perm < 2 ^ k := by
  refine union_lt ?_ (Nat.two_pow_pos k)
  intro e he
  exact h e (mem_unmasked.mp (List.mem_filter.mp he).1).1

theorem recomputed_wellFormed (h : WellFormed entries) : WellFormed (with_recomputed_mask entries) where
  owner := by
    rw [countP_recomputed, h.owner]
    intro e he
    rw [of_decide_eq_true he]
    decide
  owning_group := by
    rw [countP_recomputed, h.owning_group]
    intro e he
    rw [of_decide_eq_true he]
    decide
  other := by
    rw [countP_recomputed, h.other]
    intro e he
    rw [of_decide_eq_true he]
    decide
  distinct := recomputed_distinct h.distinct
  known := by
    intro e he
    cases mem_of_mem_recomputed he with
    | inl hold => exact h.known e hold
    | inr hmask => exact hmask ▸ rfl
  perms := by
    intro e he
    cases mem_of_mem_recomputed he with
    | inl hold => exact h.perms e hold
    | inr hmask => exact hmask ▸ new_mask_perm_lt (k := 3) h.perms
  named_ids := by
    intro e he hnamed
    exact h.named_ids e ((mem_recomputed (named_ne_mask hnamed)).mp he) hnamed
  plain_ids := by
    intro e he hplain
    cases mem_of_mem_recomputed he with
    | inl hold => exact h.plain_ids e hold hplain
    | inr hmask => exact hmask ▸ rfl

theorem testBit_new_mask (bit : Nat) : (new_mask entries).perm.testBit bit = true ↔
    ∃ e ∈ entries, e.group_class = true ∧ e.perm.testBit bit = true := by
  rw [new_mask, testBit_union]
  simp only [Nat.zero_testBit, Bool.false_eq_true, false_or, List.mem_filter, mem_unmasked]
  constructor
  · intro h
    obtain ⟨e, ⟨⟨he, -⟩, hclass⟩, hbit⟩ := h
    exact ⟨e, he, hclass, hbit⟩
  · intro h
    obtain ⟨e, he, hclass, hbit⟩ := h
    exact ⟨e, ⟨⟨he, group_class_ne_mask hclass⟩, hclass⟩, hbit⟩

theorem recomputed_masked (entries : List Entry) : Masked (with_recomputed_mask entries) where
  mask_iff := by
    cases named_or_unnamed entries with
    | inl hnamed =>
        refine iff_of_true ⟨new_mask entries, ?_, rfl⟩ ?_
        · rw [recomputed_named hnamed]
          simp
        · obtain ⟨e, he, hnamed⟩ := hnamed
          exact ⟨e, (mem_recomputed (named_ne_mask hnamed)).mpr he, hnamed⟩
    | inr hunnamed =>
        rw [recomputed_unnamed hunnamed]
        refine iff_of_false ?_ ?_
        · intro h
          obtain ⟨e, he, hmask⟩ := h
          exact (mem_unmasked.mp he).2 hmask
        · intro h
          obtain ⟨e, he, hnamed⟩ := h
          rw [hunnamed e (mem_unmasked.mp he).1] at hnamed
          cases hnamed
  mask_union := by
    intro mask hmask htag bit
    have hclass : ∀ e : Entry, e.group_class = true → (e ∈ with_recomputed_mask entries ↔ e ∈ entries) :=
      fun e he => mem_recomputed (group_class_ne_mask he)
    have hnew : mask = new_mask entries := by
      cases named_or_unnamed entries with
      | inl hnamed =>
          rw [recomputed_named hnamed, List.mem_append, List.mem_singleton, mem_unmasked] at hmask
          exact hmask.resolve_left fun h => h.2 htag
      | inr hunnamed =>
          rw [recomputed_unnamed hunnamed, mem_unmasked] at hmask
          exact absurd htag hmask.2
    rw [hnew, testBit_new_mask]
    constructor
    · intro h
      obtain ⟨e, he, hgroup, hbit⟩ := h
      exact ⟨e, (hclass e hgroup).mpr he, hgroup, hbit⟩
    · intro h
      obtain ⟨e, he, hgroup, hbit⟩ := h
      exact ⟨e, (hclass e hgroup).mp he, hgroup, hbit⟩

end Recompute

/-! ## The order -/

theorem entryLe_iff {a b : Entry} : entryLe a b = true ↔
    a.tag.order.getD 0 < b.tag.order.getD 0 ∨
      (a.tag.order.getD 0 = b.tag.order.getD 0 ∧ a.entry_id ≤ b.entry_id) := by
  simp [entryLe]

theorem order_injective {a b : AclTag} (ha : a.order.isSome) (hb : b.order.isSome)
    (h : a.order.getD 0 = b.order.getD 0) : a = b := by
  cases a <;> cases b <;> simp [AclTag.order] at ha hb h ⊢

theorem sorted_before {entries : List Entry} (hknown : ∀ e ∈ entries, e.tag.order.isSome)
    (hdistinct : (entries.map fun e => (e.tag, e.entry_id)).Nodup) :
    (entries.mergeSort entryLe).Pairwise Before := by
  have hsorted : (entries.mergeSort entryLe).Pairwise fun a b => entryLe a b = true := by
    refine List.pairwise_mergeSort ?_ ?_ entries
    · intro a b c hab hbc
      rw [entryLe_iff] at hab hbc ⊢
      omega
    · intro a b
      rw [Bool.or_eq_true, entryLe_iff, entryLe_iff]
      omega
  have hperm := List.mergeSort_perm entries entryLe
  have hapart : (entries.mergeSort entryLe).Pairwise
      fun a b => (a.tag, a.entry_id) ≠ (b.tag, b.entry_id) :=
    List.pairwise_map.mp ((hperm.map _).nodup_iff.mpr hdistinct)
  refine (hsorted.and hapart).imp_of_mem ?_
  intro a b ha hb h
  obtain ⟨hle, hne⟩ := h
  have horder : a.tag.order.getD 0 = b.tag.order.getD 0 → a.tag = b.tag :=
    order_injective (hknown a (hperm.mem_iff.mp ha)) (hknown b (hperm.mem_iff.mp hb))
  rw [entryLe_iff] at hle
  unfold Before
  by_cases hid : a.entry_id = b.entry_id
  · by_cases hsame : a.tag.order.getD 0 = b.tag.order.getD 0
    · exact absurd (Prod.ext (horder hsame) hid) hne
    · omega
  · omega

theorem serialize_ok {ε : Type} {entries : List Entry} (hknown : ∀ e ∈ entries, e.tag.order.isSome) :
    serialize entries = (.ok (entries.mergeSort entryLe,
      header ++ (entries.mergeSort entryLe).flatMap pack) : Except (AclError ε) _) := by
  have hnone : unordered entries = none := by
    rw [unordered, List.find?_eq_none]
    intro tag htag
    obtain ⟨e, he, rfl⟩ := List.mem_map.mp htag
    simp [Option.isSome_iff_ne_none.mp (hknown e he)]
  rw [serialize, hnone]

/-! ## One edit -/

section Edit

variable {call : Call} {entries : List Entry}

theorem call_tag_named (call : Call) : call.tag = .USER ∨ call.tag = .GROUP := by
  cases call with
  | add_ace kind _ _ _ => cases kind <;> simp [Call.tag, Named.tag]
  | remove_ace kind _ _ => cases kind <;> simp [Call.tag, Named.tag]

/-- The entries with the requested one in the place of the old. -/
def replaced (call : Call) (entries : List Entry) : List Entry :=
  entries.filter (fun e => !e.is call.tag call.ident) ++ call.requested

theorem is_iff {e : Entry} {tag : AclTag} {ident : Nat} :
    e.is tag ident = true ↔ e.tag = tag ∧ e.entry_id = ident := by
  simp [Entry.is]

theorem requested_spec {e : Entry} (h : e ∈ call.requested) :
    e.is call.tag call.ident = true ∧ e.perm < 8 := by
  cases call with
  | add_ace kind ident rights deny =>
      rw [Call.requested, List.mem_singleton] at h
      subst h
      refine ⟨is_iff.mpr ⟨rfl, rfl⟩, ?_⟩
      show (rights % 8).toNat < 8
      omega
  | remove_ace kind ident deny => cases h

theorem countP_replaced {tag : AclTag} (htag : tag ≠ call.tag) :
    (replaced call entries).countP (fun e => e.tag = tag) = entries.countP fun e => e.tag = tag := by
  have hnew : call.requested.countP (fun e => e.tag = tag) = 0 := by
    rw [List.countP_eq_zero]
    intro e he heq
    exact htag ((of_decide_eq_true heq).symm.trans (is_iff.mp (requested_spec he).1).1)
  rw [replaced, List.countP_append, hnew, Nat.add_zero, List.countP_filter]
  refine List.countP_congr fun e _ => ?_
  simp only [Bool.and_eq_true, decide_eq_true_eq, Bool.not_eq_true', and_iff_left_iff_imp]
  intro heq
  rw [← Bool.not_eq_true, is_iff]
  exact fun h => htag (heq.symm.trans h.1)

theorem replaced_wellFormed (h : WellFormed entries) (hident : call.ident < UNDEFINED_ID) :
    WellFormed (replaced call entries) := by
  have hmem : ∀ e ∈ replaced call entries,
      (e ∈ entries ∧ e.is call.tag call.ident = false) ∨ e ∈ call.requested := by
    intro e he
    rw [replaced, List.mem_append, List.mem_filter, Bool.not_eq_true'] at he
    exact he
  have hne : ∀ tag, tag ≠ .USER → tag ≠ .GROUP → tag ≠ call.tag := by
    intro tag huser hgroup heq
    cases call_tag_named call with
    | inl hcall => exact huser (heq.trans hcall)
    | inr hcall => exact hgroup (heq.trans hcall)
  have hrequested : ∀ e ∈ call.requested, e.tag = call.tag ∧ e.entry_id = call.ident :=
    fun e he => is_iff.mp (requested_spec he).1
  refine ⟨?_, ?_, ?_, ?_, ?_, ?_, ?_, ?_⟩
  · rw [countP_replaced (hne _ (by decide) (by decide)), h.owner]
  · rw [countP_replaced (hne _ (by decide) (by decide)), h.owning_group]
  · rw [countP_replaced (hne _ (by decide) (by decide)), h.other]
  · rw [replaced, List.map_append, List.nodup_append]
    refine ⟨h.distinct.sublist (List.filter_sublist.map _), ?_, ?_⟩
    · cases call <;> simp [Call.requested]
    · intro a ha b hb hab
      obtain ⟨e, he, rfl⟩ := List.mem_map.mp ha
      obtain ⟨e', he', rfl⟩ := List.mem_map.mp hb
      have hnot := (List.mem_filter.mp he).2
      obtain ⟨htag, hid⟩ := hrequested e' he'
      obtain ⟨htags, hids⟩ := Prod.mk.inj hab
      rw [is_iff.mpr ⟨htags.trans htag, hids.trans hid⟩] at hnot
      cases hnot
  · intro e he
    cases hmem e he with
    | inl hold => exact h.known e hold.1
    | inr hnew =>
        rw [(hrequested e hnew).1]
        cases call_tag_named call with
        | inl hcall => rw [hcall]; rfl
        | inr hcall => rw [hcall]; rfl
  · intro e he
    cases hmem e he with
    | inl hold => exact h.perms e hold.1
    | inr hnew => exact (requested_spec hnew).2
  · intro e he hnamed
    cases hmem e he with
    | inl hold => exact h.named_ids e hold.1 hnamed
    | inr hnew => rwa [(hrequested e hnew).2]
  · intro e he hplain
    cases hmem e he with
    | inl hold => exact h.plain_ids e hold.1 hplain
    | inr hnew =>
        have htag := (hrequested e hnew).1
        cases call_tag_named call with
        | inl hcall => simp [Entry.named, htag, hcall] at hplain
        | inr hcall => simp [Entry.named, htag, hcall] at hplain

/-- What a call that wrote did to the path `s`: it read the ACL and stored the bytes of another. What
it stored is valid and is what its bytes say, the entry asked for is the only one of its tag and id,
or there is none after a remove, and every other entry but the mask is as it was read. -/
structure Edited {ε σ : Type} (kernel : Kernel ε σ) (s : σ) (call : Call) (written : Written σ) :
    Prop where
  read : current_acl kernel s = .ok written.old
  stored : kernel.setxattr s written.blob = .ok written.state
  valid : Valid written.new
  requested : written.new.filter (fun e => e.is call.tag call.ident) = call.requested
  others : ∀ e, e.tag ≠ .MASK → e.is call.tag call.ident = false →
    (e ∈ written.new ↔ e ∈ written.old)
  decodes : unpack written.blob = (.ok written.new : Except (AclError ε) (List Entry))

theorem edit_eq (call : Call) (entries : List Entry) :
    call.edit entries = with_recomputed_mask (replaced call entries) := rfl

theorem edit_valid (h : WellFormed entries) (hident : call.ident < UNDEFINED_ID) :
    Valid ((call.edit entries).mergeSort entryLe) := by
  have hwellFormed := recomputed_wellFormed (replaced_wellFormed h hident)
  have hperm := (List.mergeSort_perm (call.edit entries) entryLe).symm
  exact ⟨hwellFormed.perm hperm, (recomputed_masked _).perm hperm,
    sorted_before hwellFormed.known hwellFormed.distinct⟩

theorem edit_requested (call : Call) (entries : List Entry) :
    ((call.edit entries).mergeSort entryLe).filter (fun e => e.is call.tag call.ident) =
      call.requested := by
  have hnamed : ∀ e : Entry, e.is call.tag call.ident = true → e.tag ≠ .MASK := by
    intro e he hmask
    have htag := (is_iff.mp he).1.symm.trans hmask
    cases call_tag_named call with
    | inl hcall => rw [hcall] at htag; cases htag
    | inr hcall => rw [hcall] at htag; cases htag
  have hgone : (entries.filter fun e => !e.is call.tag call.ident).filter
      (fun e => e.is call.tag call.ident) = [] := by
    rw [List.filter_filter, List.filter_eq_nil_iff]
    intro e _
    simp
  have hkept : call.requested.filter (fun e => e.is call.tag call.ident) = call.requested :=
    List.filter_eq_self.mpr fun e he => (requested_spec he).1
  have hunsorted : (call.edit entries).filter (fun e => e.is call.tag call.ident) =
      call.requested := by
    rw [edit_eq, filter_recomputed hnamed, replaced, List.filter_append, hgone, hkept]
    rfl
  have hperm := (List.mergeSort_perm (call.edit entries) entryLe).filter
    fun e => e.is call.tag call.ident
  rw [hunsorted] at hperm
  cases call with
  | add_ace kind ident rights deny => exact List.perm_singleton.mp hperm
  | remove_ace kind ident deny => exact List.perm_nil.mp hperm

theorem edit_others {e : Entry} (hmask : e.tag ≠ .MASK) (hother : e.is call.tag call.ident = false) :
    e ∈ (call.edit entries).mergeSort entryLe ↔ e ∈ entries := by
  have hnew : e ∉ call.requested := by
    intro he
    rw [(requested_spec he).1] at hother
    cases hother
  rw [List.mem_mergeSort, edit_eq, mem_recomputed hmask, replaced, List.mem_append, List.mem_filter]
  simp [hother, hnew]

end Edit

/-! ## Runs of edits -/

section Runs

variable {ε σ : Type} {kernel : Kernel ε σ} {s : σ} {call : Call}

/-- What the path's ACL is, as far as reading it succeeds: in the attribute, or as the mode bits. -/
structure Holds (kernel : Kernel ε σ) (s : σ) (entries : List Entry) : Prop where
  extended : ∀ blob, kernel.getxattr s = .ok blob → blob = header ++ entries.flatMap pack
  minimal : ∀ e, kernel.getxattr s = .error e → kernel.no_extended_acl e = true →
    ∀ mode, kernel.stat s = .ok mode → base_entries mode = entries

/-- A path whose extended ACL, if it has one, is well formed. -/
def Sound (kernel : Kernel ε σ) (s : σ) : Prop :=
  ∀ blob, kernel.getxattr s = .ok blob →
    ∃ entries, WellFormed entries ∧ blob = header ++ entries.flatMap pack

/-- A valid ACL that was stored is the path's ACL, one without named entries perhaps as mode bits. -/
def Stores (kernel : Kernel ε σ) : Prop :=
  ∀ s s' entries, Valid entries → kernel.setxattr s (header ++ entries.flatMap pack) = .ok s' →
    Holds kernel s' entries

theorem Holds.sound {entries : List Entry} (h : Holds kernel s entries) (hvalid : Valid entries) :
    Sound kernel s :=
  fun blob hblob => ⟨entries, hvalid.wellFormed, h.extended blob hblob⟩

theorem Holds.read {entries read : List Entry} (h : Holds kernel s entries) (hvalid : Valid entries)
    (hread : current_acl kernel s = .ok read) : read = entries := by
  unfold current_acl read_raw at hread
  cases hget : kernel.getxattr s with
  | ok blob =>
      simp only [hget, h.extended blob hget, hvalid.wellFormed.unpack, Except.ok.injEq] at hread
      exact hread.symm
  | error e =>
      by_cases hnone : kernel.no_extended_acl e = true
      · simp only [hget, if_pos hnone] at hread
        cases hstat : kernel.stat s with
        | error e => simp [hstat] at hread
        | ok mode =>
            simp only [hstat, Except.ok.injEq] at hread
            rw [← hread]
            exact h.minimal e hget hnone mode hstat
      · simp [hget, hnone] at hread

theorem Sound.read (h : Sound kernel s) :
    (∃ old, current_acl kernel s = .ok old ∧ WellFormed old) ∨
      ∃ text e, current_acl kernel s = .error (.native text e) := by
  unfold current_acl read_raw
  cases hget : kernel.getxattr s with
  | ok blob =>
      obtain ⟨entries, hwellFormed, rfl⟩ := h blob hget
      simp only [hwellFormed.unpack]
      exact Or.inl ⟨entries, rfl, hwellFormed⟩
  | error e =>
      by_cases hnone : kernel.no_extended_acl e = true
      · simp only [if_pos hnone]
        cases hstat : kernel.stat s with
        | ok mode => exact Or.inl ⟨_, rfl, base_entries_wellFormed mode⟩
        | error e => exact Or.inr ⟨_, e, rfl⟩
      · simp only [if_neg hnone]
        exact Or.inr ⟨_, e, rfl⟩

/-- A system call on the path `s` failed with `e`: no ACL was read, or none was stored. -/
def Fails (kernel : Kernel ε σ) (s : σ) (text : PyStr) (e : ε) : Prop :=
  current_acl kernel s = .error (.native text e) ∨
    ∃ old blob, current_acl kernel s = .ok old ∧ kernel.setxattr s blob = .error e

/-- A call writes what it was asked for, or fails in a system call. -/
theorem write_edit_spec (hstores : Stores kernel) (h : Sound kernel s)
    (hident : call.ident < UNDEFINED_ID) :
    (∃ written, write_edit kernel s call = .ok written ∧ Edited kernel s call written ∧
      Holds kernel written.state written.new) ∨
      ∃ text e, write_edit kernel s call = .error (.native text e) ∧ Fails kernel s text e := by
  unfold write_edit
  cases h.read with
  | inr hfailed =>
      obtain ⟨text, e, hfailed⟩ := hfailed
      rw [hfailed]
      exact Or.inr ⟨text, e, rfl, Or.inl hfailed⟩
  | inl hread =>
      obtain ⟨old, hread, hold⟩ := hread
      have hvalid := @edit_valid call old hold hident
      have hknown := (recomputed_wellFormed (replaced_wellFormed hold hident)).known
      rw [hread]
      simp only [serialize_ok hknown, edit_eq]
      cases hset : kernel.setxattr s
          (header ++ ((with_recomputed_mask (replaced call old)).mergeSort entryLe).flatMap pack) with
      | error e => exact Or.inr ⟨_, e, rfl, Or.inr ⟨old, _, hread, hset⟩⟩
      | ok state =>
          refine Or.inl ⟨_, rfl, ⟨hread, hset, hvalid, edit_requested call old, ?_, ?_⟩, ?_⟩
          · exact fun e hmask hother => edit_others hmask hother
          · exact hvalid.wellFormed.unpack
          · exact hstores s state _ hvalid hset

/-- What a call of a run on the path `s` may come to. -/
inductive Outcome (kernel : Kernel ε σ) (s : σ) (call : Call) :
    Except (AclError ε) (Option (Written σ)) → Prop
  | wrote {written : Written σ} : Edited kernel s call written →
      (∀ read, current_acl kernel written.state = .ok read → read = written.new) →
      Outcome kernel s call (.ok (some written))
  | refused : call.deny = true → Outcome kernel s call (.error .allow_only)
  | nothing : call.deny = true → Outcome kernel s call (.ok none)
  | failed {text : PyStr} {e : ε} : Fails kernel s text e →
      Outcome kernel s call (.error (.native text e))

theorem perform_spec (hstores : Stores kernel) (h : Sound kernel s)
    (hident : call.ident < UNDEFINED_ID) :
    Outcome kernel s call (perform kernel s call) ∧
      ∀ written, perform kernel s call = .ok (some written) → Sound kernel written.state := by
  by_cases hdeny : call.deny = true
  · rw [perform.eq_def, if_pos hdeny]
    cases call with
    | add_ace kind ident rights deny => exact ⟨.refused hdeny, by simp⟩
    | remove_ace kind ident deny => exact ⟨.nothing hdeny, by simp⟩
  · rw [perform.eq_def, if_neg hdeny]
    cases write_edit_spec hstores h hident with
    | inl hwrote =>
        obtain ⟨written, hwritten, hedited, hholds⟩ := hwrote
        rw [hwritten]
        refine ⟨.wrote hedited fun read hread => hholds.read hedited.valid hread, ?_⟩
        intro other hother
        cases hother
        exact hholds.sound hedited.valid
    | inr hfailed =>
        obtain ⟨text, e, hfailed, hfails⟩ := hfailed
        rw [hfailed]
        exact ⟨.failed hfails, by simp [Except.map]⟩

/-- Every call of every run that writes reads the path's ACL and writes a valid one with just its own
entry and the mask changed, and the next one reads what it wrote. -/
theorem acl_edits_stay_valid (hstores : Stores kernel) (hsound : Sound kernel s) {calls : List Call}
    (hidents : ∀ call ∈ calls, call.ident < UNDEFINED_ID) :
    ∀ step ∈ perform_all kernel s calls, Outcome kernel step.before step.call step.outcome := by
  induction calls generalizing s with
  | nil => simp [perform_all]
  | cons call calls ih =>
      obtain ⟨hident, hidents⟩ := List.forall_mem_cons.mp hidents
      obtain ⟨houtcome, hnext⟩ := perform_spec hstores hsound hident
      rw [perform_all]
      refine List.forall_mem_cons.mpr ⟨houtcome, ih ?_ hidents⟩
      split
      · rename_i written hwritten
        exact hnext written hwritten
      · exact hsound

/-- A path kept as its attribute's bytes, none of them at first, mode `0640`. -/
def plainFile : Kernel Unit (Option (List UInt8)) where
  getxattr s := s.elim (.error ()) .ok
  stat _ := .ok 0o640
  setxattr _ blob := .ok (some blob)
  no_extended_acl _ := true

theorem acl_edits_stay_valid_plain : Outcome plainFile none (.add_ace .USER 1000 (-3) false)
    (perform plainFile none (.add_ace .USER 1000 (-3) false)) := by
  have hstores : Stores plainFile := by
    intro s s' entries _ hset
    cases hset
    refine ⟨?_, ?_⟩
    · intro blob hblob
      cases hblob
      rfl
    · intro e he
      cases he
  have hsound : Sound plainFile none := fun blob hblob => by cases hblob
  have hidents : ∀ call ∈ [Call.add_ace .USER 1000 (-3) false], call.ident < UNDEFINED_ID := by
    simp [Call.ident, UNDEFINED_ID]
  exact acl_edits_stay_valid hstores hsound hidents
    ⟨none, _, perform plainFile none (.add_ace .USER 1000 (-3) false)⟩ List.mem_cons_self

end Runs

end PwshPy.Acl
