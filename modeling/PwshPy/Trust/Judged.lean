import PwshPy.Trust.Walk

/-! # What silence about a path means

Where neither judgement prints anything the path names an inode of root that the
others cannot write, or only through the names of a sticky directory, whatever they
did between the questions.
-/

namespace PwshPy.Trust

open Effects (Asking)
open Effects.Asking
open FileTree
open Relation (ReflTransGen)
open Shell (captured captured_append)

/-- The account a root run trusts. -/
def Root (u : Nat) : Prop := u = 0

/-- The other accounts go on. -/
abbrev Later : Volume → Volume → Prop := ReflTransGen (Moves Root)

/-- What a function of the runner ends with, while the other accounts are at work. -/
abbrev Ends (tools : Tools) {α : Type} (post : α → Volume → Prop) (x : Sh α) (t : Volume) : Prop :=
  EndsIn (Moves Root) (reads (answer tools)) post x t

/-! ## The listing read back -/

theorem trusted_uid_decimal {n : Nat} (h : pwshpy_trusted_uid (decimal n) = true) : Root n := by
  have hinfix : (0x20 :: (decimal n ++ [0x20])) <:+: (0x20 :: (PWSHPY_TRUSTED_UIDS ++ [0x20])) :=
    of_decide_eq_true h
  have hlength := hinfix.length_le
  have hshort : (decimal n).length ≤ 1 := by
    have hwidth : (0x20 :: (PWSHPY_TRUSTED_UIDS ++ [0x20])).length = 3 := by decide
    rw [hwidth] at hlength
    simp only [List.length_cons, List.length_append, List.length_nil] at hlength
    omega
  have hdigits : ∃ c, decimal n = [c] := by
    refine List.length_eq_one_iff.mp ?_
    have hpos : 0 < (decimal n).length := by
      rw [decimal, List.length_map]
      exact Nat.length_toDigits_pos
    omega
  obtain ⟨c, hc⟩ := hdigits
  rw [hc] at hinfix
  have hwhole := hinfix.eq_of_length rfl
  have hzero : c = 0x30 := (List.cons.inj (List.cons.inj hwhole).2).1
  refine decimal_injective (hc.trans ?_)
  rw [hzero]
  rfl

section Listing

variable (tools : Tools) (t : Volume) (i : Ino)

theorem mode_of_link (h : (t.node i).isLink = true) : (listing tools t i).mode = py "lrwxrwxrwx" := by
  obtain ⟨target, htarget⟩ := link_of_isLink h
  have hnode : (t.inode i).node = .link target := htarget
  simp only [listing, mode_text, hnode]

theorem mode_of_other (h : (t.node i).isLink = false) : ∃ kind,
    (listing tools t i).mode = kind :: (permissions (t.attrs i).mode ++ tools.mark i (t.attrs i)) := by
  cases hnode : (t.inode i).node with
  | link target =>
      rw [Volume.node, hnode] at h
      cases h
  | dir entries =>
      refine ⟨0x64, ?_⟩
      simp only [listing, mode_text, hnode]
      rfl
  | file data =>
      refine ⟨0x2d, ?_⟩
      simp only [listing, mode_text, hnode]
      rfl
  | special =>
      refine ⟨0x70, ?_⟩
      simp only [listing, mode_text, hnode]
      rfl

theorem letter_eq (b : Bool) {c : Nat} (hc : c ≠ 0x2d) : (some (letter b c) == some c) = b := by
  cases b with
  | false =>
      have hne : ¬(0x2d : Nat) = c := fun h => hc h.symm
      simpa [letter] using hne
  | true => simp [letter]

theorem other_writes_listing :
    other_writes (listing tools t i) = ((t.node i).isLink || (t.attrs i).otherWrite) := by
  cases h : (t.node i).isLink with
  | true =>
      rw [other_writes, mode_of_link tools t i h]
      rfl
  | false =>
      obtain ⟨kind, hmode⟩ := mode_of_other tools t i h
      rw [other_writes, hmode, Bool.false_or]
      exact letter_eq _ (by decide)

theorem group_writes_listing :
    group_writes (listing tools t i) = ((t.node i).isLink || (t.attrs i).groupWrite) := by
  cases h : (t.node i).isLink with
  | true =>
      rw [group_writes, mode_of_link tools t i h]
      rfl
  | false =>
      obtain ⟨kind, hmode⟩ := mode_of_other tools t i h
      rw [group_writes, hmode, Bool.false_or]
      exact letter_eq _ (by decide)

theorem is_sticky_listing :
    is_sticky (listing tools t i) = (!(t.node i).isLink && (t.attrs i).sticky) := by
  cases h : (t.node i).isLink with
  | true =>
      rw [is_sticky, mode_of_link tools t i h]
      rfl
  | false =>
      obtain ⟨kind, hmode⟩ := mode_of_other tools t i h
      rw [is_sticky, hmode, Bool.not_false, Bool.true_and]
      show (some (exec_letter _ ((t.attrs i).mode.testBit 9) 0x74 0x54) == some 0x74 ||
        some (exec_letter _ ((t.attrs i).mode.testBit 9) 0x74 0x54) == some 0x54) =
          (t.attrs i).mode.testBit 9
      cases (t.attrs i).mode.testBit 9 with
      | false => cases (t.attrs i).mode.testBit 0 <;> rfl
      | true => cases (t.attrs i).mode.testBit 0 <;> rfl

theorem mark_listing (h : (t.node i).isLink = false) :
    ((listing tools t i).mode)[10]? = (tools.mark i (t.attrs i)).head? := by
  obtain ⟨kind, hmode⟩ := mode_of_other tools t i h
  rw [hmode]
  cases tools.mark i (t.attrs i) with
  | nil => rfl
  | cons c rest => rfl

end Listing

/-! ## The judgements -/

/-- A text that says something. -/
theorem loud {text : PyStr} (h : 0x20 ∈ text) : captured text ≠ [] := by
  intro hnil
  have hall := List.rdropWhile_eq_nil_iff.mp hnil 0x20 h
  exact absurd hall (by decide)

section Judge

variable {tools : Tools} {path : PyStr} {t t₁ : Volume} {i : Ino} {post : PyStr → Volume → Prop}

theorem prints_loud {text : PyStr} (h : 0x20 ∈ text) (post : Volume → Prop) :
    Ends tools (fun text t' => captured text = [] → post t') (pure text) t :=
  endsIn_pure fun _ _ hnil => absurd hnil (loud h)

/-- Where no ACL is found there is none, or it shows as group write. -/
theorem has_acl_false (htools : tools.Shows) (hfixed : Fixed Root t path) (h₁ : Later t t₁)
    (hi : t₁.resolve false path = some i) :
    Ends tools (fun acl t₂ => Later t₁ t₂ ∧ (acl = false → Root (t₁.attrs i).uid →
        (t₁.node i).isLink = false → (t₁.attrs i).acl = true → (t₁.attrs i).groupWrite = true))
      (pwshpy_has_acl path (listing tools t₁ i)) t₁ := by
  unfold pwshpy_has_acl
  split
  · exact endsIn_pure fun t₂ h₂ => ⟨h₂, fun hfalse => absurd hfalse (by decide)⟩
  · rename_i hmark
    refine endsIn_reply (q := Query.acl_lines path) fun t₂ t₃ h₂ h₃ =>
      ⟨h₂.trans h₃, fun hnone howner hlink hset => ?_⟩
    obtain ⟨hkept, hattrs, -⟩ := hfixed t₁ t₂ i h₁ h₂ hi howner
    have hreply : answer tools t₂ (.acl_lines path) = tools.acl_lines i (t₂.attrs i) :=
      congrArg (Option.any fun j => tools.acl_lines j (t₂.attrs j)) hkept
    rw [hreply, hattrs] at hnone
    rw [mark_listing tools t₁ i hlink] at hmark
    rcases htools i (t₁.attrs i) hset with hplus | ⟨-, hlines⟩ | hgroup
    · rw [hmark] at hplus
      cases hplus
    · rw [hnone] at hlines
      cases hlines
    · exact hgroup
  · rename_i hplus hat
    refine endsIn_pure fun t₂ h₂ => ⟨h₂, fun _ howner hlink hset => ?_⟩
    rw [mark_listing tools t₁ i hlink] at hplus hat
    rcases htools i (t₁.attrs i) hset with hmark | ⟨hmark, -⟩ | hgroup
    · exact absurd hmark hplus
    · exact absurd hmark hat
    · exact hgroup

theorem leaf_silent (htools : tools.Shows) (hfixed : Fixed Root t path) :
    Ends tools (fun text t' => captured text = [] → ∃ i, t'.resolve false path = some i ∧
      Sealed Root t' i ∧ (t'.node i).isLink = false) (pwshpy_leaf_distrust path) t := by
  refine endsIn_question fun t₁ h₁ => ?_
  cases hi : t₁.resolve false path with
  | none =>
      have hreply : answer tools t₁ (.ls path) = none := congrArg (Option.map (listing tools t₁)) hi
      rw [hreply]
      exact prints_loud (List.mem_append_right path (by decide)) _
  | some i =>
      have hreply : answer tools t₁ (.ls path) = some (listing tools t₁ i) :=
        congrArg (Option.map (listing tools t₁)) hi
      rw [hreply]
      refine endsIn_bind ((has_acl_false htools hfixed h₁ hi).mono fun acl t₂ hacl => ?_)
      obtain ⟨h₂, hacl⟩ := hacl
      split_ifs with hfound hother hgroup hroot
      · exact prints_loud (List.mem_append_right path (by decide)) _
      · exact prints_loud (List.mem_append_right path (by decide)) _
      · exact prints_loud (List.mem_append_left _ (List.mem_append_right path (by decide))) _
      · exact prints_loud (List.mem_append_right _ (by decide)) _
      · rw [other_writes_listing, Bool.or_eq_true, not_or, Bool.not_eq_true, Bool.not_eq_true] at hother
        rw [group_writes_listing, Bool.or_eq_true, not_or, Bool.not_eq_true, Bool.not_eq_true] at hgroup
        rw [Bool.not_eq_true, Bool.not_eq_false'] at hroot
        have howner : Root (t₁.attrs i).uid := trusted_uid_decimal hroot
        refine endsIn_pure fun t₃ h₃ _ => ?_
        obtain ⟨hkept, hattrs, hlink⟩ := hfixed t₁ t₃ i h₁ (h₂.trans h₃) hi howner
        refine ⟨i, hkept, ⟨?_, ?_, ?_, ?_⟩, hlink.trans hgroup.1⟩
        · exact hattrs ▸ howner
        · rw [hattrs, ← Bool.not_eq_true]
          intro hset
          rw [hacl (by simpa using hfound) howner hgroup.1 hset] at hgroup
          cases hgroup.2
        · exact hattrs ▸ hgroup.2
        · exact hattrs ▸ hother.2

theorem ancestor_silent (htools : tools.Shows) (hfixed : Fixed Root t path) :
    Ends tools (fun text t' => captured text = [] → ∃ i, t'.resolve false path = some i ∧
      Guarded Root t' i) (pwshpy_ancestor_distrust path) t := by
  refine endsIn_question fun t₁ h₁ => ?_
  cases hi : t₁.resolve false path with
  | none =>
      have hreply : answer tools t₁ (.ls path) = none := congrArg (Option.map (listing tools t₁)) hi
      rw [hreply]
      exact prints_loud (List.mem_append_right path (by decide)) _
  | some i =>
      have hreply : answer tools t₁ (.ls path) = some (listing tools t₁ i) :=
        congrArg (Option.map (listing tools t₁)) hi
      rw [hreply]
      refine endsIn_bind ((has_acl_false htools hfixed h₁ hi).mono fun acl t₂ hacl => ?_)
      obtain ⟨h₂, hacl⟩ := hacl
      -- what both silent ends come to
      have hguarded : pwshpy_trusted_uid (listing tools t₁ i).uid = true → (t₁.node i).isLink = false →
          ((t₁.attrs i).groupWrite = true ∨ (t₁.attrs i).otherWrite = true ∨
            (t₁.attrs i).acl = true → (t₁.attrs i).sticky = true) → ∀ t₃, Later t₂ t₃ →
              ∃ i, t₃.resolve false path = some i ∧ Guarded Root t₃ i := by
        intro hroot hnot hsticky t₃ h₃
        have howner : Root (t₁.attrs i).uid := trusted_uid_decimal hroot
        obtain ⟨hkept, hattrs, hlink⟩ := hfixed t₁ t₃ i h₁ (h₂.trans h₃) hi howner
        exact ⟨i, hkept, hattrs ▸ howner, hattrs ▸ hsticky, hlink.trans hnot⟩
      split_ifs with hfound hroot hsticky hother hgroup
      · exact prints_loud (List.mem_append_right path (by decide)) _
      · exact prints_loud (List.mem_append_right _ (by decide)) _
      · rw [Bool.not_eq_true, Bool.not_eq_false'] at hroot
        rw [is_sticky_listing, Bool.and_eq_true, Bool.not_eq_true'] at hsticky
        exact endsIn_pure fun t₃ h₃ _ => hguarded hroot hsticky.1 (fun _ => hsticky.2) t₃ h₃
      · exact prints_loud (List.mem_append_right path (by decide)) _
      · exact prints_loud (List.mem_append_right _ (by decide)) _
      · rw [Bool.not_eq_true, Bool.not_eq_false'] at hroot
        rw [other_writes_listing, Bool.or_eq_true, not_or, Bool.not_eq_true, Bool.not_eq_true] at hother
        rw [group_writes_listing, Bool.or_eq_true, not_or, Bool.not_eq_true, Bool.not_eq_true] at hgroup
        have hclosed : ¬((t₁.attrs i).groupWrite = true ∨ (t₁.attrs i).otherWrite = true ∨
            (t₁.attrs i).acl = true) := by
          intro hopen
          rcases hopen with hopen | hopen | hopen
          · cases hgroup.2.symm.trans hopen
          · cases hother.2.symm.trans hopen
          · have howner : Root (t₁.attrs i).uid := trusted_uid_decimal hroot
            have hset := hacl (by simpa using hfound) howner hgroup.1 hopen
            cases hgroup.2.symm.trans hset
        exact endsIn_pure fun t₃ h₃ _ => hguarded hroot hgroup.1 (fun h => absurd h hclosed) t₃ h₃

end Judge

end PwshPy.Trust
