import PwshPy.Unpack.Extraction

/-! # Every step of a runner

Each step keeps the invariant and leaves a complete tree as it is, provided the
clean switch finds nothing to remove.
-/

namespace PwshPy.Unpack

open Packing (Bytes RunnerFormat)
open Storage (Directory)
open Effects.Interleaving (Reaches)

variable {host : Host} {pack : Pack} {ι : Type} [DecidableEq ι] {c : Config ι} {i : ι} {p : Place}
  {s : Cache ι}

/-- The step keeps the invariant, and a complete tree. -/
def Safe (host : Host) (pack : Pack) (c : Config ι) (i : ι) (p : Place) (s : Cache ι) : Prop :=
  Inv host pack (c.set i p s) ∧ Kept host pack c.shared.tree s.tree

theorem Safe.of_tree_eq (h : Inv host pack (c.set i p s)) (htree : s.tree = c.shared.tree) :
    Safe host pack c i p s := ⟨h, .of_eq htree⟩

theorem extract_step_safe (hpacked : Packed host pack) (hcarried : Carried host pack)
    (h : Inv host pack c) {e : Extract} (hplace : c.place i = .extract e)
    (hstep : extract_step host pack c.shared e = some (p, s)) : Safe host pack c i p s := by
  have hleave : Safe host pack c i .leaving c.shared :=
    .of_tree_eq (h.leave_step (by rw [hplace]; rfl)) rfl
  cases e with
  | remove =>
      simp only [extract_step] at hstep
      split at hstep
      · rename_i hempty
        cases hstep
        exact .of_tree_eq (h.removed_step hpacked hplace hempty) rfl
      · cases hstep
  | mkdir =>
      cases hstep
      exact .of_tree_eq (h.mkdir_step hplace) rfl
  | decode =>
      simp only [extract_step] at hstep
      split at hstep
      · rename_i hready
        cases hstep
        have hnone : ∀ n, c.shared.tree.entry n = none := h.knows_at hplace
        exact ⟨h.decode_step hpacked hcarried hplace hready.1 hready.2,
          .of_incomplete (not_complete_of_empty hpacked hnone)⟩
      · cases hstep
        exact hleave
  | fill ino =>
      simp only [extract_step] at hstep
      split at hstep
      · rename_i hwhole
        cases hstep
        exact .of_tree_eq (h.filled_step hplace hwhole) rfl
      · cases hstep
  | check =>
      obtain ⟨rfl, hinv⟩ := h.check_step hpacked hcarried hplace hstep
      exact .of_tree_eq hinv rfl
  | reject =>
      cases hstep
      have honly : OnlyArchive pack c.shared.tree := h.knows_at hplace
      exact ⟨h.reject_step hpacked hcarried hplace,
        .of_incomplete (not_complete_of_onlyArchive hpacked hcarried honly)⟩
  | opening =>
      obtain ⟨rfl, hinv⟩ := h.opening_step hpacked hcarried hplace hstep
      exact .of_tree_eq hinv rfl
  | unpack done rest =>
      cases rest with
      | nil =>
          cases hstep
          exact .of_tree_eq (h.unpacked_step hplace) rfl
      | cons m rest =>
          simp only [extract_step] at hstep
          split at hstep
          · rename_i hready
            cases hstep
            obtain ⟨hmembers, -, hnone⟩ :
                Shape host pack c.shared.tree (.unpack done (m :: rest)) := h.knows_at hplace
            have hm : m ∈ pack.members := by rw [← hmembers]; simp
            have hbad : ¬ Good host c.shared.tree m := not_good_of_entry (hnone m (by simp))
            exact ⟨h.create_step hpacked hplace hready.1,
              .of_incomplete (not_complete_of_not_good hm hbad)⟩
          · cases hstep
            exact hleave
  | write done m ino rest =>
      simp only [extract_step] at hstep
      split at hstep
      · rename_i hwhole
        cases hstep
        exact .of_tree_eq (h.written_step hplace hwhole) rfl
      · cases hstep
  | drop =>
      cases hstep
      exact h.drop_step hcarried hplace

theorem acquire_safe (h : Inv host pack c) {attempt : Nat}
    (hstep : proceed host pack i c.shared (.acquire attempt) = some (p, s)) :
    Safe host pack c i p s := by
  simp only [proceed] at hstep
  split at hstep
  · cases hstep
    exact .of_tree_eq (h.unchecked rfl rfl trivial (by simp [Place.owner]) (by simp)) rfl
  · split at hstep
    · rename_i hopen
      cases hstep
      exact .of_tree_eq (h.taken_step hopen) rfl
    · split at hstep
      · cases hstep
        exact .of_tree_eq (h.entering rfl rfl (.of_noneOpen noneOpen_entering (List.suffix_refl _))
          (by simp [Place.owner]) (by simp)) rfl
      · cases hstep
        exact .of_tree_eq (h.unchecked rfl rfl trivial (by simp [Place.owner]) (by simp)) rfl

theorem proceed_safe (hpacked : Packed host pack) (hcarried : Carried host pack)
    (h : Inv host pack c) (hclean : c.place i = .clean → c.shared.present = false)
    (hstep : proceed host pack i c.shared (c.place i) = some (p, s)) : Safe host pack c i p s := by
  have hentering : OnItsWay pack c.shared.tree .entering :=
    .of_noneOpen noneOpen_entering (List.suffix_refl _)
  generalize hplace : c.place i = place at hstep hclean
  cases place with
  | clean =>
      simp only [proceed, hclean rfl] at hstep
      cases hstep
      exact .of_tree_eq (h.entering rfl rfl hentering (by simp [Place.owner]) (by simp)) rfl
  | cleaning => exact absurd (h.knows_at hplace) id
  | warm v =>
      cases hstep
      exact .of_tree_eq (h.warm_step hcarried hplace) rfl
  | acquire attempt => exact acquire_safe h hstep
  | taken =>
      cases hstep
      exact .of_tree_eq (h.entering rfl rfl ⟨hentering, .of_noneOpen noneOpen_entering⟩
        (fun _ _ => by rw [hplace]; rfl) (by simp)) rfl
  | held v =>
      cases hstep
      exact .of_tree_eq (h.held_step hpacked hcarried hplace) rfl
  | extract e => exact extract_step_safe hpacked hcarried h hplace hstep
  | recheck v =>
      cases hstep
      exact .of_tree_eq (h.recheck_step hpacked hcarried hplace) rfl
  | release verified =>
      simp only [proceed] at hstep
      split at hstep
      · cases hstep
        exact .of_tree_eq (h.release_step rfl hplace (.inl rfl)) rfl
      · cases hstep
        exact .of_tree_eq (h.release_step tree_give_up hplace (.inr rfl)) tree_give_up
  | released verified =>
      cases hstep
      obtain ⟨rfl, hcomplete⟩ : verified = true ∧ Complete host pack c.shared.tree := h.knows_at hplace
      exact .of_tree_eq (h.unchecked rfl rfl hcomplete (by simp [after_release, Place.owner])
        (by simp [after_release])) rfl
  | waiting attempt v =>
      cases hstep
      exact .of_tree_eq (h.waiting_step hcarried hplace) rfl
  | sleeping attempt =>
      cases hstep
      exact .of_tree_eq (h.unchecked rfl rfl trivial (by simp [Place.owner]) (by simp)) rfl
  | verified =>
      cases hstep
      have hcomplete : Complete host pack c.shared.tree := h.knows_at hplace
      exact .of_tree_eq (h.unchecked rfl rfl hcomplete (by simp [Place.owner]) (by simp)) rfl
  | leaving =>
      cases hstep
      exact .of_tree_eq (h.leaving_step hplace) tree_give_up
  | running => cases hstep
  | mismatch => cases hstep
  | ended => cases hstep

theorem unlink_safe (h : Inv host pack c) {name : PyStr} (hremoving : removing (c.place i) = true) :
    Safe host pack c i (c.place i) (c.shared.unlink name) := by
  generalize hplace : c.place i = place at hremoving ⊢
  unfold removing at hremoving
  split at hremoving
  · exact absurd (h.knows_at hplace) id
  · have hincomplete : ¬ Complete host pack c.shared.tree := h.knows_at hplace
    exact ⟨h.unlink_step hplace name, .of_incomplete hincomplete⟩
  · cases hremoving

theorem bytes_safe (hpacked : Packed host pack) (hcarried : Carried host pack)
    (h : Inv host pack c) {ino : Nat} {whole : Bytes} {n : Nat}
    (hwriting : writing pack (c.place i) = some (ino, whole)) :
    Safe host pack c i (c.place i) (c.shared.append ino (more whole c.shared ino n)) := by
  generalize hplace : c.place i = place at hwriting ⊢
  unfold writing at hwriting
  split at hwriting
  · cases hwriting
    obtain ⟨honly, -⟩ : Shape host pack c.shared.tree (.fill ino) := h.knows_at hplace
    exact ⟨h.fill_bytes_step hpacked hcarried hplace n,
      .of_incomplete (not_complete_of_onlyArchive hpacked hcarried honly)⟩
  · cases hwriting
    exact h.write_bytes_step hpacked hplace n
  · cases hwriting

/-- Every step of every runner is safe. -/
theorem next_safe (hpacked : Packed host pack) (hcarried : Carried host pack)
    (h : Inv host pack c) (hclean : c.place i = .clean → c.shared.present = false) {a : Choice}
    (hstep : next host pack i (c.place i) c.shared a = some (p, s)) : Safe host pack c i p s := by
  cases a with
  | go => exact proceed_safe hpacked hcarried h hclean hstep
  | unlink name =>
      simp only [next] at hstep
      split at hstep
      · rename_i hremoving
        cases hstep
        exact unlink_safe h ((Bool.and_eq_true _ _).mp hremoving).1
      · cases hstep
  | bytes n =>
      simp only [next] at hstep
      split at hstep
      · rename_i hwriting
        cases hstep
        exact bytes_safe hpacked hcarried h hwriting
      · cases hstep
  | leave =>
      simp only [next] at hstep
      split at hstep
      · rename_i htrapped
        cases hstep
        exact .of_tree_eq (h.leave_step htrapped) rfl
      · cases hstep
  | die =>
      cases hstep
      exact .of_tree_eq h.die_step tree_drop_handle

end PwshPy.Unpack
