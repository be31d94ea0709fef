import PwshPy.Unpack.Steps

/-! # Cold starts

Runners started without the clean switch, any number of them, on a cache
directory in any state.
-/

namespace PwshPy.Unpack

open Packing (Bytes RunnerFormat)
open Effects.Interleaving (Reaches step step_spec run)
open Effects.Interleaving.Config (place_set_self forall_place_set)

variable {host : Host} {pack : Pack}

/-- Every runner at its start, given the clean switch or not. -/
theorem inv_start {ι : Type} (clean : ι → Bool) {c : Config ι}
    (hstart : ∀ i, c.place i = start (clean i)) : Inv host pack c := by
  have hplace : ∀ i, c.place i = .clean ∨ c.place i = .warm .entering := by
    intro i
    rw [hstart i]
    cases clean i
    · exact .inr rfl
    · exact .inl rfl
  have hcheck : ∀ i v, (c.place i).check = some v → v = .entering := by
    intro i v hv
    rcases hplace i with hi | hi <;> rw [hi] at hv <;> cases hv
    rfl
  refine ⟨?_, fun _ => ⟨?_, ?_⟩, ?_, ?_⟩
  · intro i
    rcases hplace i with hi | hi <;> rw [hi]
    · trivial
    · exact .of_noneOpen noneOpen_entering (List.suffix_refl _)
  · intro i howner
    rcases hplace i with hi | hi <;> rw [hi] at howner <;> cases howner
  · intro i b
    rcases hplace i with hi | hi <;> rw [hi] <;> simp
  · by_cases hcomplete : Complete host pack c.shared.tree
    · exact .inl hcomplete
    · simp only [Complete, not_forall] at hcomplete
      obtain ⟨m, hm, hbad⟩ := hcomplete
      refine .inr ⟨m, hm, hbad, ?_, .inr ?_⟩
      · intro i v hv
        rw [hcheck i v hv]
        exact .of_noneOpen noneOpen_entering hm
      · intro i
        rcases hplace i with hi | hi <;> rw [hi] <;> rfl
  · intro i j m ino rest n hreading
    cases hcheck i _ hreading

/-! ## No way back to the clean switch -/

section NoClean

variable {ι : Type} {c s : Cache ι} {i : ι} {place p : Place}

theorem verify_to_ne_clean {v : Verify} {passed failed : Place} {onTo : Verify → Place}
    (hpassed : passed ≠ .clean) (hfailed : failed ≠ .clean) (honTo : ∀ v, onTo v ≠ .clean) :
    verify_to host pack c v passed failed onTo ≠ .clean := by
  unfold verify_to
  split
  · exact hpassed
  · exact hfailed
  · exact honTo _

theorem extract_step_ne_clean {e : Extract} (h : extract_step host pack c e = some (p, s)) :
    p ≠ .clean := by
  cases e with
  | unpack done rest =>
      cases rest <;> simp only [extract_step] at h <;> (try split at h) <;> cases h <;> simp
  | _ =>
      simp only [extract_step] at h
      (repeat' split at h) <;> cases h <;> simp

variable [DecidableEq ι]

theorem proceed_ne_clean (h : proceed host pack i c place = some (p, s)) : p ≠ .clean := by
  cases place with
  | extract e => exact extract_step_ne_clean h
  | warm v => cases h; exact verify_to_ne_clean (by simp) (by simp) (by simp)
  | held v => cases h; exact verify_to_ne_clean (by simp) (by simp) (by simp)
  | recheck v => cases h; exact verify_to_ne_clean (by simp) (by simp) (by simp)
  | waiting _ v => cases h; exact verify_to_ne_clean (by simp) (by simp) (by simp)
  | released verified => cases h; cases verified <;> simp [after_release]
  | release verified =>
      simp only [proceed] at h
      split at h
      · cases h
        simp
      · cases h
        cases verified <;> simp [after_release]
  | _ =>
      simp only [proceed] at h
      (repeat' split at h) <;> cases h <;> simp

theorem next_ne_clean {a : Choice} (hplace : place ≠ .clean)
    (h : next host pack i place c a = some (p, s)) : p ≠ .clean := by
  cases a with
  | go => exact proceed_ne_clean h
  | die =>
      cases h
      simp
  | _ =>
      simp only [next] at h
      split at h
      · cases h
        first | exact hplace | simp
      · cases h

end NoClean

/-! ## Runs of cold starts -/

/-- What cold starts promise each other. -/
structure NoHarm (host : Host) (pack : Pack) {ι : Type} [DecidableEq ι] (c : Config ι) : Prop where
  one_extracts : ∀ i j, extracting (c.place i) = true → extracting (c.place j) = true → i = j
  complete_kept : ∀ i a c', step (next host pack) c i a = some c' →
    Kept host pack c.shared.tree c'.shared.tree
  running_complete : ∀ i, c.place i = .running → Complete host pack c.shared.tree

/-- The promise holds wherever runs of cold starts lead, from a cache in any state. -/
def ColdStartsDoNoHarm (host : Host) (pack : Pack) : Prop :=
  ∀ (ι : Type) [DecidableEq ι] (first c : Config ι), (∀ i, first.place i = start false) →
    Reaches (next host pack) (fun _ _ => True) first c → NoHarm host pack c

theorem cold_inv (hpacked : Packed host pack) (hcarried : Carried host pack) {ι : Type}
    [DecidableEq ι] {first c : Config ι} (hfirst : ∀ i, first.place i = start false)
    (hreaches : Reaches (next host pack) (fun _ _ => True) first c) :
    Inv host pack c ∧ ∀ i, c.place i ≠ .clean := by
  refine hreaches.invariant (I := fun c => Inv host pack c ∧ ∀ i, c.place i ≠ .clean) ⟨?_, ?_⟩ ?_
  · exact inv_start (fun _ => false) hfirst
  · intro i
    rw [hfirst i]
    simp [start]
  · rintro c i a p s ⟨hinv, hclean⟩ - hnext
    exact ⟨(next_safe hpacked hcarried hinv (fun hi => absurd hi (hclean i)) hnext).1,
      forall_place_set (P := fun _ (p : Place) => p ≠ .clean) (next_ne_clean (hclean i) hnext)
        fun j _ => hclean j⟩

namespace Example

def plain : Pack where
  format := .sh
  members := [⟨py "__pwshpy_pack_main__.py", []⟩, ⟨py "a.py", []⟩]
  payload := [1]
  payload_sha256 := [1]

/-- The first file is one the user asked to include. -/
def archiveNamed : Pack where
  format := .sh
  members := [⟨py ".payload.tar", []⟩, ⟨py "__pwshpy_pack_main__.py", []⟩, ⟨py "a.py", []⟩]
  payload := [1]
  payload_sha256 := [1]

def hostOf (pack : Pack) : Host where
  sha256 b := b.map UInt8.toNat
  unarchived _ := pack.members
  cache := py "/c"
  escapes := true
  posix := true
  naming path := path.drop 3

theorem hostOf_packed {pack : Pack} (hne : pack.members ≠ [])
    (hnodup : (pack.members.map Member.name).Nodup) : Packed (hostOf pack) pack where
  ne_nil := hne
  names_nodup := hnodup
  unarchived _ _ := rfl
  whole m _ b _ h := by
    have hinjective : Function.Injective (List.map UInt8.toNat) :=
      List.map_injective_iff.mpr fun _ _ h => UInt8.toNat_inj.mp h
    exact hinjective h

theorem plain_packed : Packed (hostOf plain) plain := hostOf_packed (by decide) (by decide)

theorem plain_carried : Carried (hostOf plain) plain where
  archive := by decide
  plain _ _ := by decide
  found h := by cases h

def noCache : Cache Unit where
  present := false
  tree := ⟨[], fun _ => [], 0, by simp⟩
  lock := .free
  absent _ := rfl

/-- One runner, from no cache to the moment the archive is removed. -/
def toDrop : List (Unit × Choice) :=
  [.go, .go, .go, .go, .go, .go, .go, .bytes 1, .go, .go, .go, .go, .go, .go, .go, .go, .go, .go].map
    fun a => ((), a)

/-- What is seen there: a complete tree, and the packed file going with the archive. -/
def seen (c : Config Unit) : Bool × Option Nat × Option (Option Nat) :=
  (Complete (hostOf archiveNamed) archiveNamed c.shared.tree, c.shared.tree.entry (py ".payload.tar"),
    (step (next (hostOf archiveNamed) archiveNamed) c () .go).map
      fun c' => c'.shared.tree.entry (py ".payload.tar"))

end Example

end PwshPy.Unpack
