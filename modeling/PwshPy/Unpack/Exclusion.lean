import PwshPy.Unpack.Protocol

/-! # What holds in every run

As long as the clean switch removes nothing, the tree is complete or stuck: some
member is bad and stays bad for every check on its way, until the one extraction
that can be under way writes its last member. That is the invariant here, kept
by every step of every runner.
-/

namespace PwshPy.Unpack

open Packing (Bytes RunnerFormat)
open Storage (Directory)
open Effects.Interleaving (Reaches)
open Effects.Interleaving.Config (shared_set place_set_self place_set_of_ne forall_place_set)

variable {host : Host} {pack : Pack}

/-! ## Members and their checks -/

theorem target_eq (hcarried : Carried host pack) {m : Member} (hm : m ∈ pack.members) :
    target host pack m.name = m.name := by
  unfold target
  cases hformat : pack.format with
  | sh => rfl
  | ps1 => exact hcarried.found hformat m hm

theorem digest_eq (hcarried : Carried host pack) {m : Member} (hm : m ∈ pack.members) (b : Bytes) :
    digest_of host pack m.name b = host.sha256 b := by
  unfold digest_of
  cases hformat : pack.format with
  | ps1 => rfl
  | sh =>
      show host.sha256_of (host.path m.name) b = host.sha256 b
      unfold Host.sha256_of
      cases hescapes : host.escapes with
      | false => rfl
      | true =>
          rw [hcarried.plain hformat hescapes m hm]
          rfl

/-- The path of the archive is free of escaped characters, as the paths of the members are. -/
theorem archive_digest_eq (hpacked : Packed host pack) (hcarried : Carried host pack)
    (hformat : pack.format = .sh) (b : Bytes) :
    host.sha256_of (host.path (archive_name .sh)) b = host.sha256 b := by
  unfold Host.sha256_of
  cases hescapes : host.escapes with
  | false => rfl
  | true =>
      obtain ⟨m, hm⟩ := List.exists_mem_of_ne_nil _ hpacked.ne_nil
      have hcache := hcarried.plain hformat hescapes m hm
      simp only [Host.path, List.any_append, Bool.or_eq_false_iff] at hcache
      have harchive : (0x2f :: archive_name .sh).any isEscaped = false := by decide
      simp only [Host.path, List.any_append, hcache.1, harchive]
      rfl

section Tree

variable {tree : Directory PyStr UInt8} {m : Member}

theorem good_of_file (h : tree.file m.name = some m.body) : Good host tree m := by
  unfold Good
  rw [h]
  rfl

theorem not_good_of_entry (h : tree.entry m.name = none) : ¬ Good host tree m := by
  simp [Good, Directory.file, h]

theorem good_iff {ino : Nat} (h : tree.entry m.name = some ino) :
    Good host tree m ↔ host.sha256 (tree.body ino) = recorded host m := by
  simp [Good, Directory.file, h]

theorem good_congr {tree' : Directory PyStr UInt8} (h : tree'.file m.name = tree.file m.name) :
    Good host tree' m ↔ Good host tree m := by
  unfold Good
  rw [h]

/-- A good member whose file is on its way to the member's body has all of it. -/
theorem body_eq_of_good (hpacked : Packed host pack) (hm : m ∈ pack.members) {ino : Nat}
    (hentry : tree.entry m.name = some ino) (hprefixed : tree.body ino <+: m.body)
    (hgood : Good host tree m) : tree.body ino = m.body :=
  hpacked.whole m hm _ hprefixed ((good_iff hentry).mp hgood)

end Tree

/-! ## Places -/

/-- The check a place is in. -/
def Place.check : Place → Option Verify
  | .warm v => some v
  | .held v => some v
  | .recheck v => some v
  | .waiting _ v => some v
  | _ => none

/-- The members a check has still to pass. -/
def Verify.pending (pack : Pack) : Verify → List Member
  | .entering => pack.members
  | .testing rest => rest
  | .opening m rest => m :: rest
  | .reading m _ rest => m :: rest

/-- The places of a runner that took the lock and has not released it. -/
def Place.owner : Place → Bool
  | .taken => true
  | .held _ => true
  | .extract _ => true
  | .recheck _ => true
  | .release _ => true
  | .leaving => true
  | _ => false

/-- The places of an extraction behind its removal. -/
def Place.rebuilding : Place → Bool
  | .extract .remove => false
  | .extract _ => true
  | _ => false

/-- The name a place writes under, and the file it writes. -/
def Place.writes (pack : Pack) : Place → Option (PyStr × Nat)
  | .extract (.fill ino) => some (archive_name pack.format, ino)
  | .extract (.write _ m ino _) => some (m.name, ino)
  | _ => none

/-- A check goes through the members in order, and reads files that were made. -/
structure OnItsWay (pack : Pack) (tree : Directory PyStr UInt8) (v : Verify) : Prop where
  pending : v.pending pack <:+ pack.members
  made : ∀ m ino rest, v = .reading m ino rest → ino < tree.fresh

/-- The file being read is the one its name leads to. -/
def Current (tree : Directory PyStr UInt8) (v : Verify) : Prop :=
  ∀ m ino rest, v = .reading m ino rest → tree.entry m.name = some ino

/-- The archive is the only file. -/
def OnlyArchive (pack : Pack) (tree : Directory PyStr UInt8) : Prop :=
  ∀ n, tree.entry n ≠ none → n = archive_name pack.format

/-- The tree at each place of an extraction. -/
def Shape (host : Host) (pack : Pack) (tree : Directory PyStr UInt8) : Extract → Prop
  | .remove => ¬ Complete host pack tree
  | .mkdir => ∀ n, tree.entry n = none
  | .decode => ∀ n, tree.entry n = none
  | .fill ino => OnlyArchive pack tree ∧ tree.entry (archive_name pack.format) = some ino ∧
      tree.body ino <+: pack.payload ∧ payload_usable host pack = true
  | .check => OnlyArchive pack tree ∧ tree.file (archive_name pack.format) = some pack.payload ∧
      payload_usable host pack = true
  | .reject => OnlyArchive pack tree
  | .opening => OnlyArchive pack tree ∧ tree.file (archive_name pack.format) = some pack.payload ∧
      host.sha256 pack.payload = pack.payload_sha256
  | .unpack done rest => done ++ rest = pack.members ∧
      (∀ m ∈ done, tree.file m.name = some m.body) ∧ ∀ m ∈ rest, tree.entry m.name = none
  | .write done m ino rest => done ++ m :: rest = pack.members ∧
      (∀ m ∈ done, tree.file m.name = some m.body) ∧ (∀ m ∈ rest, tree.entry m.name = none) ∧
      tree.entry m.name = some ino ∧ (∀ n, tree.entry n = some ino → n = m.name) ∧
      tree.body ino <+: m.body
  | .drop => Complete host pack tree

/-- What each place knows of the tree. -/
def Knows (host : Host) (pack : Pack) (tree : Directory PyStr UInt8) : Place → Prop
  | .cleaning => False
  | .warm v => OnItsWay pack tree v
  | .held v => OnItsWay pack tree v ∧ Current tree v
  | .extract e => Shape host pack tree e
  | .recheck v => OnItsWay pack tree v ∧ Current tree v ∧ Complete host pack tree
  | .release verified => verified = true ∧ Complete host pack tree
  | .released verified => verified = true ∧ Complete host pack tree
  | .waiting _ v => OnItsWay pack tree v
  | .verified => Complete host pack tree
  | .running => Complete host pack tree
  | .mismatch => False
  | _ => True

/-- A check that has the member still before it, and will not pass it with the file it reads. -/
structure Misses (host : Host) (pack : Pack) (tree : Directory PyStr UInt8) (m : Member)
    (v : Verify) : Prop where
  pending : m ∈ v.pending pack
  reads : ∀ ino rest, v = .reading m ino rest → host.sha256 (tree.body ino) ≠ recorded host m

def Waits (host : Host) (pack : Pack) (tree : Directory PyStr UInt8) (m : Member) (p : Place) : Prop :=
  ∀ v, p.check = some v → Misses host pack tree m v

variable {ι : Type}

/-- A bad member that every check still has before it. Once an extraction is behind its
removal, that is the last one. -/
structure Stuck (host : Host) (pack : Pack) (c : Config ι) (m : Member) : Prop where
  mem : m ∈ pack.members
  bad : ¬ Good host c.shared.tree m
  waits : ∀ i, Waits host pack c.shared.tree m (c.place i)
  last : pack.members.getLast? = some m ∨ ∀ i, (c.place i).rebuilding = false

/-- The owners own the lock, and nobody is about to remove a lock they gave up. -/
structure Calm (c : Config ι) : Prop where
  owners : ∀ i, (c.place i).owner = true → c.shared.lock = .held i
  released : ∀ i b, c.place i ≠ .released b

/-- While the tree is incomplete or an extraction is under way, the lock excludes. -/
def Busy (host : Host) (pack : Pack) (c : Config ι) : Prop :=
  ¬ Complete host pack c.shared.tree ∨ ∃ i, extracting (c.place i) = true

structure Inv (host : Host) (pack : Pack) (c : Config ι) : Prop where
  knows : ∀ i, Knows host pack c.shared.tree (c.place i)
  calm : Busy host pack c → Calm c
  stuck : Complete host pack c.shared.tree ∨ ∃ m, Stuck host pack c m
  /-- a file being read while it is written is read under the name it is written to -/
  readers : ∀ i j m ino rest n, (c.place i).check = some (.reading m ino rest) →
    (c.place j).writes pack = some (n, ino) → m.name = n

/-! ## One operation of a check -/

section Checks

variable {c : Cache ι} {v v' : Verify}

theorem not_complete_of_not_good {tree : Directory PyStr UInt8} {m : Member}
    (hm : m ∈ pack.members) (hbad : ¬ Good host tree m) : ¬ Complete host pack tree :=
  fun hcomplete => hbad (hcomplete m hm)

theorem not_complete_of_empty (hpacked : Packed host pack) {tree : Directory PyStr UInt8}
    (h : ∀ n, tree.entry n = none) : ¬ Complete host pack tree := by
  obtain ⟨m, hm⟩ := List.exists_mem_of_ne_nil _ hpacked.ne_nil
  exact not_complete_of_not_good hm (not_good_of_entry (h m.name))

/-- The check has no file open. -/
def NoneOpen (v : Verify) : Prop := ∀ m ino rest, v ≠ .reading m ino rest

theorem OnItsWay.of_noneOpen {tree : Directory PyStr UInt8} (hopen : NoneOpen v)
    (hpending : v.pending pack <:+ pack.members) : OnItsWay pack tree v :=
  ⟨hpending, fun m ino rest h => absurd h (hopen m ino rest)⟩

theorem Current.of_noneOpen {tree : Directory PyStr UInt8} (hopen : NoneOpen v) : Current tree v :=
  fun m ino rest h => absurd h (hopen m ino rest)

theorem Misses.of_noneOpen {tree : Directory PyStr UInt8} {m : Member} (hopen : NoneOpen v)
    (hpending : m ∈ v.pending pack) : Misses host pack tree m v :=
  ⟨hpending, fun ino rest h => absurd h (hopen m ino rest)⟩

theorem noneOpen_entering : NoneOpen .entering := fun _ _ _ h => by cases h

theorem noneOpen_testing (rest : List Member) : NoneOpen (.testing rest) := fun _ _ _ h => by cases h

theorem noneOpen_opening (m : Member) (rest : List Member) : NoneOpen (.opening m rest) :=
  fun _ _ _ h => by cases h

theorem verify_step_passed (h : verify_step host pack c v = .passed) : v.pending pack = [] := by
  unfold verify_step at h
  split at h
  · split at h <;> cases h
  · rfl
  · split at h <;> cases h
  · split at h <;> cases h
  · split at h <;> cases h

/-- A check that goes on is on its way, at a current file, and misses what it missed. -/
theorem verify_step_onTo (hcarried : Carried host pack) (hway : OnItsWay pack c.tree v)
    (h : verify_step host pack c v = .onTo v') :
    OnItsWay pack c.tree v' ∧ Current c.tree v' ∧
      ∀ m, ¬ Good host c.tree m → Misses host pack c.tree m v → Misses host pack c.tree m v' := by
  unfold verify_step at h
  split at h
  · split at h
    · cases h
    · cases h
      have hopen := noneOpen_testing pack.members
      exact ⟨.of_noneOpen hopen (List.suffix_refl _), .of_noneOpen hopen,
        fun m _ hmisses => .of_noneOpen hopen hmisses.pending⟩
  · cases h
  · rename_i m₀ rest
    split at h
    · cases h
    · cases h
      have hopen := noneOpen_opening m₀ rest
      exact ⟨.of_noneOpen hopen hway.pending, .of_noneOpen hopen,
        fun m _ hmisses => .of_noneOpen hopen hmisses.pending⟩
  · rename_i m₀ rest
    have hmem : m₀ ∈ pack.members := hway.pending.subset (List.mem_cons_self)
    rw [target_eq hcarried hmem] at h
    split at h
    · cases h
    · rename_i ino hentry
      cases h
      refine ⟨⟨hway.pending, ?_⟩, ?_, ?_⟩
      · intro m ino' rest' h
        cases h
        exact Directory.entry_lt hentry
      · intro m ino' rest' h
        cases h
        exact hentry
      · intro m hbad hmisses
        refine ⟨hmisses.pending, ?_⟩
        intro ino' rest' h
        cases h
        exact fun hsha => hbad ((good_iff hentry).mpr hsha)
  · rename_i m₀ ino rest
    have hmem : m₀ ∈ pack.members := hway.pending.subset (List.mem_cons_self)
    rw [digest_eq hcarried hmem] at h
    split at h
    · rename_i hsha
      cases h
      have hopen := noneOpen_testing rest
      refine ⟨.of_noneOpen hopen ((List.suffix_cons m₀ rest).trans hway.pending),
        .of_noneOpen hopen, ?_⟩
      intro m _ hmisses
      have hne : m ≠ m₀ := by
        rintro rfl
        exact hmisses.reads ino rest rfl hsha
      exact .of_noneOpen hopen ((List.mem_cons.mp hmisses.pending).resolve_left hne)
    · cases h

/-- A check of current files fails for a bad member. -/
theorem verify_step_failed (hpacked : Packed host pack) (hcarried : Carried host pack)
    (hway : OnItsWay pack c.tree v) (hcurrent : Current c.tree v)
    (h : verify_step host pack c v = .failed) : ¬ Complete host pack c.tree := by
  unfold verify_step at h
  split at h
  · split at h
    · rename_i habsent
      exact not_complete_of_empty hpacked
        (Directory.entry_eq_none_of_links_nil (c.absent habsent.2))
    · cases h
  · cases h
  · rename_i m₀ rest
    have hmem : m₀ ∈ pack.members := hway.pending.subset (List.mem_cons_self)
    rw [target_eq hcarried hmem] at h
    split at h
    · rename_i hentry
      exact not_complete_of_not_good hmem (not_good_of_entry hentry)
    · cases h
  · rename_i m₀ rest
    have hmem : m₀ ∈ pack.members := hway.pending.subset (List.mem_cons_self)
    rw [target_eq hcarried hmem] at h
    split at h
    · rename_i hentry
      exact not_complete_of_not_good hmem (not_good_of_entry hentry)
    · cases h
  · rename_i m₀ ino rest
    have hmem : m₀ ∈ pack.members := hway.pending.subset (List.mem_cons_self)
    rw [digest_eq hcarried hmem] at h
    split at h
    · cases h
    · rename_i hsha
      have hentry := hcurrent m₀ ino rest rfl
      exact not_complete_of_not_good hmem fun hgood => hsha ((good_iff hentry).mp hgood)

end Checks

/-! ## Steps that leave the tree alone -/

section Quiet

variable [DecidableEq ι] {c : Config ι} {i : ι} {p : Place} {s : Cache ι}

omit [DecidableEq ι] in
theorem Inv.knows_at (h : Inv host pack c) (hplace : c.place i = p) :
    Knows host pack c.shared.tree p := by
  rw [← hplace]
  exact h.knows i

/-- The file a runner writes has only the name it writes it under. -/
theorem Knows.only_name {tree : Directory PyStr UInt8} (h : Knows host pack tree p) {n n' : PyStr}
    {ino : Nat} (hwrites : p.writes pack = some (n, ino)) (hentry : tree.entry n' = some ino) :
    n' = n := by
  unfold Place.writes at hwrites
  split at hwrites
  · cases hwrites
    exact h.1 n' (by rw [hentry]; simp)
  · cases hwrites
    exact h.2.2.2.2.1 n' hentry
  · cases hwrites

omit [DecidableEq ι] in
theorem Inv.complete_of_passed (h : Inv host pack c) {v : Verify}
    (hcheck : (c.place i).check = some v) (hpassed : verify_step host pack c.shared v = .passed) :
    Complete host pack c.shared.tree := by
  rcases h.stuck with hcomplete | ⟨m, hstuck⟩
  · exact hcomplete
  · have hpending := (hstuck.waits i v hcheck).pending
    rw [verify_step_passed hpassed] at hpending
    cases hpending

theorem busy_of_set (htree : s.tree = c.shared.tree)
    (hextracting : extracting p = true → Busy host pack c)
    (h : Busy host pack (c.set i p s)) : Busy host pack c := by
  rcases h with hincomplete | ⟨j, hj⟩
  · rw [shared_set, htree] at hincomplete
    exact .inl hincomplete
  · by_cases hji : j = i
    · subst hji
      rw [place_set_self] at hj
      exact hextracting hj
    · rw [place_set_of_ne _ _ _ _ hji] at hj
      exact .inr ⟨j, hj⟩

/-- The lock stays as it is, and the runner that stepped owns it only if it did before. -/
theorem Calm.set (h : Calm c) (hlock : s.lock = c.shared.lock)
    (howner : p.owner = true → (c.place i).owner = true) (hreleased : ∀ b, p ≠ .released b) :
    Calm (c.set i p s) where
  owners := by
    rw [shared_set, hlock]
    exact forall_place_set
      (P := fun j (p : Place) => p.owner = true → c.shared.lock = .held j)
      (fun hp => h.owners i (howner hp)) fun j _ => h.owners j
  released := forall_place_set
    (P := fun _ (p : Place) => ∀ b, p ≠ .released b) hreleased fun j _ => h.released j

/-- A step that leaves the tree alone. -/
theorem Inv.quiet (h : Inv host pack c) (htree : s.tree = c.shared.tree)
    (hknows : Knows host pack c.shared.tree p)
    (hcalm : Busy host pack (c.set i p s) → Calm (c.set i p s))
    (hwaits : ∀ m, Stuck host pack c m → Waits host pack c.shared.tree m p)
    (hrebuilding : p.rebuilding = true → (c.place i).rebuilding = true)
    (hreads : ∀ m ino rest, p.check = some (.reading m ino rest) →
      c.shared.tree.entry m.name = some ino)
    (hwrites : p.writes pack = none) : Inv host pack (c.set i p s) where
  knows := by
    rw [shared_set, htree]
    exact forall_place_set
      (P := fun _ p => Knows host pack c.shared.tree p) hknows fun j _ => h.knows j
  calm := hcalm
  stuck := by
    rw [shared_set, htree]
    refine h.stuck.imp_right ?_
    rintro ⟨m, hstuck⟩
    refine ⟨m, hstuck.mem, ?_, ?_, ?_⟩
    · rw [shared_set, htree]
      exact hstuck.bad
    · rw [shared_set, htree]
      exact forall_place_set
        (P := fun _ p => Waits host pack c.shared.tree m p) (hwaits m hstuck)
        fun j _ => hstuck.waits j
    · refine hstuck.last.imp_right fun hnone => ?_
      have hp : p.rebuilding = false := by
        by_contra hp
        have hi := hrebuilding (Bool.of_not_eq_false hp)
        rw [hnone i] at hi
        cases hi
      exact forall_place_set (P := fun _ (p : Place) => p.rebuilding = false) hp fun j _ => hnone j
  readers := by
    intro j k m ino rest n hcheck hwrite
    by_cases hk : k = i
    · subst hk
      rw [place_set_self, hwrites] at hwrite
      cases hwrite
    · rw [place_set_of_ne _ _ _ _ hk] at hwrite
      by_cases hj : j = i
      · subst hj
        rw [place_set_self] at hcheck
        exact (h.knows k).only_name hwrite (hreads m ino rest hcheck)
      · rw [place_set_of_ne _ _ _ _ hj] at hcheck
        exact h.readers j k m ino rest n hcheck hwrite

theorem owner_of_extracting (h : extracting p = true) : p.owner = true := by
  cases p <;> first | rfl | cases h

theorem rebuilding_of_not_extracting (h : extracting p = false) : p.rebuilding = false := by
  cases p <;> first | rfl | cases h

theorem writes_of_not_extracting (h : extracting p = false) : p.writes pack = none := by
  cases p <;> first | rfl | cases h

/-- A step that only moves a runner on, to a place outside the extraction. -/
theorem Inv.moved (h : Inv host pack c) (hextracting : extracting p = false)
    (hknows : Knows host pack c.shared.tree p)
    (howner : Busy host pack c → p.owner = true → (c.place i).owner = true)
    (hreleased : ∀ b, p ≠ .released b)
    (hwaits : ∀ m, Stuck host pack c m → Waits host pack c.shared.tree m p)
    (hreads : ∀ m ino rest, p.check = some (.reading m ino rest) →
      c.shared.tree.entry m.name = some ino) : Inv host pack (c.set i p c.shared) := by
  refine h.quiet rfl hknows ?_ hwaits ?_ hreads (writes_of_not_extracting hextracting)
  · intro hbusy
    have hbusy' : Busy host pack c := busy_of_set rfl (by simp [hextracting]) hbusy
    exact (h.calm hbusy').set rfl (howner hbusy') hreleased
  · simp [rebuilding_of_not_extracting hextracting]

/-- … and outside every check. -/
theorem Inv.unchecked (h : Inv host pack c) (hextracting : extracting p = false)
    (hcheck : p.check = none) (hknows : Knows host pack c.shared.tree p)
    (howner : Busy host pack c → p.owner = true → (c.place i).owner = true)
    (hreleased : ∀ b, p ≠ .released b) : Inv host pack (c.set i p c.shared) :=
  h.moved hextracting hknows howner hreleased (fun m _ v hv => by rw [hcheck] at hv; cases hv)
    fun m ino rest hv => by rw [hcheck] at hv; cases hv

/-- … and to the beginning of a check. -/
theorem Inv.entering (h : Inv host pack c) (hextracting : extracting p = false)
    (hcheck : p.check = some .entering) (hknows : Knows host pack c.shared.tree p)
    (howner : Busy host pack c → p.owner = true → (c.place i).owner = true)
    (hreleased : ∀ b, p ≠ .released b) : Inv host pack (c.set i p c.shared) := by
  refine h.moved hextracting hknows howner hreleased ?_ ?_
  · intro m hstuck v hv
    rw [hcheck] at hv
    cases hv
    exact .of_noneOpen noneOpen_entering hstuck.mem
  · intro m ino rest hv
    rw [hcheck] at hv
    cases hv

/-- … and on in a check. -/
theorem Inv.onTo (hcarried : Carried host pack) (h : Inv host pack c) {v v' : Verify}
    (hplace : (c.place i).check = some v) (hway : OnItsWay pack c.shared.tree v)
    (hv : verify_step host pack c.shared v = .onTo v') (hextracting : extracting p = false)
    (hcheck : p.check = some v') (hknows : Knows host pack c.shared.tree p)
    (howner : p.owner = true → (c.place i).owner = true)
    (hreleased : ∀ b, p ≠ .released b) : Inv host pack (c.set i p c.shared) := by
  obtain ⟨-, hcurrent, hmisses⟩ := verify_step_onTo hcarried hway hv
  refine h.moved hextracting hknows (fun _ => howner) hreleased ?_ ?_
  · intro m hstuck w hw
    rw [hcheck] at hw
    cases hw
    exact hmisses m hstuck.bad (hstuck.waits i v hplace)
  · intro m ino rest hw
    rw [hcheck] at hw
    cases hw
    exact hcurrent m ino rest rfl

end Quiet

/-! ## Checks -/

section Checking

variable [DecidableEq ι] {c : Config ι} {i : ι} {v : Verify}

theorem Inv.warm_step (hcarried : Carried host pack) (h : Inv host pack c)
    (hplace : c.place i = .warm v) :
    Inv host pack
      (c.set i (verify_to host pack c.shared v .verified (.acquire 0) .warm) c.shared) := by
  have hway : OnItsWay pack c.shared.tree v := h.knows_at hplace
  have hcheck : (c.place i).check = some v := by rw [hplace]; rfl
  unfold verify_to
  cases hv : verify_step host pack c.shared v with
  | passed => exact h.unchecked rfl rfl (h.complete_of_passed hcheck hv) (by simp [Place.owner]) (by simp)
  | failed => exact h.unchecked rfl rfl trivial (by simp [Place.owner]) (by simp)
  | onTo v' =>
      exact h.onTo hcarried hcheck hway hv rfl rfl (verify_step_onTo hcarried hway hv).1
        (by simp [Place.owner]) (by simp)

theorem Inv.waiting_step (hcarried : Carried host pack) (h : Inv host pack c) {attempt : Nat}
    (hplace : c.place i = .waiting attempt v) :
    Inv host pack (c.set i
      (verify_to host pack c.shared v .verified (.sleeping attempt) (.waiting attempt)) c.shared) := by
  have hway : OnItsWay pack c.shared.tree v := h.knows_at hplace
  have hcheck : (c.place i).check = some v := by rw [hplace]; rfl
  unfold verify_to
  cases hv : verify_step host pack c.shared v with
  | passed => exact h.unchecked rfl rfl (h.complete_of_passed hcheck hv) (by simp [Place.owner]) (by simp)
  | failed => exact h.unchecked rfl rfl trivial (by simp [Place.owner]) (by simp)
  | onTo v' =>
      exact h.onTo hcarried hcheck hway hv rfl rfl (verify_step_onTo hcarried hway hv).1
        (by simp [Place.owner]) (by simp)

/-- The removal under the lock starts at an incomplete tree. -/
theorem Inv.held_step (hpacked : Packed host pack) (hcarried : Carried host pack)
    (h : Inv host pack c) (hplace : c.place i = .held v) :
    Inv host pack (c.set i
      (verify_to host pack c.shared v (.release true) (.extract .remove) .held) c.shared) := by
  have hknows : OnItsWay pack c.shared.tree v ∧ Current c.shared.tree v := h.knows_at hplace
  have hcheck : (c.place i).check = some v := by rw [hplace]; rfl
  have howner : (c.place i).owner = true := by rw [hplace]; rfl
  unfold verify_to
  cases hv : verify_step host pack c.shared v with
  | passed =>
      exact h.unchecked rfl rfl ⟨rfl, h.complete_of_passed hcheck hv⟩ (fun _ _ => howner) (by simp)
  | failed =>
      have hincomplete := verify_step_failed hpacked hcarried hknows.1 hknows.2 hv
      have hcalm := (h.calm (.inl hincomplete)).set (i := i) (p := .extract .remove) (s := c.shared) rfl
        (fun _ => howner) (by simp)
      exact h.quiet rfl hincomplete (fun _ => hcalm) (fun m _ w hw => by cases hw)
        (by simp [Place.rebuilding]) (fun m ino rest hw => by cases hw) rfl
  | onTo v' =>
      obtain ⟨hway, hcurrent, -⟩ := verify_step_onTo hcarried hknows.1 hv
      exact h.onTo hcarried hcheck hknows.1 hv rfl rfl ⟨hway, hcurrent⟩ (fun _ => howner) (by simp)

/-- What was extracted passes its check. -/
theorem Inv.recheck_step (hpacked : Packed host pack) (hcarried : Carried host pack)
    (h : Inv host pack c) (hplace : c.place i = .recheck v) :
    Inv host pack (c.set i
      (verify_to host pack c.shared v (.release true) (.release false) .recheck) c.shared) := by
  have hknows : OnItsWay pack c.shared.tree v ∧ Current c.shared.tree v ∧
      Complete host pack c.shared.tree := h.knows_at hplace
  have hcheck : (c.place i).check = some v := by rw [hplace]; rfl
  have howner : (c.place i).owner = true := by rw [hplace]; rfl
  unfold verify_to
  cases hv : verify_step host pack c.shared v with
  | passed => exact h.unchecked rfl rfl ⟨rfl, hknows.2.2⟩ (fun _ _ => howner) (by simp)
  | failed =>
      exact absurd hknows.2.2 (verify_step_failed hpacked hcarried hknows.1 hknows.2.1 hv)
  | onTo v' =>
      obtain ⟨hway, hcurrent, -⟩ := verify_step_onTo hcarried hknows.1 hv
      exact h.onTo hcarried hcheck hknows.1 hv rfl rfl ⟨hway, hcurrent, hknows.2.2⟩
        (fun _ => howner) (by simp)

end Checking

/-! ## The lock -/

section Locking

variable [DecidableEq ι] {c : Config ι} {i : ι} {p : Place} {s : Cache ι}

omit [DecidableEq ι] in
theorem Calm.others (h : Calm c) (hlock : c.shared.lock = .held i) {j : ι} (hj : j ≠ i) :
    (c.place j).owner = false := by
  by_contra howner
  have hheld := h.owners j (Bool.of_not_eq_false howner)
  rw [hlock] at hheld
  cases hheld
  exact hj rfl

/-- Where no other runner owns the lock, a step may take it or give it up. -/
theorem Calm.alone (h : Calm c) (hothers : ∀ j, j ≠ i → (c.place j).owner = false)
    (hself : p.owner = true → s.lock = .held i) (hreleased : ∀ b, p ≠ .released b) :
    Calm (c.set i p s) where
  owners := forall_place_set (P := fun j (p : Place) => p.owner = true → s.lock = .held j) hself
    fun j hj howner => by rw [hothers j hj] at howner; cases howner
  released := forall_place_set (P := fun _ (p : Place) => ∀ b, p ≠ .released b) hreleased
    fun j _ => h.released j

omit [DecidableEq ι] in
/-- An owner at a complete tree, itself not extracting, is not in the way of an extraction. -/
theorem Inv.not_busy (h : Inv host pack c) (hcomplete : Complete host pack c.shared.tree)
    (howner : (c.place i).owner = true) (hidle : extracting (c.place i) = false) :
    ¬ Busy host pack c := by
  intro hbusy
  rcases hbusy with hincomplete | ⟨j, hj⟩
  · exact hincomplete hcomplete
  · have hcalm := h.calm (.inr ⟨j, hj⟩)
    have hji : j ≠ i := by
      rintro rfl
      rw [hj] at hidle
      cases hidle
    have hother := hcalm.others (hcalm.owners i howner) hji
    rw [owner_of_extracting hj] at hother
    cases hother

/-- A step that leaves the tree alone and may change the lock. -/
theorem Inv.relocked (h : Inv host pack c) (htree : s.tree = c.shared.tree)
    (hextracting : extracting p = false) (hcheck : p.check = none)
    (hknows : Knows host pack c.shared.tree p)
    (hcalm : Busy host pack c → Calm c → Calm (c.set i p s)) : Inv host pack (c.set i p s) := by
  refine h.quiet htree hknows ?_ ?_ ?_ ?_ (writes_of_not_extracting hextracting)
  · intro hbusy
    have hbusy' : Busy host pack c := busy_of_set htree (by simp [hextracting]) hbusy
    exact hcalm hbusy' (h.calm hbusy')
  · intro m _ v hv
    rw [hcheck] at hv
    cases hv
  · simp [rebuilding_of_not_extracting hextracting]
  · intro m ino rest hv
    rw [hcheck] at hv
    cases hv

theorem Inv.taken_step (h : Inv host pack c) (hopen : lock_open pack c.shared = true) :
    Inv host pack (c.set i .taken (c.shared.setLock (.held i))) := by
  refine h.relocked rfl rfl rfl trivial ?_
  intro _ hcalm
  refine hcalm.alone ?_ (fun _ => rfl) (by simp)
  intro j _
  by_contra howner
  have hheld := hcalm.owners j (Bool.of_not_eq_false howner)
  simp [lock_open, hheld] at hopen

theorem tree_give_up : (give_up pack i s).tree = s.tree := by
  unfold give_up
  split <;> rfl

theorem tree_drop_handle : (drop_handle pack i s).tree = s.tree := by
  unfold drop_handle
  split <;> rfl

theorem Inv.release_step (h : Inv host pack c) {verified : Bool} (htree : s.tree = c.shared.tree)
    (hplace : c.place i = .release verified)
    (hp : p = .released verified ∨ p = after_release verified) : Inv host pack (c.set i p s) := by
  obtain ⟨rfl, hcomplete⟩ : verified = true ∧ Complete host pack c.shared.tree := h.knows_at hplace
  have hidle := h.not_busy hcomplete (i := i) (by rw [hplace]; rfl) (by rw [hplace]; rfl)
  rcases hp with rfl | rfl
  · exact h.relocked htree rfl rfl ⟨rfl, hcomplete⟩ fun hbusy => absurd hbusy hidle
  · exact h.relocked htree rfl rfl hcomplete fun hbusy => absurd hbusy hidle

theorem Inv.leaving_step (h : Inv host pack c) (hplace : c.place i = .leaving) :
    Inv host pack (c.set i .ended (give_up pack i c.shared)) := by
  refine h.relocked tree_give_up rfl rfl trivial ?_
  intro _ hcalm
  have hlock : c.shared.lock = .held i := hcalm.owners i (by rw [hplace]; rfl)
  exact hcalm.alone (fun j hj => hcalm.others hlock hj) (by simp [Place.owner]) (by simp)

theorem Inv.die_step (h : Inv host pack c) :
    Inv host pack (c.set i .ended (drop_handle pack i c.shared)) := by
  refine h.relocked tree_drop_handle rfl rfl trivial ?_
  intro _ hcalm
  unfold drop_handle
  split
  · rename_i hheld
    exact hcalm.alone (fun j hj => hcalm.others hheld.2 hj) (by simp [Place.owner]) (by simp)
  · exact hcalm.set rfl (by simp [Place.owner]) (by simp)

theorem Inv.leave_step (h : Inv host pack c) (htrapped : trapped (c.place i) = true) :
    Inv host pack (c.set i .leaving c.shared) := by
  refine h.unchecked rfl rfl trivial ?_ (by simp)
  intro hbusy _
  have hreleased := (h.calm hbusy).released i
  cases hplace : c.place i <;> rw [hplace] at htrapped hreleased <;>
    first | rfl | exact absurd rfl (hreleased _) | cases htrapped

end Locking

end PwshPy.Unpack
