import PwshPy.Unpack.Exclusion

/-! # The steps of an extraction

One runner at a time changes the tree, the one that owns the lock. It takes away
what is in an incomplete tree and writes the members in order, so the last
member stays bad until the tree is complete, and a complete tree is left as it
is.
-/

namespace PwshPy.Unpack

open Packing (Bytes RunnerFormat)
open Storage (Directory)
open Effects.Interleaving.Config (shared_set place_set_self place_set_of_ne forall_place_set)

variable {host : Host} {pack : Pack} {ι : Type}

/-! ## Members in order -/

section Members

variable {done rest : List Member} {m last : Member}

/-- The last member is among the ones an extraction has still to write. -/
theorem last_mem (h : done ++ m :: rest = pack.members)
    (hlast : pack.members.getLast? = some last) : last ∈ m :: rest := by
  rw [← h, List.getLast?_append_of_ne_nil _ (List.cons_ne_nil m rest)] at hlast
  exact List.mem_of_getLast? hlast

theorem rest_eq_nil (hpacked : Packed host pack) (h : done ++ m :: rest = pack.members)
    (hlast : pack.members.getLast? = some m) : rest = [] := by
  by_contra hrest
  rw [← h, List.getLast?_append_of_ne_nil _ (List.cons_ne_nil m rest),
    List.getLast?_cons_of_ne_nil hrest] at hlast
  have hnodup := (List.Nodup.of_map _ hpacked.names_nodup)
  rw [← h] at hnodup
  have hcons := (List.nodup_append.mp hnodup).2.1
  exact (List.nodup_cons.mp hcons).1 (List.mem_of_getLast? hlast)

end Members

/-- What a step does to a complete tree: every packed file stays the file it is, as it is. -/
def Kept (host : Host) (pack : Pack) (tree tree' : Directory PyStr UInt8) : Prop :=
  Complete host pack tree → ∀ m ∈ pack.members,
    tree'.entry m.name = tree.entry m.name ∧ tree'.file m.name = tree.file m.name

theorem Kept.complete {tree tree' : Directory PyStr UInt8} (h : Kept host pack tree tree')
    (hcomplete : Complete host pack tree) : Complete host pack tree' :=
  fun m hm => (good_congr (h hcomplete m hm).2).mpr (hcomplete m hm)

theorem Kept.of_eq {tree tree' : Directory PyStr UInt8} (h : tree' = tree) :
    Kept host pack tree tree' := by
  subst h
  exact fun _ _ _ => ⟨rfl, rfl⟩

theorem Kept.of_incomplete {tree tree' : Directory PyStr UInt8} (h : ¬ Complete host pack tree) :
    Kept host pack tree tree' := fun hcomplete => absurd hcomplete h

/-- A runner that does not own the lock knows little enough. -/
theorem Knows.of_kept {tree tree' : Directory PyStr UInt8} {p : Place}
    (hknows : Knows host pack tree p) (howner : p.owner = false)
    (hkept : Kept host pack tree tree') (hfresh : tree.fresh ≤ tree'.fresh) :
    Knows host pack tree' p := by
  have hway : ∀ v, OnItsWay pack tree v → OnItsWay pack tree' v := fun v hv =>
    ⟨hv.pending, fun m ino rest h => Nat.lt_of_lt_of_le (hv.made m ino rest h) hfresh⟩
  cases p with
  | warm v => exact hway v hknows
  | waiting _ v => exact hway v hknows
  | verified => exact hkept.complete hknows
  | running => exact hkept.complete hknows
  | released _ => exact ⟨hknows.1, hkept.complete hknows.2⟩
  | taken => cases howner
  | held _ => cases howner
  | extract _ => cases howner
  | recheck _ => cases howner
  | release _ => cases howner
  | leaving => cases howner
  | _ => exact hknows

theorem Knows.onItsWay {tree : Directory PyStr UInt8} {p : Place} (hknows : Knows host pack tree p)
    {v : Verify} (hcheck : p.check = some v) : OnItsWay pack tree v := by
  cases p with
  | warm _ => cases hcheck; exact hknows
  | held _ => cases hcheck; exact hknows.1
  | recheck _ => cases hcheck; exact hknows.1
  | waiting _ _ => cases hcheck; exact hknows
  | _ => cases hcheck

section Changes

variable [DecidableEq ι] {c : Config ι} {i : ι} {p : Place} {s : Cache ι} {m : Member}

omit [DecidableEq ι] in
theorem Stuck.last_of_rebuilding (h : Stuck host pack c m)
    (hplace : (c.place i).rebuilding = true) : pack.members.getLast? = some m := by
  rcases h.last with hlast | hnone
  · exact hlast
  · rw [hnone i] at hplace
    cases hplace

/-- A member stays stuck where it stays bad and no check of it gets a good file. -/
theorem Stuck.set (h : Stuck host pack c m) (hbad : ¬ Good host s.tree m)
    (hbodies : ∀ j ino rest, (c.place j).check = some (.reading m ino rest) →
      s.tree.body ino = c.shared.tree.body ino ∨ host.sha256 (s.tree.body ino) ≠ recorded host m)
    (hcheck : ∀ v, p.check = some v → v = .entering)
    (hrebuilding : p.rebuilding = true → (c.place i).rebuilding = true) :
    Stuck host pack (c.set i p s) m where
  mem := h.mem
  bad := hbad
  waits := by
    refine forall_place_set (P := fun _ (p : Place) => Waits host pack s.tree m p) ?_ ?_
    · intro v hv
      rw [hcheck v hv]
      exact .of_noneOpen noneOpen_entering h.mem
    · intro j _ v hv
      refine ⟨(h.waits j v hv).pending, ?_⟩
      rintro ino rest rfl
      rcases hbodies j ino rest hv with hsame | hdiffers
      · rw [hsame]
        exact (h.waits j _ hv).reads ino rest rfl
      · exact hdiffers
  last := by
    refine h.last.imp_right fun hnone => ?_
    have hp : p.rebuilding = false := by
      by_contra hp
      have hi := hrebuilding (Bool.of_not_eq_false hp)
      rw [hnone i] at hi
      cases hi
    exact forall_place_set (P := fun _ (p : Place) => p.rebuilding = false) hp fun j _ => hnone j

/-- A step of an extraction that changes the tree. -/
theorem Inv.changed (h : Inv host pack c) (hplace : extracting (c.place i) = true)
    (hlock : s.lock = c.shared.lock) (hreleased : ∀ b, p ≠ .released b)
    (hknows : Knows host pack s.tree p) (hkept : Kept host pack c.shared.tree s.tree)
    (hfresh : c.shared.tree.fresh ≤ s.tree.fresh)
    (hcheck : ∀ v, p.check = some v → v = .entering)
    (hwrites : ∀ n ino, p.writes pack = some (n, ino) →
      (c.place i).writes pack = some (n, ino) ∨ c.shared.tree.fresh ≤ ino)
    (hstuck : ∀ m, Stuck host pack c m →
      Complete host pack s.tree ∨ Stuck host pack (c.set i p s) m) :
    Inv host pack (c.set i p s) := by
  have hcalm : Calm c := h.calm (.inr ⟨i, hplace⟩)
  have howner : (c.place i).owner = true := owner_of_extracting hplace
  have hheld := hcalm.owners i howner
  refine ⟨?_, fun _ => hcalm.set hlock (fun _ => howner) hreleased, ?_, ?_⟩
  · refine forall_place_set (P := fun _ (p : Place) => Knows host pack s.tree p) hknows ?_
    exact fun j hj => (h.knows j).of_kept (hcalm.others hheld hj) hkept hfresh
  · rcases h.stuck with hcomplete | ⟨m, hm⟩
    · exact .inl (hkept.complete hcomplete)
    · exact (hstuck m hm).imp_right fun hm' => ⟨m, hm'⟩
  · intro j k m ino rest n hreading hwriting
    have hj : j ≠ i := by
      rintro rfl
      rw [place_set_self] at hreading
      cases hcheck _ hreading
    rw [place_set_of_ne _ _ _ _ hj] at hreading
    by_cases hk : k = i
    · subst hk
      rw [place_set_self] at hwriting
      rcases hwrites n ino hwriting with hwriting | hnew
      · exact h.readers j k m ino rest n hreading hwriting
      · have hmade := ((h.knows j).onItsWay hreading).made m ino rest rfl
        exact absurd hnew (Nat.not_le.mpr hmade)
    · rw [place_set_of_ne _ _ _ _ hk] at hwriting
      exact h.readers j k m ino rest n hreading hwriting

/-- A step of an extraction behind its removal that leaves the tree alone. -/
theorem Inv.rebuilt (h : Inv host pack c) (hplace : (c.place i).rebuilding = true)
    (htree : s.tree = c.shared.tree) (hlock : s.lock = c.shared.lock)
    (hknows : Knows host pack c.shared.tree p) (hcheck : p.check = none)
    (hwrites : p.writes pack = none) (hreleased : ∀ b, p ≠ .released b) :
    Inv host pack (c.set i p s) := by
  have hextracting : extracting (c.place i) = true := by
    cases hc : c.place i <;> rw [hc] at hplace <;> first | rfl | cases hplace
  have hcalm : Calm c := h.calm (.inr ⟨i, hextracting⟩)
  refine h.quiet htree hknows
    (fun _ => hcalm.set hlock (fun _ => owner_of_extracting hextracting) hreleased) ?_
    (fun _ => hplace) ?_ hwrites
  · intro m _ v hv
    rw [hcheck] at hv
    cases hv
  · intro m ino rest hv
    rw [hcheck] at hv
    cases hv

end Changes

/-! ## The removal -/

section Removal

variable [DecidableEq ι] {c : Config ι} {i : ι} {m : Member}

theorem Inv.unlink_step (h : Inv host pack c) (hplace : c.place i = .extract .remove) (n : PyStr) :
    Inv host pack (c.set i (.extract .remove) (c.shared.unlink n)) := by
  have hincomplete : ¬ Complete host pack c.shared.tree := h.knows_at hplace
  have hbad : ∀ m, ¬ Good host c.shared.tree m → ¬ Good host (c.shared.tree.unlink n) m := by
    intro m hbad
    by_cases hm : m.name = n
    · rw [← hm]
      exact not_good_of_entry (Directory.entry_unlink_self _)
    · rwa [good_congr (Directory.file_unlink_of_ne hm)]
  have hstill : ¬ Complete host pack (c.shared.tree.unlink n) := by
    obtain ⟨m, hm⟩ := h.stuck.resolve_left hincomplete
    exact not_complete_of_not_good hm.mem (hbad m hm.bad)
  refine h.changed (by rw [hplace]; rfl) rfl (by simp) hstill (.of_incomplete hincomplete)
    (Nat.le_refl _) (fun v hv => by cases hv) (fun n ino hw => by cases hw) ?_
  intro m hm
  exact .inr (hm.set (hbad m hm.bad) (fun _ _ _ _ => .inl rfl) (fun v hv => by cases hv)
    (fun hp => by cases hp))

/-- A check that misses a member misses the last one, and has no good file of it open. -/
theorem Misses.last (hpacked : Packed host pack) {tree : Directory PyStr UInt8} {v : Verify}
    {last : Member} (hway : OnItsWay pack tree v) (hlast : pack.members.getLast? = some last)
    (hmisses : Misses host pack tree m v) : Misses host pack tree last v := by
  have hpending := List.ne_nil_of_mem hmisses.pending
  obtain ⟨front, hfront⟩ := hway.pending
  have hlast' : (v.pending pack).getLast? = some last := by
    rw [← List.getLast?_append_of_ne_nil front hpending, hfront]
    exact hlast
  refine ⟨List.mem_of_getLast? hlast', ?_⟩
  rintro ino rest rfl
  have hrest : rest = [] := rest_eq_nil hpacked hfront hlast
  subst hrest
  have hm : m = last := List.mem_singleton.mp hmisses.pending
  subst hm
  exact hmisses.reads ino [] rfl

/-- Once everything is removed, the last member is the one every check misses. -/
theorem Inv.removed_step (hpacked : Packed host pack) (h : Inv host pack c)
    (hplace : c.place i = .extract .remove) (hempty : c.shared.tree.links = []) :
    Inv host pack (c.set i (.extract .mkdir) (c.shared.rmdir hempty)) := by
  have hnone := Directory.entry_eq_none_of_links_nil hempty
  have hincomplete := not_complete_of_empty hpacked hnone
  have hcalm : Calm c := h.calm (.inl hincomplete)
  have hcalm' : Calm (c.set i (.extract .mkdir) (c.shared.rmdir hempty)) :=
    hcalm.set rfl (fun _ => by rw [hplace]; rfl) (by simp)
  obtain ⟨m, hm⟩ := h.stuck.resolve_left hincomplete
  obtain ⟨last, hlast⟩ : ∃ last, pack.members.getLast? = some last :=
    ⟨_, List.getLast?_eq_some_getLast hpacked.ne_nil⟩
  refine ⟨?_, fun _ => hcalm', .inr ⟨last, ?_, ?_, ?_, .inl hlast⟩, ?_⟩
  · exact forall_place_set (P := fun _ (p : Place) => Knows host pack c.shared.tree p) hnone
      fun j _ => h.knows j
  · exact List.mem_of_getLast? hlast
  · exact not_good_of_entry (hnone last.name)
  · refine forall_place_set (P := fun _ (p : Place) => Waits host pack c.shared.tree last p) ?_ ?_
    · intro v hv
      cases hv
    · intro j _ v hv
      exact (hm.waits j v hv).last hpacked ((h.knows j).onItsWay hv) hlast
  · intro j k m ino rest n hreading hwriting
    have hj : j ≠ i := by
      rintro rfl
      rw [place_set_self] at hreading
      cases hreading
    have hk : k ≠ i := by
      rintro rfl
      rw [place_set_self] at hwriting
      cases hwriting
    rw [place_set_of_ne _ _ _ _ hj] at hreading
    rw [place_set_of_ne _ _ _ _ hk] at hwriting
    exact h.readers j k m ino rest n hreading hwriting

theorem Inv.mkdir_step (h : Inv host pack c) (hplace : c.place i = .extract .mkdir) :
    Inv host pack (c.set i (.extract .decode) c.shared.mkdir) := by
  have hknows : ∀ n, c.shared.tree.entry n = none := h.knows_at hplace
  exact h.rebuilt (by rw [hplace]; rfl) rfl rfl hknows rfl rfl (by simp)

end Removal

/-! ## The archive -/

section Archive

variable [DecidableEq ι] {c : Config ι} {i : ι} {m : Member}

theorem not_complete_of_onlyArchive (hpacked : Packed host pack) (hcarried : Carried host pack)
    {tree : Directory PyStr UInt8} (h : OnlyArchive pack tree) : ¬ Complete host pack tree := by
  obtain ⟨m, hm⟩ := List.exists_mem_of_ne_nil _ hpacked.ne_nil
  refine not_complete_of_not_good hm (not_good_of_entry ?_)
  by_contra hentry
  exact hcarried.archive m hm (h m.name hentry)

theorem Inv.decode_step (hpacked : Packed host pack) (hcarried : Carried host pack)
    (h : Inv host pack c) (hplace : c.place i = .extract .decode) (hpresent : c.shared.present = true)
    (husable : payload_usable host pack = true) :
    Inv host pack (c.set i (.extract (.fill c.shared.tree.fresh))
      (c.shared.create (archive_name pack.format) hpresent)) := by
  have hnone : ∀ n, c.shared.tree.entry n = none := h.knows_at hplace
  have honly : OnlyArchive pack (c.shared.tree.create (archive_name pack.format)) := by
    intro n hn
    by_contra hne
    rw [Directory.entry_create_of_ne hne, hnone n] at hn
    exact hn rfl
  refine h.changed (by rw [hplace]; rfl) rfl (by simp)
    ⟨honly, Directory.entry_create_self _, by simp, husable⟩
    (.of_incomplete (not_complete_of_empty hpacked hnone)) (Nat.le_succ _) (fun v hv => by cases hv)
    ?_ ?_
  · intro n ino hwrites
    cases hwrites
    exact .inr (Nat.le_refl _)
  · intro m hm
    refine .inr (hm.set ?_ ?_ (fun v hv => by cases hv) fun _ => by rw [hplace]; rfl)
    · have hne := hcarried.archive m hm.mem
      rw [Cache.tree_create, good_congr (Directory.file_create_of_ne hne)]
      exact hm.bad
    · intro j ino rest hreading
      have hmade := ((h.knows j).onItsWay hreading).made m ino rest rfl
      exact .inl (Directory.body_create_of_lt _ hmade)

omit [DecidableEq ι] in
/-- What is written so far and the next bytes are a beginning of the whole. -/
theorem more_prefix {whole : Bytes} {ino : Nat} (h : c.shared.tree.body ino <+: whole) (n : Nat) :
    c.shared.tree.body ino ++ more whole c.shared ino n <+: whole := by
  have hbody := List.prefix_iff_eq_take.mp h
  have htake : c.shared.tree.body ino ++ more whole c.shared ino n =
      whole.take ((c.shared.tree.body ino).length + n) := by
    rw [List.take_add, ← hbody]
    rfl
  rw [htake]
  exact List.take_prefix _ _

theorem Inv.fill_bytes_step (hpacked : Packed host pack) (hcarried : Carried host pack)
    (h : Inv host pack c) {ino : Nat} (hplace : c.place i = .extract (.fill ino)) (n : Nat) :
    Inv host pack (c.set i (.extract (.fill ino))
      (c.shared.append ino (more pack.payload c.shared ino n))) := by
  obtain ⟨honly, hentry, hprefixed, husable⟩ : Shape host pack c.shared.tree (.fill ino) :=
    h.knows_at hplace
  have hincomplete := not_complete_of_onlyArchive hpacked hcarried honly
  refine h.changed (by rw [hplace]; rfl) rfl (by simp) ⟨honly, hentry, ?_, husable⟩
    (.of_incomplete hincomplete) (Nat.le_refl _) (fun v hv => by cases hv) ?_ ?_
  · rw [Cache.tree_append, Directory.body_append_self]
    exact more_prefix hprefixed n
  · intro n ino' hwrites
    rw [hplace]
    exact .inl hwrites
  · intro m hm
    have hne := hcarried.archive m hm.mem
    have hother : c.shared.tree.entry m.name ≠ some ino := by
      intro hname
      exact hne (honly m.name (by rw [hname]; simp))
    refine .inr (hm.set ?_ ?_ (fun v hv => by cases hv) fun _ => by rw [hplace]; rfl)
    · rw [Cache.tree_append, good_congr (Directory.file_append_of_ne hother _)]
      exact hm.bad
    · intro j ino' rest hreading
      have hino : ino' ≠ ino := by
        rintro rfl
        exact hne (h.readers j i m ino' rest _ hreading (by rw [hplace]; rfl))
      exact .inl (Directory.body_append_of_ne hino _)

theorem Inv.filled_step (h : Inv host pack c) {ino : Nat}
    (hplace : c.place i = .extract (.fill ino)) (hwhole : c.shared.tree.body ino = pack.payload) :
    Inv host pack (c.set i (.extract .check) c.shared) := by
  obtain ⟨honly, hentry, -, husable⟩ : Shape host pack c.shared.tree (.fill ino) := h.knows_at hplace
  have hfile := Directory.file_eq_some.mpr ⟨ino, hentry, hwhole⟩
  exact h.rebuilt (by rw [hplace]; rfl) rfl rfl ⟨honly, hfile, husable⟩ rfl rfl (by simp)

/-- Only a payload with the recorded hash is opened. -/
theorem Inv.check_step (hpacked : Packed host pack) (hcarried : Carried host pack)
    (h : Inv host pack c) (hplace : c.place i = .extract .check) {p : Place} {s : Cache ι}
    (hstep : extract_step host pack c.shared .check = some (p, s)) :
    s = c.shared ∧ Inv host pack (c.set i p s) := by
  obtain ⟨honly, hfile, husable⟩ : Shape host pack c.shared.tree .check := h.knows_at hplace
  have hleave : Inv host pack (c.set i .leaving c.shared) := h.leave_step (by rw [hplace]; rfl)
  have hrebuilding : (c.place i).rebuilding = true := by rw [hplace]; rfl
  simp only [extract_step] at hstep
  split at hstep
  · rename_i hformat
    cases hstep
    have hsha : host.sha256 pack.payload = pack.payload_sha256 := by
      simpa [payload_usable, hformat] using husable
    exact ⟨rfl, h.rebuilt hrebuilding rfl rfl ⟨honly, hfile, hsha⟩ rfl rfl (by simp)⟩
  · cases hstep
    exact ⟨rfl, hleave⟩
  · rename_i hformat hb
    rw [hfile] at hb
    cases hb
    rw [archive_digest_eq hpacked hcarried hformat] at hstep
    split at hstep
    · rename_i hsha
      cases hstep
      exact ⟨rfl, h.rebuilt hrebuilding rfl rfl ⟨honly, hfile, hsha⟩ rfl rfl (by simp)⟩
    · cases hstep
      exact ⟨rfl, h.rebuilt hrebuilding rfl rfl honly rfl rfl (by simp)⟩

theorem Inv.reject_step (hpacked : Packed host pack) (hcarried : Carried host pack)
    (h : Inv host pack c) (hplace : c.place i = .extract .reject) :
    Inv host pack (c.set i .leaving (c.shared.unlink (archive_name pack.format))) := by
  have honly : OnlyArchive pack c.shared.tree := h.knows_at hplace
  refine h.changed (by rw [hplace]; rfl) rfl (by simp) trivial
    (.of_incomplete (not_complete_of_onlyArchive hpacked hcarried honly)) (Nat.le_refl _)
    (fun v hv => by cases hv) (fun n ino hw => by cases hw) ?_
  intro m hm
  refine .inr (hm.set ?_ (fun _ _ _ _ => .inl rfl) (fun v hv => by cases hv) fun hp => by cases hp)
  rw [Cache.tree_unlink, good_congr (Directory.file_unlink_of_ne (hcarried.archive m hm.mem))]
  exact hm.bad

/-- The archive tool finds the members. -/
theorem Inv.opening_step (hpacked : Packed host pack) (hcarried : Carried host pack)
    (h : Inv host pack c) (hplace : c.place i = .extract .opening) {p : Place} {s : Cache ι}
    (hstep : extract_step host pack c.shared .opening = some (p, s)) :
    s = c.shared ∧ Inv host pack (c.set i p s) := by
  obtain ⟨honly, hfile, hsha⟩ : Shape host pack c.shared.tree .opening := h.knows_at hplace
  simp only [extract_step, hfile] at hstep
  cases hstep
  rw [hpacked.unarchived _ hsha]
  have hnone : ∀ m ∈ pack.members, c.shared.tree.entry m.name = none := by
    intro m hm
    by_contra hentry
    exact hcarried.archive m hm (honly m.name hentry)
  exact ⟨rfl, h.rebuilt (by rw [hplace]; rfl) rfl rfl ⟨rfl, by simp, hnone⟩ rfl rfl (by simp)⟩

end Archive

/-! ## The members -/

section Writing

variable [DecidableEq ι] {c : Config ι} {i : ι} {done rest : List Member} {m : Member} {ino : Nat}

theorem Inv.unpacked_step (h : Inv host pack c) (hplace : c.place i = .extract (.unpack done [])) :
    Inv host pack (c.set i (.extract .drop) c.shared) := by
  obtain ⟨hmembers, hdone, -⟩ : Shape host pack c.shared.tree (.unpack done []) := h.knows_at hplace
  rw [List.append_nil] at hmembers
  subst hmembers
  exact h.rebuilt (by rw [hplace]; rfl) rfl rfl (fun m hm => good_of_file (hdone m hm)) rfl rfl (by simp)

/-- The member being written is apart from the ones before and behind it. -/
theorem names_apart (hpacked : Packed host pack) (hmembers : done ++ m :: rest = pack.members) :
    (∀ m' ∈ done, m'.name ≠ m.name) ∧ ∀ m' ∈ rest, m'.name ≠ m.name := by
  have hnodup := hpacked.names_nodup
  rw [← hmembers, List.map_append, List.map_cons] at hnodup
  obtain ⟨-, hcons, hapart⟩ := List.nodup_append.mp hnodup
  refine ⟨fun m' hm' => ?_, fun m' hm' hname => ?_⟩
  · exact hapart _ (List.mem_map_of_mem hm') _ List.mem_cons_self
  · rw [← hname] at hcons
    exact (List.nodup_cons.mp hcons).1 (List.mem_map_of_mem hm')

/-- The tree while a member is written to its new file. -/
structure Written (tree : Directory PyStr UInt8) (done : List Member) (m : Member) (ino : Nat) :
    Prop where
  done : ∀ m' ∈ done, tree.file m'.name = some m'.body
  entry : tree.entry m.name = some ino
  started : tree.body ino <+: m.body

/-- The last member is bad until all of it is written, and then the tree is complete. -/
theorem Written.complete_or_bad (hpacked : Packed host pack) {tree : Directory PyStr UInt8}
    (h : Written tree done m ino) (hmembers : done ++ m :: rest = pack.members)
    (hlast : pack.members.getLast? = some m) : Complete host pack tree ∨ ¬ Good host tree m := by
  have hrest := rest_eq_nil hpacked hmembers hlast
  subst hrest
  by_cases hgood : Good host tree m
  · refine .inl fun m' hm' => ?_
    rw [← hmembers] at hm'
    rcases List.mem_append.mp hm' with hm' | hm'
    · exact good_of_file (h.done m' hm')
    · rw [List.mem_singleton.mp hm']
      exact hgood
  · exact .inr hgood

/-- Creating the next member completes the tree only when it is the last, and empty. -/
theorem Inv.create_step (hpacked : Packed host pack) (h : Inv host pack c)
    (hplace : c.place i = .extract (.unpack done (m :: rest))) (hpresent : c.shared.present = true) :
    Inv host pack (c.set i (.extract (.write done m c.shared.tree.fresh rest))
      (c.shared.create m.name hpresent)) := by
  obtain ⟨hmembers, hdone, hnone⟩ : Shape host pack c.shared.tree (.unpack done (m :: rest)) :=
    h.knows_at hplace
  obtain ⟨hbefore, hbehind⟩ := names_apart hpacked hmembers
  have hm : m ∈ pack.members := by rw [← hmembers]; simp
  have hincomplete : ¬ Complete host pack c.shared.tree :=
    not_complete_of_not_good hm (not_good_of_entry (hnone m (by simp)))
  have hwritten : Written (c.shared.tree.create m.name) done m c.shared.tree.fresh :=
    ⟨fun m' hm' => by rw [Directory.file_create_of_ne (hbefore m' hm')]; exact hdone m' hm',
      Directory.entry_create_self _, by simp⟩
  have hrest : ∀ m' ∈ rest, (c.shared.tree.create m.name).entry m'.name = none := by
    intro m' hm'
    rw [Directory.entry_create_of_ne (hbehind m' hm')]
    exact hnone m' (by simp [hm'])
  have honly : ∀ n, (c.shared.tree.create m.name).entry n = some c.shared.tree.fresh → n = m.name := by
    intro n hn
    by_contra hne
    rw [Directory.entry_create_of_ne hne] at hn
    exact Nat.lt_irrefl _ (Directory.entry_lt hn)
  refine h.changed (by rw [hplace]; rfl) rfl (by simp)
    ⟨hmembers, hwritten.done, hrest, hwritten.entry, honly, hwritten.started⟩
    (.of_incomplete hincomplete) (Nat.le_succ _) (fun v hv => by cases hv) ?_ ?_
  · intro n ino hwrites
    cases hwrites
    exact .inr (Nat.le_refl _)
  · intro last hstuck
    have hset : ¬ Good host (c.shared.tree.create m.name) last →
        Stuck host pack (c.set i (.extract (.write done m c.shared.tree.fresh rest))
          (c.shared.create m.name hpresent)) last := by
      intro hbad
      refine hstuck.set hbad ?_ (fun v hv => by cases hv) fun _ => by rw [hplace]; rfl
      intro j ino rest hreading
      have hmade := ((h.knows j).onItsWay hreading).made last ino rest rfl
      exact .inl (Directory.body_create_of_lt _ hmade)
    have hlast := hstuck.last_of_rebuilding (i := i) (by rw [hplace]; rfl)
    rcases List.mem_cons.mp (last_mem hmembers hlast) with rfl | hlater
    · exact (hwritten.complete_or_bad hpacked hmembers hlast).imp_right hset
    · exact .inr (hset (not_good_of_entry (hrest last hlater)))

theorem Inv.write_bytes_step (hpacked : Packed host pack) (h : Inv host pack c)
    (hplace : c.place i = .extract (.write done m ino rest)) (n : Nat) :
    Inv host pack (c.set i (.extract (.write done m ino rest))
        (c.shared.append ino (more m.body c.shared ino n))) ∧
      Kept host pack c.shared.tree (c.shared.append ino (more m.body c.shared ino n)).tree := by
  obtain ⟨hmembers, hdone, hnone, hentry, honly, hprefixed⟩ :
      Shape host pack c.shared.tree (.write done m ino rest) := h.knows_at hplace
  obtain ⟨hbefore, hbehind⟩ := names_apart hpacked hmembers
  have hm : m ∈ pack.members := by rw [← hmembers]; simp
  have hother : ∀ m' : Member, m'.name ≠ m.name → c.shared.tree.entry m'.name ≠ some ino :=
    fun m' hne hname => hne (honly m'.name hname)
  have hkept : Kept host pack c.shared.tree (c.shared.append ino (more m.body c.shared ino n)).tree := by
    intro hcomplete m' hm'
    refine ⟨rfl, ?_⟩
    by_cases hname : m'.name = m.name
    · have hbody := body_eq_of_good hpacked hm hentry hprefixed (hcomplete m hm)
      have hmore : more m.body c.shared ino n = [] := by simp [more, hbody]
      rw [hname, Cache.tree_append, Directory.file_append_self hentry, hmore, List.append_nil]
      exact (Directory.file_eq_some.mpr ⟨ino, hentry, rfl⟩).symm
    · exact Directory.file_append_of_ne (hother m' hname) _
  have hwritten : Written (c.shared.tree.append ino (more m.body c.shared ino n)) done m ino := by
    refine ⟨fun m' hm' => ?_, hentry, ?_⟩
    · rw [Directory.file_append_of_ne (hother m' (hbefore m' hm'))]
      exact hdone m' hm'
    · rw [Directory.body_append_self]
      exact more_prefix hprefixed n
  refine ⟨h.changed (by rw [hplace]; rfl) rfl (by simp)
    ⟨hmembers, hwritten.done, hnone, hentry, honly, hwritten.started⟩ hkept (Nat.le_refl _)
    (fun v hv => by cases hv) ?_ ?_, hkept⟩
  · intro n ino' hwrites
    rw [hplace]
    exact .inl hwrites
  · intro last hstuck
    have hset : ¬ Good host (c.shared.tree.append ino (more m.body c.shared ino n)) last →
        Stuck host pack (c.set i (.extract (.write done m ino rest))
          (c.shared.append ino (more m.body c.shared ino n))) last := by
      intro hbad
      refine hstuck.set hbad ?_ (fun v hv => by cases hv) fun _ => by rw [hplace]; rfl
      intro j ino' rest' hreading
      by_cases hino : ino' = ino
      · subst hino
        have hname := h.readers j i last ino' rest' m.name hreading (by rw [hplace]; rfl)
        have hentry' : (c.shared.tree.append ino' (more m.body c.shared ino' n)).entry last.name =
            some ino' := by
          rw [hname]
          exact hentry
        exact .inr fun hsha => hbad ((good_iff hentry').mpr hsha)
      · exact .inl (Directory.body_append_of_ne hino _)
    have hlast := hstuck.last_of_rebuilding (i := i) (by rw [hplace]; rfl)
    rcases List.mem_cons.mp (last_mem hmembers hlast) with rfl | hlater
    · exact (hwritten.complete_or_bad hpacked hmembers hlast).imp_right hset
    · exact .inr (hset (not_good_of_entry (hnone last hlater)))

theorem Inv.written_step (h : Inv host pack c)
    (hplace : c.place i = .extract (.write done m ino rest)) (hwhole : c.shared.tree.body ino = m.body) :
    Inv host pack (c.set i (.extract (.unpack (done ++ [m]) rest)) c.shared) := by
  obtain ⟨hmembers, hdone, hnone, hentry, -, -⟩ :
      Shape host pack c.shared.tree (.write done m ino rest) := h.knows_at hplace
  refine h.rebuilt (by rw [hplace]; rfl) rfl rfl ⟨by simpa using hmembers, ?_, hnone⟩ rfl rfl (by simp)
  intro m' hm'
  rcases List.mem_append.mp hm' with hm' | hm'
  · exact hdone m' hm'
  · rw [List.mem_singleton.mp hm']
    exact Directory.file_eq_some.mpr ⟨ino, hentry, hwhole⟩

theorem Inv.drop_step (hcarried : Carried host pack) (h : Inv host pack c)
    (hplace : c.place i = .extract .drop) :
    Inv host pack (c.set i (.recheck .entering) (c.shared.unlink (archive_name pack.format))) ∧
      Kept host pack c.shared.tree (c.shared.unlink (archive_name pack.format)).tree := by
  have hcomplete : Complete host pack c.shared.tree := h.knows_at hplace
  have hkept : Kept host pack c.shared.tree (c.shared.unlink (archive_name pack.format)).tree :=
    fun _ m hm => ⟨Directory.entry_unlink_of_ne (hcarried.archive m hm),
      Directory.file_unlink_of_ne (hcarried.archive m hm)⟩
  have hknows : Knows host pack (c.shared.unlink (archive_name pack.format)).tree (.recheck .entering) :=
    ⟨.of_noneOpen noneOpen_entering (List.suffix_refl _), .of_noneOpen noneOpen_entering,
      hkept.complete hcomplete⟩
  refine ⟨h.changed (by rw [hplace]; rfl) rfl (by simp) hknows hkept (Nat.le_refl _) ?_
    (fun n ino hw => by cases hw) fun m hm => .inl (hkept.complete hcomplete), hkept⟩
  intro v hv
  cases hv
  rfl

end Writing

end PwshPy.Unpack
