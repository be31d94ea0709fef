import PwshPy.Packing.PackedNames
import PwshPy.Packing.RefusedUnpack

/-! # Restoring the members of a pack

An archive that is read back gives the members it was built of, in the order of
their names. Where nothing stands in their way each of them is written to its
place, and no other file changes.
-/

namespace PwshPy.Packing

open PathFinder (Path)
open ForEach (forEach)
open Storage (Directory)

/-! ## The members -/

/-- What `zipfile` reads of a zip is what it wrote to it. -/
structure ZipReads (lib : Library) (packer : Packer) (members : List (PyStr × Bytes)) : Prop where
  namelist : lib.namelist (packer.zip members) = .ok (members.map Prod.fst)
  read : (members.map Prod.fst).Nodup → ∀ m ∈ members, lib.read (packer.zip members) m.1 = .ok m.2
  /-- an archive holds the names of its members -/
  length : ∀ m ∈ members, m.1.length ≤ (packer.zip members).length

/-- What `tarfile` reads of a tar is what it wrote to it. -/
def TarReads (lib : Library) (packer : Packer) (members : List (PyStr × Bytes)) : Prop :=
  ∃ entries, lib.getmembers (packer.tar members) = .ok entries ∧
    List.Forall₂ (fun (e : TarMember) (m : PyStr × Bytes) => e.name = m.1 ∧ e.isfile = true ∧
      lib.extractfile (packer.tar members) e = .ok m.2) entries members

def ArchiveReads (lib : Library) (packer : Packer) (members : List (PyStr × Bytes)) :
    RunnerFormat → Prop
  | .ps1 => ZipReads lib packer members
  | .sh => TarReads lib packer members

/-- The archive of a format. -/
def archive (packer : Packer) : RunnerFormat → List (PyStr × Bytes) → Bytes
  | .ps1 => packer.zip
  | .sh => packer.tar

theorem build_ok {packer : Packer} {fmt : RunnerFormat} {members : List (PyStr × Bytes)}
    {payload : Bytes} (h : build packer fmt members = .ok payload) :
    payload = archive packer fmt members := by
  cases fmt with
  | ps1 =>
      rw [build, build_archive] at h
      split at h
      · cases h
      · exact (Except.ok.inj h).symm
  | sh =>
      rw [build, build_tar_archive] at h
      split at h
      · cases h
      · exact (Except.ok.inj h).symm

/-- The members as the loop takes them. -/
def readable (members : List (PyStr × Bytes)) : List Member := members.map fun m => ⟨m.1, .ok m.2⟩

theorem members_of_archive {lib : Library} {packer : Packer} {members : List (PyStr × Bytes)}
    {fmt : RunnerFormat} (hreads : ArchiveReads lib packer members fmt)
    (hnodup : (members.map Prod.fst).Nodup)
    (hsorted : (members.map Prod.fst).Pairwise fun a b => textLe a b = true) :
    members_of lib (archive packer fmt members) fmt = .ok (readable (own_members members)) := by
  cases fmt with
  | ps1 =>
      have hread : ∀ m ∈ own_members members,
          (⟨m.1, lib.read (packer.zip members) m.1⟩ : Member) = ⟨m.1, .ok m.2⟩ := fun m hm =>
        congrArg (Member.mk m.1) (hreads.read hnodup m (List.mem_of_mem_filter hm))
      have hnames : (members.map Prod.fst).insertionSort (fun a b => textLe a b) =
          members.map Prod.fst := hsorted.insertionSort_eq
      rw [members_of, archive, zip_members, hreads.namelist]
      simp only [Except.map, hnames, List.filter_map, List.map_map]
      exact congrArg Except.ok (List.map_congr_left hread)
  | sh =>
      obtain ⟨entries, hentries, hall⟩ := hreads
      have hnames : entries.map TarMember.name = members.map Prod.fst := by
        rw [← List.forall₂_eq_eq_eq, List.forall₂_map_left_iff, List.forall₂_map_right_iff]
        exact hall.imp fun e m h => h.1
      have hordered : entries.insertionSort (fun a b => textLe a.name b.name) = entries := by
        refine List.Pairwise.insertionSort_eq ?_
        rw [← hnames, List.pairwise_map] at hsorted
        exact hsorted
      have hmembers : ((entries.filter fun e => e.isfile ∧ e.name ≠ SHIM_MODULE).map fun e =>
          (⟨e.name, lib.extractfile (packer.tar members) e⟩ : Member)) =
            readable (own_members members) := by
        clear hnames hordered hentries hsorted hnodup
        generalize packer.tar members = payload at hall ⊢
        induction hall with
        | nil => rfl
        | @cons e m entries members h hall ih =>
            obtain ⟨hname, hfile, hbody⟩ := h
            by_cases hshim : m.1 = SHIM_MODULE
            · have hskip : ¬(e.isfile ∧ e.name ≠ SHIM_MODULE) := fun hkeep =>
                hkeep.2 (hname.trans hshim)
              rw [List.filter_cons_of_neg (by simpa using hskip), ih, own_members, own_members,
                List.filter_cons_of_neg (by simp [hshim])]
            · have hkeep : e.isfile ∧ e.name ≠ SHIM_MODULE := ⟨hfile, fun h => hshim (hname ▸ h)⟩
              rw [List.filter_cons_of_pos (by simpa using hkeep), List.map_cons, ih, own_members,
                own_members, List.filter_cons_of_pos (by simp [hshim]), hname, hbody]
              rfl
      rw [members_of, archive, tar_members, hentries]
      simp only [Except.map, hordered]
      exact congrArg Except.ok hmembers

/-! ## The destination -/

/-- A destination with room for files of these names: each has a place of its own
below it, and nothing lies there yet. -/
structure Takes (place : Destination) (disk : Disk) (names : List PyStr) (spot : PyStr → Path) :
    Prop where
  expands : place.unexpanded = none
  below : ∀ now, ∀ name ∈ names, place.Below now name (spot name)
  asked : ∀ now, ∀ name ∈ names, place.unasked now (spot name) = none
  apart : ∀ name ∈ names, ∀ other ∈ names, spot name = spot other → name = other
  vacant : ∀ name ∈ names, disk.entry (spot name) = none
  free : ∀ now, ∀ name ∈ names, place.isDir now (spot name) = false
  writable : ∀ now, ∀ name ∈ names, place.obstacle now (spot name) = none

section Restore

variable {place : Destination} {disk : Disk} {spot : PyStr → Path} {force : Bool}

theorem restore_vacant {name : PyStr} {body : Bytes} (h : Takes place disk [name] spot) :
    restore place force disk ⟨name, .ok body⟩ = (disk.write (spot name) body, .ok name) := by
  have hname := List.mem_singleton_self name
  have hblocked : ¬(((disk.entry (spot name)).isSome ∨ place.isDir disk (spot name) = true) ∧
      ¬force = true) := by
    rw [h.vacant name hname, h.free disk name hname]
    simp
  obtain ⟨hlocated, base, hbase, hbelow⟩ := h.below disk name hname
  simp only [restore, write_member, hlocated, hbase, hbelow, not_true, if_false,
    h.asked disk name hname, if_neg hblocked, h.writable disk name hname]

/-- Every member is written to its place, and no other file changes. -/
theorem restore_all {members : List (PyStr × Bytes)} (hnodup : (members.map Prod.fst).Nodup)
    (h : Takes place disk (members.map Prod.fst) spot) : ∃ left,
      forEach (restore place force) disk (readable members) = (left, .ok (members.map Prod.fst)) ∧
      (∀ m ∈ members, left.file (spot m.1) = some m.2) ∧
      ∀ path, (∀ m ∈ members, path ≠ spot m.1) → left.file path = disk.file path := by
  induction members generalizing disk with
  | nil => exact ⟨disk, rfl, fun m hm => absurd hm List.not_mem_nil, fun path _ => rfl⟩
  | cons m members ih =>
      rw [List.map_cons, List.nodup_cons] at hnodup
      have hmem : m.1 ∈ (m :: members).map Prod.fst := List.mem_map_of_mem List.mem_cons_self
      have hlater : ∀ name ∈ members.map Prod.fst, name ∈ (m :: members).map Prod.fst := fun name hn =>
        List.mem_cons_of_mem _ hn
      have hothers : ∀ name ∈ members.map Prod.fst, spot name ≠ spot m.1 := fun name hn hsame =>
        hnodup.1 (h.apart name (hlater name hn) m.1 hmem hsame ▸ hn)
      have hfirst : Takes place disk [m.1] spot := by
        have hone : ∀ name ∈ [m.1], name ∈ (m :: members).map Prod.fst := fun name hn =>
          List.mem_singleton.mp hn ▸ hmem
        exact ⟨h.expands, fun now name hn => h.below now name (hone name hn),
          fun now name hn => h.asked now name (hone name hn),
          fun name hn other ho => h.apart name (hone name hn) other (hone other ho),
          fun name hn => h.vacant name (hone name hn), fun now name hn => h.free now name (hone name hn),
          fun now name hn => h.writable now name (hone name hn)⟩
      have hrest : Takes place (disk.write (spot m.1) m.2) (members.map Prod.fst) spot := by
        refine ⟨h.expands, fun now name hn => h.below now name (hlater name hn),
          fun now name hn => h.asked now name (hlater name hn),
          fun name hn other ho => h.apart name (hlater name hn) other (hlater other ho),
          fun name hn => ?_, fun now name hn => h.free now name (hlater name hn),
          fun now name hn => h.writable now name (hlater name hn)⟩
        rw [Directory.entry_write_of_ne (hothers name hn)]
        exact h.vacant name (hlater name hn)
      obtain ⟨left, hrun, hwritten, hkept⟩ := ih hnodup.2 hrest
      refine ⟨left, ?_, ?_, ?_⟩
      · have hstep : restore place force disk ⟨m.1, .ok m.2⟩ = _ := restore_vacant hfirst
        rw [readable, List.map_cons, ForEach.forEach_cons_ok hstep]
        rw [readable] at hrun
        rw [hrun]
        rfl
      · intro m' hm'
        rcases List.mem_cons.mp hm' with rfl | hm'
        · rw [hkept (spot m'.1) fun m hm hsame =>
            hothers m.1 (List.mem_map_of_mem hm) hsame.symm, Directory.file_write_self]
        · exact hwritten m' hm'
      · intro path hpath
        rw [List.forall_mem_cons] at hpath
        rw [hkept path hpath.2]
        refine Directory.file_write_of_entry_ne hpath.1 ?_ m.2
        rw [h.vacant m.1 hmem]
        exact (Classical.em (disk.entry path = none)).symm

end Restore

end PwshPy.Packing
