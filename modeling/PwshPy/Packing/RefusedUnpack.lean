import PwshPy.Packing.Unpack
import PwshPy.Bytes.Base64

/-! # What a refused unpack leaves

The members of a pack are looked at and written one by one, so a member that is
refused ends a loop whose earlier turns stay done. What is left is what the
members in front of it alone would leave.
-/

namespace PwshPy.Packing

open PathFinder (Path)
open ForEach (forEach)
open Storage (Directory)

/-- A member would be written outside the destination, or over a file without `force`. -/
def Stop.refuses : Stop → Bool
  | .outside _ | .exists_ _ => true
  | _ => false

/-- The member of this name is found below the destination. -/
def Destination.Below (place : Destination) (disk : Disk) (name : PyStr) (spot : Path) : Prop :=
  place.locate disk name = .ok spot ∧ ∃ base, place.base disk = .ok base ∧ base <+: spot

/-- What asking for the place of a member raises, but for the `ValueError` that is
taken for a place outside. -/
def Destination.refusal (place : Destination) (disk : Disk) (name : PyStr) : Option PathError :=
  match place.locate disk name with
  | .error exc => some exc
  | .ok spot =>
      match place.base disk with
      | .error .valueError => none
      | .error exc => some exc
      | .ok base => if base <+: spot then place.unasked disk spot else none

section

variable {place : Destination} {force : Bool} {disk disk' : Disk} {member : Member}

/-- What writing a member does: it is refused, its place cannot be asked for, the
write fails, or its file is written. -/
theorem write_member_cases (place : Destination) (force : Bool) (disk : Disk) (name : PyStr)
    (body : Bytes) :
    (∃ stop : Stop, stop.refuses = true ∧ place.refusal disk name = none ∧
        write_member place force disk name body = (disk, .error stop)) ∨
      (∃ exc, place.refusal disk name = some exc ∧
        write_member place force disk name body = (disk, .error (.library exc.library))) ∨
      ∃ spot, place.Below disk name spot ∧ place.refusal disk name = none ∧
        ((∃ exc left, write_member place force disk name body =
            (left, .error (.cannot_write spot exc))) ∨
          write_member place force disk name body = (disk.write spot body, .ok ())) := by
  unfold write_member Destination.refusal Destination.Below
  cases hspot : place.locate disk name with
  | error exc => exact Or.inr (Or.inl ⟨exc, rfl, rfl⟩)
  | ok spot =>
      cases hbase : place.base disk with
      | error exc =>
          cases exc with
          | valueError => exact Or.inl ⟨.outside name, rfl, rfl, rfl⟩
          | osError => exact Or.inr (Or.inl ⟨.osError, rfl, rfl⟩)
          | runtimeError => exact Or.inr (Or.inl ⟨.runtimeError, rfl, rfl⟩)
      | ok base =>
          by_cases hbelow : base <+: spot
          · simp only [hbelow, not_true, if_false, if_true]
            cases place.unasked disk spot with
            | some exc => exact Or.inr (Or.inl ⟨exc, rfl, rfl⟩)
            | none =>
                dsimp only
                split
                · exact Or.inl ⟨.exists_ spot, rfl, rfl, rfl⟩
                · refine Or.inr (Or.inr ⟨spot, ⟨rfl, base, rfl, hbelow⟩, rfl, ?_⟩)
                  cases place.obstacle disk spot with
                  | none => exact Or.inr rfl
                  | some obstacle => exact Or.inl ⟨obstacle.1, obstacle.2, rfl⟩
          · simp only [hbelow, not_false_eq_true, if_true, if_false]
            exact Or.inl ⟨.outside name, rfl, trivial, rfl⟩

/-- A member that is restored lies below the destination, and its file is all
that is written. -/
theorem restore_ok {name : PyStr} (h : restore place force disk member = (disk', .ok name)) :
    ∃ body spot, member.body = .ok body ∧ place.Below disk member.name spot ∧
      disk' = disk.write spot body := by
  unfold restore at h
  cases hbody : member.body with
  | error exc =>
      rw [hbody] at h
      cases h
  | ok body =>
      rw [hbody] at h
      obtain ⟨stop, -, -, hwrite⟩ | ⟨exc, -, hwrite⟩ | ⟨spot, hbelow, -, hwrite⟩ :=
        write_member_cases place force disk member.name body
      · simp only [hwrite] at h
        cases h
      · simp only [hwrite] at h
        cases h
      · obtain ⟨exc, left, hwrite⟩ | hwrite := hwrite
        · simp only [hwrite] at h
          cases h
        · simp only [hwrite] at h
          cases h
          exact ⟨body, spot, rfl, hbelow, rfl⟩

/-- A member that is refused writes nothing. -/
theorem restore_refused {stop : Stop} (hstop : stop.refuses = true)
    (h : restore place force disk member = (disk', .error stop)) : disk' = disk := by
  unfold restore at h
  cases hbody : member.body with
  | error exc =>
      rw [hbody] at h
      cases h
      rfl
  | ok body =>
      rw [hbody] at h
      obtain ⟨refused, -, -, hwrite⟩ | ⟨exc, -, hwrite⟩ | ⟨spot, -, -, hwrite⟩ :=
        write_member_cases place force disk member.name body
      · simp only [hwrite] at h
        cases h
        rfl
      · simp only [hwrite] at h
        cases h
        rfl
      · obtain ⟨exc, left, hwrite⟩ | hwrite := hwrite
        · simp only [hwrite] at h
          cases h
          cases hstop
        · simp only [hwrite] at h
          cases h

/-- The path is the file of one of these members, or another name of it; and
that file lay below the destination when it was written. -/
def WrittenBy (place : Destination) (force : Bool) (start : Disk) (members : List Member)
    (left : Disk) (path : Path) : Prop :=
  ∃ earlier member later mid names spot, members = earlier ++ member :: later ∧
    forEach (restore place force) start earlier = (mid, .ok names) ∧
    place.Below mid member.name spot ∧
    (path = spot ∨ (left.entry path).isSome = true ∧ left.entry path = left.entry spot)

/-- Restoring members changes no other file. -/
theorem changed_file_writtenBy {members : List Member} {names : List PyStr}
    (h : forEach (restore place force) disk members = (disk', .ok names)) (path : Path)
    (hchanged : disk'.file path ≠ disk.file path) : WrittenBy place force disk members disk' path := by
  revert path
  refine ForEach.forEach_ok_induct (P := fun members left => ∀ path, left.file path ≠ disk.file path →
    WrittenBy place force disk members left path) ?_ ?_ h
  · intro path hpath
    exact absurd rfl hpath
  · intro before member mid left names name hbefore ih hmember path hpath
    obtain ⟨body, spot, -, hbelow, rfl⟩ := restore_ok hmember
    by_cases hsame : (mid.write spot body).file path = mid.file path
    · rw [hsame] at hpath
      obtain ⟨earlier, other, later, state, done, place', hsplit, hearlier, hother, hname⟩ :=
        ih path hpath
      refine ⟨earlier, other, later ++ [member], state, done, place', by simp [hsplit], hearlier,
        hother, ?_⟩
      refine hname.imp_right fun hlink => ?_
      have hotherSome : (mid.entry place').isSome = true := by
        rw [← hlink.2]
        exact hlink.1
      rw [Directory.entry_write_of_isSome hlink.1, Directory.entry_write_of_isSome hotherSome]
      exact hlink
    · refine ⟨before, member, [], mid, names, spot, rfl, hbefore, hbelow, ?_⟩
      by_cases hpathEq : path = spot
      · exact Or.inl hpathEq
      · refine Or.inr ?_
        have hentry : mid.entry path = mid.entry spot ∧ mid.entry path ≠ none := by
          by_contra hnot
          refine hsame (Directory.file_write_of_entry_ne hpathEq ?_ body)
          tauto
        have hsome : (mid.entry path).isSome = true := Option.isSome_iff_ne_none.mpr hentry.2
        rw [Directory.entry_write_of_isSome hsome,
          Directory.entry_write_of_isSome (by rw [← hentry.1]; exact hsome)]
        exact ⟨hsome, hentry.1⟩

end

/-- What a refused unpack leaves is what the members in front of the refused one
leave when they are restored alone: it writes nothing, nor do the members behind
it, and each file that changed is one of theirs, written below the destination. -/
theorem refused_unpack_keeps (lib : Library) (place : Destination) (source : PyStr)
    (file : Source) (force : Bool) (disk disk' : Disk) (stop : Stop) (hstop : stop.refuses = true)
    (h : unpack_script lib place source file force disk = (disk', .error (.stopped stop))) :
    ∃ text payload fmt members before member after names,
      open_pack lib source file = .ok (text, payload, fmt) ∧
      members_of lib payload fmt = .ok members ∧ members = before ++ member :: after ∧
      forEach (restore place force) disk before = (disk', .ok names) ∧
      restore place force disk' member = (disk', .error stop) ∧
      (before = [] → disk' = disk) ∧
      ∀ path, disk'.file path ≠ disk.file path → WrittenBy place force disk before disk' path := by
  unfold unpack_script at h
  cases hopen : open_pack lib source file with
  | error failure =>
      rw [hopen] at h
      cases h
      exact absurd hopen open_pack_not_stopped
  | ok opened =>
      obtain ⟨text, payload, fmt⟩ := opened
      have hextract : extract lib payload place fmt force disk = (disk', .error stop) := by
        simp only [hopen] at h
        cases hexpand : place.unexpanded with
        | some exc =>
            rw [hexpand] at h
            cases h
        | none =>
            rw [hexpand] at h
            cases hrun : extract lib payload place fmt force disk with
            | mk left result =>
                simp only [hrun] at h
                cases result with
                | error stop' =>
                    cases h
                    rfl
                | ok written => cases h
      unfold extract at hextract
      cases hmembers : members_of lib payload fmt with
      | error exc =>
          rw [hmembers] at hextract
          cases hextract
          cases hstop
      | ok members =>
          rw [hmembers] at hextract
          obtain ⟨before, member, after, mid, names, hsplit, hbefore, hmember⟩ :=
            ForEach.forEach_error_iff.mp hextract
          have hleft : disk' = mid := restore_refused hstop hmember
          subst hleft
          refine ⟨text, payload, fmt, members, before, member, after, names, rfl, hmembers, hsplit,
            hbefore, hmember, ?_, changed_file_writtenBy hbefore⟩
          intro hnil
          rw [hnil] at hbefore
          cases hbefore
          rfl

/-! ## A file in the way of the second member -/

/-- A zip of the empty files `a.py` and `b.py`. -/
def TWO_FILES : Bytes :=
  [80, 75, 3, 4, 20, 0, 0, 0, 0, 0, 0, 0, 33, 0, 0, 0, 0, 0, 0, 0, 0, 0, 0, 0, 0, 0, 4,
    0, 0, 0, 97, 46, 112, 121, 80, 75, 3, 4, 20, 0, 0, 0, 0, 0, 0, 0, 33, 0, 0, 0, 0, 0,
    0, 0, 0, 0, 0, 0, 0, 0, 4, 0, 0, 0, 98, 46, 112, 121, 80, 75, 1, 2, 20, 3, 20, 0, 0,
    0, 0, 0, 0, 0, 33, 0, 0, 0, 0, 0, 0, 0, 0, 0, 0, 0, 0, 0, 4, 0, 0, 0, 0, 0, 0, 0, 0,
    0, 0, 0, 164, 1, 0, 0, 0, 0, 97, 46, 112, 121, 80, 75, 1, 2, 20, 3, 20, 0, 0, 0, 0, 0,
    0, 0, 33, 0, 0, 0, 0, 0, 0, 0, 0, 0, 0, 0, 0, 0, 4, 0, 0, 0, 0, 0, 0, 0, 0, 0, 0, 0,
    164, 1, 34, 0, 0, 0, 98, 46, 112, 121, 80, 75, 5, 6, 0, 0, 0, 0, 2, 0, 2, 0, 100, 0,
    0, 0, 68, 0, 0, 0, 0, 0]

/-- The readers, as they answer for this zip. -/
def twoFilesLibrary : Library where
  decode := fun data => data.map UInt8.toNat
  b64decode := Bytes.b64decode
  sha256 := fun _ => []
  namelist := fun payload =>
    if payload.take 4 = [0x50, 0x4b, 3, 4] then .ok [py "a.py", py "b.py"] else .error .badZipFile
  read := fun _ _ => .ok []
  getmembers := fun _ => .error .tarError
  extractfile := fun _ _ => .error .tarError

def twoFilesPack : Source :=
  .holding ((unlines [PAYLOAD_OPEN, Bytes.base64 TWO_FILES, PAYLOAD_CLOSE]).map Nat.toUInt8)

/-- The directory `/out`, without links. -/
def outDirectory : Destination where
  unexpanded := none
  base := fun _ => .ok [py "out"]
  locate := fun _ name => .ok [py "out", name]
  isDir := fun _ path => path == [py "out"]
  unasked := fun _ _ => none
  obstacle := fun _ _ => none

/-- `/out/b.py` is there already. -/
def editedDisk : Disk where
  links := [([py "out", py "b.py"], 0)]
  body := fun _ => [0x78]
  fresh := 1
  made := by decide

/-- The unpack of the two files into `/out`. -/
def refusedRun : Disk × Except Failure Unpacked :=
  unpack_script twoFilesLibrary outDirectory (py "p.ps1") twoFilesPack false editedDisk

theorem refusedRun_eq :
    refusedRun = (refusedRun.1, .error (.stopped (.exists_ [py "out", py "b.py"]))) := by
  have hstops : refusedRun.2 = .error (.stopped (.exists_ [py "out", py "b.py"])) := by
    decide +kernel
  exact Prod.mk.eta.symm.trans (congrArg (Prod.mk refusedRun.1) hstops)

/-- `b.py` is refused when `a.py` is written. -/
theorem refused_unpack_creates_file :
    refusedRun = (refusedRun.1, .error (.stopped (.exists_ [py "out", py "b.py"]))) ∧
    outDirectory.Below editedDisk (py "a.py") [py "out", py "a.py"] ∧
    editedDisk.file [py "out", py "a.py"] = none ∧
    refusedRun.1.file [py "out", py "a.py"] = some [] := by
  refine ⟨refusedRun_eq, ⟨rfl, [py "out"], rfl, ?_⟩, ?_, ?_⟩
  · decide
  · decide
  · decide +kernel

theorem refused_unpack_keeps_two_files : ∃ before names,
    forEach (restore outDirectory false) editedDisk before = (refusedRun.1, .ok names) ∧
    ∀ path, refusedRun.1.file path ≠ editedDisk.file path →
      WrittenBy outDirectory false editedDisk before refusedRun.1 path := by
  obtain ⟨-, -, -, -, before, -, -, names, -, -, -, hbefore, -, -, hchanged⟩ :=
    refused_unpack_keeps twoFilesLibrary outDirectory (py "p.ps1") twoFilesPack false editedDisk
      refusedRun.1 (.exists_ [py "out", py "b.py"]) rfl refusedRun_eq
  exact ⟨before, names, hbefore, hchanged⟩

end PwshPy.Packing
