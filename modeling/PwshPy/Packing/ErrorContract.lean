import PwshPy.Packing.PackErrors
import PwshPy.Packing.RefusedUnpack

/-! # When packing and unpacking raise a `PackError` alone

`pack_script` maps a `SyntaxError`, a file it cannot read and one it may not
write. A NUL in a source, a path that cannot be asked for, a name the archive or
the runner has no spelling for and any other failed write reach the caller as the
library raised them. So do, from `unpack_script`, a damaged member that is no
`BadZipFile` and a member's name that has no place at all.
-/

namespace PwshPy.Packing

open PathFinder (Path)
open Files (Clean encode normalize_newlines encode_eq_none_iff encode_isSome_iff clean_normalize)
open ForEach (forEach)

/-! ## Packing -/

section Pack

variable {packer : Packer} {tree : SourceTree} {options : PackOptions} {entry : Path} {out : Output}
  {disk : Disk}

theorem write_runner_spec (out : Output) (disk : Disk) (runner : PyStr) (bom : Bool) :
    (OnlyPackError (write_runner out disk runner bom).2 ↔
      (out.mkdir = none → Clean runner ∧ ∀ left, out.obstacle disk ≠ some (false, left))) ∧
    ∀ left e, write_runner out disk runner bom = (left, .error e) →
      left = disk ∨ ∃ denied, out.obstacle disk = some (denied, left) := by
  unfold write_runner
  cases hmkdir : out.mkdir with
  | some exc =>
      refine ⟨iff_of_true (onlyPackError_error.mpr rfl) (by simp), fun left e h => ?_⟩
      cases h
      exact Or.inl rfl
  | none =>
      simp only [true_implies]
      cases hdata : encode .utf_8 (normalize_newlines runner [LF]) with
      | none =>
          rw [encode_eq_none_iff, clean_normalize] at hdata
          refine ⟨iff_of_false (by simp [onlyPackError_error, uncaught]) (by simp [hdata]),
            fun left e h => ?_⟩
          cases h
          exact Or.inl rfl
      | some data =>
          have hclean : Clean runner := by
            rw [← clean_normalize, ← encode_isSome_iff, hdata]
            rfl
          cases hobstacle : out.obstacle disk with
          | none =>
              refine ⟨iff_of_true (onlyPackError_ok _) ⟨hclean, by simp⟩, fun left e h => ?_⟩
              cases h
          | some obstacle =>
              obtain ⟨denied, left⟩ := obstacle
              cases denied with
              | true =>
                  refine ⟨iff_of_true (onlyPackError_error.mpr rfl) ⟨hclean, by simp⟩,
                    fun left' e h => ?_⟩
                  cases h
                  exact Or.inr ⟨true, rfl⟩
              | false =>
                  refine ⟨iff_of_false (by simp [onlyPackError_error, uncaught])
                    fun h => h.2 left rfl, fun left' e h => ?_⟩
                  cases h
                  exact Or.inr ⟨false, rfl⟩

/-- The members are prepared, the archive can hold each of them, and a runner that is
rendered can be encoded and meets no obstacle but a denied access. -/
structure Packable (packer : Packer) (tree : SourceTree) (options : PackOptions) (entry : Path)
    (out : Output) (disk : Disk) : Prop where
  prepares : Prepares packer tree options entry out
  members : ∀ prepared, prepare packer tree options entry out disk = .ok prepared →
    ∀ m ∈ prepared.members, Storable options.format m
  runner : ∀ prepared, prepare packer tree options entry out disk = .ok prepared →
    Renders packer options.format prepared → out.mkdir = none →
      (Clean prepared.entry_arc ∧ (∀ v ∈ options.with_packages, Clean v) ∧
        ∀ m ∈ prepared.members, Clean m.1) ∧ ∀ left, out.obstacle disk ≠ some (false, left)

/-- Where the members are not prepared, nothing more is asked. -/
theorem packable_iff_of_error {e : PyError}
    (hprepared : prepare packer tree options entry out disk = .error e) :
    Packable packer tree options entry out disk ↔ Prepares packer tree options entry out := by
  constructor
  · exact Packable.prepares
  · intro hprepares
    refine ⟨hprepares, fun prepared h => ?_, fun prepared h => ?_⟩
    · rw [hprepared] at h
      cases h
    · rw [hprepared] at h
      cases h

theorem packable_iff_of_ok {prepared : Prepared}
    (hprepared : prepare packer tree options entry out disk = .ok prepared) :
    Packable packer tree options entry out disk ↔
      Prepares packer tree options entry out ∧ (∀ m ∈ prepared.members, Storable options.format m) ∧
        (Renders packer options.format prepared → out.mkdir = none →
          (Clean prepared.entry_arc ∧ (∀ v ∈ options.with_packages, Clean v) ∧
            ∀ m ∈ prepared.members, Clean m.1) ∧ ∀ left, out.obstacle disk ≠ some (false, left)) := by
  constructor
  · intro h
    exact ⟨h.prepares, h.members prepared hprepared, h.runner prepared hprepared⟩
  · intro h
    obtain ⟨hprepares, hmembers, hrunner⟩ := h
    refine ⟨hprepares, fun prepared' h' => ?_, fun prepared' h' => ?_⟩
    · rw [hprepared] at h'
      cases h'
      exact hmembers
    · rw [hprepared] at h'
      cases h'
      exact hrunner

theorem onlyPackError_pack_script_iff (hdecodes : packer.Decodes) :
    OnlyPackError (pack_script packer tree entry out options disk).2 ↔
      Packable packer tree options entry out disk := by
  have hprepare : OnlyPackError (prepare packer tree options entry out disk) ↔
      Prepares packer tree options entry out := onlyPackError_prepare_iff hdecodes
  unfold pack_script
  cases hprepared : prepare packer tree options entry out disk with
  | error e =>
      rw [packable_iff_of_error hprepared, ← hprepare, hprepared]
      exact onlyPackError_error.trans onlyPackError_error.symm
  | ok prepared =>
      have hprepares := hprepare.mp (hprepared ▸ onlyPackError_ok prepared)
      obtain ⟨hstorable, huncaught⟩ := build_spec packer options.format prepared.members
      rw [packable_iff_of_ok hprepared, and_iff_right hprepares, ← hstorable]
      dsimp only
      cases hbuild : build packer options.format prepared.members with
      | error e =>
          refine iff_of_false (fun h => huncaught e hbuild (onlyPackError_error.mp h)) fun h => ?_
          obtain ⟨payload, hpayload⟩ := h.1
          cases hpayload
      | ok payload =>
          obtain ⟨hmapped, hrenders, hclean⟩ := render_payload_spec hdecodes options prepared payload
          rw [and_iff_right ⟨payload, rfl⟩]
          dsimp only
          cases hrunner : render_payload packer options prepared payload with
          | error e =>
              refine iff_of_true (onlyPackError_error.mpr (hmapped e hrunner)) fun h => ?_
              obtain ⟨runner, hok⟩ := hrenders.mpr h
              rw [hrunner] at hok
              cases hok
          | ok runner =>
              have hwrite := (write_runner_spec out disk runner (options.format == .ps1)).1
              rw [hclean runner hrunner] at hwrite
              rw [forall_prop_of_true (hrenders.mp ⟨runner, hrunner⟩), ← hwrite]
              dsimp only
              cases write_runner out disk runner (options.format == .ps1) with
              | mk left result =>
                  cases result with
                  | error e => exact onlyPackError_error.trans onlyPackError_error.symm
                  | ok _ => exact iff_of_true (onlyPackError_ok _) (onlyPackError_ok _)

/-- What is raised before the runner is written leaves the disk as it was. -/
theorem pack_script_keeps {left : Disk} {e : PyError}
    (h : pack_script packer tree entry out options disk = (left, .error e)) :
    left = disk ∨ ∃ denied, out.obstacle disk = some (denied, left) := by
  unfold pack_script at h
  split at h
  · cases h
    exact Or.inl rfl
  · split at h
    · cases h
      exact Or.inl rfl
    · split at h
      · cases h
        exact Or.inl rfl
      · split at h
        · rename_i hwrite
          cases h
          exact (write_runner_spec _ _ _ _).2 _ _ hwrite
        · cases h

end Pack

/-! ## Unpacking -/

/-- Nothing but a `PackError` reaches the caller of an unpack. -/
def OnlyPackRaised {α : Type} (source target : PyStr) (result : Except Failure α) : Prop :=
  ∀ f, result = .error f → ∃ e, f.raised source target = .pack e

section Unpack

variable {lib : Library} {place : Destination} {source target : PyStr} {file : Source} {force : Bool}
  {disk left : Disk}

theorem raised_pack_iff {f : Failure} :
    (∃ e, f.raised source target = .pack e) ↔
      (∀ exc, f ≠ .path exc) ∧ ∀ exc, f = .stopped (.library exc) → exc.caught = true := by
  cases f with
  | pack e => exact iff_of_true ⟨e, rfl⟩ ⟨fun exc h => (nomatch h), fun exc h => nomatch h⟩
  | path exc => exact iff_of_false (fun h => nomatch h) fun h => h.1 exc rfl
  | stopped stop =>
      refine Iff.trans ?_ (and_iff_right fun exc h => nomatch h).symm
      cases stop with
      | library exc =>
          by_cases hcaught : exc.caught = true
          · have hraised : ∃ e, (Failure.stopped (.library exc)).raised source target = .pack e := by
              simp only [Failure.raised, hcaught, if_true]
              exact ⟨_, rfl⟩
            refine iff_of_true hraised fun exc' h => ?_
            cases h
            exact hcaught
          · refine iff_of_false (fun h => ?_) fun h => hcaught (h exc rfl)
            obtain ⟨e, he⟩ := h
            simp only [Failure.raised, hcaught, Bool.false_eq_true, if_false] at he
            cases he
      | _ => exact iff_of_true ⟨_, rfl⟩ fun exc h => nomatch h

/-- What a library raises of a member: when it is read, or when its place is asked for. -/
def Member.Raises (place : Destination) (now : Disk) (member : Member) (exc : LibraryError) : Prop :=
  member.body = .error exc ∨ ∃ body refused, member.body = .ok body ∧
    place.refusal now member.name = some refused ∧ exc = refused.library

/-- Of all that ends the restoring of a member, this alone is left to the library. -/
theorem restore_library_iff {member : Member} {exc : LibraryError} :
    restore place force disk member = (left, .error (.library exc)) ↔
      left = disk ∧ member.Raises place disk exc := by
  unfold restore Member.Raises
  cases hbody : member.body with
  | error exc' =>
      constructor
      · intro h
        cases h
        exact ⟨rfl, Or.inl rfl⟩
      · intro h
        obtain ⟨rfl, hexc | ⟨body, refused, hbody', -⟩⟩ := h
        · cases hexc
          rfl
        · cases hbody'
  | ok body =>
      simp only [reduceCtorEq, Except.ok.injEq, exists_eq_left', exists_and_left, false_or]
      obtain ⟨stop, hstop, hnone, hwrite⟩ | ⟨refused, hsome, hwrite⟩ | ⟨spot, -, hnone, hwrite⟩ :=
        write_member_cases place force disk member.name body
      · simp only [hwrite, hnone]
        refine iff_of_false (fun h => ?_) (by simp)
        cases h
        cases hstop
      · simp only [hwrite, hsome, Prod.mk.injEq, Except.error.injEq, Stop.library.injEq,
          Option.some.injEq, exists_eq_left', eq_comm]
      · rw [hnone]
        refine iff_of_false (fun h => ?_) (by simp)
        obtain ⟨exc', left', hwrite⟩ | hwrite := hwrite
        · simp only [hwrite] at h
          cases h
        · simp only [hwrite] at h
          cases h

/-- Of the payload and of its members nothing is raised that the `except` clause does
not name. -/
structure Readable (lib : Library) (place : Destination) (force : Bool) (disk : Disk)
    (payload : Bytes) (fmt : RunnerFormat) : Prop where
  opened : ∀ exc, members_of lib payload fmt = .error exc → exc.caught = true
  members : ∀ before member after, members_of lib payload fmt = .ok (before ++ member :: after) →
    ∀ mid names, forEach (restore place force) disk before = (mid, .ok names) →
      ∀ exc, member.Raises place mid exc → exc.caught = true

theorem onlyPackRaised_extract_iff {payload : Bytes} {fmt : RunnerFormat} :
    (∀ exc, (extract lib payload place fmt force disk).2 = .error (.library exc) → exc.caught = true) ↔
      Readable lib place force disk payload fmt := by
  unfold extract
  cases hmembers : members_of lib payload fmt with
  | error exc =>
      constructor
      · intro h
        refine ⟨fun exc' h' => ?_, fun before member after h' => ?_⟩
        · rw [hmembers] at h'
          cases h'
          exact h exc rfl
        · rw [hmembers] at h'
          cases h'
      · intro h exc' h'
        cases h'
        exact h.opened exc hmembers
  | ok members =>
      constructor
      · intro h
        refine ⟨fun exc h' => ?_, fun before member after h' mid names hbefore exc hraises => ?_⟩
        · rw [hmembers] at h'
          cases h'
        · rw [hmembers] at h'
          cases h'
          have hlast : restore place force mid member = (mid, .error (.library exc)) :=
            restore_library_iff.mpr ⟨rfl, hraises⟩
          have hrun := ForEach.forEach_error_iff.mpr
            ⟨before, member, after, mid, names, rfl, hbefore, hlast⟩
          exact h exc (congrArg Prod.snd hrun)
      · intro h exc hrun
        have hrun : forEach (restore place force) disk members =
            ((forEach (restore place force) disk members).1, .error (.library exc)) :=
          Prod.mk.eta.symm.trans (congrArg (Prod.mk _) hrun)
        obtain ⟨before, member, after, mid, names, rfl, hbefore, hlast⟩ :=
          ForEach.forEach_error_iff.mp hrun
        exact h.members before member after hmembers mid names hbefore exc
          (restore_library_iff.mp hlast).2

/-- The pack file can be looked for, the destination is expanded where a payload is
found, and the payload is restored without an error that nothing maps. -/
structure Unpackable (lib : Library) (place : Destination) (source : PyStr) (file : Source)
    (force : Bool) (disk : Disk) : Prop where
  asked : ∀ exc, file ≠ .refused exc
  destination : ∀ opened, open_pack lib source file = .ok opened → place.unexpanded = none
  payload : ∀ text payload fmt, open_pack lib source file = .ok (text, payload, fmt) →
    Readable lib place force disk payload fmt

/-- Where no payload is found, only the pack file was asked for. -/
theorem unpackable_iff_of_error {failure : Failure}
    (hopen : open_pack lib source file = .error failure) :
    Unpackable lib place source file force disk ↔ ∀ exc, failure ≠ .path exc := by
  constructor
  · intro h exc hpath
    exact h.asked exc (open_pack_eq_path.mp (hpath ▸ hopen))
  · intro h
    refine ⟨fun exc hfile => ?_, fun opened h' => ?_, fun text payload fmt h' => ?_⟩
    · rw [open_pack_eq_path.mpr hfile] at hopen
      cases hopen
      exact h exc rfl
    · rw [hopen] at h'
      cases h'
    · rw [hopen] at h'
      cases h'

theorem unpackable_iff_of_ok {text : PyStr} {payload : Bytes} {fmt : RunnerFormat}
    (hopen : open_pack lib source file = .ok (text, payload, fmt)) :
    Unpackable lib place source file force disk ↔
      place.unexpanded = none ∧ Readable lib place force disk payload fmt := by
  constructor
  · intro h
    exact ⟨h.destination (text, payload, fmt) hopen, h.payload text payload fmt hopen⟩
  · intro h
    refine ⟨fun exc hfile => ?_, fun _ _ => h.1, fun text' payload' fmt' h' => ?_⟩
    · rw [open_pack_eq_path.mpr hfile] at hopen
      cases hopen
    · rw [hopen] at h'
      cases h'
      exact h.2

theorem onlyPackRaised_unpack_script_iff :
    OnlyPackRaised source target (unpack_script lib place source file force disk).2 ↔
      Unpackable lib place source file force disk := by
  unfold unpack_script OnlyPackRaised
  simp only [raised_pack_iff]
  cases hopen : open_pack lib source file with
  | error failure =>
      rw [unpackable_iff_of_error hopen]
      constructor
      · intro h
        exact (h failure rfl).1
      · intro h f hf
        cases hf
        refine ⟨h, fun exc hstopped => ?_⟩
        rw [hstopped] at hopen
        exact absurd hopen open_pack_not_stopped
  | ok opened =>
      rw [unpackable_iff_of_ok hopen, ← onlyPackRaised_extract_iff]
      dsimp only
      cases place.unexpanded with
      | some exc => exact iff_of_false (fun h => (h _ rfl).1 exc rfl) (by simp)
      | none =>
          rw [and_iff_right rfl]
          dsimp only
          cases extract lib opened.2.1 place opened.2.2 force disk with
          | mk left result =>
              cases result with
              | error stop =>
                  constructor
                  · intro h exc heq
                    cases heq
                    exact (h _ rfl).2 exc rfl
                  · intro h f hf
                    cases hf
                    refine ⟨fun exc hpath => ?_, fun exc hexc => ?_⟩
                    · cases hpath
                    · cases hexc
                      exact h exc rfl
              | ok names =>
                  refine iff_of_true (fun f h => ?_) fun exc h => ?_
                  · cases h
                  · cases h

end Unpack

/-! ## The contract -/

/-- `pack_script` raises nothing but a `PackError` exactly when the paths, the sources,
the members and the runner are as `Packable` says, and before the runner is written
it changes nothing; `unpack_script` exactly when the paths and the payload are as
`Unpackable` says. -/
theorem only_packError_iff (packer : Packer) (hdecodes : packer.Decodes) (tree : SourceTree)
    (options : PackOptions) (entry : Path) (out : Output) (disk : Disk) (lib : Library)
    (place : Destination) (source target : PyStr) (file : Source) (force : Bool) :
    (OnlyPackError (pack_script packer tree entry out options disk).2 ↔
      Packable packer tree options entry out disk) ∧
    (∀ left e, pack_script packer tree entry out options disk = (left, .error e) →
      left = disk ∨ ∃ denied, out.obstacle disk = some (denied, left)) ∧
    (OnlyPackRaised source target (unpack_script lib place source file force disk).2 ↔
      Unpackable lib place source file force disk) :=
  ⟨onlyPackError_pack_script_iff hdecodes, fun _ _ h => pack_script_keeps h,
    onlyPackRaised_unpack_script_iff⟩

/-! ## A damaged member -/

/-- A zip of the empty file `a.py`, whose deflated data begins with a block of no type. -/
def DAMAGED : Bytes :=
  [80, 75, 3, 4, 20, 0, 0, 0, 8, 0, 0, 0, 33, 0, 0, 0, 0, 0, 2, 0, 0, 0, 0, 0, 0, 0, 4,
    0, 0, 0, 97, 46, 112, 121, 7, 0, 80, 75, 1, 2, 20, 3, 20, 0, 0, 0, 8, 0, 0, 0, 33, 0,
    0, 0, 0, 0, 2, 0, 0, 0, 0, 0, 0, 0, 4, 0, 0, 0, 0, 0, 0, 0, 0, 0, 0, 0, 164, 1, 0, 0,
    0, 0, 97, 46, 112, 121, 80, 75, 5, 6, 0, 0, 0, 0, 1, 0, 1, 0, 50, 0, 0, 0, 36, 0, 0,
    0, 0, 0]

/-- The readers, as they answer for this zip. -/
def damagedLibrary : Library where
  decode := fun data => data.map UInt8.toNat
  b64decode := Bytes.b64decode
  sha256 := fun _ => []
  namelist := fun payload =>
    if payload.take 4 = [0x50, 0x4b, 3, 4] then .ok [py "a.py"] else .error .badZipFile
  read := fun payload _ => if payload[34]? = some 7 then .error .zlibError else .ok []
  getmembers := fun _ => .error .tarError
  extractfile := fun _ _ => .error .tarError

def damagedPack : Source :=
  .holding ((unlines [PAYLOAD_OPEN, Bytes.base64 DAMAGED, PAYLOAD_CLOSE]).map Nat.toUInt8)

def emptyDisk : Disk where
  links := []
  body := fun _ => []
  fresh := 0
  made := by decide

/-- The `zlib.error` of the member is what the caller of the unpack gets. -/
theorem damaged_member_raises_zlibError :
    (unpack_script damagedLibrary outDirectory (py "p.ps1") damagedPack false emptyDisk).2 =
      .error (.stopped (.library .zlibError)) ∧
    (Failure.stopped (.library .zlibError)).raised (py "p.ps1") (py "/out") = .library .zlibError := by
  refine ⟨?_, rfl⟩
  decide +kernel

/-! ## A source that holds a NUL -/

/-- The entry `/p/a.py` is a single NUL byte. -/
def nulTree : SourceTree := plainTree [[py "p", py "a.py"]] fun _ => .ok [0]

def nulEntry : nulTree.File := ⟨[py "p", py "a.py"], List.mem_singleton_self _⟩

/-- The packer, as its parser, its decoder and its tables answer for ASCII. -/
def asciiPacker : Packer where
  parse := fun _ => .error 0
  stdlib_module_names := []
  printable := fun c => c < 0x7f
  decode := fun data => data.map UInt8.toNat
  sha256 := fun _ => []
  zip := fun _ => []
  tar := fun _ => []
  template := fun fmt => .ok [fmt.entryLine]

theorem asciiPacker_decodes : asciiPacker.Decodes where
  decode := by
    intro data c hc
    obtain ⟨b, -, rfl⟩ := List.mem_map.mp hc
    have hb : b.toNat < 256 := b.toNat_lt
    rw [isSurrogate, Bool.and_eq_false_iff, decide_eq_false_iff_not]
    exact Or.inl (by omega)
  printable := by
    intro c hc
    rw [isSurrogate, Bool.and_eq_true, decide_eq_true_eq] at hc
    exact decide_eq_false_iff_not.mpr (by omega)
  template := by
    intro fmt lines h line hline s hs
    cases h
    obtain rfl := List.mem_singleton.mp hline
    cases fmt with
    | ps1 =>
        simp only [RunnerFormat.entryLine, List.mem_cons, Segment.text.injEq, List.not_mem_nil,
          or_false, reduceCtorEq] at hs
        exact hs ▸ Files.clean_py _
    | sh =>
        simp only [RunnerFormat.entryLine, List.mem_cons, Segment.text.injEq, List.not_mem_nil,
          or_false, reduceCtorEq] at hs
        exact hs ▸ Files.clean_py _

def nulOptions : PackOptions where
  incl := []
  with_packages := []
  root := none
  format := .ps1
  force := false

def nulOutput : Output where
  text := py "a.ps1"
  unexpanded := none
  resolved := [py "p", py "a.ps1"]
  unresolved := none
  isDir := false
  unasked := none
  mkdir := none
  obstacle := fun _ => none

theorem only_packError_iff_nul :
    ¬OnlyPackError
      (pack_script asciiPacker nulTree [py "p", py "a.py"] nulOutput nulOptions emptyDisk).2 := by
  rw [(only_packError_iff asciiPacker asciiPacker_decodes nulTree nulOptions [py "p", py "a.py"]
    nulOutput emptyDisk damagedLibrary outDirectory (py "p.ps1") (py "/out") damagedPack false).1]
  intro h
  have hnul : HoldsNul asciiPacker nulTree nulEntry := ⟨[0], 0, rfl, rfl, List.mem_singleton_self 0⟩
  have hmeets : MeetsUnmapped asciiPacker nulTree [py "p"] nulEntry :=
    ⟨nulEntry, ⟨[], [], Relation.ReflTransGen.refl, List.not_mem_nil⟩, Or.inl hnul⟩
  exact (h.prepares.sources nulEntry [py "p"] rfl).walk hmeets

end PwshPy.Packing
