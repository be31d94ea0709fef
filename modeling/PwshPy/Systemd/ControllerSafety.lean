import PwshPy.Systemd.Controller

/-! # What the verbs may touch

Each operation has one specification. Reads leave everything as it was; an effect is
logged with the files it met, so the calls are safe when every effect they make is
allowed at its moment (`During`).
-/

namespace PwshPy.Systemd

open Effects (Triple)

/-! ## Links -/

namespace Files

theorem follow_mono {files : Files} {n m : Nat} {path p : PyStr} (hle : n ≤ m)
    (h : files.follow n path = some p) : files.follow m path = some p := by
  induction n generalizing m path with
  | zero => cases h
  | succ n ih =>
      obtain ⟨m, rfl⟩ := Nat.exists_eq_add_of_le' (Nat.le_of_lt_succ (Nat.lt_succ_of_le hle))
      rw [← Nat.add_assoc, follow] at *
      split
      · rename_i target htarget
        rw [htarget] at h
        exact ih (by omega) h
      · rename_i hnone
        split at h
        · rename_i target htarget
          exact absurd htarget (hnone target)
        · exact h

/-- The end of a chain is no link. -/
theorem isLink_of_follow {files : Files} {n : Nat} {path p : PyStr}
    (h : files.follow n path = some p) : files.isLink p = false := by
  induction n generalizing path with
  | zero => cases h
  | succ n ih =>
      rw [follow] at h
      split at h
      · exact ih h
      · rename_i hnone
        cases h
        rw [isLink]
        split
        · rename_i target htarget
          exact absurd htarget (hnone target)
        · rfl

/-- Writing what a path leads to changes no chain. -/
theorem follow_write (files : Files) (path : PyStr) (text : Option PyStr) (n : Nat) (q : PyStr) :
    (files.write path text).follow n q = files.follow n q := by
  cases h : files.resolve path with
  | none => simp [write, h]
  | some p =>
      have hlink := isLink_of_follow h
      have hwrite : files.write path text = fun q => if q = p then some (.file text) else files q := by
        simp [write, h]
      rw [hwrite]
      induction n generalizing q with
      | zero => rfl
      | succ n ih =>
          rw [follow, follow]
          by_cases hq : q = p
          · rw [if_pos hq, hq]
            cases hnode : files p with
            | none => rfl
            | some node =>
                cases node with
                | file t => rfl
                | link target => simp [isLink, hnode] at hlink
          · rw [if_neg hq]
            cases files q with
            | none => rfl
            | some node =>
                cases node with
                | file t => rfl
                | link target => exact ih target

/-- Without the entry `e` a chain ends where it did, or at `e`. -/
theorem follow_erase {files : Files} {e : PyStr} {n : Nat} {path p : PyStr}
    (h : (files.erase e).follow n path = some p) : p = e ∨ files.follow n path = some p := by
  induction n generalizing path with
  | zero => cases h
  | succ n ih =>
      rw [follow] at h ⊢
      by_cases hpath : path = e
      · simp only [erase, hpath, if_true] at h
        exact .inl (Option.some.inj h).symm
      · simp only [erase, if_neg hpath] at h
        split at h
        · exact ih h
        · exact .inr h

/-- A chain that ends elsewhere than the entry `e` leads does not pass it. -/
theorem follow_erase_of_ne {files : Files} {e : PyStr} {n : Nat} {path p : PyStr}
    (h : files.follow n path = some p) (hn : n ≤ 41) (hne : files.resolve e ≠ some p) :
    (files.erase e).follow n path = some p := by
  induction n generalizing path with
  | zero => cases h
  | succ n ih =>
      by_cases hpath : path = e
      · rw [hpath] at h
        exact absurd (follow_mono hn h) hne
      · rw [follow] at h ⊢
        simp only [erase, if_neg hpath]
        split
        · rename_i target htarget
          rw [htarget] at h
          exact ih h (by omega)
        · rename_i hnone
          split at h
          · rename_i target htarget
            exact absurd htarget (hnone target)
          · exact h

end Files

/-! ## Ownership -/

/-- The file of `unit` is there, can be read and carries the key. -/
def Carries (files : Files) (unit : PyStr) : Prop :=
  ∃ text, files.fileAt (unitFile unit) = some (some text) ∧ isPwshpyUnit text = true

/-- There is no file for `unit` and systemd knows no unit of that name. -/
def Free (w : World) (unit : PyStr) : Prop :=
  w.files (unitFile unit) = none ∧ w.known unit = false

/-- What the check before a registration asks for. -/
def Checked (w : World) (unit : PyStr) : Prop := Carries w.files unit ∨ Free w unit

/-- The file of `unit` is there, can be read and does not carry the key. -/
def Unmarked (files : Files) (unit : PyStr) : Prop :=
  ∃ text, files.fileAt (unitFile unit) = some (some text) ∧ isPwshpyUnit text = false

/-- `unit` is not pwshpy's: its file says so, or there is none and systemd knows the name. -/
def Taken (w : World) (unit : PyStr) : Prop :=
  Unmarked w.files unit ∨ (w.files (unitFile unit) = none ∧ w.known unit = true)

theorem Unmarked.not_carries {files : Files} {unit : PyStr} (h : Unmarked files unit) :
    ¬ Carries files unit := by
  rintro ⟨owned, hfile, howned⟩
  obtain ⟨text, htext, hmark⟩ := h
  rw [htext] at hfile
  cases hfile
  rw [hmark] at howned
  cases howned

namespace Files

theorem fileAt_of_resolve {files : Files} {path p : PyStr} (h : files.resolve path = some p) :
    files.fileAt path = match files p with
      | some (.file text) => some text
      | _ => none := by
  rw [fileAt, h]
  rfl

theorem resolve_of_none {files : Files} {path : PyStr} (h : files path = none) :
    files.resolve path = some path := by
  simp [resolve, follow, h]

theorem fileAt_of_none {files : Files} {path : PyStr} (h : files path = none) :
    files.fileAt path = none := by
  rw [fileAt_of_resolve (resolve_of_none h), h]

/-- No file and no link: there is no entry at all. -/
theorem none_of_fileAt_none {files : Files} {path : PyStr} (h : files.fileAt path = none)
    (hlink : files.isLink path = false) : files path = none := by
  cases hnode : files path with
  | none => rfl
  | some node =>
      cases node with
      | file text =>
          have hresolve : files.resolve path = some path := by simp [resolve, follow, hnode]
          rw [fileAt_of_resolve hresolve, hnode] at h
          cases h
      | link target => simp [isLink, hnode] at hlink

end Files

theorem Carries.resolve {files : Files} {unit : PyStr} (h : Carries files unit) :
    ∃ p text, files.resolve (unitFile unit) = some p ∧ files p = some (.file (some text)) ∧
      isPwshpyUnit text = true := by
  obtain ⟨text, hfile, hmark⟩ := h
  cases hresolve : files.resolve (unitFile unit) with
  | none => simp [Files.fileAt, hresolve] at hfile
  | some p =>
      rw [Files.fileAt_of_resolve hresolve] at hfile
      split at hfile
      · rename_i t hnode
        cases hfile
        exact ⟨p, text, rfl, hnode, hmark⟩
      · cases hfile

theorem carries_of_resolve {files : Files} {unit p text : PyStr}
    (h : files.resolve (unitFile unit) = some p) (hnode : files p = some (.file (some text)))
    (hmark : isPwshpyUnit text = true) : Carries files unit := by
  refine ⟨text, ?_, hmark⟩
  rw [Files.fileAt_of_resolve h, hnode]

/-- Writing one unit leaves another one that leads elsewhere as it was. -/
theorem Carries.write {files : Files} {unit other : PyStr} (h : Carries files unit)
    (hne : files.resolve (unitFile other) ≠ files.resolve (unitFile unit)) (text : Option PyStr) :
    Carries (files.write (unitFile other) text) unit := by
  obtain ⟨p, old, hp, hnode, hmark⟩ := h.resolve
  have hsame : (files.write (unitFile other) text).resolve (unitFile unit) = some p := by
    rw [← hp]
    exact Files.follow_write files _ text 41 _
  refine carries_of_resolve hsame ?_ hmark
  cases hq : files.resolve (unitFile other) with
  | none => simpa [Files.write, hq] using hnode
  | some q =>
      have hpq : p ≠ q := fun heq => hne (by rw [hq, hp, heq])
      simpa [Files.write, hq, hpq] using hnode

/-- Deleting one unit leaves another one that leads elsewhere as it was. -/
theorem Carries.erase {files : Files} {unit other : PyStr} (h : Carries files unit)
    (hne : files.resolve (unitFile other) ≠ files.resolve (unitFile unit)) :
    Carries (files.erase (unitFile other)) unit := by
  obtain ⟨p, text, hp, hnode, hmark⟩ := h.resolve
  rw [hp] at hne
  have hsame := Files.follow_erase_of_ne hp (Nat.le_refl _) hne
  refine carries_of_resolve hsame ?_ hmark
  have hpe : p ≠ unitFile other := by
    rintro rfl
    -- the entry itself would be the file both lead to
    have : files.resolve (unitFile other) = some (unitFile other) := by
      simp [Files.resolve, Files.follow, hnode]
    exact hne this
  rw [Files.erase, if_neg hpe]
  exact hnode

/-! ## Operations that change nothing -/

/-- A predicate that does not look at how many answers were taken. -/
def ClockFree (P : World → Prop) : Prop := ∀ w, P w → P { w with clock := w.clock + 1 }

section Reads

variable {P : World → Prop} (hP : ClockFree P)

include hP in
theorem ask_spec {err : Raised → World → Prop} : Triple P ask (fun _ => P) err :=
  Triple.get_bind fun w hw => Triple.bind (m := fun _ => P) (Triple.set fun _ _ => hP w hw)
    fun _ => Triple.pure fun _ hs => hs

include hP in
theorem attempt_spec (origin : Origin) :
    Triple P (attempt origin) (fun _ => P) (fun e w => P w ∧ e.origin = origin) := by
  refine Triple.bind (ask_spec hP) fun answer => ?_
  split
  · exact Triple.throw fun _ hw => ⟨hw, rfl⟩
  · exact Triple.pure fun _ hw => hw

include hP in
theorem pathExists_spec (origin : Origin) (path : PyStr) :
    Triple P (pathExists origin path)
      (fun there w => P w ∧ there = (w.files.fileAt path).isSome)
      (fun e w => P w ∧ e.origin = origin) :=
  Triple.bind (attempt_spec hP origin) fun _ =>
    Triple.get_bind fun _ hw => Triple.pure fun _ hs => by subst hs; exact ⟨hw, rfl⟩

include hP in
theorem isSymlink_spec (origin : Origin) (path : PyStr) :
    Triple P (isSymlink origin path) (fun link w => P w ∧ link = w.files.isLink path)
      (fun e w => P w ∧ e.origin = origin) :=
  Triple.bind (attempt_spec hP origin) fun _ =>
    Triple.get_bind fun _ hw => Triple.pure fun _ hs => by subst hs; exact ⟨hw, rfl⟩

include hP in
theorem loadUnit_spec (origin : Origin) (unit : PyStr) :
    Triple P (loadUnit origin unit) (fun known w => P w ∧ known = w.known unit)
      (fun e w => P w ∧ e.origin = origin) :=
  Triple.bind (attempt_spec hP origin) fun _ =>
    Triple.get_bind fun _ hw => Triple.pure fun _ hs => by subst hs; exact ⟨hw, rfl⟩

include hP in
theorem readText_spec (path : PyStr) :
    Triple P (readText path) (fun text w => P w ∧ w.files.fileAt path = some (some text))
      (fun e w => P w ∧ e.origin = .reading) := by
  refine Triple.bind (ask_spec hP) fun answer => Triple.get_bind fun w hw => ?_
  split
  · exact Triple.throw fun _ hs => hs ▸ ⟨hw, rfl⟩
  · rename_i text _ hfile
    exact Triple.pure fun _ hs => hs ▸ ⟨hw, hfile⟩
  · exact Triple.throw fun _ hs => hs ▸ ⟨hw, rfl⟩

include hP in
theorem existsOrIsSymlink_spec (origin : Origin) (path : PyStr) :
    Triple P (existsOrIsSymlink origin path)
      (fun there w => P w ∧ (there = true ↔ w.files path ≠ none))
      (fun e w => P w ∧ e.origin = origin) := by
  refine Triple.bind (pathExists_spec hP origin path) fun file => ?_
  split
  · rename_i hfile
    refine Triple.pure fun w hw => ⟨hw.1, iff_of_true rfl fun hnone => ?_⟩
    rw [hw.2, Files.fileAt_of_none hnone] at hfile
    cases hfile
  · rename_i hfile
    have hclock : ClockFree fun w => P w ∧ file = (w.files.fileAt path).isSome :=
      fun w hw => ⟨hP w hw.1, hw.2⟩
    refine (isSymlink_spec hclock origin path).weaken (fun _ h => h) ?_ fun e w h => ⟨h.1.1, h.2⟩
    rintro link w ⟨⟨hw, hsome⟩, rfl⟩
    refine ⟨hw, ⟨fun hlink hnone => ?_, fun hsomething => ?_⟩⟩
    · simp [Files.isLink, hnone] at hlink
    · by_contra hlink
      refine hsomething (Files.none_of_fileAt_none ?_ (by simpa using hlink))
      rwa [Bool.not_eq_true, hsome, Option.isSome_eq_false_iff, Option.isNone_iff_eq_none] at hfile

theorem Carries.ne_none {files : Files} {unit : PyStr} (h : Carries files unit) :
    files (unitFile unit) ≠ none := by
  intro hnone
  obtain ⟨text, hfile, -⟩ := h
  rw [Files.fileAt_of_none hnone] at hfile
  cases hfile

theorem Checked.not_taken {w : World} {unit : PyStr} (h : Checked w unit) : ¬ Taken w unit := by
  rintro (hunmarked | ⟨hnone, hknown⟩)
  · rcases h with hcarries | hfree
    · exact hunmarked.not_carries hcarries
    · obtain ⟨text, htext, -⟩ := hunmarked
      rw [Files.fileAt_of_none hfree.1] at htext
      cases htext
  · rcases h with hcarries | hfree
    · exact hcarries.ne_none hnone
    · rw [hfree.2] at hknown
      cases hknown

/-- The check gives an answer only on a file that is not there or carries the key. -/
theorem ownedUnitFile_spec (hP : ClockFree P) (unit : PyStr) :
    Triple P (ownedUnitFile unit)
      (fun owned w => P w ∧ (owned = true → Carries w.files unit) ∧
        (owned = false → w.files (unitFile unit) = none))
      (fun e w => P w ∧ (e.origin = .reading ∨ (e.origin = .ownership ∧ Unmarked w.files unit))) := by
  refine Triple.bind ((existsOrIsSymlink_spec hP .reading _).weaken (fun _ h => h) (fun _ _ h => h)
    fun e w h => ⟨h.1, .inl h.2⟩) fun there => ?_
  split
  · rename_i hthere
    have hclock : ClockFree fun w => P w ∧ (there = true ↔ w.files (unitFile unit) ≠ none) :=
      fun w hw => ⟨hP w hw.1, hw.2⟩
    refine Triple.bind ((readText_spec hclock _).weaken (fun _ h => h) (fun _ _ h => h)
      fun e w h => ⟨h.1.1, .inl h.2⟩) fun text => ?_
    split
    · rename_i hmark
      exact Triple.pure fun w hw => ⟨hw.1.1, fun _ => ⟨text, hw.2, hmark⟩, nofun⟩
    · rename_i hmark
      exact Triple.throw fun w hw => ⟨hw.1.1, .inr ⟨rfl, text, hw.2, by simpa using hmark⟩⟩
  · rename_i hthere
    refine Triple.pure fun w hw => ⟨hw.1, nofun, fun _ => ?_⟩
    by_contra hsomething
    exact hthere (hw.2.mpr hsomething)

theorem requireFreeOrOwned_spec (hP : ClockFree P) (unit : PyStr) :
    Triple P (requireFreeOrOwned unit) (fun _ w => P w ∧ Checked w unit)
      (fun e w => P w ∧ (e.origin = .reading ∨ (e.origin = .ownership ∧ Taken w unit))) := by
  refine Triple.bind ((ownedUnitFile_spec hP unit).weaken (fun _ h => h) (fun _ _ h => h) ?_)
    fun owned => ?_
  · rintro e w ⟨hw, hreading | ⟨hownership, hunmarked⟩⟩
    · exact ⟨hw, .inl hreading⟩
    · exact ⟨hw, .inr ⟨hownership, .inl hunmarked⟩⟩
  split
  · rename_i howned
    exact Triple.pure fun w hw => ⟨hw.1, .inl (hw.2.1 howned)⟩
  · rename_i howned
    have hnone {w : World} (hw : owned = false → w.files (unitFile unit) = none) :
        w.files (unitFile unit) = none := hw (by simpa using howned)
    have hclock : ClockFree fun w => P w ∧ (owned = true → Carries w.files unit) ∧
        (owned = false → w.files (unitFile unit) = none) := fun w hw => ⟨hP w hw.1, hw.2⟩
    refine Triple.bind ((loadUnit_spec hclock .reading unit).weaken (fun _ h => h) (fun _ _ h => h)
      fun e w h => ⟨h.1.1, .inl h.2⟩) fun known => ?_
    split
    · rename_i hknown
      exact Triple.throw fun w hw => ⟨hw.1.1, .inr ⟨rfl, .inr ⟨hnone hw.1.2.2, hw.2 ▸ hknown⟩⟩⟩
    · rename_i hknown
      refine Triple.pure fun w hw => ⟨hw.1.1, .inr ⟨hnone hw.1.2.2, ?_⟩⟩
      rw [← hw.2]
      simpa using hknown

end Reads

/-! ## Effects -/

def serviceOf (base : PyStr) : PyStr := base ++ serviceSuffix
def timerOf (base : PyStr) : PyStr := base ++ timerSuffix

/-- The two units of a task. -/
def unitsOf (base : PyStr) : List PyStr := [serviceOf base, timerOf base]

/-- The two unit names do not lead to one and the same file. -/
def Apart (files : Files) (base : PyStr) : Prop :=
  files.resolve (unitFile (serviceOf base)) ≠ files.resolve (unitFile (timerOf base))

/-- The entries of the units that are owned or free, and what they lead to before the call. -/
def Spot (w₀ : World) (base path : PyStr) : Prop :=
  ∃ unit ∈ unitsOf base, Checked w₀ unit ∧
    (path = unitFile unit ∨ w₀.files.resolve (unitFile unit) = some path)

/-- What a call that started in `w₀` may do, `entry` being an effect and the files it met. -/
def Allowed (w₀ : World) (base : PyStr) (entry : Event × Files) : Prop :=
  (∀ unit ∈ entry.1.unit, unit ∈ unitsOf base) ∧
    ∀ unit ∈ entry.1.changed,
      (Carries w₀.files unit ∧ (Apart w₀.files base → Carries entry.2 unit)) ∨
        (entry.1 = .write unit ∧ Free w₀ unit ∧ entry.2 (unitFile unit) = none)

/-- A call that started in `w₀` has left `files`, by allowed effects only. -/
def During (w₀ : World) (base : PyStr) (files : Files) (w : World) : Prop :=
  w.files = files ∧ (∀ path, ¬ Spot w₀ base path → files path = w₀.files path) ∧
    ∃ entries, w.log = w₀.log ++ entries ∧ ∀ entry ∈ entries, Allowed w₀ base entry

/-- Nothing was done yet. -/
def Untouched (w₀ w : World) : Prop :=
  w.files = w₀.files ∧ w.known = w₀.known ∧ w.log = w₀.log

section Effects

variable {w₀ : World} {base : PyStr} {files : Files}

theorem Untouched.during {w : World} (h : Untouched w₀ w) (base : PyStr) :
    During w₀ base w₀.files w :=
  ⟨h.1, fun _ _ => rfl, [], by simp [h.2.2], nofun⟩

theorem During.clockFree : ClockFree (During w₀ base files) := fun _ h => h

theorem record_spec {event : Event} (h : Allowed w₀ base (event, files)) {err : Raised → World → Prop} :
    Triple (During w₀ base files) (record event) (fun _ => During w₀ base files) err := by
  refine Triple.modify fun w ⟨hfiles, hframe, entries, hlog, hentries⟩ => ?_
  refine ⟨hfiles, hframe, entries ++ [(event, files)], by simp [hlog, hfiles], ?_⟩
  intro entry hentry
  rcases List.mem_append.mp hentry with hentry | hentry
  · exact hentries entry hentry
  · rw [List.mem_singleton.mp hentry]
    exact h

theorem changeFiles_spec {change : Files → Files} {err : Raised → World → Prop}
    (hframe : ∀ path, ¬ Spot w₀ base path → change files path = files path) :
    Triple (During w₀ base files) (changeFiles change) (fun _ => During w₀ base (change files)) err :=
  Triple.modify fun w ⟨hfiles, hbefore, hlog⟩ =>
    ⟨by rw [hfiles], fun path hpath => (hframe path hpath).trans (hbefore path hpath), hlog⟩

theorem call_spec {event : Event} (h : Allowed w₀ base (event, files)) :
    Triple (During w₀ base files) (call event) (fun _ => During w₀ base files)
      (fun e w => During w₀ base files w ∧ e.origin = .effect) := by
  refine Triple.bind (ask_spec During.clockFree) fun answer =>
    Triple.bind (record_spec h) fun _ =>
      Triple.bind (m := fun _ => During w₀ base files) (Triple.modify fun w hw => hw) fun _ => ?_
  split
  · exact Triple.throw fun w hw => ⟨hw, rfl⟩
  · exact Triple.pure fun w hw => hw

theorem stopIfLoaded_spec {unit : PyStr} (h : Allowed w₀ base (.stop unit, files)) :
    Triple (During w₀ base files) (stopIfLoaded unit) (fun _ => During w₀ base files)
      (fun e w => During w₀ base files w ∧ e.origin = .effect) := by
  refine Triple.tryCatch (call_spec h) fun e => ?_
  split
  · exact Triple.throw fun w hw => hw
  · exact Triple.pure fun w hw => hw.1

/-- A call that raised from an effect: what it did so far was allowed. -/
def Broken (w₀ : World) (base : PyStr) (e : Raised) (w : World) : Prop :=
  (∃ files, During w₀ base files w) ∧ e.origin = .effect

theorem During.broken {e : Raised} {w : World} (h : During w₀ base files w ∧ e.origin = .effect) :
    Broken w₀ base e w := ⟨⟨files, h.1⟩, h.2⟩

theorem write_frame {unit : PyStr}
    (hspot : ∀ p, files.resolve (unitFile unit) = some p → Spot w₀ base p) (text : Option PyStr) :
    ∀ path, ¬ Spot w₀ base path → files.write (unitFile unit) text path = files path := by
  intro path hpath
  cases hp : files.resolve (unitFile unit) with
  | none => simp [Files.write, hp]
  | some p =>
      have hne : path ≠ p := fun heq => hpath (heq ▸ hspot p hp)
      simp [Files.write, hp, hne]

theorem writeUnit_spec {unit text : PyStr} (h : Allowed w₀ base (.write unit, files))
    (hspot : ∀ p, files.resolve (unitFile unit) = some p → Spot w₀ base p) :
    Triple (During w₀ base files) (writeUnit unit text)
      (fun _ => During w₀ base (files.write (unitFile unit) (some text))) (Broken w₀ base) := by
  refine Triple.bind (ask_spec During.clockFree) fun answer => Triple.bind (record_spec h) fun _ => ?_
  split
  · refine Triple.bind (changeFiles_spec fun path hpath => ?_) fun _ =>
      Triple.throw fun w hw => ⟨⟨_, hw⟩, rfl⟩
    cases answer.torn with
    | some left => exact write_frame hspot left path hpath
    | none => rfl
  · split
    · exact Triple.bind (changeFiles_spec (write_frame hspot _)) fun _ =>
        Triple.throw fun w hw => ⟨⟨_, hw⟩, rfl⟩
    · exact changeFiles_spec (write_frame hspot _)

theorem removeUnit_spec {unit : PyStr} (hunit : unit ∈ unitsOf base) (hcheck : Checked w₀ unit)
    (h : Allowed w₀ base (.delete unit, files)) :
    Triple (During w₀ base files) (removeUnit unit)
      (fun _ => During w₀ base (files.erase (unitFile unit))) (Broken w₀ base) := by
  refine Triple.bind (ask_spec During.clockFree) fun answer => Triple.bind (record_spec h) fun _ => ?_
  split
  · exact Triple.throw fun w hw => ⟨⟨_, hw⟩, rfl⟩
  · refine changeFiles_spec fun path hpath => ?_
    have hne : path ≠ unitFile unit := fun heq => hpath ⟨unit, hunit, hcheck, .inl heq⟩
    rw [Files.erase, if_neg hne]

end Effects

end PwshPy.Systemd
