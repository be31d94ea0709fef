import PwshPy.Systemd.UnitName

/-! # Names of records and the units they reach

A listing puts the unit name without `.timer` in its record. Here that name is
followed back: through the separators, the two suffixes, the grammar and the
length guard of a verb or a lookup.
-/

namespace PwshPy.Systemd

/-! ## Records and lookups -/

/-- The task name in the record of a timer: `name[: -len(".timer")]`. -/
def recordName (name : PyStr) : PyStr := name.take (name.length - timerSuffix.length)

/-- `separator.search(path)` -/
def hasSeparator (windows : Bool) : PyStr → Bool
  | [] => false
  | c :: s => startsWithSeparator windows (c :: s) || hasSeparator windows s

/-- `_check_task_name` -/
def checkTaskName (task_name : PyStr) : Except PyError Unit :=
  let stripped := strip task_name
  if task_name.isEmpty then
    .error <| configurationError
      [.text (py "task_name must not be empty: an empty name names no task")]
  else if hasSeparator (stripped.head? == some 0x5c) stripped then
    .error <| configurationError
      [.text (py "task_name "), .repr task_name,
        .text (py (" contains a folder: systemd timers have no folders, so pass only the unit " ++
          "name (folder_path is ignored on Linux)"))]
  else .ok ()

/-- The unit with this suffix that `run`, `enable` or `disable` acts on. -/
def verbUnit (suffix task_path : PyStr) : Except PyError PyStr :=
  (existingUnitBase task_path).map (· ++ suffix)

/-- The timer a lookup by name reads. -/
def lookupTimer (task_name : PyStr) : Except PyError PyStr := do
  checkTaskName task_name
  return (← existingUnitBase task_name) ++ timerSuffix

/-- A timer unit name systemd accepts, without its suffix. -/
structure ListedTimer where
  base : PyStr
  before_at : isEscapedName isUnitNameChar (base.takeWhile (· != 0x40)) = true
  instance_nonempty : 0x40 ∈ base → (base.dropWhile (· != 0x40)).tail ≠ []
  instance_chars : ∀ c ∈ (base.dropWhile (· != 0x40)).tail,
    isUnitNameChar c = true ∨ c = 0x40 ∨ c = 0x5c
  within_max : base.length + timerSuffix.length ≤ unitNameMax

def ListedTimer.name (timer : ListedTimer) : PyStr := timer.base ++ timerSuffix

@[simp] theorem recordName_name (timer : ListedTimer) : recordName timer.name = timer.base := by
  simp [recordName, ListedTimer.name]

/-! ## Pieces of a path -/

/-- The task path behind its last folder. -/
def lastName (task_path : PyStr) : PyStr :=
  lastPiece ((strip task_path).head? == some 0x5c) [] (strip task_path)

def unitSuffixes : List PyStr := [timerSuffix, serviceSuffix]

def hasUnitSuffix (name : PyStr) : Bool := unitSuffixes.any fun s => s.isSuffixOf name

/-- The name ends in a unit suffix behind another one, such as `.service.timer`. -/
def hasTwoSuffixes (name : PyStr) : Bool :=
  unitSuffixes.any fun inner => unitSuffixes.any fun outer => (inner ++ outer).isSuffixOf name

theorem lastPiece_of_no_separator (windows : Bool) (piece s : PyStr)
    (h : hasSeparator windows s = false) : lastPiece windows piece s = piece ++ s := by
  induction s generalizing piece with
  | nil => simp [lastPiece]
  | cons c s ih =>
      simp only [hasSeparator, Bool.or_eq_false_iff] at h
      rw [lastPiece, h.1, if_neg (by decide), ih _ h.2, List.append_assoc]
      rfl

theorem length_lastPiece_le (windows : Bool) (piece s : PyStr) :
    (lastPiece windows piece s).length ≤ piece.length + s.length := by
  induction s generalizing piece with
  | nil => simp [lastPiece]
  | cons c s ih =>
      rw [lastPiece]
      split
      · have := ih []
        simp only [List.length_nil, List.length_cons] at *
        omega
      · have := ih (piece ++ [c])
        simp only [List.length_append, List.length_cons, List.length_nil] at *
        omega

/-- What stands before a separator is dropped, and the separator with it. -/
theorem length_lastPiece_lt (windows : Bool) (piece s : PyStr)
    (h : hasSeparator windows s = true) :
    (lastPiece windows piece s).length < piece.length + s.length := by
  induction s generalizing piece with
  | nil => cases h
  | cons c s ih =>
      rw [lastPiece]
      by_cases hc : startsWithSeparator windows (c :: s) = true
      · have := length_lastPiece_le windows [] s
        simp only [hc, if_true, List.length_nil, List.length_cons] at *
        omega
      · simp only [hasSeparator, hc, Bool.false_or] at h
        have hlt := ih (piece ++ [c]) h
        rw [if_neg hc]
        simp only [List.length_append, List.length_cons, List.length_nil] at hlt ⊢
        omega

/-! ## Base names -/

theorem baseName_eq (task_path : PyStr) :
    baseName task_path =
      if timerSuffix.isSuffixOf (lastName task_path) then
        (lastName task_path).take ((lastName task_path).length - timerSuffix.length)
      else if serviceSuffix.isSuffixOf (lastName task_path) then
        (lastName task_path).take ((lastName task_path).length - serviceSuffix.length)
      else lastName task_path := rfl

theorem baseName_of_no_suffix {task_path : PyStr} (h : hasUnitSuffix (lastName task_path) = false) :
    baseName task_path = lastName task_path := by
  simp only [hasUnitSuffix, unitSuffixes, List.any_cons, List.any_nil, Bool.or_false,
    Bool.or_eq_false_iff] at h
  rw [baseName_eq, h.1, h.2]
  rfl

/-- A name with a suffix is the base name in front of it. -/
theorem lastName_of_suffix {task_path : PyStr} (h : hasUnitSuffix (lastName task_path) = true) :
    ∃ outer ∈ unitSuffixes, lastName task_path = baseName task_path ++ outer := by
  rw [baseName_eq]
  by_cases ht : timerSuffix.isSuffixOf (lastName task_path) = true
  · refine ⟨timerSuffix, by simp [unitSuffixes], ?_⟩
    obtain ⟨t, ht'⟩ := List.isSuffixOf_iff_suffix.mp ht
    rw [if_pos ht, ← ht']
    simp
  · have hs : serviceSuffix.isSuffixOf (lastName task_path) = true := by
      simpa [hasUnitSuffix, unitSuffixes, ht] using h
    refine ⟨serviceSuffix, by simp [unitSuffixes], ?_⟩
    obtain ⟨t, ht'⟩ := List.isSuffixOf_iff_suffix.mp hs
    rw [if_neg ht, if_pos hs, ← ht']
    simp

theorem length_baseName_le (task_path : PyStr) :
    (baseName task_path).length ≤ (lastName task_path).length := by
  by_cases h : hasUnitSuffix (lastName task_path) = true
  · obtain ⟨outer, -, heq⟩ := lastName_of_suffix h
    have := congrArg List.length heq
    simp only [List.length_append] at this
    omega
  · rw [baseName_of_no_suffix (by simpa using h)]

/-- A name is its own base name when it has no separator and no suffix to drop. -/
theorem baseName_eq_self_iff {name : PyStr} (hstrip : strip name = name) :
    baseName name = name ↔
      hasSeparator (name.head? == some 0x5c) name = false ∧ hasUnitSuffix name = false := by
  have hlast : hasSeparator (name.head? == some 0x5c) name = false → lastName name = name := by
    intro h
    rw [lastName, hstrip, lastPiece_of_no_separator _ _ _ h]
    rfl
  constructor
  · intro h
    have hlen := length_baseName_le name
    have hsep : hasSeparator (name.head? == some 0x5c) name = false := by
      by_contra hne
      have hlt := length_lastPiece_lt _ [] name (by simpa using hne)
      have hle : (lastName name).length < name.length := by
        rw [lastName, hstrip]
        simpa using hlt
      rw [h] at hlen
      omega
    refine ⟨hsep, ?_⟩
    by_contra hne
    have hsuffix : hasUnitSuffix (lastName name) = true := by
      rw [hlast hsep]
      simpa using hne
    obtain ⟨outer, houter, heq⟩ := lastName_of_suffix hsuffix
    rw [hlast hsep, h] at heq
    have hnil : outer = [] := by simpa using heq
    subst hnil
    revert houter
    decide
  · rintro ⟨hsep, hsuffix⟩
    rw [baseName_of_no_suffix (by rwa [hlast hsep]), hlast hsep]

/-! ## Legal names -/

theorem isSpace_of_isUnitNameChar {c : Nat} (h : isUnitNameChar c = true) : isSpace c = false := by
  simp only [isUnitNameChar, isDigit, Bool.or_eq_true, Bool.and_eq_true, decide_eq_true_eq,
    beq_iff_eq] at h
  simp only [isSpace, Bool.or_eq_false_iff, Bool.and_eq_false_iff, decide_eq_false_iff_not,
    beq_eq_false_iff_ne]
  omega

theorem hasSeparator_of_unitNameChars {windows : Bool} {s : PyStr}
    (h : ∀ c ∈ s, isUnitNameChar c = true) : hasSeparator windows s = false := by
  induction s with
  | nil => rfl
  | cons c s ih =>
      have hc := h c (by simp)
      have hslash : c ≠ 0x2f := by rintro rfl; revert hc; decide
      have hback : c ≠ 0x5c := by rintro rfl; revert hc; decide
      simp [hasSeparator, startsWithSeparator, hslash, hback, ih fun d hd => h d (by simp [hd])]

theorem long_of_startsWithEscape {c : Nat} {s : PyStr} (h : startsWithEscape (c :: s) = true) :
    ∃ x hi lo rest, c :: s = c :: x :: hi :: lo :: rest := by
  unfold startsWithEscape at h
  split at h
  · rename_i heq
    obtain ⟨rfl, rfl⟩ := List.cons.inj heq
    exact ⟨_, _, _, _, rfl⟩
  · cases h

theorem isEscapedRest_short {isChar : Nat → Bool} {c : Nat} {rest : PyStr}
    (h : ∀ x hi lo tail, rest = x :: hi :: lo :: tail → False) :
    isEscapedRest isChar (c :: rest) = (isChar c && isEscapedRest isChar rest) := by
  rw [isEscapedRest]
  exact h

/-- Without a separator every backslash starts an escape. -/
theorem isEscapedRest_of_no_separator {isChar : Nat → Bool} {s : PyStr}
    (hchars : ∀ c ∈ s, isChar c = true ∨ c = 0x5c) (h : hasSeparator false s = false) :
    isEscapedRest isChar s = true := by
  have step : ∀ c t, hasSeparator false (c :: t) = false → isChar c = false → c = 0x5c →
      startsWithEscape (c :: t) = true := by
    intro c t hsep _ hc
    subst hc
    simpa [hasSeparator, startsWithSeparator] using (Bool.or_eq_false_iff.mp hsep).1
  induction s using isEscapedRest.induct isChar with
  | case1 => rfl
  | case2 b x hi lo rest hb ih =>
      rw [isEscapedRest, if_pos hb]
      exact ih (fun c hc => hchars c (List.mem_cons_of_mem _ hc)) (Bool.or_eq_false_iff.mp h).2
  | case3 b x hi lo rest hb ih =>
      have hback := (hchars b (by simp)).resolve_left hb
      have hesc := step b _ h (by simpa using hb) hback
      have hrest : hasSeparator false rest = false := by
        simp only [hasSeparator, Bool.or_eq_false_iff] at h
        exact h.2.2.2.2
      rw [isEscapedRest, if_neg hb, ih (fun c hc => hchars c (by simp [hc])) hrest]
      simpa [startsWithEscape] using hesc
  | case4 c rest hshort ih =>
      have hc : isChar c = true := by
        by_contra hne
        have hback := (hchars c (by simp)).resolve_left hne
        obtain ⟨x, hi, lo, tail, hlong⟩ :=
          long_of_startsWithEscape (step c _ h (by simpa using hne) hback)
        exact hshort x hi lo tail (List.cons.inj hlong).2
      rw [isEscapedRest_short hshort, hc, ih (fun d hd => hchars d (List.mem_cons_of_mem _ hd))
        (Bool.or_eq_false_iff.mp h).2]
      rfl

/-! ## The two verbs on a base name -/

theorem hasTwoSuffixes_iff (task_path : PyStr) :
    hasTwoSuffixes (lastName task_path) = hasUnitSuffix (baseName task_path) := by
  have two_of_suffix : hasTwoSuffixes (lastName task_path) = true →
      hasUnitSuffix (lastName task_path) = true := by
    simp only [hasTwoSuffixes, hasUnitSuffix, List.any_eq_true, List.isSuffixOf_iff_suffix]
    rintro ⟨inner, -, outer, houter, h⟩
    exact ⟨outer, houter, (List.suffix_append _ _).trans h⟩
  by_cases h : hasUnitSuffix (lastName task_path) = true
  · obtain ⟨outer, houter, heq⟩ := lastName_of_suffix h
    rw [heq, Bool.eq_iff_iff]
    simp only [hasTwoSuffixes, hasUnitSuffix, List.any_eq_true, List.isSuffixOf_iff_suffix]
    constructor
    · rintro ⟨inner, hinner, outer', houter', hsuffix⟩
      -- the two suffixes end in different letters, so the outer one is the one that was cut off
      have hlast : outer'.getLast? = outer.getLast? := by
        have hne : ∀ s ∈ unitSuffixes, s ≠ [] := by decide
        obtain ⟨t, ht⟩ := hsuffix
        have := congrArg List.getLast? ht
        rwa [← List.append_assoc, List.getLast?_append_of_ne_nil _ (hne _ houter'),
          List.getLast?_append_of_ne_nil _ (hne _ houter)] at this
      have hsame : outer' = outer := by
        revert hlast
        revert houter' houter
        have hall : ∀ a ∈ unitSuffixes, ∀ b ∈ unitSuffixes, a.getLast? = b.getLast? → a = b := by
          decide
        intro houter' houter
        exact hall _ houter _ houter'
      subst hsame
      exact ⟨inner, hinner, List.suffix_append_self_iff.mp hsuffix⟩
    · rintro ⟨inner, hinner, hsuffix⟩
      exact ⟨inner, hinner, outer, houter, List.suffix_append_self_iff.mpr hsuffix⟩
  · have hbase := baseName_of_no_suffix (by simpa using h)
    rw [hbase, Bool.eq_iff_iff]
    exact ⟨two_of_suffix, fun h' => absurd h' h⟩

theorem unitBase_eq_ok {task_path b : PyStr} (h : unitBase task_path = .ok b) :
    b = baseName task_path ∧ isUnitNamePrefix b = true ∧
      b.length + serviceSuffix.length ≤ unitNameMax := by
  simp only [unitBase] at h
  split at h
  · rename_i hname
    obtain ⟨rfl, hlen⟩ := withinUnitNameMax_ok h
    exact ⟨rfl, hname, hlen⟩
  · cases h

/-- A base name is read as itself exactly when it has no suffix left to drop. -/
theorem base_is_read_as_itself {task_path b : PyStr} (h : unitBase task_path = .ok b) :
    (unitBase b = .ok b ∧ existingUnitBase b = .ok b) ↔ hasUnitSuffix b = false := by
  obtain ⟨-, hshape, hlen⟩ := unitBase_eq_ok h
  have hshape' := hshape
  simp only [isUnitNamePrefix, Bool.and_eq_true, List.all_eq_true] at hshape
  obtain ⟨hne, hchars⟩ := hshape
  have hstrip : strip b = b := strip_of_no_space fun c hc => isSpace_of_isUnitNameChar (hchars c hc)
  have hself := baseName_eq_self_iff hstrip
  rw [hasSeparator_of_unitNameChars hchars] at hself
  constructor
  · rintro ⟨hbase, -⟩
    exact (hself.mp (unitBase_eq_ok hbase).1.symm).2
  · intro hsuffix
    have hb : baseName b = b := hself.mpr ⟨rfl, hsuffix⟩
    have hwithin : withinUnitNameMax b = .ok b := by
      rw [withinUnitNameMax, if_neg (by omega)]
    have hat : 0x40 ∉ b := fun hmem => absurd (hchars _ hmem) (by decide)
    have hbefore : b.takeWhile (· != 0x40) = b :=
      List.takeWhile_eq_self_iff.mpr fun c hc => by simpa using fun hc' : c = 0x40 => hat (hc' ▸ hc)
    have hescaped : isEscapedName isUnitNameChar b = true := by
      rw [isEscapedName, hne, isEscapedRest_of_no_separator (fun c hc => .inl (hchars c hc))
        (hasSeparator_of_unitNameChars hchars)]
      rfl
    refine ⟨?_, ?_⟩
    · simp only [unitBase, hb, hshape', if_true, hwithin]
    · simp only [existingUnitBase, hb, hbefore, hescaped, not_true_eq_false, if_false, hat,
        not_false_eq_true, if_true, hwithin]

/-! ## Listed timers -/

theorem existingUnitBase_eq_ok {task_path b : PyStr} (h : existingUnitBase task_path = .ok b) :
    b = baseName task_path ∧ b.length + serviceSuffix.length ≤ unitNameMax := by
  simp only [existingUnitBase] at h
  split at h
  · cases h
  · split at h
    · obtain ⟨rfl, hlen⟩ := withinUnitNameMax_ok h
      exact ⟨rfl, hlen⟩
    · split at h
      · cases h
      · split at h
        · cases h
        · obtain ⟨rfl, hlen⟩ := withinUnitNameMax_ok h
          exact ⟨rfl, hlen⟩

theorem isUnitNameChar_of_isHexDigit {c : Nat} (h : isHexDigit c = true) :
    isUnitNameChar c = true := by
  simp only [isHexDigit, isUnitNameChar, isDigit, Bool.or_eq_true, Bool.and_eq_true,
    decide_eq_true_eq, beq_iff_eq] at h ⊢
  omega

theorem chars_of_isEscapedRest {s : PyStr} (h : isEscapedRest isUnitNameChar s = true) :
    ∀ c ∈ s, isUnitNameChar c = true ∨ c = 0x5c := by
  induction s using isEscapedRest.induct isUnitNameChar with
  | case1 => simp
  | case2 b x hi lo rest hb ih =>
      rw [isEscapedRest, if_pos hb] at h
      intro c hc
      rcases List.mem_cons.mp hc with rfl | hc
      · exact .inl hb
      · exact ih h c hc
  | case3 b x hi lo rest hb ih =>
      rw [isEscapedRest, if_neg hb, Bool.and_eq_true] at h
      obtain ⟨hesc, hrest⟩ := h
      simp only [startsWithEscape, Bool.and_eq_true, beq_iff_eq] at hesc
      obtain ⟨⟨⟨rfl, rfl⟩, hhi⟩, hlo⟩ := hesc
      intro c hc
      simp only [List.mem_cons] at hc
      rcases hc with rfl | rfl | rfl | rfl | hc
      · exact .inr rfl
      · exact .inl (by decide)
      · exact .inl (isUnitNameChar_of_isHexDigit hhi)
      · exact .inl (isUnitNameChar_of_isHexDigit hlo)
      · exact ih hrest c hc
  | case4 c rest hshort ih =>
      rw [isEscapedRest_short hshort, Bool.and_eq_true] at h
      intro d hd
      rcases List.mem_cons.mp hd with rfl | hd
      · exact .inl h.1
      · exact ih h.2 d hd

theorem hasSeparator_tail {c : Nat} {s : PyStr} (h : hasSeparator false (c :: s) = false) :
    hasSeparator false s = false := (Bool.or_eq_false_iff.mp h).2

theorem hasSeparator_suffix {s t : PyStr} (h : hasSeparator false (s ++ t) = false) :
    hasSeparator false t = false := by
  induction s with
  | nil => exact h
  | cons c s ih => exact ih (hasSeparator_tail h)

/-- Read as a Windows path, a name with a backslash at its head is a folder and a name. -/
theorem hasSeparator_head_iff (name : PyStr) :
    hasSeparator (name.head? == some 0x5c) name = false ↔
      name.head? ≠ some 0x5c ∧ hasSeparator false name = false := by
  by_cases h : name.head? = some 0x5c
  · obtain ⟨s, rfl⟩ : ∃ s, name = 0x5c :: s := by
      cases name with
      | nil => cases h
      | cons c s => exact ⟨s, by simpa using h⟩
    simp [hasSeparator, startsWithSeparator]
  · have hflag : (name.head? == some 0x5c) = false := by simpa using h
    rw [hflag]
    simp [h]

namespace ListedTimer

variable (timer : ListedTimer)

theorem split : timer.base =
    timer.base.takeWhile (· != 0x40) ++ timer.base.dropWhile (· != 0x40) :=
  List.takeWhile_append_dropWhile.symm

/-- Behind the first `@` stands the instance. -/
theorem rest_eq (h : 0x40 ∈ timer.base) : timer.base.dropWhile (· != 0x40) =
    0x40 :: (timer.base.dropWhile (· != 0x40)).tail := by
  cases hrest : timer.base.dropWhile (· != 0x40) with
  | nil =>
      have hall := List.dropWhile_eq_nil_iff.mp hrest _ h
      simp at hall
  | cons c t =>
      have hhead := List.head?_dropWhile_not (· != 0x40) timer.base
      rw [hrest] at hhead
      have hc : c = 0x40 := by simpa using hhead
      rw [hc, List.tail_cons]

theorem chars : ∀ c ∈ timer.base, isUnitNameChar c = true ∨ c = 0x40 ∨ c = 0x5c := by
  intro c hc
  have hshape := timer.before_at
  simp only [isEscapedName, Bool.and_eq_true] at hshape
  rw [timer.split] at hc
  rcases List.mem_append.mp hc with hc | hc
  · rcases chars_of_isEscapedRest hshape.2 c hc with h | h
    · exact .inl h
    · exact .inr (.inr h)
  · have hat : 0x40 ∈ timer.base := by
      by_contra hat
      have hnil : timer.base.dropWhile (· != 0x40) = [] :=
        List.dropWhile_eq_nil_iff.mpr fun d hd => by
          simpa using fun hd' : d = 0x40 => hat (hd' ▸ hd)
      rw [hnil] at hc
      cases hc
    rw [timer.rest_eq hat] at hc
    rcases List.mem_cons.mp hc with rfl | hc
    · exact .inr (.inl rfl)
    · exact timer.instance_chars c hc

theorem strip_base : strip timer.base = timer.base := by
  apply strip_of_no_space
  intro c hc
  rcases timer.chars c hc with h | rfl | rfl
  · exact isSpace_of_isUnitNameChar h
  · rfl
  · rfl

/-- A record's name leads back to its timer when the verb reads it as one piece. -/
theorem resolves_iff : existingUnitBase timer.base = .ok timer.base ↔
    hasSeparator (timer.base.head? == some 0x5c) timer.base = false ∧
      hasUnitSuffix timer.base = false ∧
      timer.base.length + serviceSuffix.length ≤ unitNameMax := by
  have hself := baseName_eq_self_iff timer.strip_base
  constructor
  · intro h
    obtain ⟨hb, hlen⟩ := existingUnitBase_eq_ok h
    obtain ⟨hsep, hsuffix⟩ := hself.mp hb.symm
    exact ⟨hsep, hsuffix, hlen⟩
  · rintro ⟨hsep, hsuffix, hlen⟩
    have hb : baseName timer.base = timer.base := hself.mpr ⟨hsep, hsuffix⟩
    have hwithin : withinUnitNameMax timer.base = .ok timer.base := by
      rw [withinUnitNameMax, if_neg (by omega)]
    have hplain := ((hasSeparator_head_iff _).mp hsep).2
    simp only [existingUnitBase, hb, timer.before_at, not_true_eq_false, if_false]
    by_cases hat : 0x40 ∈ timer.base
    · have hne : (timer.base.dropWhile (· != 0x40)).tail.isEmpty = false := by
        simpa using timer.instance_nonempty hat
      have hinstance : isEscapedName (fun c => isUnitNameChar c || c == 0x40)
          (timer.base.dropWhile (· != 0x40)).tail = true := by
        rw [timer.split, timer.rest_eq hat] at hplain
        have hrest := hasSeparator_tail (hasSeparator_suffix hplain)
        rw [isEscapedName, hne, isEscapedRest_of_no_separator _ hrest]
        · rfl
        · intro c hc
          rcases timer.instance_chars c hc with h | rfl | rfl <;> simp_all
      simp only [hat, not_true_eq_false, if_false, hne, Bool.false_eq_true, hinstance, hwithin]
    · simp only [hat, not_false_eq_true, if_true, hwithin]

end ListedTimer

/-! ## Names and units -/

/-- The record's name, given to a verb or to a lookup, leads to the timer it was read from. -/
def ListedTimer.ReachedByName (timer : ListedTimer) : Prop :=
  verbUnit timerSuffix (recordName timer.name) = .ok timer.name ∧
    verbUnit serviceSuffix (recordName timer.name) = .ok (timer.base ++ serviceSuffix) ∧
    lookupTimer (recordName timer.name) = .ok timer.name

theorem ListedTimer.reachedByName_iff (timer : ListedTimer) :
    timer.ReachedByName ↔ existingUnitBase timer.base = .ok timer.base := by
  simp only [ReachedByName, recordName_name]
  constructor
  · rintro ⟨hverb, -, -⟩
    cases h : existingUnitBase timer.base with
    | error e => simp [verbUnit, h, Except.map] at hverb
    | ok b =>
        have : b ++ timerSuffix = timer.base ++ timerSuffix := by
          simpa [verbUnit, h, Except.map, ListedTimer.name] using hverb
        rw [List.append_cancel_right this]
  · intro h
    have hsep := (timer.resolves_iff.mp h).1
    have hne : timer.base.isEmpty = false := by
      have hbefore := timer.before_at
      cases hb : timer.base with
      | nil => simp [hb, isEscapedName] at hbefore
      | cons c s => rfl
    have hcheck : checkTaskName timer.base = .ok () := by
      simp only [checkTaskName, hne, Bool.false_eq_true, if_false, timer.strip_base, hsep]
    refine ⟨?_, ?_, ?_⟩
    · simp [verbUnit, h, Except.map, ListedTimer.name]
    · simp [verbUnit, h, Except.map]
    · simp [lookupTimer, hcheck, h, ListedTimer.name, bind, Except.bind, pure, Except.pure]

/-- A task path names one unit unless two suffixes stand at its end, and a
listed timer is reached by the name in its record unless that name is cut,
split or refused on the way. -/
theorem task_names_name_one_unit_iff (task_path b : PyStr) (hb : unitBase task_path = .ok b)
    (timer : ListedTimer) :
    ((unitBase b = .ok b ∧ existingUnitBase b = .ok b) ↔
      hasTwoSuffixes (lastName task_path) = false) ∧
    (timer.ReachedByName ↔
      timer.base.head? ≠ some 0x5c ∧ hasSeparator false timer.base = false ∧
        hasUnitSuffix timer.base = false ∧ timer.name.length + 2 ≤ unitNameMax) := by
  constructor
  · rw [base_is_read_as_itself hb, (unitBase_eq_ok hb).1, hasTwoSuffixes_iff]
  · rw [timer.reachedByName_iff, timer.resolves_iff, hasSeparator_head_iff, and_assoc]
    have hlen : timer.base.length + serviceSuffix.length = timer.name.length + 2 := by
      rw [ListedTimer.name, List.length_append]
      rfl
    rw [hlen]

/-- `zfs-scrub-monthly@my\x2dpool.timer` -/
def scrubTimer : ListedTimer where
  base := py "zfs-scrub-monthly@my\\x2dpool"
  before_at := by decide
  instance_nonempty := by decide
  instance_chars := by decide
  within_max := by decide

theorem task_names_name_one_unit_at :
    unitBase (py "/tasks/backup.timer") = .ok (py "backup") ∧
    ((unitBase (py "backup") = .ok (py "backup") ∧ existingUnitBase (py "backup") = .ok (py "backup")) ↔
      hasTwoSuffixes (lastName (py "/tasks/backup.timer")) = false) ∧
    (scrubTimer.ReachedByName ↔
      scrubTimer.base.head? ≠ some 0x5c ∧ hasSeparator false scrubTimer.base = false ∧
        hasUnitSuffix scrubTimer.base = false ∧ scrubTimer.name.length + 2 ≤ unitNameMax) :=
  ⟨by decide, task_names_name_one_unit_iff (py "/tasks/backup.timer") (py "backup") (by decide)
    scrubTimer⟩

/-- `job.timer.timer` -/
def doubledTimer : ListedTimer where
  base := py "job.timer"
  before_at := by decide
  instance_nonempty := by decide
  instance_chars := by decide
  within_max := by decide

/-- The name `job.timer` of a base or a record is read as `job`, another unit. -/
theorem doubled_suffix_names_another_unit :
    unitBase (py "job.timer.timer") = .ok (py "job.timer") ∧
      unitBase (py "job.timer") = .ok (py "job") ∧
      ¬ (unitBase (py "job.timer") = .ok (py "job.timer") ∧
        existingUnitBase (py "job.timer") = .ok (py "job.timer")) ∧
      lookupTimer (recordName doubledTimer.name) = .ok (py "job.timer") ∧
      ¬ doubledTimer.ReachedByName := by
  have hother : lookupTimer (recordName doubledTimer.name) = .ok (py "job.timer") := by decide
  refine ⟨by decide, by decide, by decide, hother, ?_⟩
  rintro ⟨-, -, hname⟩
  rw [hother] at hname
  revert hname
  decide

end PwshPy.Systemd
