import PwshPy.Systemd.UnitText
import PwshPy.Systemd.UnitName

/-! # The ownership mark

`is_pwshpy_unit` reads a unit file with `str.splitlines`, which ends a line at more
characters than LF: U+0085, U+2028 and U+2029 are no control characters to
`_single_line`, so a description or a program can hold them and its text is then
scanned piece by piece. The scan is followed here through a whole document.
-/

namespace PwshPy.Systemd

open UnitFile (Directive Line Name render directives sectionAfter equalsSign isNameChar)

/-! ## The scan -/

def isHeaderLine (line : PyStr) : Bool := line.head? == some 0x5b && line.getLast? == some 0x5d

/-- `line.split("=", 1)[0].strip() == OWNERSHIP_KEY and "=" in line` -/
def carriesKey (line : PyStr) : Bool :=
  strip (line.takeWhile (· != equalsSign)) == ownershipKey && decide (equalsSign ∈ line)

/-- The loop over the lines, below `sect`. -/
def scanUnit : PyStr → List PyStr → Bool
  | _, [] => false
  | sect, raw :: rest =>
    let line := strip raw
    if isHeaderLine line then scanUnit line.tail.dropLast rest
    else if sect = py "Unit" ∧ carriesKey line then true
    else scanUnit sect rest

/-- Whether unit-file `text` carries the ownership key in its [Unit] section. -/
def isPwshpyUnit (text : PyStr) : Bool := scanUnit [] (splitlines text)

/-- The section open behind some lines: the last header names it. -/
def openSection (sect : PyStr) (lines : List PyStr) : PyStr :=
  match ((lines.map strip).filter isHeaderLine).getLast? with
  | some line => line.tail.dropLast
  | none => sect

/-- One of the lines assigns the key below a [Unit] header. -/
def Marked (sect : PyStr) (lines : List PyStr) : Prop :=
  ∃ before raw after, lines = before ++ raw :: after ∧ isHeaderLine (strip raw) = false ∧
    carriesKey (strip raw) = true ∧ openSection sect before = py "Unit"

theorem openSection_cons (sect raw : PyStr) (lines : List PyStr) :
    openSection sect (raw :: lines) =
      openSection (if isHeaderLine (strip raw) then (strip raw).tail.dropLast else sect) lines := by
  by_cases h : isHeaderLine (strip raw) = true
  · simp only [openSection, List.map_cons, List.filter_cons_of_pos h, h, if_true]
    cases hfilter : (lines.map strip).filter isHeaderLine with
    | nil => rfl
    | cons l ls => rw [List.getLast?_cons_cons]; rfl
  · simp only [openSection, List.map_cons, List.filter_cons_of_neg h, h, if_false, Bool.false_eq_true]

theorem marked_cons_iff (sect raw : PyStr) (lines : List PyStr) :
    Marked sect (raw :: lines) ↔
      (isHeaderLine (strip raw) = false ∧ carriesKey (strip raw) = true ∧ sect = py "Unit") ∨
        Marked (if isHeaderLine (strip raw) then (strip raw).tail.dropLast else sect) lines := by
  constructor
  · rintro ⟨before, line, after, heq, hheader, hkey, hopen⟩
    cases before with
    | nil =>
        obtain ⟨rfl, rfl⟩ := List.cons.inj heq
        exact .inl ⟨hheader, hkey, hopen⟩
    | cons first before =>
        obtain ⟨rfl, rfl⟩ := List.cons.inj heq
        exact .inr ⟨before, line, after, rfl, hheader, hkey, by rwa [← openSection_cons]⟩
  · rintro (⟨hheader, hkey, rfl⟩ | ⟨before, line, after, rfl, hheader, hkey, hopen⟩)
    · exact ⟨[], raw, lines, rfl, hheader, hkey, rfl⟩
    · exact ⟨raw :: before, line, after, rfl, hheader, hkey, by rwa [openSection_cons]⟩

/-- What the loop looks for. -/
theorem scanUnit_eq_true_iff (sect : PyStr) (lines : List PyStr) :
    scanUnit sect lines = true ↔ Marked sect lines := by
  induction lines generalizing sect with
  | nil => simp [scanUnit, Marked]
  | cons raw lines ih =>
      rw [marked_cons_iff, scanUnit]
      by_cases h : isHeaderLine (strip raw) = true
      · simp [h, ih]
      · by_cases hk : sect = py "Unit" ∧ carriesKey (strip raw) = true
        · simp [h, hk]
        · simp [h, hk, ih]
          tauto

theorem scanUnit_append (sect : PyStr) (lines rest : List PyStr) :
    scanUnit sect (lines ++ rest) =
      (scanUnit sect lines || scanUnit (openSection sect lines) rest) := by
  induction lines generalizing sect with
  | nil => simp [scanUnit, openSection]
  | cons raw lines ih =>
      rw [List.cons_append, scanUnit, scanUnit, openSection_cons]
      split
      · exact ih _
      · split
        · simp
        · exact ih _

/-! ## The lines of a document -/

theorem isNameChar_bounds {c : Nat} (h : isNameChar c = true) :
    0x2d ≤ c ∧ c ≤ 0x7a ∧ c ≠ equalsSign ∧ c ≠ 0x5b := by
  have := UnitFile.isNameChar_facts h
  simp only [isNameChar, isDigit, Bool.or_eq_true, Bool.and_eq_true, decide_eq_true_eq,
    beq_iff_eq] at h
  omega

theorem outsideNames_isSpace : UnitFile.OutsideNames isSpace := by
  refine ⟨by decide, fun c hc => ?_⟩
  have := isNameChar_bounds hc
  simp only [isSpace, Bool.or_eq_false_iff, Bool.and_eq_false_iff, beq_eq_false_iff_ne,
    decide_eq_false_iff_not]
  omega

theorem isLineBoundary_name {c : Nat} (h : isNameChar c = true) : isLineBoundary c = false := by
  have := isNameChar_bounds h
  simp only [isLineBoundary, Bool.or_eq_false_iff, Bool.and_eq_false_iff, beq_eq_false_iff_ne,
    decide_eq_false_iff_not]
  omega

/-- What `splitlines` makes of one rendered line. -/
def pieces (l : Line) : List PyStr := l.render.splitOnP isLineBoundary

/-- The pieces of a value behind its first one: the scan takes each for a line. -/
def continued (value : PyStr) : List PyStr := (value.splitOnP isLineBoundary).tail

theorem splitOnP_append_of_none {p : Nat → Bool} {pre : PyStr} (h : ∀ c ∈ pre, p c = false)
    (s : PyStr) : ∃ first, (pre ++ s).splitOnP p = (pre ++ first) :: (s.splitOnP p).tail := by
  induction pre with
  | nil =>
      obtain ⟨first, rest, hs⟩ := List.exists_cons_of_ne_nil (List.splitOnP_ne_nil p s)
      exact ⟨first, by simp [hs]⟩
  | cons c pre ih =>
      obtain ⟨first, hfirst⟩ := ih fun d hd => h d (by simp [hd])
      have hc : p c = false := h c (by simp)
      exact ⟨first, by simp [List.splitOnP_cons_eq_if_modifyHead, hc, hfirst]⟩

theorem pieces_assign (key : Name) (value : PyStr) :
    ∃ first, pieces (.assign key value) = (key.text ++ equalsSign :: first) :: continued value := by
  have hpre : ∀ c ∈ key.text ++ [equalsSign], isLineBoundary c = false := by
    intro c hc
    rcases List.mem_append.mp hc with hc | hc
    · exact isLineBoundary_name (key.char hc)
    · rw [List.mem_singleton.mp hc]
      rfl
  obtain ⟨first, hfirst⟩ := splitOnP_append_of_none hpre value
  exact ⟨first, by simpa [pieces, Line.render, continued] using hfirst⟩

theorem pieces_header (name : Name) : pieces (.header name) = [(Line.header name).render] := by
  rw [pieces, List.splitOnP_eq_singleton]
  intro c hc
  simp only [Line.render, List.cons_append, List.mem_cons, List.mem_append, List.not_mem_nil,
    or_false] at hc
  rcases hc with rfl | hc | rfl
  · rfl
  · exact isLineBoundary_name (name.char hc)
  · rfl

theorem scanUnit_header (sect : PyStr) (name : Name) (rest : List PyStr) :
    scanUnit sect (pieces (.header name) ++ rest) = scanUnit name.text rest := by
  have hstrip : strip (Line.header name).render = (Line.header name).render := by
    rw [strip, stripBy, Line.render, List.cons_append, List.dropWhile_cons_of_neg (by decide),
      ← List.cons_append, List.rdropWhile_concat_neg _ _ _ (by decide)]
  have hheader : isHeaderLine (Line.header name).render = true := by
    simp [isHeaderLine, Line.render, List.getLast?_cons, List.getLast?_append]
  rw [pieces_header, List.singleton_append, scanUnit, hstrip, hheader]
  simp [Line.render]

theorem scanUnit_blank (sect : PyStr) (rest : List PyStr) :
    scanUnit sect (pieces .blank ++ rest) = scanUnit sect rest := by
  have hkey : carriesKey (strip []) = false := by decide
  have hheader : isHeaderLine (strip []) = false := by decide
  simp [pieces, Line.render, scanUnit, hkey, hheader]

/-- An assignment: its own key first, then its continued pieces. -/
theorem scanUnit_assign (sect : PyStr) (key : Name) (value : PyStr) (rest : List PyStr) :
    scanUnit sect (pieces (.assign key value) ++ rest) =
      (decide (sect = py "Unit" ∧ key.text = ownershipKey) ||
        scanUnit sect (continued value ++ rest)) := by
  obtain ⟨first, hfirst⟩ := pieces_assign key value
  obtain ⟨c, t, hc, hname⟩ := key.cons
  have hstrip : strip (key.text ++ equalsSign :: first) =
      key.text ++ equalsSign :: first.rdropWhile isSpace :=
    key.stripBy_assign outsideNames_isSpace first
  have hheader : isHeaderLine (strip (key.text ++ equalsSign :: first)) = false := by
    have hne : c ≠ 0x5b := (isNameChar_bounds hname).2.2.2
    rw [hstrip]
    simp [isHeaderLine, hc, hne]
  have htake : ∀ d ∈ key.text, (d != equalsSign) = true := by
    intro d hd
    simpa using (isNameChar_bounds (key.char hd)).2.2.1
  have hkey : carriesKey (strip (key.text ++ equalsSign :: first)) =
      decide (key.text = ownershipKey) := by
    have htext : strip key.text = key.text := key.stripBy_text outsideNames_isSpace
    rw [hstrip, carriesKey, List.takeWhile_append_of_pos htake]
    simp [htext, Bool.beq_eq_decide_eq]
  rw [hfirst, List.cons_append, scanUnit, hheader, hkey]
  by_cases h : sect = py "Unit" ∧ key.text = ownershipKey <;> simp [h]

/-! ## Whole unit files -/

/-- No value of the document is read in pieces. -/
def OnePiece : Line → Prop
  | .assign _ value => continued value = []
  | _ => True

theorem continued_eq_nil {value : PyStr} (h : ∀ c ∈ value, isLineBoundary c = false) :
    continued value = [] := by
  rw [continued, List.splitOnP_eq_singleton h]
  rfl

theorem IsPlainLine.onePiece {l : Line} (h : IsPlainLine l) : OnePiece l := by
  cases l with
  | header name => trivial
  | assign key value =>
      refine continued_eq_nil fun c hc => ?_
      have := h c hc
      simp only [isPlain, Bool.and_eq_true, decide_eq_true_eq] at this
      simp only [isLineBoundary, Bool.or_eq_false_iff, Bool.and_eq_false_iff, beq_eq_false_iff_ne,
        decide_eq_false_iff_not]
      omega
  | blank => trivial

/-- The mark as systemd's rules read it: the key in the [Unit] section. -/
def isMark (d : Directive) : Bool := d.sect = py "Unit" ∧ d.key = ownershipKey

theorem scanUnit_doc (sect : PyStr) {doc : List Line} (h : ∀ l ∈ doc, OnePiece l)
    (rest : List PyStr) :
    scanUnit sect (doc.flatMap pieces ++ rest) =
      ((directives sect doc).any isMark || scanUnit (sectionAfter sect doc) rest) := by
  induction doc generalizing sect with
  | nil => simp [directives, sectionAfter]
  | cons l doc ih =>
      have ht := fun s => ih s fun m hm => h m (by simp [hm])
      rw [List.flatMap_cons, List.append_assoc]
      cases l with
      | header name => rw [scanUnit_header, ht]; rfl
      | assign key value =>
          have hone : continued value = [] := h (.assign key value) (by simp)
          rw [scanUnit_assign, hone, List.nil_append, ht]
          simp [directives, sectionAfter, isMark, Bool.or_assoc]
      | blank => rw [scanUnit_blank, ht]; rfl

theorem isPwshpyUnit_render {doc : List Line} (h : ∀ l ∈ doc, 0x0d ∉ l.render) :
    isPwshpyUnit (render doc) = scanUnit [] (doc.flatMap pieces) := by
  have hlines : ∀ l ∈ doc.map Line.render, 0x0d ∉ l := by
    intro l hl
    obtain ⟨m, hm, rfl⟩ := List.mem_map.mp hl
    exact h m hm
  rw [isPwshpyUnit, render, splitlines_unlines _ hlines, List.flatMap_map]
  rfl

/-- The pieces of the description leave the [Unit] section open, or carry the key themselves. -/
def KeepsMark (description : PyStr) : Prop :=
  Marked (py "Unit") (continued (described description)) ∨
    openSection (py "Unit") (continued (described description)) = py "Unit"

/-- The pieces of the command line open a [Unit] section and carry the key below it. -/
def ForgesMark (program arguments : PyStr) : Prop :=
  Marked (py "Service") (continued (execLine program arguments))

/-- The scan of the [Unit] section, whatever follows it. -/
theorem scanUnit_headDoc (description : PyStr) {e : List Line}
    (hextra : ∀ l ∈ e, OnePiece l) (rest : List PyStr) :
    scanUnit [] ((headDoc description e).flatMap pieces ++ rest) = true ↔
      KeepsMark description ∨
        (directives (openSection (py "Unit") (continued (described description))) e).any isMark ∨
        scanUnit (sectionAfter (openSection (py "Unit") (continued (described description))) e)
          rest = true := by
  have hunit : unitSection.text = py "Unit" := rfl
  have hdescription : ¬ (py "Unit" = py "Unit" ∧ descriptionKey.text = ownershipKey) := by decide
  have hkey : ownershipName.text = ownershipKey := rfl
  have hversion : continued version = [] := by decide
  simp only [headDoc, List.cons_append, List.flatMap_cons, List.flatMap_append, List.append_assoc,
    List.flatMap_nil, List.nil_append]
  rw [scanUnit_header, hunit, scanUnit_assign, decide_eq_false hdescription,
    Bool.false_or, scanUnit_append, scanUnit_assign, hversion, List.nil_append,
    scanUnit_doc _ hextra, scanUnit_blank]
  simp only [hkey, and_true, Bool.or_eq_true, scanUnit_eq_true_iff, decide_eq_true_eq, KeepsMark]
  tauto

theorem not_isMark_of_key {doc : List Line} (sect : PyStr)
    (h : ∀ l ∈ doc, ∀ key value, l = .assign key value → key.text ≠ ownershipKey) :
    (directives sect doc).any isMark = false := by
  induction doc generalizing sect with
  | nil => rfl
  | cons l doc ih =>
      have ht := fun s => ih s fun m hm => h m (by simp [hm])
      cases l with
      | header name => exact ht _
      | assign key value =>
          have hkey := h _ (List.mem_cons_self ..) key value rfl
          simp [directives, isMark, hkey, ht]
      | blank => exact ht _

theorem not_isMark_unitKeys (sect : PyStr) (settings : Option TaskSettings) :
    (directives sect (unitKeys settings)).any isMark = false := by
  refine not_isMark_of_key sect fun l hl key value hassign => ?_
  cases settings with
  | none => cases hl
  | some settings =>
      rcases List.mem_append.mp hl with hl | hl <;> split at hl <;>
        simp only [List.mem_singleton, List.not_mem_nil] at hl <;> rw [hl] at hassign <;>
        cases hassign <;> decide

theorem not_isMark_serviceKeys (sect : PyStr) (settings : Option TaskSettings) :
    (directives sect (serviceKeys settings)).any isMark = false := by
  refine not_isMark_of_key sect fun l hl key value hassign => ?_
  cases settings with
  | none => cases hl
  | some settings =>
      rcases List.mem_append.mp hl with hl | hl
      · obtain ⟨limit, -, rfl⟩ := Option.map_eq_some_iff.mp (Option.mem_toList.mp hl)
        cases hassign
        decide
      · split at hl <;> simp only [List.mem_singleton, List.not_mem_nil] at hl
        rw [hl] at hassign
        cases hassign
        decide

/-- The lines of a unit file hold no CR: nothing in it is read as half of a CR LF pair. -/
theorem Printable.cr_not_mem {key : Name} {value : PyStr} (h : Printable value) :
    0x0d ∉ (Line.assign key value).render := by
  have hk : 0x0d ∉ key.text := Name.not_mem (by decide)
  simpa [Line.render, equalsSign] using And.intro hk (h.not_mem (by decide))

theorem IsPlainLine.cr_not_mem {l : Line} (h : IsPlainLine l) : 0x0d ∉ l.render := by
  cases l with
  | header name =>
      have hn : 0x0d ∉ name.text := Name.not_mem (by decide)
      simpa [Line.render] using hn
  | assign key value =>
      have hk : 0x0d ∉ key.text := Name.not_mem (by decide)
      have hv : 0x0d ∉ value := fun hmem => absurd (h _ hmem) (by decide)
      simpa [Line.render, equalsSign] using And.intro hk hv
  | blank => simp [Line.render]

theorem cr_not_mem_headDoc {description : PyStr} (h : Printable description) {extra : List Line}
    (hextra : ∀ l ∈ extra, IsPlainLine l) : ∀ l ∈ headDoc description extra, 0x0d ∉ l.render := by
  intro l hl
  simp only [headDoc, List.cons_append, List.mem_cons, List.mem_append, List.not_mem_nil,
    or_false] at hl
  rcases hl with rfl | rfl | rfl | hl | rfl
  · exact IsPlainLine.cr_not_mem trivial
  · exact (printable_described h).cr_not_mem
  · decide
  · exact (hextra l hl).cr_not_mem
  · decide

theorem isPwshpyUnit_serviceUnit {program arguments description text : PyStr}
    {user : Option PyStr} (huser : ∀ u ∈ user, isUid u) {settings : Option TaskSettings}
    (h : serviceUnit program arguments description user settings = .ok text) :
    isPwshpyUnit text = true ↔ KeepsMark description ∨ ForgesMark program arguments := by
  obtain ⟨rfl, hprogram, harguments, hdescription⟩ := serviceUnit_ok h
  have hcr : ∀ l ∈ serviceDoc program arguments description user settings, 0x0d ∉ l.render := by
    simp only [serviceDoc, servicePrologue, List.append_assoc, List.cons_append,
      List.forall_mem_append, List.forall_mem_cons]
    exact ⟨cr_not_mem_headDoc hdescription (plain_unitKeys settings), by decide, by decide,
      fun l hl => (plain_userLines huser l hl).cr_not_mem,
      (printable_execLine hprogram harguments).cr_not_mem,
      fun l hl => (plain_serviceKeys settings l hl).cr_not_mem⟩
  have hservice : serviceSection.text = py "Service" := rfl
  have htype : ∀ l ∈ Line.assign ⟨py "Type", by decide⟩ (py "oneshot") :: userLines user,
      IsPlainLine l := by
    rintro l (_ | ⟨_, hl⟩)
    · unfold IsPlainLine Plain; decide
    · exact plain_userLines huser l hl
  have hexec : ¬ (py "Service" = py "Unit" ∧ execStart.text = ownershipKey) := by decide
  have huserLines : directives (py "Service")
        (Line.assign ⟨py "Type", by decide⟩ (py "oneshot") :: userLines user) =
        ⟨py "Service", py "Type", UnitFile.trim (py "oneshot")⟩ ::
          (user.map fun u => ⟨py "Service", py "User", UnitFile.trim u⟩).toList ∧
      sectionAfter (py "Service")
        (Line.assign ⟨py "Type", by decide⟩ (py "oneshot") :: userLines user) = py "Service" := by
    cases user <;> exact ⟨rfl, rfl⟩
  have hmark : (directives (py "Service")
      (Line.assign ⟨py "Type", by decide⟩ (py "oneshot") :: userLines user)).any isMark = false := by
    rw [huserLines.1]
    cases user <;> simp [isMark, py]
  rw [isPwshpyUnit_render hcr, serviceDoc, servicePrologue, List.append_assoc, List.flatMap_append,
    scanUnit_headDoc description fun l hl => (plain_unitKeys settings l hl).onePiece,
    not_isMark_unitKeys, List.cons_append, List.flatMap_cons, List.flatMap_append,
    scanUnit_header, hservice, scanUnit_doc _ fun l hl => (htype l hl).onePiece, hmark, huserLines.2,
    List.flatMap_cons, Bool.false_or, scanUnit_assign, decide_eq_false hexec, Bool.false_or,
    scanUnit_append, ← List.append_nil (List.flatMap pieces (serviceKeys settings)),
    scanUnit_doc _ fun l hl => (plain_serviceKeys settings l hl).onePiece, not_isMark_serviceKeys]
  simp [scanUnit, scanUnit_eq_true_iff, ForgesMark]

theorem plain_of_unitName {base : PyStr} (h : base.all isUnitNameChar = true) : Plain base := by
  intro c hc
  have := List.all_eq_true.mp h c hc
  simp only [isUnitNameChar, isDigit, Bool.or_eq_true, Bool.and_eq_true, decide_eq_true_eq,
    beq_iff_eq] at this
  simp only [isPlain, Bool.and_eq_true, decide_eq_true_eq, bne_iff_ne]
  omega

theorem isPwshpyUnit_timerUnit {base description text : PyStr} {triggers : List TaskTrigger}
    (hbase : base.all isUnitNameChar = true) (h : timerUnit base description triggers = .ok text) :
    isPwshpyUnit text = true ↔ KeepsMark description := by
  obtain ⟨rfl, -, hdescription, -⟩ := timerUnit_ok h
  have hservice : Plain (py ".service") := by unfold Plain; decide
  have hbody : ∀ l ∈ timerBody base triggers, IsPlainLine l :=
    timerBody_forall (fun _ hl => hl) (fun _ => (plain_of_unitName hbase).append hservice) triggers
  have hcr : ∀ l ∈ timerDoc base description triggers, 0x0d ∉ l.render := by
    rw [timerDoc, List.forall_mem_append]
    exact ⟨cr_not_mem_headDoc hdescription (by simp), fun l hl => (hbody l hl).cr_not_mem⟩
  have hmark (sect : PyStr) :
      (directives sect (timerBody base triggers)).any isMark = false := by
    refine not_isMark_of_key sect fun l hl key value hassign => ?_
    simp only [timerBody, List.cons_append, List.mem_cons, List.mem_append, List.not_mem_nil,
      or_false] at hl
    rcases hl with rfl | hl | rfl | rfl | rfl | rfl | rfl <;> try (cases hassign <;> decide)
    obtain ⟨trigger, -, htrigger⟩ := List.mem_filterMap.mp hl
    rw [hassign] at htrigger
    cases trigger <;> cases htrigger <;> decide
  rw [isPwshpyUnit_render hcr, timerDoc, List.flatMap_append,
    scanUnit_headDoc description (e := []) (by simp),
    ← List.append_nil (List.flatMap pieces (timerBody base triggers)),
    scanUnit_doc _ fun l hl => (hbody l hl).onePiece, hmark]
  simp [scanUnit, directives]

end PwshPy.Systemd
