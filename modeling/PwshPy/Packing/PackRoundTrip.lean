import PwshPy.Files.Decoding
import PwshPy.Packing.ErrorContract
import PwshPy.Packing.ReadBack
import PwshPy.Packing.Restored

/-! # A pack read back

A pack that was written is found in its file again, its members are restored and
its entry is reported, exactly when no line boundary splits the entry's name and,
for a `.ps1`, no line of a packed name marks a payload.
-/

namespace PwshPy.Packing

open PathFinder (Path)
open ForEach (forEach)
open Files (encode normalize_newlines mark replace_char Clean Ascii clean_of_lt encode_isSome_iff
  ascii_append ascii_intercalate)
open Storage (Directory)

/-! ## What was written -/

/-- The readers undo what the packer wrote to this file. -/
structure Undoes (lib : Library) (packer : Packer) (fmt : RunnerFormat)
    (members : List (PyStr × Bytes)) (data : Bytes) : Prop where
  decode : ∀ text bytes, encode .utf_8 text = some bytes → text.head? ≠ some 0xfeff →
    data = mark .utf_8 (fmt == .ps1) ++ bytes → lib.decode data = text
  b64decode : ∀ payload, lib.b64decode (Bytes.base64 payload) = some payload
  /-- `validate=True`: no other character is let through -/
  strict : ∀ text payload, lib.b64decode text = some payload →
    (∀ c ∈ text, c = Bytes.PAD ∨ ∃ v, c = Bytes.symbol v) ∧ payload.length ≤ text.length
  archive : ArchiveReads lib packer members fmt

section Written

variable {packer : Packer} {tree : SourceTree} {options : PackOptions} {entry : Path} {out : Output}
  {disk disk' : Disk} {prepared : Prepared} {packed : PackedScript}

theorem write_runner_ok {runner : PyStr} {bom : Bool}
    (h : write_runner out disk runner bom = (disk', .ok ())) :
    ∃ bytes, encode .utf_8 (normalize_newlines runner [LF]) = some bytes ∧
      disk' = disk.write out.resolved (mark .utf_8 bom ++ bytes) := by
  unfold write_runner at h
  cases hmkdir : out.mkdir with
  | some exc =>
      simp only [hmkdir] at h
      cases h
  | none =>
      simp only [hmkdir] at h
      cases hencode : encode .utf_8 (normalize_newlines runner [LF]) with
      | none =>
          simp only [hencode] at h
          cases h
      | some bytes =>
          simp only [hencode] at h
          cases hobstacle : out.obstacle disk with
          | some obstacle =>
              obtain ⟨denied, left⟩ := obstacle
              cases denied with
              | true =>
                  simp only [hobstacle] at h
                  cases h
              | false =>
                  simp only [hobstacle] at h
                  cases h
          | none =>
              simp only [hobstacle] at h
              cases h
              exact ⟨bytes, rfl, rfl⟩

theorem render_payload_ok {payload : Bytes} {runner : PyStr}
    (h : render_payload packer options prepared payload = .ok runner) :
    ∃ request template, packer.template options.format = .ok template ∧
      runner = substitute (options.format.values split_relative_requirement
        (runner_content packer options prepared payload request)) template := by
  unfold render_payload at h
  cases hrequest : python_request prepared.metadata with
  | error e =>
      rw [hrequest] at h
      cases h
  | ok request =>
      rw [hrequest] at h
      cases htemplate : packer.template options.format with
      | error exc =>
          simp only [htemplate] at h
          cases h
      | ok template =>
          simp only [htemplate] at h
          obtain ⟨-, -, -, hrunner⟩ := render_eq_ok.mp h
          exact ⟨request, template, rfl, hrunner⟩

/-- What a pack that was written is made of. -/
theorem pack_script_ok (hprepared : prepare packer tree options entry out disk = .ok prepared)
    (h : pack_script packer tree entry out options disk = (disk', .ok packed)) :
    ∃ payload request template bytes, build packer options.format prepared.members = .ok payload ∧
      packer.template options.format = .ok template ∧
      encode .utf_8 (normalize_newlines (substitute
        (options.format.values split_relative_requirement
          (runner_content packer options prepared payload request)) template) [LF]) = some bytes ∧
      disk' = disk.write out.resolved (mark .utf_8 (options.format == .ps1) ++ bytes) := by
  unfold pack_script at h
  rw [hprepared] at h
  cases hbuild : build packer options.format prepared.members with
  | error e =>
      simp only [hbuild] at h
      cases h
  | ok payload =>
      simp only [hbuild] at h
      cases hrender : render_payload packer options prepared payload with
      | error e =>
          simp only [hrender] at h
          cases h
      | ok runner =>
          simp only [hrender] at h
          obtain ⟨request, template, htemplate, rfl⟩ := render_payload_ok hrender
          cases hwrite : write_runner out disk (substitute (options.format.values
              split_relative_requirement (runner_content packer options prepared payload request))
              template) (options.format == .ps1) with
          | mk left result =>
              cases result with
              | error e =>
                  rw [hwrite] at h
                  cases h
              | ok u =>
                  rw [hwrite] at h
                  cases h
                  obtain ⟨bytes, hencode, hleft⟩ := write_runner_ok hwrite
                  exact ⟨payload, request, template, bytes, rfl, htemplate, hencode, hleft⟩

/-- What makes a pack that is written. -/
theorem pack_script_eq_ok {payload : Bytes} {runner : PyStr}
    (hprepared : prepare packer tree options entry out disk = .ok prepared)
    (hbuild : build packer options.format prepared.members = .ok payload)
    (hrender : render_payload packer options prepared payload = .ok runner)
    (hwrite : write_runner out disk runner (options.format == .ps1) = (disk', .ok ())) :
    ∃ packed, pack_script packer tree entry out options disk = (disk', .ok packed) := by
  rw [pack_script, hprepared]
  simp only [hbuild, hrender, hwrite]
  exact ⟨_, rfl⟩

end Written

/-! ## The text of the runner -/

/-- A runner begins with a number sign, so with no byte-order mark. -/
theorem head_runner {fmt : RunnerFormat} (t : RunnerTemplate fmt)
    (values : Placeholder → Option PyStr) :
    (normalize_newlines (substitute values t.lines) [LF]).head? = some 0x23 := by
  obtain ⟨rest, hfirst⟩ := List.head?_eq_some_iff.mp t.first_plain.1
  have hruns : ∃ more, substitute values t.lines = 0x23 :: more := by
    refine ⟨rest ++ LF :: unlines ((t.lines.tail).map (fillLine values)), ?_⟩
    have hfill : fillLine values [.text t.first] = 0x23 :: rest := by
      rw [← hfirst]
      exact List.append_nil t.first
    rw [substitute, RunnerTemplate.lines, List.map_cons, unlines_cons, hfill]
    rfl
  obtain ⟨more, hmore⟩ := hruns
  have hsign : (0x23 : Nat) ≠ CR := by decide
  rw [hmore, normalize_newlines, if_pos rfl, joinCrLf_cons (by decide), replace_char,
    List.flatMap_cons, if_neg hsign]
  rfl

theorem hexdigest_char (packer : Packer) (data : Bytes) : ∀ c ∈ hexdigest packer data,
    isLineBoundary c = false ∧ c ≠ 0x40 ∧ c ≠ 0x3c := by
  intro c hc
  obtain ⟨b, -, hc⟩ := List.mem_flatMap.mp hc
  have hbounds := mem_hex hc
  refine ⟨?_, by omega, by omega⟩
  simp only [isLineBoundary, Bool.or_eq_false_iff, Bool.and_eq_false_iff, decide_eq_false_iff_not,
    beq_eq_false_iff_ne]
  omega

/-- What reading a pack back relies on: the entry's name stands on one line, and no
later line of a packed name is a payload's opening marker. -/
def Legible (fmt : RunnerFormat) (prepared : Prepared) : Prop :=
  (∀ c ∈ prepared.entry_arc, isLineBoundary c = false) ∧
    (fmt = .ps1 → ∀ m ∈ prepared.members, ∀ line ∈ (linePieces m.1).tail,
      strip line ≠ PAYLOAD_OPEN)

/-- The pieces of a file list's line. -/
theorem hash_line_pieces {digest path p : PyStr} (hdigest : ∀ c ∈ digest, isLineBoundary c = false)
    (h : p ∈ linePieces (digest ++ (py " *" ++ path))) :
    0x2a ∈ strip p ∨ p ∈ (linePieces path).tail := by
  have hstar : ∀ c ∈ py " *", isLineBoundary c = false := by decide
  rw [← List.append_assoc, linePieces_append_clean (List.forall_mem_append.mpr ⟨hdigest, hstar⟩)] at h
  cases hpieces : linePieces path with
  | nil =>
      rw [hpieces] at h
      cases h
  | cons first rest =>
      rw [hpieces] at h
      rcases List.mem_cons.mp h with rfl | h
      · refine Or.inl (mem_strip_of_not_space ?_ (by decide))
        simp [py]
      · exact Or.inr h

section Reading

variable {packer : Packer} {options : PackOptions} {prepared : Prepared} {payload : Bytes}
  {request : Specifiers} {split : PyStr → Option (PyStr × PyStr)} {text : PyStr}

/-- The pieces of the file list. -/
theorem hash_lines_pieces (hne : prepared.members ≠ []) :
    linePieces (hash_lines (py " *") (runner_content packer options prepared payload request)) =
      prepared.members.flatMap fun m =>
        linePieces (hexdigest packer m.2 ++ (py " *" ++ m.1)) := by
  rw [hash_lines, linePieces_joinWith (by simpa [runner_content] using hne), List.flatMap_map]
  simp only [runner_content, List.flatMap_map]

theorem payload_unmarked {p : PyStr} (h : p ∈ linePieces (chunk_base64 (Bytes.base64 payload))) :
    strip p ≠ PAYLOAD_CLOSE ∧ strip p ≠ SH_HEREDOC := by
  have hchars : ∀ c ∈ strip p, c ≠ QUOTE ∧ c ≠ 0x5f := fun c hc =>
    (base64_char ((payload_pieces payload).2 p h c (mem_strip hc))).2.2
  constructor
  · intro hclose
    exact (hchars QUOTE (by rw [hclose]; decide)).1 rfl
  · intro hclose
    exact (hchars 0x5f (by rw [hclose]; decide)).2 rfl

theorem entryPiece_no_payload_open (entry : PyStr) :
    strip (entryPiece entry .ps1) ≠ PAYLOAD_OPEN := by
  intro hopen
  rw [strip_entryPiece, entryPiece_ps1] at hopen
  have hletter := congrArg (fun s : PyStr => (s.drop 7).head?) hopen
  cases hletter

/-- The payload is found in a legible runner. -/
theorem extract_payload_legible {lib : Library} {fmt : RunnerFormat} (t : RunnerTemplate fmt)
    (source : PyStr) (hformat : options.format = fmt) (hne : prepared.members ≠ [])
    (hlegible : Legible fmt prepared)
    (hlines : splitlines text = splitlines (substitute (fmt.values split
      (runner_content packer options prepared payload request)) t.lines))
    (hdecode : lib.b64decode (Bytes.base64 payload) = some payload) :
    extract_payload lib text source = .ok (payload, fmt) := by
  have hsha : ∀ c ∈ hexdigest packer payload, c ≠ 0x40 ∧ c ≠ 0x3c := fun c hc =>
    (hexdigest_char packer payload c hc).2
  have hinside := (payload_pieces payload).1
  cases fmt with
  | ps1 =>
      obtain ⟨head, data, tail, hruns, hhead, hdata⟩ := @splitlines_ps1 split
        (runner_content packer options prepared payload request) t hlegible.1
        fun hat => (hsha _ hat).1 rfl
      have hall : splitlines text = (head ++ entryPiece prepared.entry_arc .ps1 :: (data ++
          (linePieces (hash_lines (py " *")
            (runner_content packer options prepared payload request)) ++ [PAYLOAD_CLOSE, []]))) ++
          PAYLOAD_OPEN :: (linePieces (chunk_base64 (Bytes.base64 payload)) ++
            PAYLOAD_CLOSE :: tail) := by
        rw [hlines, hruns]
        simp only [List.append_assoc, List.cons_append, List.nil_append, runner_content]
      refine extract_payload_ps1 hall ?_ (fun p hp => (payload_unmarked hp).1)
        (by rw [hinside, hdecode])
      intro p hp
      rw [List.mem_append, List.mem_cons, List.mem_append, List.mem_append, List.mem_cons,
        List.mem_singleton] at hp
      rcases hp with hp | rfl | hp | hp | rfl | rfl
      · exact (quietPiece_iff.mp (hhead p hp)).1.1
      · exact entryPiece_no_payload_open _
      · exact hdata p hp
      · rw [hash_lines_pieces hne] at hp
        obtain ⟨m, hm, hp⟩ := List.mem_flatMap.mp hp
        have hdigest : ∀ c ∈ hexdigest packer m.2, isLineBoundary c = false := fun c hc =>
          (hexdigest_char packer m.2 c hc).1
        rcases hash_line_pieces hdigest hp with hstar | hlater
        · intro hopen
          rw [hopen] at hstar
          exact absurd hstar (by decide)
        · exact hlegible.2 rfl m hm p hlater
      · decide
      · decide
  | sh =>
      obtain ⟨head, data, tail, hruns, hhead, hdata, htail⟩ := @splitlines_sh split
        (runner_content packer options prepared payload request) t hlegible.1
        ⟨fun hat => (hsha _ hat).1 rfl, fun hless => (hsha _ hless).2 rfl⟩
      have hall : splitlines text = (head ++ entryPiece prepared.entry_arc .sh :: data) ++
          (py "    cat " ++ SH_PAYLOAD_OPEN) ::
            (linePieces (chunk_base64 (Bytes.base64 payload)) ++ SH_HEREDOC :: tail) := by
        rw [hlines, hruns]
        simp only [List.append_assoc, List.cons_append, runner_content]
      have hentry : Unmarked (entryPiece prepared.entry_arc .sh) := by
        have hpiece : entryPiece prepared.entry_arc .sh ∈
            linePieces (py "PWSHPY_ENTRY=" ++ posix_shell_word prepared.entry_arc) := by
          have hone := linePieces_clean (clean_entryPiece .sh hlegible.1)
          exact hone ▸ List.mem_singleton_self _
        exact unmarked_posix_shell_word (by decide) (by decide) hpiece
      have habove : ∀ p ∈ head ++ entryPiece prepared.entry_arc .sh :: data, Unmarked p := by
        intro p hp
        rw [List.mem_append, List.mem_cons] at hp
        rcases hp with hp | rfl | hp
        · exact (quietPiece_iff.mp (hhead p hp)).1.2
        · exact hentry
        · exact hdata p hp
      refine extract_payload_sh hall ?_ (fun p hp => (habove p hp).2) (by decide)
        (fun p hp => (payload_unmarked hp).2) (by decide) (by rw [hinside, hdecode])
      intro p hp
      rw [hall] at hp
      rcases List.mem_append.mp hp with hp | hp
      · exact (habove p hp).1
      rw [List.mem_cons, List.mem_append, List.mem_cons] at hp
      rcases hp with rfl | hp | rfl | hp
      · decide
      · exact (payload_unmarked hp).1
      · decide
      · exact htail p hp

/-- The entry of a legible runner is reported. -/
theorem extract_entry_name_legible {fmt : RunnerFormat} (t : RunnerTemplate fmt)
    (hlegible : Legible fmt prepared)
    (hlines : splitlines text = splitlines (substitute (fmt.values split
      (runner_content packer options prepared payload request)) t.lines)) :
    extract_entry_name (splitlines text) = prepared.entry_arc := by
  have hsha : ∀ c ∈ hexdigest packer payload, c ≠ 0x40 ∧ c ≠ 0x3c := fun c hc =>
    (hexdigest_char packer payload c hc).2
  cases fmt with
  | ps1 =>
      obtain ⟨head, data, tail, hruns, hhead, -⟩ := @splitlines_ps1 split
        (runner_content packer options prepared payload request) t hlegible.1
        fun hat => (hsha _ hat).1 rfl
      rw [hlines, hruns, extract_entry_name_append hhead, extract_entry_name_entryPiece]
      rfl
  | sh =>
      obtain ⟨head, data, tail, hruns, hhead, -⟩ := @splitlines_sh split
        (runner_content packer options prepared payload request) t hlegible.1
        ⟨fun hat => (hsha _ hat).1 rfl, fun hless => (hsha _ hless).2 rfl⟩
      rw [hlines, hruns, extract_entry_name_append hhead, extract_entry_name_entryPiece]
      rfl

end Reading

/-! ## A name that marks a payload -/

/-- A piece of a concatenation is one of a part's, with other parts behind. -/
theorem flatMap_eq_append_cons {α β : Type} {f : α → List β} {xs : List α} {before after : List β}
    {b : β} (h : xs.flatMap f = before ++ b :: after) :
    ∃ x ∈ xs, ∃ (front back : List β) (later : List α),
      f x = front ++ b :: back ∧ after = back ++ later.flatMap f := by
  induction xs generalizing before with
  | nil =>
      rw [List.flatMap_nil] at h
      exact absurd (h ▸ List.mem_append_right before List.mem_cons_self) List.not_mem_nil
  | cons x xs ih =>
      have hlater : ∀ {before : List β}, xs.flatMap f = before ++ b :: after →
          ∃ y ∈ x :: xs, ∃ (front back : List β) (later : List α),
            f y = front ++ b :: back ∧ after = back ++ later.flatMap f := by
        intro before hrest
        obtain ⟨y, hy, found⟩ := ih hrest
        exact ⟨y, List.mem_cons_of_mem _ hy, found⟩
      rw [List.flatMap_cons, List.append_eq_append_iff] at h
      rcases h with ⟨front, -, hrest⟩ | ⟨back, hx, hrest⟩
      · exact hlater hrest
      · cases back with
        | nil =>
            have hrest' : xs.flatMap f = [] ++ b :: after := hrest.symm
            exact hlater hrest'
        | cons c back =>
            obtain ⟨rfl, hafter⟩ := List.cons.inj hrest
            exact ⟨x, List.mem_cons_self, before, back, xs, hx, hafter⟩

theorem length_joinCrLf (text : PyStr) : (joinCrLf text).length ≤ text.length := by
  induction text using joinCrLf.induct with
  | case1 => exact le_rfl
  | case2 c => exact le_rfl
  | case3 c d s hcd ih =>
      rw [joinCrLf, if_pos hcd]
      exact Nat.le_succ_of_le ih
  | case4 c d s hcd ih =>
      rw [joinCrLf, if_neg hcd]
      exact Nat.succ_le_succ ih

theorem length_flatten_splitOnP (P : Nat → Bool) (text : PyStr) :
    (text.splitOnP P).flatten.length ≤ text.length := by
  induction text with
  | nil => exact le_rfl
  | cons c text ih =>
      rw [List.splitOnP_cons_eq_if_modifyHead]
      split
      · exact Nat.le_succ_of_le ih
      · cases hpieces : text.splitOnP P with
        | nil => simp
        | cons piece pieces =>
            rw [hpieces] at ih
            exact Nat.succ_le_succ ih

/-- Splitting a text adds no character. -/
theorem length_flatten_splitlines (text : PyStr) :
    (splitlines text).flatten.length ≤ text.length := by
  have hpieces := (length_flatten_splitOnP isLineBoundary (joinCrLf text)).trans (length_joinCrLf text)
  simp only [splitlines]
  split
  · rename_i hlast
    obtain ⟨init, hinit⟩ := List.getLast?_eq_some_iff.mp hlast
    rw [hinit, List.flatten_append, List.length_append] at hpieces
    rw [hinit, List.dropLast_concat]
    exact le_trans (Nat.le_add_right _ _) hpieces
  · exact hpieces

theorem length_strip (p : PyStr) : (strip p).length ≤ p.length :=
  ((List.rdropWhile_prefix isSpace _).length_le).trans (List.dropWhile_suffix isSpace).length_le

theorem length_flatMap_strip (ps : List PyStr) :
    (ps.flatMap strip).length ≤ ps.flatten.length := by
  induction ps with
  | nil => exact le_rfl
  | cons p ps ih =>
      rw [List.flatMap_cons, List.flatten_cons, List.length_append, List.length_append]
      exact Nat.add_le_add (length_strip p) ih

section Forged

variable {digest : Bytes → PyStr} {members : List (PyStr × Bytes)}

/-- The pieces of a file list, for a `hexdigest`. -/
def listPieces (digest : Bytes → PyStr) (members : List (PyStr × Bytes)) : List PyStr :=
  members.flatMap fun m => linePieces (digest m.2 ++ (py " *" ++ m.1))

/-- What stands between a marker in a name and the next closing one spells no
payload that holds the name: it runs into the next name's line, or is shorter. -/
theorem forged_text (hdigest : ∀ body, ∀ c ∈ digest body, isLineBoundary c = false)
    {before after : List PyStr} {opened : PyStr}
    (h : listPieces digest members = before ++ opened :: after)
    (hopened : strip opened = PAYLOAD_OPEN) :
    0x2a ∈ (after.takeWhile fun line => !(strip line == PAYLOAD_CLOSE)).flatMap strip ∨
      ∃ m ∈ members,
        ((after.takeWhile fun line => !(strip line == PAYLOAD_CLOSE)).flatMap strip).length <
          m.1.length := by
  obtain ⟨m, hm, front, back, later, hpieces, rfl⟩ := flatMap_eq_append_cons h
  have hstar : ∀ c ∈ py " *", isLineBoundary c = false := by decide
  have hbegun : ∀ m' : PyStr × Bytes, linePieces (digest m'.2 ++ (py " *" ++ m'.1)) =
      (linePieces m'.1).modifyHead (digest m'.2 ++ py " *" ++ ·) := by
    intro m'
    rw [← List.append_assoc,
      linePieces_append_clean (List.forall_mem_append.mpr ⟨hdigest m'.2, hstar⟩)]
  have hmarked : ∀ (m' : PyStr × Bytes) (first : PyStr),
      0x2a ∈ strip (digest m'.2 ++ py " *" ++ first) := fun m' first =>
    mem_strip_of_not_space (by simp [py]) (by decide)
  have hback : back.flatten.length < m.1.length := by
    have hlength := length_flatten_splitlines (m.1 ++ [LF])
    change (linePieces m.1).flatten.length ≤ _ at hlength
    rw [hbegun] at hpieces
    cases hname : linePieces m.1 with
    | nil =>
        rw [hname] at hpieces
        exact absurd (hpieces ▸ List.mem_append_right front List.mem_cons_self) List.not_mem_nil
    | cons first rest =>
        rw [hname, List.modifyHead_cons] at hpieces
        cases front with
        | nil =>
            -- the name's first line stands behind its digest
            have hhead := hmarked m first
            rw [(List.cons.inj hpieces).1, hopened] at hhead
            exact absurd hhead (by decide)
        | cons piece front =>
            have hopens : PAYLOAD_OPEN.length ≤ opened.length := hopened ▸ length_strip opened
            have htwo : 2 ≤ PAYLOAD_OPEN.length := by decide
            have hrest : rest = front ++ opened :: back := (List.cons.inj hpieces).2
            rw [hname, hrest] at hlength
            simp only [List.flatten_cons, List.flatten_append, List.length_append,
              List.length_singleton] at hlength
            omega
  have hshort : ∀ kept rest, back = kept ++ rest → (kept.flatMap strip).length < m.1.length := by
    intro kept rest hkept
    have hle := length_flatMap_strip kept
    rw [hkept, List.flatten_append, List.length_append] at hback
    omega
  rw [List.takeWhile_append]
  split
  · cases later with
    | nil =>
        rw [List.flatMap_nil, List.takeWhile_nil, List.append_nil]
        exact Or.inr ⟨m, hm, hshort back [] (List.append_nil back).symm⟩
    | cons next later =>
        refine Or.inl ?_
        cases hname : linePieces next.1 with
        | nil => exact absurd hname (linePieces_ne_nil _)
        | cons first rest =>
            have hline := hmarked next first
            have hopen : (!(strip (digest next.2 ++ py " *" ++ first) == PAYLOAD_CLOSE)) = true := by
              rw [Bool.not_eq_true', beq_eq_false_iff_ne]
              intro hclose
              rw [hclose] at hline
              exact absurd hline (by decide)
            rw [List.flatMap_cons, hbegun, hname, List.modifyHead_cons, List.cons_append,
              List.takeWhile_cons_of_pos (p := fun line => !(strip line == PAYLOAD_CLOSE)) hopen,
              List.flatMap_append, List.flatMap_cons]
            exact List.mem_append_right _ (List.mem_append_left _ hline)
  · exact Or.inr ⟨m, hm, hshort _ _ (List.takeWhile_append_dropWhile).symm⟩

end Forged

/-! ## The round trip -/

/-- The pack in a file is found, its own members are restored wherever there is room
for them, and its entry is reported. -/
structure RoundTrips (lib : Library) (packer : Packer) (fmt : RunnerFormat) (prepared : Prepared)
    (data : Bytes) : Prop where
  opened : ∀ source, open_pack lib source (.holding data) =
    .ok (lib.decode data, archive packer fmt prepared.members, fmt)
  unpacked : ∀ place source force disk spot,
    Takes place disk ((own_members prepared.members).map Prod.fst) spot → ∃ left,
      unpack_script lib place source (.holding data) force disk =
        (left, .ok { entry := prepared.entry_arc
                     files := (own_members prepared.members).map Prod.fst
                     payload_sha256 := lib.sha256 (archive packer fmt prepared.members)
                     payload_bytes := (archive packer fmt prepared.members).length }) ∧
      (∀ m ∈ own_members prepared.members, left.file (spot m.1) = some m.2) ∧
      ∀ path, (∀ m ∈ own_members prepared.members, path ≠ spot m.1) → left.file path = disk.file path

section RoundTrip

variable {packer : Packer} {tree : SourceTree} {options : PackOptions} {entry : Path} {out : Output}
  {disk disk' : Disk} {prepared : Prepared} {packed : PackedScript} {lib : Library} {data : Bytes}

theorem own_members_nodup (h : (prepared.members.map Prod.fst).Nodup) :
    ((own_members prepared.members).map Prod.fst).Nodup :=
  (List.filter_sublist.map Prod.fst).nodup h

/-- A pack that is opened is restored. -/
theorem unpack_opened {text : PyStr} {payload : Bytes} {fmt : RunnerFormat} {source : PyStr}
    {place : Destination} {force : Bool} {spot : PyStr → Path}
    (hopened : open_pack lib source (.holding data) = .ok (text, payload, fmt))
    (hmembers : members_of lib payload fmt = .ok (readable (own_members prepared.members)))
    (hnodup : (prepared.members.map Prod.fst).Nodup)
    (htakes : Takes place disk ((own_members prepared.members).map Prod.fst) spot) : ∃ left,
      unpack_script lib place source (.holding data) force disk =
        (left, .ok { entry := extract_entry_name (splitlines text)
                     files := (own_members prepared.members).map Prod.fst
                     payload_sha256 := lib.sha256 payload, payload_bytes := payload.length }) ∧
      (∀ m ∈ own_members prepared.members, left.file (spot m.1) = some m.2) ∧
      ∀ path, (∀ m ∈ own_members prepared.members, path ≠ spot m.1) →
        left.file path = disk.file path := by
  obtain ⟨left, hrun, hwritten, hkept⟩ := @restore_all place disk spot force _
    (own_members_nodup hnodup) htakes
  refine ⟨left, ?_, hwritten, hkept⟩
  have hextract : extract lib payload place fmt force disk =
      (left, .ok ((own_members prepared.members).map Prod.fst)) := by
    rw [extract, hmembers]
    exact hrun
  simp only [unpack_script, hopened, htakes.expands, hextract]

/-- An empty directory that takes every name. -/
def freshPlace : Destination where
  unexpanded := none
  base := fun _ => .ok []
  locate := fun _ name => .ok [name]
  isDir := fun _ _ => false
  unasked := fun _ _ => none
  obstacle := fun _ _ => none

theorem freshPlace_takes (names : List PyStr) :
    Takes freshPlace emptyDisk names fun name => [name] where
  expands := rfl
  below := fun _ _ _ => ⟨rfl, [], rfl, List.nil_prefix⟩
  asked := fun _ _ _ => rfl
  apart := fun _ _ _ _ h => (List.cons.inj h).1
  vacant := fun _ _ => rfl
  free := fun _ _ _ => rfl
  writable := fun _ _ _ => rfl

/-- The entry a pack reports stands on one line. -/
theorem clean_entry_of_roundTrips {fmt : RunnerFormat} (source : PyStr)
    (h : RoundTrips lib packer fmt prepared data)
    (hmembers : members_of lib (archive packer fmt prepared.members) fmt =
      .ok (readable (own_members prepared.members)))
    (hnodup : (prepared.members.map Prod.fst).Nodup) :
    ∀ c ∈ prepared.entry_arc, isLineBoundary c = false := by
  have htakes := freshPlace_takes ((own_members prepared.members).map Prod.fst)
  obtain ⟨left, hrun, -⟩ := h.unpacked freshPlace source false emptyDisk _ htakes
  obtain ⟨left', hrun', -⟩ := @unpack_opened emptyDisk prepared lib data _ _ _ source freshPlace false _
    (h.opened source) hmembers hnodup htakes
  have hsame := (Prod.mk.inj (hrun.symm.trans hrun')).2
  have hentry : prepared.entry_arc = extract_entry_name (splitlines (lib.decode data)) :=
    congrArg Unpacked.entry (Except.ok.inj hsame)
  rw [hentry]
  exact clean_extract_entry_name fun p hp => clean_of_mem_splitlines hp

/-- A payload that is found is not one a packed name spells. -/
theorem names_of_extract_payload {text source : PyStr} {request : Specifiers}
    {split : PyStr → Option (PyStr × PyStr)} (t : RunnerTemplate .ps1)
    (hundoes : Undoes lib packer .ps1 prepared.members data)
    (hne : prepared.members ≠ [])
    (hentry : ∀ c ∈ prepared.entry_arc, isLineBoundary c = false)
    (hlines : splitlines text = splitlines (substitute (RunnerFormat.ps1.values split
      (runner_content packer options prepared (packer.zip prepared.members) request)) t.lines))
    (h : extract_payload lib text source = .ok (packer.zip prepared.members, .ps1)) :
    ∀ m ∈ prepared.members, ∀ line ∈ (linePieces m.1).tail, strip line ≠ PAYLOAD_OPEN := by
  intro m hm line hline hopen
  have hdigest : ∀ body, ∀ c ∈ hexdigest packer body, isLineBoundary c = false := fun body c hc =>
    (hexdigest_char packer body c hc).1
  have hmarker : ∃ line ∈ listPieces (hexdigest packer) prepared.members,
      (strip line == PAYLOAD_OPEN) = true := by
    refine ⟨line, List.mem_flatMap.mpr ⟨m, hm, ?_⟩, beq_iff_eq.mpr hopen⟩
    have hstar : ∀ c ∈ py " *", isLineBoundary c = false := by decide
    rw [← List.append_assoc,
      linePieces_append_clean (List.forall_mem_append.mpr ⟨hdigest m.2, hstar⟩)]
    cases hname : linePieces m.1 with
    | nil =>
        rw [hname] at hline
        cases hline
    | cons first rest =>
        rw [hname] at hline
        exact List.mem_cons_of_mem _ hline
  obtain ⟨opened, hfound⟩ := Option.isSome_iff_exists.mp (List.find?_isSome.mpr hmarker)
  obtain ⟨hopened, before, after, hpieces, hbefore⟩ := List.find?_eq_some_iff_append.mp hfound
  obtain ⟨head, data, tail, hruns, hhead, hdata⟩ := @splitlines_ps1 split
    (runner_content packer options prepared (packer.zip prepared.members) request) t hentry
    fun hat => (hexdigest_char packer _ _ hat).2.1 rfl
  have hall : splitlines text = (head ++ entryPiece prepared.entry_arc .ps1 :: (data ++ before)) ++
      opened :: (after ++ PAYLOAD_CLOSE :: [] :: PAYLOAD_OPEN ::
        (linePieces (chunk_base64 (Bytes.base64 (packer.zip prepared.members))) ++
          PAYLOAD_CLOSE :: tail)) := by
    rw [hlines, hruns, hash_lines_pieces hne]
    change _ ++ _ :: (_ ++ (listPieces (hexdigest packer) prepared.members ++ _)) = _
    rw [hpieces]
    simp only [List.append_assoc, List.cons_append, runner_content]
  have habove : ∀ p ∈ head ++ entryPiece prepared.entry_arc .ps1 :: (data ++ before),
      (strip p == PAYLOAD_OPEN) = false := by
    intro p hp
    rw [List.mem_append, List.mem_cons, List.mem_append] at hp
    rcases hp with hp | rfl | hp | hp
    · exact beq_false_of_ne (quietPiece_iff.mp (hhead p hp)).1.1
    · exact beq_false_of_ne (entryPiece_no_payload_open _)
    · exact beq_false_of_ne (hdata p hp)
    · exact Bool.not_eq_true' _ ▸ hbefore p hp
  have hslice : slice_payload (splitlines text) (· == PAYLOAD_OPEN) (· == PAYLOAD_CLOSE) =
      some (after.takeWhile fun line => !(strip line == PAYLOAD_CLOSE)) := by
    rw [hall]
    exact slice_payload_opened habove hopened (by decide)
  simp only [extract_payload, hslice, decode_payload] at h
  cases hread : lib.b64decode
      ((after.takeWhile fun line => !(strip line == PAYLOAD_CLOSE)).flatMap strip) with
  | none =>
      rw [hread] at h
      cases h
  | some payload =>
      rw [hread] at h
      have hpayload : payload = packer.zip prepared.members := congrArg Prod.fst (Except.ok.inj h)
      obtain ⟨halphabet, hlength⟩ := hundoes.strict _ _ hread
      rcases forged_text hdigest hpieces (beq_iff_eq.mp hopened) with hstar | ⟨m', hm', hshort⟩
      · rcases halphabet _ hstar with hpad | ⟨v, hsymbol⟩
        · exact absurd hpad (by decide)
        · have hrange := Bytes.symbol_range v
          omega
      · have hname := hundoes.archive.length m' hm'
        rw [hpayload] at hlength
        omega

/-- A pack that was written is read back exactly when it is legible. -/
theorem pack_round_trip_iff (packer : Packer) (lib : Library) (tree : SourceTree)
    (options : PackOptions) (entry : Path) (out : Output) (disk disk' : Disk) (prepared : Prepared)
    (packed : PackedScript) (data : Bytes) (t : RunnerTemplate options.format)
    (hnamed : tree.Named) (htemplate : packer.template options.format = .ok t.lines)
    (hprepared : prepare packer tree options entry out disk = .ok prepared)
    (hpacked : pack_script packer tree entry out options disk = (disk', .ok packed))
    (hdata : disk'.file out.resolved = some data)
    (hundoes : Undoes lib packer options.format prepared.members data) :
    RoundTrips lib packer options.format prepared data ↔ Legible options.format prepared := by
  obtain ⟨payload, request, template, bytes, hbuild, htemplate', hencode, rfl⟩ :=
    pack_script_ok hprepared hpacked
  obtain rfl : template = t.lines := Except.ok.inj (htemplate'.symm.trans htemplate)
  obtain rfl := build_ok hbuild
  rw [Directory.file_write_self] at hdata
  obtain ⟨hnodup, hsorted⟩ := prepare_names hnamed hprepared
  have hne := prepare_members_ne_nil hprepared
  have hmembers := members_of_archive hundoes.archive hnodup hsorted
  have hdecode := hundoes.decode _ _ hencode (by rw [head_runner]; decide)
    (Option.some.inj hdata).symm
  have hlines := splitlines_normalize_newlines (substitute (options.format.values
    split_relative_requirement (runner_content packer options prepared
      (archive packer options.format prepared.members) request)) t.lines)
  rw [← hdecode] at hlines
  constructor
  · intro h
    have hentry := clean_entry_of_roundTrips [] h hmembers hnodup
    refine ⟨hentry, fun hps1 => ?_⟩
    obtain ⟨-, hextract⟩ := open_pack_eq_ok.mp (h.opened [])
    generalize options.format = fmt at *
    subst hps1
    exact names_of_extract_payload t hundoes hne hentry hlines hextract
  · intro h
    have hextract := fun source => extract_payload_legible t source rfl hne h hlines
      (hundoes.b64decode _)
    have hopened : ∀ source, open_pack lib source (.holding data) =
        .ok (lib.decode data, archive packer options.format prepared.members, options.format) :=
      fun source => open_pack_eq_ok.mpr ⟨rfl, hextract source⟩
    refine ⟨hopened, fun place source force disk spot htakes => ?_⟩
    rw [← extract_entry_name_legible t h hlines]
    exact unpack_opened (hopened source) hmembers hnodup htakes

end RoundTrip

/-! ## A pack of an empty script -/

theorem ascii_substitute {values : Placeholder → Option PyStr} {template : List TemplateLine}
    (htexts : ∀ line ∈ template, ∀ s, Segment.text s ∈ line → Ascii s)
    (hvalues : ∀ p, ∀ value, values p = some value → Ascii value) :
    Ascii (substitute values template) := by
  have hlf : LF < 0x80 := by decide
  have htoken : ∀ p : Placeholder, Ascii p.token := by
    intro p
    cases p <;> decide
  have hsegment : ∀ line ∈ template, ∀ segment ∈ line,
      Ascii (fillSegment values segment) := by
    intro line hline segment hsegment
    cases segment with
    | text s => exact htexts line hline s hsegment
    | hole p =>
        rw [fillSegment]
        cases hp : values p with
        | none => exact htoken p
        | some value => exact hvalues p value hp
  intro c hc
  obtain ⟨filled, hfilled, hc⟩ := List.mem_flatMap.mp hc
  obtain ⟨line, hline, rfl⟩ := List.mem_map.mp hfilled
  rcases List.mem_append.mp hc with hc | hc
  · obtain ⟨segment, hmem, hc⟩ := List.mem_flatMap.mp hc
    exact hsegment line hline segment hmem c hc
  · exact List.mem_singleton.mp hc ▸ hlf

def emptyScriptTree : SourceTree := plainTree [[py "p", py "a.py"]] fun _ => .ok []

theorem emptyScript_mem : [py "p", py "a.py"] ∈ emptyScriptTree.files := List.mem_singleton_self _

def emptyScript : emptyScriptTree.File := ⟨[py "p", py "a.py"], emptyScript_mem⟩

def samplePrintable (c : Nat) : Bool := 0x20 ≤ c && c < 0x7f

/-- The shim of `a.py`, which has no script block. -/
def scriptShim : Bytes := (encode .utf_8 (render_shim samplePrintable (py "a.py") [])).getD []

def scriptMembers : List (PyStr × Bytes) := [(SHIM_MODULE, scriptShim), (py "a.py", [])]

theorem collect_emptyScript (root : Path)
    (hroot : require_under_root emptyScriptTree root [emptyScript] = .ok ()) :
    collect_sources sampleParse [] emptyScriptTree root emptyScript [] =
      ([emptyScript], .ok ⟨[(emptyScript, [])], []⟩) := by
  have hbody : emptyScriptTree.body emptyScript = .ok [] := rfl
  have hparse : sampleParse [] = .ok (.other []) := rfl
  have hnone : ∀ package, iter_import_candidates (.other []) package = [] := by
    intro package
    simp [iter_import_candidates, walk, Node.children, node_candidates]
  have hvisit : visit sampleParse [] emptyScriptTree root emptyScript = .ok (([], []), []) := by
    simp [visit, read_bytes, hbody, parse_source, hparse, hnone, ask_local, bind, Except.bind, pure,
      Except.pure]
  have hwalk : Worklist.explore (visit sampleParse [] emptyScriptTree root) [emptyScript] [] [] =
      ([emptyScript], .ok [(emptyScript, ([], []))]) := by
    simp [Worklist.explore, hvisit]
  simp [collect_sources, hwalk, include_files, hroot, ask_local]

/-- The zip of these members. -/
@[irreducible] def SCRIPT_ZIP : Bytes :=
  [
    0x504b0304140000000800000021000599891e8c070000bb110000170000005f5f7077736870795f70,
    0x61636b5f6d61696e5f5f2e707985586d6fe33612feee5fc1d3174ba82d6cd097ebe5b01f8cc49b04,
    0xb74d8224edb6f0190a2dd3366f65494752768c6bfffb3d33142d39fb56146b491cce0c67e6796698,
    0x288aae54a98c746a29160751efeda6c68fcc3f8ab130ca35a6b4c255c26d94c865512833b422df2f,
    0x47585c34ba585a21cd7a87d7860421a54a670e6914458381ded695716221adfae987f056d9f0842d,
    0xf521bcd8831d0cb2ebe9c354bc854c5a4bb74997da9472abe2f02e17967ee32c5be9426559920cb2,
    0xe9edd3c31fbd3dffa97419b3a29118cab43e0c93c160b0542b91f9f364aecae068e68f63331851b9,
    0xabcc214ece0702ffc1f78b8d2cd72a1cfc2821642954a1761c2eb88fc80972d09e8b6627b4b3aa58,
    0x09eba4a1755558b5df28a3d201ab9df4f470a0822299e755533ac4b72c2b470184da18a66edf3d0a,
    0xf5c2e1d96bb711a6c2b2fd6f23ed4697eb04924b8e39ab873b5eaa2a952834fe816710835b23b150,
    0xabca28b87f10d58aaddbdce89a7360d3706afeed9ce498aa72a74d55a67555c7c3fb0f8fd7f77f64,
    0xf7938b7f65171f2e8723710b6b09efd3abde566d79c5c793bde3d0f32bcaa3fb0e0bf906fbe2e35e,
    0xaf4dbde40aeedd3d4e8da98c9056287ae82b94b62ae1237f4fad33fc20f03f9e637e498ed2a82e88,
    0x2cf135dd1bed541cf52afd3c44de3b19b2beafcc478a5f77aa487cd77bfb4e44e7fca97505efff2e,
    0xa3cea691da2af178b04e6da72fdac57f7fd3ab440b1deaa40eb9b2bb12bcd23bd5cf143dde4f9eae,
    0xa9cc5a288a8d5c9e9fd6525b9406d5838a8457ce34961682df5a597c2e0e6d517ed848479275e384,
    0x2ec50aa976a1445a6b628fe8afe14d49a57db047b991b055df43aba07b4f0aa5cf7453f6fde2f554,
    0xdc38aa8ebc21333d3bf4d03a0feca1aeab1d1e17caeaa53a619f91281596d8c0ba51d61282ac0854,
    0x4199562f0afae5a2500903532e3d4e82a36d4d6f8134b0d982ce4335169609451e0aaa06c4549923,
    0x68231c6ac972842f12a928644e6ce541d85a15055bd004de1a85c444d915cb52af56a082d2150756,
    0x1de7f5012acaf1f7e9d98fe99b719aa6ad13fd05fedc5339125bd45a637064863acef6263dfb3e39,
    0x453015d237c04b213f41afcfefd737fdfadba7fb807a36879412824e41df299b45b4339ac342460d,
    0x0201cd9a5d86c4a865dcb3b9562ef6a2231c271979bf12608bac04f47ca2216f0cc536881f31c4d5,
    0x8dd0e56a89d27c7ee6e5e767aae0e7e776d3f3f38821e580d782f06e552dd110910c5de64503fd23,
    0xe672286c4113454216a87db07bc959a78a1d73c12e2be523b14269c4f4406bc817ad8e780575d6ac,
    0x56fa6524da6272e425770dc216153c5ba15e43bd1435bc6f51caa70d6cb5a0fe54a0f8e12ed343e9,
    0x6bf4a45533b6644166748b01b9a24660f7ca9c960d52e9aba0256f728fecb4714aa9db50d5c5fd20,
    0x77dc2e5a35dec7b761dbec5c14aa0c194a3055d0ab57311ff4b6fb7d70821f3a6b6d5f4756929086,
    0xafb1e8a602097c9d45afef7ec16cf0fbe5559f1489569cc97d0415cd249261dbb1e629ef8a7876f6,
    0xe33fe6c9b1b97373269a6bb99714ad75dbb903bb517db5ed1ec9a9f6257368a92043acada0b744d8,
    0xf7a672a7acc74668e8b1fff4a4633eda57a5776cfe3b6934911fbb504b3024baa7cc3758289abe5a,
    0x3e07b0208f5bd80ce89fcecade910ac933ceeb7d541a5631991bb58507105c4b5da6e20eed85a551,
    0xe4f8ca0312aab5a8f69815db61c5670ec8a2d2263ee70d742c3c16da3adb36b68eaa43011f6b1b7d,
    0x1ad8261f62c991672071f76023f090e624df490a25779c446a169a86adad4a38fa92edb58e0ae406,
    0x98aa281f7beadfa49ec6a610a1544ca1ce937817fb63c8a9b555a56db628e11374791ac858fa1b83,
    0xd5e4fdfbe94360d93eb37a76370a71858ecf6da22124f30639d91672fffbcb174fd577b314333e2e,
    0x7de5077ce99c2218d2d7d4b312e3d0db4de61deebd8559503a2360b752e27c3efff49841f2d83a3a,
    0x7ee4c07c765cec7b180f09bb08cd10e8cd2eee6edfdd5c65279f2617d7d3932f9793a7c9c987c7a7,
    0xc95327723b7d7ab8a00734b78b87e9256e133793f78fd9e50d6560f8f4cb7df7c43f53fcf6b8af0d,
    0x1439e7c3d12dbdea8024463169a3c6af475922b62fede4d09178e8bb2dfbd1bd2bc320b6cd7a20e9,
    0x51dfa5caab7676c2a832ae56e305a3d9ac1b86d38e994dd03cecc0fa0b8fd9fb0a8de17143f38c1f,
    0xc75a829b12811cf7a2287f7d7a37fe99db4e7bc11b09ba7a85d124fa3302e6813fe20fe4d66a1a46,
    0xe5da43cea71634eb0e638ceb4c8b4137e69b9d26ac92b765d5ebc7687ca2cad14ada3609cdb54673,
    0x4fc587761e0b97a163a1c77ca6bbc79bdfc374897ada4bb3f47c1e8c5a6205881e88a112df30367a,
    0xeb399abe898fb88e9c227a51548b6f4079f270f5dbeb7189b77de17ec4f714caebecec7cde07096d,
    0xfa4478e6457c50439046ccadf08bb6a4341a6887d0c7c8c7d105ec107f0381ecce863da5afaf2ba7,
    0x5724dc139b9aaea2aa5742188dab25258fae41d07a02eca34b5f723cbcf9f249173ffdb0e4928d39,
    0xa949dabe458d5b8d7f8e1266025e22b4d129535b17e4288e36072abe7dbf1f7ce5e2f5f9353f4e0c,
    0x425e10d799ff8bc31c27fe1204078880ff5306c541fbb492151f89f096a28a9571f19b91974e06fc,
    0x179114ff7a9fbc25fedb4a4604f036cab22d5a6c962197ff07504b03041400000008000000210000,
    0x000000020000000000000004000000612e70790300504b0102140314000000080000002100059989,
    0x1e8c070000bb110000170000000000000000000000a401000000005f5f7077736870795f7061636b,
    0x5f6d61696e5f5f2e7079504b01021403140000000800000021000000000002000000000000000400,
    0x00000000000000000000a401c1070000612e7079504b0506000000000200020077000000e5070000].flatMap
      (Bytes.be 40) ++
  Bytes.be 2 0x0000

def SHA256_ZIP : Bytes :=
  Bytes.be 32 0x11f17846ff62f90729443b00ae38e92df3335470b69858f842f60bb2a2bf304d

def SHA256_SHIM : Bytes :=
  Bytes.be 32 0x5e6cbfc59519201d0f075513b4943324d9860f08cfb91c2054c7d2bdb047c7fd

def SHA256_EMPTY : Bytes :=
  Bytes.be 32 0xe3b0c44298fc1c149afbf4c8996fb92427ae41e4649b934ca495991b7852b855

def scriptPrepared : Prepared where
  entry_arc := py "a.py"
  members := scriptMembers
  metadata := []
  external := []

/-- A runner whose program is left out. -/
def bareRunner : RunnerTemplate .ps1 where
  first := py "# runner"
  head := []
  data := RunnerFormat.ps1.dataLines
  tail := []
  first_plain := ⟨rfl, rfl⟩
  head_plain := fun _ h => absurd h List.not_mem_nil
  data_known := fun _ h => Or.inl h
  tail_constant := fun _ h => absurd h List.not_mem_nil

/-- The packer, as its parser, its codecs and `zipfile` answer for this script. -/
def scriptPacker : Packer where
  parse := sampleParse
  stdlib_module_names := []
  printable := samplePrintable
  decode := fun data => data.map UInt8.toNat
  sha256 := fun data =>
    if data = [] then SHA256_EMPTY else if data = SCRIPT_ZIP then SHA256_ZIP else SHA256_SHIM
  zip := fun _ => SCRIPT_ZIP
  tar := fun _ => []
  template := fun
    | .ps1 => .ok bareRunner.lines
    | .sh => .error 0

/-- The readers, as they answer for the pack of this script. -/
def scriptLibrary : Library where
  decode := fun data => (data.drop 3).map UInt8.toNat
  b64decode := fun text =>
    if text.all fun c => c == Bytes.PAD || (Bytes.sixBits c).isSome then Bytes.b64decode text else none
  sha256 := hexdigest scriptPacker
  namelist := fun _ => .ok (scriptMembers.map Prod.fst)
  read := fun _ name => .ok ((scriptMembers.lookup name).getD [])
  getmembers := fun _ => .error .tarError
  extractfile := fun _ _ => .error .tarError

theorem scriptPacker_decodes : scriptPacker.Decodes where
  decode := asciiPacker_decodes.decode
  printable := by
    intro c hc
    rw [isSurrogate, Bool.and_eq_true, decide_eq_true_eq] at hc
    refine Bool.and_eq_false_iff.mpr (Or.inr (decide_eq_false_iff_not.mpr ?_))
    omega
  template := by
    intro fmt lines h line hline s hs
    cases fmt with
    | sh => cases h
    | ps1 =>
        cases h
        have htexts : ∀ line ∈ bareRunner.lines, ∀ segment ∈ line,
            Ascii (fillSegment (fun _ => some []) segment) := by decide
        exact clean_of_lt (htexts line hline _ hs)

theorem prepare_script : prepare scriptPacker emptyScriptTree nulOptions [py "p", py "a.py"]
    nulOutput emptyDisk = .ok scriptPrepared := by
  have hpaths : find_paths emptyScriptTree nulOptions [py "p", py "a.py"] nulOutput =
      .ok (emptyScript, [py "p"]) := rfl
  have hcollected := collect_emptyScript [py "p"] rfl
  have hguard : guard_destination nulOutput false emptyDisk [[py "p", py "a.py"]] = .ok () := rfl
  have hrel : relative_to emptyScript.val [py "p"] = some [py "a.py"] := rfl
  have hclean : Clean (render_shim samplePrintable (py "a.py") []) :=
    clean_render_shim scriptPacker_decodes.printable (py "a.py") Files.clean_nil
  obtain ⟨shim, hshim⟩ := Option.isSome_iff_exists.mp (encode_isSome_iff.mpr hclean)
  have hbytes : scriptShim = shim := by
    rw [scriptShim, hshim]
    rfl
  have hmetadata : extract_script_metadata
      (scriptPacker.decode (([(emptyScript, [])] : List (emptyScriptTree.File × Bytes)).lookup
        emptyScript |>.getD [])) = .ok [] := rfl
  have harchive : @archive_members emptyScriptTree [py "p"] [(emptyScript, [])] =
      [([py "a.py"], [])] := rfl
  have horder : textLe SHIM_MODULE (py "a.py") = true ∧ textLe (py "a.py") SHIM_MODULE = false := by
    decide
  have hposix : as_posix [py "a.py"] = py "a.py" := rfl
  have hname : (py "a.py" == SHIM_MODULE) = false := rfl
  have hprintable : scriptPacker.printable = samplePrintable := rfl
  rw [prepare, hpaths]
  simp only
  rw [show scriptPacker.parse = sampleParse from rfl, show nulOptions.incl = [] from rfl,
    show scriptPacker.stdlib_module_names = [] from rfl, hcollected]
  simp only [Worklist.keys, List.map_cons, List.map_nil]
  rw [show nulOptions.force = false from rfl, show emptyScript.val = [py "p", py "a.py"] from rfl,
    hguard]
  simp only [prepare_members, hrel, hmetadata, harchive, List.map_cons, List.map_nil, hposix,
    List.any_cons, List.any_nil, hname, Bool.or_false, Bool.false_eq_true, if_false, hprintable, hshim,
    List.cons_append, List.nil_append, List.insertionSort, List.foldr_cons, List.foldr_nil,
    List.orderedInsert, horder.2]
  rw [scriptPrepared, scriptMembers, hbytes]

theorem renders_script : Renders scriptPacker .ps1
    scriptPrepared where
  request := ⟨[], rfl⟩
  template := ⟨bareRunner.lines, rfl, by decide⟩
  names := by
    have hnames : ∀ name ∈ [py "a.py", SHIM_MODULE, py "a.py"], LF ∉ name ∧ CR ∉ name := by decide
    exact hnames
  comment_end := fun _ => by decide

theorem ascii_hexdigest (packer : Packer) (data : Bytes) : Ascii (hexdigest packer data) := by
  intro c hc
  obtain ⟨b, -, hc⟩ := List.mem_flatMap.mp hc
  have hbounds := mem_hex hc
  omega

/-- The values of a content that asks for no package and no Python. -/
theorem ascii_ps1_values {content : RunnerContent} (split : PyStr → Option (PyStr × PyStr))
    (hpayload : Ascii content.payload_b64) (hsha : Ascii content.payload_sha256)
    (hentry : Ascii content.entry) (hliteral : Ascii (powershell_literal content.entry))
    (hargs : content.uv_args = [])
    (hhashes : ∀ fh ∈ content.file_hashes, Ascii fh.digest ∧ Ascii fh.path)
    (hrequest : content.python_request.text = []) (p : Placeholder) (value : PyStr)
    (h : ps1_values split content p = some value) : Ascii value := by
  have hconstant : ∀ q : Placeholder, ∀ text ∈ constant q, Ascii text := by
    intro q
    cases q <;> decide
  have hline : ∀ fh ∈ content.file_hashes, Ascii (fh.digest ++ (py " *" ++ fh.path)) := fun fh hfh =>
    ascii_append.mpr ⟨(hhashes fh hfh).1, ascii_append.mpr ⟨by decide, (hhashes fh hfh).2⟩⟩
  cases p with
  | payload_b64 => exact Option.some.inj h ▸ hpayload
  | payload_sha256 => exact Option.some.inj h ▸ hsha
  | entry => exact Option.some.inj h ▸ hliteral
  | entry_name => exact Option.some.inj h ▸ hentry
  | uv_args =>
      obtain rfl := Option.some.inj h
      rw [hargs]
      decide
  | file_hashes =>
      obtain rfl := Option.some.inj h
      exact (ascii_intercalate (by decide)).mpr (List.forall_mem_map.mpr hline)
  | uv_args_relative =>
      obtain rfl := Option.some.inj h
      rw [powershell_relative_suffixes, hargs]
      exact fun c hc => absurd hc List.not_mem_nil
  | python_request =>
      obtain rfl := Option.some.inj h
      rw [hrequest]
      decide
  | git_source =>
      obtain rfl := Option.some.inj h
      cases content.has_git_source <;> decide
  | uv_args_anchored => cases h
  | shim => exact hconstant .shim value h
  | argv_env => exact hconstant .argv_env value h
  | cwd_env => exact hconstant .cwd_env value h
  | path_env => exact hconstant .path_env value h
  | uv_path_env => exact hconstant .uv_path_env value h
  | caller_env => exact hconstant .caller_env value h

theorem ascii_script (request : Specifiers) (hrequest : request.text = [])
    (split : PyStr → Option (PyStr × PyStr)) :
    Ascii (substitute (RunnerFormat.ps1.values split
      (runner_content scriptPacker nulOptions scriptPrepared SCRIPT_ZIP request)) bareRunner.lines) := by
  refine ascii_substitute ?_ (ascii_ps1_values split ?_ (ascii_hexdigest _ _) ?_ ?_ rfl ?_ hrequest)
  · have htexts : ∀ line ∈ bareRunner.lines, ∀ segment ∈ line,
        Ascii (fillSegment (fun _ => some []) segment) := by decide
    exact fun line hline s hs => htexts line hline _ hs
  · refine (ascii_intercalate (by decide)).mpr fun piece hpiece c hc => ?_
    exact Bytes.lt_of_mem_base64 (mem_base64_lines hpiece c hc)
  · have hentry : Ascii (py "a.py") := by decide
    exact hentry
  · have hliteral : Ascii (powershell_literal (py "a.py")) := by decide
    exact hliteral
  · have hnames : ∀ name ∈ [SHIM_MODULE, py "a.py"], Ascii name := by decide
    intro fh hfh
    obtain ⟨m, hm, rfl⟩ := List.mem_map.mp hfh
    exact ⟨ascii_hexdigest _ _, hnames m.1 (List.mem_map_of_mem hm)⟩

theorem zipReads_script : ZipReads scriptLibrary scriptPacker scriptMembers where
  namelist := rfl
  read := by
    intro _ m hm
    simp only [scriptMembers, List.mem_cons, List.not_mem_nil, or_false] at hm
    have hname : (py "a.py" == SHIM_MODULE) = false := rfl
    have hread : ∀ name, scriptLibrary.read (scriptPacker.zip scriptMembers) name =
        .ok ((scriptMembers.lookup name).getD []) := fun _ => rfl
    rw [hread, scriptMembers]
    rcases hm with rfl | rfl
    · rw [List.lookup_cons_self, Option.getD_some]
    · rw [List.lookup_cons, hname, List.lookup_cons_self, Option.getD_some]
  length := by
    have hroom : 40 ≤ SCRIPT_ZIP.length := by
      rw [SCRIPT_ZIP, List.flatMap_cons, List.length_append, List.length_append, Bytes.be,
        List.length_reverse, Bytes.length_le]
      omega
    have hnames : ∀ name ∈ [SHIM_MODULE, py "a.py"], name.length ≤ 40 := by decide
    intro m hm
    exact (hnames m.1 (List.mem_map_of_mem hm)).trans hroom

theorem strict_script {text : PyStr} {payload : Bytes}
    (h : scriptLibrary.b64decode text = some payload) :
    (∀ c ∈ text, c = Bytes.PAD ∨ ∃ v, c = Bytes.symbol v) ∧ payload.length ≤ text.length := by
  simp only [scriptLibrary] at h
  split at h
  · rename_i hall
    constructor
    · intro c hc
      have hknown := List.all_eq_true.mp hall c hc
      rw [Bool.or_eq_true, beq_iff_eq] at hknown
      refine hknown.imp_right fun hsome => ?_
      obtain ⟨v, hv⟩ := Option.isSome_iff_exists.mp hsome
      exact ⟨v, Bytes.symbol_sixBits hv⟩
    · rw [Bytes.b64decode] at h
      split at h
      · exact Bytes.length_a2b_base64 h
      · cases h
  · cases h

theorem b64decode_script (payload : Bytes) :
    scriptLibrary.b64decode (Bytes.base64 payload) = some payload := by
  have hall : ((Bytes.base64 payload).all fun c =>
      c == Bytes.PAD || (Bytes.sixBits c).isSome) = true := by
    refine List.all_eq_true.mpr fun c hc => ?_
    rw [Bool.or_eq_true, beq_iff_eq]
    refine (Bytes.mem_base64 hc).imp_right fun hsymbol => ?_
    obtain ⟨v, rfl⟩ := hsymbol
    exact Bytes.isSome_sixBits_symbol v
  simp only [scriptLibrary]
  rw [if_pos hall, Bytes.b64decode_base64]

/-- The pack of an empty script is written to this file. -/
theorem pack_script_empty : ∃ disk' packed bytes, Ascii (bytes.map UInt8.toNat) ∧
    pack_script scriptPacker emptyScriptTree [py "p", py "a.py"] nulOutput nulOptions emptyDisk =
      (disk', .ok packed) ∧
    disk'.file nulOutput.resolved = some (mark .utf_8 true ++ bytes) := by
  have hrequest : python_request scriptPrepared.metadata =
      .ok ⟨[], fun c hc => absurd hc List.not_mem_nil⟩ := rfl
  obtain ⟨runner, hrender⟩ := (render_payload_spec scriptPacker_decodes nulOptions scriptPrepared
    SCRIPT_ZIP).2.1.mpr renders_script
  have hascii : Ascii runner := by
    have hrunner := hrender
    rw [render_payload, hrequest] at hrunner
    obtain ⟨-, -, -, rfl⟩ := render_eq_ok.mp hrunner
    exact ascii_script _ rfl _
  have hwritten : Ascii (normalize_newlines runner [LF]) := by
    have hlf : LF < 0x80 := by decide
    intro c hc
    rcases Files.mem_normalize hc with hc | rfl | hc
    · exact hascii c hc
    · exact hlf
    · exact List.mem_singleton.mp hc ▸ hlf
  have hencode := Files.encode_of_ascii hwritten
  have hbuild : build scriptPacker nulOptions.format scriptPrepared.members = .ok SCRIPT_ZIP := rfl
  have hwrite : write_runner nulOutput emptyDisk runner true =
      (emptyDisk.write nulOutput.resolved (mark .utf_8 true ++
        (normalize_newlines runner [LF]).map UInt8.ofNat), .ok ()) := by
    simp only [write_runner, nulOutput, hencode]
  have hpacked := pack_script_eq_ok prepare_script hbuild hrender hwrite
  have hback : normalize_newlines runner [LF] =
      ((normalize_newlines runner [LF]).map UInt8.ofNat).map UInt8.toNat := by
    refine Files.text_of_encode_ascii hencode fun b hb => ?_
    obtain ⟨c, hc, rfl⟩ := List.mem_map.mp hb
    have hlow := hwritten c hc
    rw [Files.toNat_ofNat_of_lt (by omega)]
    exact hlow
  obtain ⟨packed, hpacked⟩ := hpacked
  exact ⟨_, packed, _, hback ▸ hwritten, hpacked, Directory.file_write_self _ _⟩

/-- The pack of an empty script is read back. -/
theorem pack_round_trip_iff_empty_script : ∃ disk' packed data,
    pack_script scriptPacker emptyScriptTree [py "p", py "a.py"] nulOutput nulOptions emptyDisk =
      (disk', .ok packed) ∧ disk'.file nulOutput.resolved = some data ∧
    RoundTrips scriptLibrary scriptPacker .ps1 scriptPrepared data := by
  obtain ⟨disk', packed, bytes, hascii, hpacked, hdata⟩ := pack_script_empty
  refine ⟨disk', packed, _, hpacked, hdata, ?_⟩
  have hnamed : emptyScriptTree.Named := by
    have hfiles : ∀ file ∈ [[py "p", py "a.py"]], ∀ name ∈ file, name ≠ [] ∧ 0x2f ∉ name := by decide
    exact hfiles
  refine (pack_round_trip_iff scriptPacker scriptLibrary emptyScriptTree nulOptions [py "p", py "a.py"]
    nulOutput emptyDisk disk' scriptPrepared packed _ bareRunner hnamed rfl prepare_script hpacked hdata
    ⟨?_, b64decode_script, fun _ _ => strict_script, zipReads_script⟩).mpr ?_
  · intro text bytes' hencode _ hsame
    obtain rfl : bytes = bytes' := List.append_cancel_left hsame
    have htext := Files.text_of_encode_ascii hencode fun b hb => hascii _ (List.mem_map_of_mem hb)
    exact htext.symm
  · refine ⟨by decide, fun _ m hm line hline => ?_⟩
    have hlines : ∀ name ∈ [SHIM_MODULE, py "a.py"], (linePieces name).tail = [] := by decide
    rw [hlines m.1 (List.mem_map_of_mem hm)] at hline
    exact absurd hline List.not_mem_nil

end PwshPy.Packing
