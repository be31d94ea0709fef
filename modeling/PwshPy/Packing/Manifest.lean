import Mathlib.Data.Set.Finite.Lemmas
import Mathlib.Data.Set.Finite.List
import PwshPy.Packing.Runner
import PwshPy.Shell.Fields
import PwshPy.Shell.Words
import PwshPy.Text.Runs
import PwshPy.Unpack.Protocol

/-! # The list of packed files in a runner

A runner holds a line for each packed file, its digest and its name, and reads
the lines back to check an unpacked tree. The `.sh` holds the list as one quoted
word and cuts each line at its first two blanks; the `.ps1` holds it as a
here-string, trims each line and splits it at its first ` *`.
-/

namespace PwshPy.Packing

open Unpack (isWhiteSpace isEscaped normalize_path join_path)

/-- What is below the cache directory: a regular file that can be read, by its name. -/
abbrev Tree := PyStr → Option Bytes

/-- A text cut at the first place where a separator stands. -/
def cut (sep : PyStr) : PyStr → Option (PyStr × PyStr)
  | [] => if sep = [] then some ([], []) else none
  | c :: rest =>
      if sep <+: c :: rest then some ([], (c :: rest).drop sep.length)
      else (cut sep rest).map fun parts => (c :: parts.1, parts.2)

/-! ## `pwshpy_verify_tree` -/

section Posix

variable (host : Unpack.Host) (tree : Tree)

/-- `${_line%%  *}` and `${_line#*  }` -/
def sh_entry (line : PyStr) : FileDigest :=
  match cut (py "  ") line with
  | some (expected, path) => ⟨expected, path⟩
  | none => ⟨line, line⟩

/-- The loop over the lines. -/
def verify_lines : List PyStr → Bool
  | [] => true
  | line :: rest =>
      if line ≠ [] then
        let entry := sh_entry line
        let target := host.path entry.path
        match tree (host.naming target) with
        | none => false
        | some body => if host.sha256_of target body ≠ entry.digest then false else verify_lines rest
      else verify_lines rest

/-- `pwshpy_verify_tree`, for the value of `PWSHPY_FILE_HASHES` and whether the
cache directory is there. -/
def verify_tree (present : Bool) (file_hashes : PyStr) : Bool :=
  present && verify_lines host tree (Shell.fields (· == LF) file_hashes)

end Posix

/-! ## `Test-PwshPyTree` -/

section PowerShell

/-- A line that ends a here-string. -/
def closes_here_string : PyStr → Bool
  | c :: 0x40 :: _ => isPowerShellQuote c
  | _ => false

/-- The content of a here-string, from behind the line that opens it. -/
def here_string (text : PyStr) : PyStr :=
  joinWith [LF] ((text.splitOn LF).takeWhile fun line => !closes_here_string line)

/-- `entry -split ' \*', 2`, when it gives two parts. -/
def ps1_entry (entry : PyStr) : Option FileDigest :=
  (cut (py " *") entry).map fun parts => ⟨parts.1, parts.2⟩

def upperHex (c : Nat) : Nat := if 0x61 ≤ c ∧ c ≤ 0x66 then c - 0x20 else c

/-- `-eq` of two digests, the case of their letters apart. -/
def sameDigest (a b : PyStr) : Bool := a.map upperHex == b.map upperHex

variable (host : Unpack.Host) (tree : Tree)

/-- The loop over the lines of the list. -/
def test_lines : List PyStr → Bool
  | [] => true
  | line :: rest =>
      let entry := stripBy isWhiteSpace line
      if entry = [] then test_lines rest
      else
        match ps1_entry entry with
        | none => false
        | some parts =>
            match tree (host.naming (join_path host.posix host.cache parts.path)) with
            | none => false
            | some body =>
                if ¬sameDigest ((host.sha256 body).map upperHex) parts.digest then false
                else test_lines rest

/-- `Test-PwshPyTree`, for the value of `$PwshPyFileHashes`. -/
def test_tree (file_hashes : PyStr) : Bool :=
  test_lines host tree (file_hashes.splitOn LF)

end PowerShell

/-! ## Cutting a line -/

theorem cut_append {c : Nat} {sep digest : PyStr} (hdigest : c ∉ digest) (path : PyStr) :
    cut (c :: sep) (digest ++ (c :: sep ++ path)) = some (digest, path) := by
  induction digest with
  | nil =>
      have hsep : c :: sep <+: c :: (sep ++ path) := ⟨path, rfl⟩
      show cut (c :: sep) (c :: (sep ++ path)) = _
      rw [cut, if_pos hsep]
      simp
  | cons d digest ih =>
      rw [List.mem_cons, not_or] at hdigest
      have hnot : ¬c :: sep <+: d :: (digest ++ (c :: sep ++ path)) := by
        intro h
        exact hdigest.1 (List.cons_prefix_cons.mp h).1
      rw [List.cons_append, cut, if_neg hnot, ih hdigest.2]
      rfl

/-! ## The lines of a list -/

def isHexDigit (c : Nat) : Bool := (0x30 ≤ c && c ≤ 0x39) || (0x61 ≤ c && c ≤ 0x66)

/-- A `hexdigest`. -/
structure IsDigest (digest : PyStr) : Prop where
  ne_nil : digest ≠ []
  hex : ∀ c ∈ digest, isHexDigit c = true

theorem IsDigest.not_mem {digest : PyStr} (h : IsDigest digest) {c : Nat}
    (hc : isHexDigit c = false) : c ∉ digest := by
  intro hmem
  rw [h.hex c hmem] at hc
  cases hc

/-- The line of a file in a list with this text between digest and name. -/
def list_line (sep : PyStr) (fh : FileDigest) : PyStr := fh.digest ++ (sep ++ fh.path)

theorem hash_lines_eq (sep : PyStr) (content : RunnerContent) :
    hash_lines sep content = joinWith [LF] (content.file_hashes.map (list_line sep)) := rfl

theorem list_line_ne_nil {fh : FileDigest} (h : IsDigest fh.digest) (sep : PyStr) :
    list_line sep fh ≠ [] := by
  intro hnil
  exact h.ne_nil (List.append_eq_nil_iff.mp hnil).1

theorem not_mem_list_line {fh : FileDigest} (h : IsDigest fh.digest) {c : Nat}
    (hc : isHexDigit c = false) {sep : PyStr} (hsep : c ∉ sep) (hpath : c ∉ fh.path) :
    c ∉ list_line sep fh := by
  rw [list_line, List.mem_append, List.mem_append]
  have hdigest := h.not_mem hc
  tauto

theorem fields_lines {lines : List PyStr} (h : ∀ line ∈ lines, line ≠ [] ∧ LF ∉ line) :
    Shell.fields (· == LF) (joinWith [LF] lines) = lines := by
  have hword : ∀ line ∈ lines, Shell.fields (· == LF) line = [line] := by
    intro line hline
    refine Shell.fields_word (h line hline).1 fun c hc => ?_
    have hne : c ≠ LF := fun heq => (h line hline).2 (heq ▸ hc)
    simpa using hne
  clear h
  induction lines with
  | nil => rfl
  | cons line lines ih =>
      obtain ⟨hline, hlater⟩ := List.forall_mem_cons.mp hword
      cases lines with
      | nil =>
          rw [joinWith, List.intercalate_singleton]
          exact hline
      | cons next later =>
          have hrest := ih hlater
          rw [joinWith] at hrest ⊢
          rw [List.intercalate_cons_cons, List.append_assoc, List.singleton_append,
            Shell.fields_append (by decide), hline, hrest]
          rfl

theorem splitOn_lines {lines : List PyStr} (hne : lines ≠ []) (h : ∀ line ∈ lines, LF ∉ line) :
    (joinWith [LF] lines).splitOn LF = lines := by
  induction lines with
  | nil => exact absurd rfl hne
  | cons line lines ih =>
      obtain ⟨hline, hlater⟩ := List.forall_mem_cons.mp h
      cases lines with
      | nil =>
          rw [joinWith, List.intercalate_singleton, List.splitOn_eq_splitOnP]
          refine List.splitOnP_eq_singleton fun c hc => ?_
          have hlf : c ≠ LF := fun heq => hline (heq ▸ hc)
          simpa using hlf
      | cons next later =>
          have hrest := ih (List.cons_ne_nil _ _) hlater
          rw [joinWith] at hrest ⊢
          rw [List.intercalate_cons_cons, List.append_assoc, List.singleton_append,
            List.splitOn_append_cons_self_of_not_mem hline, hrest]

/-- A line that ends a here-string goes on ending it whatever stands behind it. -/
theorem splitOn_payload_close (rest : PyStr) :
    ∃ line lines, (PAYLOAD_CLOSE ++ rest).splitOn LF = line :: lines ∧
      closes_here_string line = true := by
  have hsplit : ∀ text : PyStr, ∃ line lines, text.splitOn LF = line :: lines := fun text =>
    List.exists_cons_of_ne_nil (by rw [List.splitOn_eq_splitOnP]; exact List.splitOnP_ne_nil _ _)
  obtain ⟨line, lines, hrest⟩ := hsplit rest
  refine ⟨0x27 :: 0x40 :: line, lines, ?_, by rfl⟩
  show (0x27 :: 0x40 :: rest : PyStr).splitOn LF = _
  rw [List.splitOn_eq_splitOnP] at hrest ⊢
  rw [List.splitOnP_cons_eq_if_modifyHead, List.splitOnP_cons_eq_if_modifyHead, hrest]
  rfl

theorem closes_list_line {fh : FileDigest} (h : IsDigest fh.digest) (sep : PyStr) :
    closes_here_string (list_line sep fh) = false := by
  obtain ⟨c, digest, hdigest⟩ := List.exists_cons_of_ne_nil h.ne_nil
  have hc := h.hex c (by rw [hdigest]; exact List.mem_cons_self)
  have hquote : isPowerShellQuote c = false := by
    simp only [isHexDigit, Bool.or_eq_true, Bool.and_eq_true, decide_eq_true_eq] at hc
    simp only [isPowerShellQuote, QUOTE, Bool.or_eq_false_iff, Bool.and_eq_false_iff,
      decide_eq_false_iff_not, beq_eq_false_iff_ne]
    omega
  rw [list_line, hdigest, List.cons_append]
  unfold closes_here_string
  split
  · rename_i heq
    obtain ⟨rfl, -⟩ := List.cons.inj heq
    exact hquote
  · rfl

section Entries

variable {files : List FileDigest} (hfiles : ∀ fh ∈ files, IsDigest fh.digest)

theorem sh_entry_line {fh : FileDigest} (h : IsDigest fh.digest) :
    sh_entry (list_line (py "  ") fh) = fh := by
  have hblank := h.not_mem (c := 0x20) (by decide)
  have hcut : cut (py "  ") (list_line (py "  ") fh) = some (fh.digest, fh.path) :=
    cut_append hblank fh.path
  rw [sh_entry, hcut]

/-- The name behind which the white space is cut off. -/
def trimmed (fh : FileDigest) : FileDigest := ⟨fh.digest, fh.path.rdropWhile isWhiteSpace⟩

theorem strip_list_line {fh : FileDigest} (h : IsDigest fh.digest) :
    stripBy isWhiteSpace (list_line (py " *") fh) = list_line (py " *") (trimmed fh) := by
  obtain ⟨c, digest, hdigest⟩ := List.exists_cons_of_ne_nil h.ne_nil
  have hc := h.hex c (by rw [hdigest]; exact List.mem_cons_self)
  have hvisible : isWhiteSpace c = false := by
    simp only [isHexDigit, Bool.or_eq_true, Bool.and_eq_true, decide_eq_true_eq] at hc
    have hspace : isSpace c = false := by
      rw [← Bool.not_eq_true]
      simp only [isSpace, Bool.or_eq_true, Bool.and_eq_true, decide_eq_true_eq, beq_iff_eq]
      omega
    rw [isWhiteSpace, hspace, Bool.false_and]
  have hline : list_line (py " *") fh = (fh.digest ++ [0x20]) ++ 0x2a :: fh.path := by
    rw [List.append_assoc]
    rfl
  have hstart : (list_line (py " *") fh).dropWhile isWhiteSpace = list_line (py " *") fh := by
    refine Runs.dropWhile_stops fun d hd => ?_
    rw [list_line, hdigest, List.cons_append, List.head?_cons] at hd
    cases hd
    exact hvisible
  rw [stripBy, hstart, hline, Runs.rdropWhile_append_stop (by decide), List.append_assoc]
  rfl

theorem ps1_entry_line {fh : FileDigest} (h : IsDigest fh.digest) :
    ps1_entry (list_line (py " *") fh) = some fh := by
  have hblank := h.not_mem (c := 0x20) (by decide)
  have hcut : cut (py " *") (list_line (py " *") fh) = some (fh.digest, fh.path) :=
    cut_append hblank fh.path
  rw [ps1_entry, hcut]
  rfl

end Entries

/-! ## What the loops accept -/

section Loops

variable (host : Unpack.Host)

/-- The packed file is there, with the digest of the list. -/
def Held (tree : Tree) (fh : FileDigest) : Prop :=
  ∃ body, tree (host.naming (host.path fh.path)) = some body ∧ host.sha256 body = fh.digest

variable {host} {tree : Tree} {files : List FileDigest}

theorem verify_lines_iff (hfiles : ∀ fh ∈ files, IsDigest fh.digest) :
    verify_lines host tree (files.map (list_line (py "  "))) = true ↔
      ∀ fh ∈ files, ∃ body, tree (host.naming (host.path fh.path)) = some body ∧
        host.sha256_of (host.path fh.path) body = fh.digest := by
  induction files with
  | nil => simp [verify_lines]
  | cons fh files ih =>
      obtain ⟨hdigest, hlater⟩ := List.forall_mem_cons.mp hfiles
      rw [List.map_cons, List.forall_mem_cons, ← ih hlater, verify_lines,
        if_pos (list_line_ne_nil hdigest _), sh_entry_line hdigest]
      dsimp only
      cases tree (host.naming (host.path fh.path)) with
      | none => simp
      | some body =>
          by_cases hsame : host.sha256_of (host.path fh.path) body = fh.digest
          · simp [hsame]
          · simp [hsame]

theorem upperHex_upperHex (c : Nat) : upperHex (upperHex c) = upperHex c := by
  unfold upperHex
  split_ifs <;> omega

theorem eq_of_upperHex {a b : PyStr} (ha : ∀ c ∈ a, isHexDigit c = true)
    (hb : ∀ c ∈ b, isHexDigit c = true) (h : a.map upperHex = b.map upperHex) : a = b := by
  induction a generalizing b with
  | nil => exact (List.map_eq_nil_iff.mp h.symm).symm
  | cons c a ih =>
      cases b with
      | nil => cases h
      | cons d b =>
          obtain ⟨hhead, hlater⟩ := List.cons.inj h
          rw [List.forall_mem_cons] at ha hb
          have hsame : c = d := by
            obtain ⟨hc, hd⟩ := And.intro ha.1 hb.1
            simp only [isHexDigit, Bool.or_eq_true, Bool.and_eq_true, decide_eq_true_eq] at hc hd
            unfold upperHex at hhead
            split_ifs at hhead <;> omega
          rw [hsame, ih ha.2 hb.2 hlater]

/-- Digests that agree but for the case of their letters are the same one. -/
theorem sameDigest_iff {a b : PyStr} (ha : IsDigest a) (hb : IsDigest b) :
    sameDigest (a.map upperHex) b = true ↔ a = b := by
  have hidem : (a.map upperHex).map upperHex = a.map upperHex := by
    rw [List.map_map]
    exact List.map_congr_left fun c _ => upperHex_upperHex c
  rw [sameDigest, beq_iff_eq, hidem]
  constructor
  · exact eq_of_upperHex ha.hex hb.hex
  · exact congrArg _

theorem test_lines_iff (hfiles : ∀ fh ∈ files, IsDigest fh.digest)
    (hsha : ∀ body, IsDigest (host.sha256 body)) :
    test_lines host tree (files.map (list_line (py " *"))) = true ↔
      ∀ fh ∈ files, ∃ body, tree (host.naming (host.checked_path fh.path)) = some body ∧
        host.sha256 body = fh.digest := by
  induction files with
  | nil => simp [test_lines]
  | cons fh files ih =>
      obtain ⟨hdigest, hlater⟩ := List.forall_mem_cons.mp hfiles
      have htrimmed : IsDigest (trimmed fh).digest := hdigest
      rw [List.map_cons, List.forall_mem_cons, ← ih hlater, test_lines, strip_list_line hdigest,
        if_neg (list_line_ne_nil htrimmed _), ps1_entry_line htrimmed]
      dsimp only
      rw [show join_path host.posix host.cache (trimmed fh).path = host.checked_path fh.path from rfl]
      cases tree (host.naming (host.checked_path fh.path)) with
      | none => simp
      | some body =>
          have hsame : sameDigest ((host.sha256 body).map upperHex) (trimmed fh).digest = true ↔
              host.sha256 body = fh.digest := sameDigest_iff (hsha body) htrimmed
          dsimp only
          by_cases hbody : host.sha256 body = fh.digest
          · rw [if_neg (not_not_intro (hsame.mpr hbody))]
            simp [hbody]
          · rw [if_pos fun h => hbody (hsame.mp h)]
            simp [hbody]

end Loops

/-! ## Which lists come back -/

section RoundTrip

variable {host : Unpack.Host} {files : List FileDigest}

/-- The hash tool gives the digest of the file bare. -/
def Bare (host : Unpack.Host) (fh : FileDigest) : Prop :=
  host.escapes = true → (host.path fh.path).any isEscaped = false

theorem sha256_of_bare {fh : FileDigest} (h : Bare host fh) (body : Packing.Bytes) :
    host.sha256_of (host.path fh.path) body = host.sha256 body := by
  refine if_neg fun hmarked => ?_
  rw [Bool.and_eq_true] at hmarked
  rw [h hmarked.1] at hmarked
  exact absurd hmarked.2 Bool.false_ne_true

theorem bare_of_sha256_of {fh : FileDigest} (hdigest : IsDigest fh.digest) {body : Packing.Bytes}
    (h : host.sha256_of (host.path fh.path) body = fh.digest) : Bare host fh := by
  intro hescapes
  by_contra hmarked
  rw [Bool.not_eq_false] at hmarked
  rw [Unpack.Host.sha256_of, hescapes, hmarked, Bool.and_self, if_pos rfl] at h
  have hmem : 0x5c ∈ fh.digest := by
    rw [← h]
    exact List.mem_cons_self
  exact hdigest.not_mem (by decide) hmem

/-- The check of the `.sh` accepts just the trees that hold the packed files, if
it accepts one of these: then the hash tool gives every digest bare. -/
theorem verify_lines_faithful_iff (hfiles : ∀ fh ∈ files, IsDigest fh.digest)
    (hheld : ∃ tree, ∀ fh ∈ files, Held host tree fh) :
    (∀ tree, verify_lines host tree (files.map (list_line (py "  "))) = true ↔
      ∀ fh ∈ files, Held host tree fh) ↔ ∀ fh ∈ files, Bare host fh := by
  simp only [verify_lines_iff hfiles]
  constructor
  · intro h fh hfh
    obtain ⟨tree, hall⟩ := hheld
    obtain ⟨body, -, hbody⟩ := (h tree).mpr hall fh hfh
    exact bare_of_sha256_of (hfiles fh hfh) hbody
  · intro hbare tree
    refine forall₂_congr fun fh hfh => exists_congr fun body => ?_
    rw [sha256_of_bare (hbare fh hfh)]

/-- Characters, backslashes counted twice. -/
def nameWeight (name : PyStr) : Nat := name.length + name.count 0x5c

/-- The name the file system has for the path a check looks at is that of the
packed file, or one that has lost characters or backslashes. -/
def Loses (host : Unpack.Host) (fh : FileDigest) : Prop :=
  host.naming (host.checked_path fh.path) = host.naming (host.path fh.path) ∨
    nameWeight (host.naming (host.checked_path fh.path)) < nameWeight (host.naming (host.path fh.path))

/-- The check of the `.ps1` accepts just the trees that hold the packed files when
it looks at each file under a name of its own. Where it does not, the heaviest
of the names it misses could be taken from a tree unseen. -/
theorem test_lines_faithful_iff (hfiles : ∀ fh ∈ files, IsDigest fh.digest)
    (hsha : ∀ body, IsDigest (host.sha256 body))
    (hheld : ∃ tree, ∀ fh ∈ files, Held host tree fh)
    (hnames : (files.map fun fh => host.naming (host.path fh.path)).Nodup)
    (hloses : ∀ fh ∈ files, Loses host fh) :
    (∀ tree, test_lines host tree (files.map (list_line (py " *"))) = true ↔
      ∀ fh ∈ files, Held host tree fh) ↔
      ∀ fh ∈ files, host.naming (host.checked_path fh.path) = host.naming (host.path fh.path) := by
  simp only [test_lines_iff hfiles hsha]
  constructor
  · intro h
    by_contra hmissed
    obtain ⟨tree, hall⟩ := hheld
    let missed : Set FileDigest :=
      { fh | fh ∈ files ∧ host.naming (host.checked_path fh.path) ≠ host.naming (host.path fh.path) }
    have hfinite : missed.Finite := (List.finite_toSet files).subset fun fh hfh => hfh.1
    have hsome : missed.Nonempty := by
      rw [not_forall₂] at hmissed
      exact hmissed.imp fun fh hfh => ⟨hfh.1, hfh.2⟩
    obtain ⟨last, hlast, hheaviest⟩ := Set.exists_max_image missed
      (fun fh => nameWeight (host.naming (host.path fh.path))) hfinite hsome
    -- no check of the list looks at the name of the last one
    have hunseen : ∀ fh ∈ files,
        host.naming (host.checked_path fh.path) ≠ host.naming (host.path last.path) := by
      intro fh hfh hseen
      by_cases hown : host.naming (host.checked_path fh.path) = host.naming (host.path fh.path)
      · have hsame : fh = last :=
          List.inj_on_of_nodup_map hnames hfh hlast.1 (hown.symm.trans hseen)
        exact hlast.2 (hsame ▸ hown)
      · have hlighter := (hloses fh hfh).resolve_left hown
        have hbound := hheaviest fh ⟨hfh, hown⟩
        rw [hseen] at hlighter
        omega
    let without : Tree := fun name => if name = host.naming (host.path last.path) then none else tree name
    have haccepted := (h without).mp fun fh hfh => by
      obtain ⟨body, hbody, hdigest⟩ := (h tree).mpr hall fh hfh
      refine ⟨body, ?_, hdigest⟩
      show (if _ then none else _) = some body
      rw [if_neg (hunseen fh hfh), hbody]
    obtain ⟨body, hbody, -⟩ := haccepted last hlast.1
    rw [show without (host.naming (host.path last.path)) = none from if_pos rfl] at hbody
    cases hbody
  · intro hsame tree
    refine forall₂_congr fun fh hfh => ?_
    rw [hsame fh hfh]
    rfl

end RoundTrip

/-! ## The rendered lists -/

def FILE_HASHES : PyStr := py "PWSHPY_FILE_HASHES"

section Rendered

variable (split : PyStr → Option (PyStr × PyStr)) (content : RunnerContent)

/-- What the shell has in `PWSHPY_FILE_HASHES` behind the line that sets it. -/
def sh_list (sh : Shell.Context) : Option PyStr :=
  (sh_values split content .file_hashes).bind fun word =>
    (Shell.assignment sh FILE_HASHES word).bind fun sh => sh.vars FILE_HASHES

/-- What PowerShell has in `$PwshPyFileHashes`, for the text behind the here-string. -/
def ps1_list (rest : PyStr) : Option PyStr :=
  (ps1_values split content .file_hashes).map fun value =>
    here_string (value ++ LF :: (PAYLOAD_CLOSE ++ rest))

variable {split content} (hdigests : ∀ fh ∈ content.file_hashes, IsDigest fh.digest)

include hdigests

theorem sh_list_eq (hnul : ∀ fh ∈ content.file_hashes, 0 ∉ fh.path) (sh : Shell.Context) :
    sh_list split content sh = some (hash_lines (py "  ") content) := by
  have hzero : 0 ∉ hash_lines (py "  ") content := by
    have hlines : ∀ line ∈ content.file_hashes.map (list_line (py "  ")), ∀ c ∈ line, c ≠ 0 := by
      rw [List.forall_mem_map]
      intro fh hfh c hc hnull
      rw [hnull] at hc
      exact not_mem_list_line (hdigests fh hfh) (by decide) (by decide) (hnul fh hfh) hc
    intro hmem
    exact (forall_mem_intercalate (by decide)).mpr hlines 0 hmem rfl
  show (Shell.assignment sh FILE_HASHES (posix_shell_word (hash_lines (py "  ") content))).bind _ = _
  rw [Shell.assignment_word hzero]
  show (sh.vars.set FILE_HASHES _) FILE_HASHES = _
  rw [Storage.Variables.set_self]

theorem fields_sh_list (hlf : ∀ fh ∈ content.file_hashes, LF ∉ fh.path) :
    Shell.fields (· == LF) (hash_lines (py "  ") content) =
      content.file_hashes.map (list_line (py "  ")) := by
  refine fields_lines (List.forall_mem_map.mpr fun fh hfh => ⟨list_line_ne_nil (hdigests fh hfh) _, ?_⟩)
  exact not_mem_list_line (hdigests fh hfh) (by decide) (by decide) (hlf fh hfh)

/-- The lines of the here-string: those of the list, or an empty one. -/
theorem splitOn_ps1_list (hlf : ∀ fh ∈ content.file_hashes, LF ∉ fh.path) :
    (hash_lines (py " *") content).splitOn LF =
      if content.file_hashes = [] then [[]] else content.file_hashes.map (list_line (py " *")) := by
  split_ifs with hnone
  · rw [hash_lines_eq, hnone]
    rfl
  · refine splitOn_lines (by simpa using hnone) (List.forall_mem_map.mpr fun fh hfh => ?_)
    exact not_mem_list_line (hdigests fh hfh) (by decide) (by decide) (hlf fh hfh)

theorem ps1_list_eq (hlf : ∀ fh ∈ content.file_hashes, LF ∉ fh.path) (rest : PyStr) :
    ps1_list split content rest = some (hash_lines (py " *") content) := by
  obtain ⟨line, lines, hclose, hcloses⟩ := splitOn_payload_close rest
  have hopen : ∀ l ∈ (hash_lines (py " *") content).splitOn LF, closes_here_string l = false := by
    rw [splitOn_ps1_list hdigests hlf]
    split_ifs
    · exact fun l hl => List.mem_singleton.mp hl ▸ rfl
    · exact List.forall_mem_map.mpr fun fh hfh => closes_list_line (hdigests fh hfh) _
  have hcontent : here_string (hash_lines (py " *") content ++ LF :: (PAYLOAD_CLOSE ++ rest)) =
      joinWith [LF] ((hash_lines (py " *") content).splitOn LF) := by
    rw [here_string, List.splitOn_append_cons_self, hclose, Runs.takeWhile_run]
    · exact fun l hl => by rw [hopen l hl]; rfl
    · exact Runs.stops_cons.mpr (by rw [hcloses]; rfl)
  have hjoin : joinWith [LF] ((hash_lines (py " *") content).splitOn LF) =
      hash_lines (py " *") content := by
    rw [splitOn_ps1_list hdigests hlf]
    split_ifs with hnone
    · rw [hash_lines_eq, hnone]
      rfl
    · rfl
  show some (here_string _) = _
  rw [hcontent, hjoin]

end Rendered

/-! ## The names of a POSIX file system -/

section PosixNames

theorem not_mem_normalize_path (path : PyStr) : 0x5c ∉ normalize_path true path := by
  intro hmem
  obtain ⟨c, -, hc⟩ := List.mem_map.mp hmem
  simp only [reduceIte] at hc
  split_ifs at hc with hsep
  · cases hc
  · exact hsep (Or.inr hc)

theorem normalize_path_of_not_mem {path : PyStr} (h : 0x5c ∉ path) : normalize_path true path = path := by
  have hsame : ∀ c ∈ path, (if c = 0x2f ∨ c = 0x5c then (if true then 0x2f else 0x5c) else c) = c := by
    intro c hc
    have hne : c ≠ 0x5c := fun heq => h (heq ▸ hc)
    simp only [reduceIte]
    split_ifs with hsep
    · omega
    · rfl
  rw [normalize_path, List.map_congr_left hsame, List.map_id']

theorem length_normalize_path (posix : Bool) (path : PyStr) :
    (normalize_path posix path).length = path.length := List.length_map _

/-- Two paths are joined with a separator between them, or one character is lost. -/
theorem join_path_cases (posix : Bool) (root child : PyStr) :
    join_path posix root child = normalize_path posix root ++
        (if posix then 0x2f else 0x5c) :: normalize_path posix child ∨
      (join_path posix root child).length < root.length + 1 + child.length := by
  have hroot := length_normalize_path posix root
  have hchild := length_normalize_path posix child
  unfold join_path
  dsimp only
  split_ifs
  all_goals first
    | exact Or.inl rfl
    | (right; simp only [List.length_append, List.length_tail, hroot, hchild]; omega)

variable {host : Unpack.Host} {fh : FileDigest}

theorem not_mem_checked_path (hposix : host.posix = true) (name : PyStr) :
    0x5c ∉ host.checked_path name := by
  have hroot := not_mem_normalize_path host.cache
  have hchild := not_mem_normalize_path (name.rdropWhile isWhiteSpace)
  have htail : 0x5c ∉ (normalize_path true (name.rdropWhile isWhiteSpace)).tail := fun h =>
    hchild (List.mem_of_mem_tail h)
  unfold Unpack.Host.checked_path join_path
  simp only [hposix, reduceIte]
  split_ifs <;> simp [hroot, hchild, htail]

theorem length_path (name : PyStr) :
    (host.path name).length = host.cache.length + 1 + name.length := by
  rw [Unpack.Host.path, List.length_append, List.length_cons]
  omega

/-- A checked path is as long as the parts it is joined from and a separator, or it is shorter. -/
theorem length_checked_path_le (name : PyStr) :
    (host.checked_path name).length ≤
      host.cache.length + 1 + (name.rdropWhile isWhiteSpace).length := by
  rw [Unpack.Host.checked_path]
  obtain hjoined | hshort :=
    join_path_cases host.posix host.cache (name.rdropWhile isWhiteSpace)
  · rw [hjoined, List.length_append, List.length_cons, length_normalize_path,
      length_normalize_path]
    omega
  · omega

/-- The path of the packed file is looked at just when it holds no backslash, the name does not end
in white space and nothing is lost where the two are joined. -/
theorem checked_path_posix (hposix : host.posix = true) {name : PyStr}
    (hback : 0x5c ∉ host.path name) (hwhole : name.rdropWhile isWhiteSpace = name)
    (hlength : (host.path name).length ≤ (host.checked_path name).length) :
    host.checked_path name = host.path name := by
  rw [length_path] at hlength
  rw [Unpack.Host.path, List.mem_append, List.mem_cons, not_or, not_or] at hback
  rw [Unpack.Host.checked_path, hposix, hwhole] at hlength ⊢
  obtain hjoined | hshort := join_path_cases true host.cache name
  · rw [hjoined, normalize_path_of_not_mem hback.1, normalize_path_of_not_mem hback.2.2]
    rfl
  · omega

/-- On a POSIX file system, where a path is its own name, `Test-PwshPyTree` looks
at a path that has lost something, or at the packed file's. -/
theorem loses_posix (hposix : host.posix = true) (hnaming : host.naming = id) : Loses host fh := by
  have hcount : (host.checked_path fh.path).count 0x5c = 0 :=
    List.count_eq_zero.mpr (not_mem_checked_path hposix fh.path)
  have hbefore := List.rdropWhile_prefix isWhiteSpace fh.path
  have htrimmed := hbefore.length_le
  have hchecked := @length_checked_path_le host fh.path
  have hpath := @length_path host fh.path
  simp only [Loses, hnaming, id, nameWeight, hcount]
  by_cases hlighter : (host.checked_path fh.path).length <
      (host.path fh.path).length + (host.path fh.path).count 0x5c
  · exact Or.inr (by omega)
  · left
    have hback : 0x5c ∉ host.path fh.path := fun hmem => by
      have hpos := List.count_pos_iff.mpr hmem
      omega
    exact checked_path_posix hposix hback (hbefore.eq_of_length (by omega)) (by omega)

/-- The path of the packed file is looked at just when it holds no backslash and
the name does not end in white space. -/
theorem checked_path_posix_iff (hposix : host.posix = true)
    (hcache : host.cache.getLast? ≠ some 0x2f) {name : PyStr} (hname : name.head? ≠ some 0x2f) :
    host.checked_path name = host.path name ↔
      0x5c ∉ host.path name ∧ name.rdropWhile isWhiteSpace = name := by
  constructor
  · intro h
    have hbefore := List.rdropWhile_prefix isWhiteSpace name
    have htrimmed := hbefore.length_le
    have hchecked := @length_checked_path_le host name
    rw [h, length_path] at hchecked
    exact ⟨h ▸ not_mem_checked_path hposix name, hbefore.eq_of_length (by omega)⟩
  · rintro ⟨hback, hwhole⟩
    rw [Unpack.Host.path, List.mem_append, List.mem_cons, not_or, not_or] at hback
    rw [Unpack.Host.checked_path, hposix, hwhole]
    unfold join_path
    dsimp only
    rw [normalize_path_of_not_mem hback.1, normalize_path_of_not_mem hback.2.2, if_pos rfl,
      if_neg hcache, if_neg hname]
    rfl

end PosixNames

/-! ## The round trip -/

/-- The list that a runner of either kind reads back is the list that was packed,
in the `.ps1` with the white space behind each name cut off. The check of the
`.sh` accepts just the trees with the packed files when the hash tool gives every
digest bare, that of the `.ps1` when it looks at each file under its own name. -/
theorem manifest_round_trips_iff (split : PyStr → Option (PyStr × PyStr)) (content : RunnerContent)
    (host : Unpack.Host) (sh : Shell.Context) (rest : PyStr)
    (hnames : refuse_unrepresentable_names content = .ok ())
    (hdigests : ∀ fh ∈ content.file_hashes, IsDigest fh.digest)
    (hnul : ∀ fh ∈ content.file_hashes, 0 ∉ fh.path)
    (hsha : ∀ body, IsDigest (host.sha256 body))
    (hheld : ∃ tree, ∀ fh ∈ content.file_hashes, Held host tree fh)
    (hdistinct : (content.file_hashes.map fun fh => host.naming (host.path fh.path)).Nodup)
    (hloses : ∀ fh ∈ content.file_hashes, Loses host fh) :
    ∃ list here, sh_list split content sh = some list ∧ ps1_list split content rest = some here ∧
      (Shell.fields (· == LF) list).map sh_entry = content.file_hashes ∧
      (((here.splitOn LF).map (stripBy isWhiteSpace)).filter (· ≠ [])).map ps1_entry =
        content.file_hashes.map (some ∘ trimmed) ∧
      ((∀ present tree, verify_tree host tree present list = true ↔
          present = true ∧ ∀ fh ∈ content.file_hashes, Held host tree fh) ↔
        ∀ fh ∈ content.file_hashes, Bare host fh) ∧
      ((∀ tree, test_tree host tree here = true ↔
          ∀ fh ∈ content.file_hashes, Held host tree fh) ↔
        ∀ fh ∈ content.file_hashes,
          host.naming (host.checked_path fh.path) = host.naming (host.path fh.path)) := by
  have hlf : ∀ fh ∈ content.file_hashes, LF ∉ fh.path := by
    intro fh hfh
    have hmem : fh.path ∈ content.entry :: content.file_hashes.map FileDigest.path :=
      List.mem_cons_of_mem _ (List.mem_map_of_mem hfh)
    exact (refuse_unrepresentable_names_eq_ok.mp hnames fh.path hmem).1
  have hfields := fields_sh_list hdigests hlf
  have hlines := splitOn_ps1_list hdigests hlf
  refine ⟨hash_lines (py "  ") content, hash_lines (py " *") content, sh_list_eq hdigests hnul sh,
    ps1_list_eq hdigests hlf rest, ?_, ?_, ?_, ?_⟩
  · rw [hfields, List.map_map]
    exact (List.map_congr_left fun fh hfh => sh_entry_line (hdigests fh hfh)).trans (List.map_id _)
  · rw [hlines]
    split_ifs with hnone
    · rw [hnone]
      rfl
    · rw [List.map_map, List.filter_eq_self.mpr, List.map_map]
      · refine List.map_congr_left fun fh hfh => ?_
        show ps1_entry (stripBy isWhiteSpace (list_line (py " *") fh)) = _
        rw [strip_list_line (hdigests fh hfh)]
        exact @ps1_entry_line (trimmed fh) (hdigests fh hfh)
      · rw [List.forall_mem_map]
        intro fh hfh
        show decide (stripBy isWhiteSpace (list_line (py " *") fh) ≠ []) = true
        rw [strip_list_line (hdigests fh hfh), decide_eq_true_iff]
        exact @list_line_ne_nil (trimmed fh) (hdigests fh hfh) _
  · rw [← verify_lines_faithful_iff hdigests hheld]
    unfold verify_tree
    rw [hfields]
    constructor
    · intro h tree
      simpa using h true tree
    · intro h present tree
      rw [Bool.and_eq_true, h tree]
  · rw [← test_lines_faithful_iff hdigests hsha hheld hdistinct hloses]
    unfold test_tree
    rw [hlines]
    split_ifs with hnone
    · rw [hnone]
      rfl
    · rfl

/-! ## A name that ends in a blank -/

/-- The digest of the empty file. -/
def EMPTY_DIGEST : PyStr := py "e3b0c44298fc1c149afbf4c8996fb92427ae41e4649b934ca495991b7852b855"

theorem isSpecifierChar_of_mem_nil : ∀ c ∈ ([] : PyStr), isSpecifierChar c = true := nofun

/-- The empty file `notes ` is packed. -/
def notesContent : RunnerContent where
  payload_b64 := []
  payload_sha256 := []
  entry := py "notes "
  uv_args := []
  file_hashes := [⟨EMPTY_DIGEST, py "notes "⟩]
  python_request := ⟨[], isSpecifierChar_of_mem_nil⟩
  has_git_source := false

/-- A host with GNU `sha256sum`, as it answers for the empty file. -/
def notesHost : Unpack.Host where
  sha256 := fun _ => EMPTY_DIGEST
  unarchived := fun _ => []
  cache := py "/c"
  escapes := true
  posix := true
  naming := id

/-- The tree that holds `notes ` and nothing else. -/
def notesTree : Tree := fun name => if name = py "/c/notes " then some [] else none

theorem notesTree_held : Held notesHost notesTree ⟨EMPTY_DIGEST, py "notes "⟩ :=
  ⟨[], by decide, rfl⟩

theorem isDigest_EMPTY_DIGEST : IsDigest EMPTY_DIGEST := by
  constructor
  · decide
  · decide

/-- The `.ps1` looks for `notes`, and the tree that was packed does not verify. -/
theorem trimmed_name_is_missed :
    refuse_unrepresentable_names notesContent = .ok () ∧
    (∀ fh ∈ notesContent.file_hashes, Held notesHost notesTree fh) ∧
    (ps1_list (fun _ => none) notesContent []).map (test_tree notesHost notesTree) =
      some false := by
  refine ⟨by decide, ?_, by decide +kernel⟩
  intro fh hfh
  obtain rfl := List.mem_singleton.mp hfh
  exact notesTree_held

theorem manifest_round_trips_iff_notes : ∃ list here,
    sh_list (fun _ => none) notesContent ⟨fun _ => none, []⟩ = some list ∧
    ps1_list (fun _ => none) notesContent [] = some here ∧
    (∀ present tree, verify_tree notesHost tree present list = true ↔
      present = true ∧ ∀ fh ∈ notesContent.file_hashes, Held notesHost tree fh) ∧
    ¬∀ tree, test_tree notesHost tree here = true ↔
      ∀ fh ∈ notesContent.file_hashes, Held notesHost tree fh := by
  have hdigests : ∀ fh ∈ notesContent.file_hashes, IsDigest fh.digest := by
    intro fh hfh
    obtain rfl := List.mem_singleton.mp hfh
    exact isDigest_EMPTY_DIGEST
  have hheld : ∀ fh ∈ notesContent.file_hashes, Held notesHost notesTree fh := by
    intro fh hfh
    obtain rfl := List.mem_singleton.mp hfh
    exact notesTree_held
  obtain ⟨list, here, hlist, hhere, -, -, hsh, hps1⟩ :=
    manifest_round_trips_iff (fun _ => none) notesContent notesHost ⟨fun _ => none, []⟩ []
      (by decide) hdigests (by decide) (fun _ => isDigest_EMPTY_DIGEST) ⟨notesTree, hheld⟩ (by decide)
      fun _ _ => loses_posix rfl rfl
  refine ⟨list, here, hlist, hhere, hsh.mpr ?_, fun h => ?_⟩
  · intro fh hfh _
    obtain rfl := List.mem_singleton.mp hfh
    decide
  · have hsame := hps1.mp h _ List.mem_cons_self
    exact absurd hsame (by decide)

end PwshPy.Packing
