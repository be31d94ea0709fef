import PwshPy.Text.Errors
import PwshPy.Text.Lines

/-! # The script block of an entry

A PEP 723 block is a run of comment lines that carry a TOML document. It is
lifted out of the entry's source as text, and the functions that read it take
the document's lines from it again.
-/

namespace PwshPy.Packing

/-- `_PEP723_OPEN` -/
def PEP723_OPEN : PyStr := py "# /// script"

/-- `_PEP723_CLOSE` -/
def PEP723_CLOSE : PyStr := py "# ///"

def rstrip (s : PyStr) : PyStr := s.rdropWhile isSpace

/-! ## Lifting the block out of a source -/

/-- The lines of a block behind its opening one, up to the one that closes it. -/
def block_end : List PyStr → Option (List PyStr)
  | [] => none
  | line :: rest =>
      let stripped := rstrip line
      if stripped = PEP723_CLOSE then some [line]
      else if stripped = py "#" ∨ (py "# ").isPrefixOf stripped then
        (block_end rest).map (line :: ·)
      else none

def first_block : List PyStr → Except PyError PyStr
  | [] => .ok []
  | line :: rest =>
      if rstrip line ≠ PEP723_OPEN then first_block rest
      else
        match block_end rest with
        | some block => .ok (unlines (line :: block))
        | none => .error (packError [.text (py "the entry's PEP 723 script block is not closed by a "),
            .repr PEP723_CLOSE, .text (py " line")])

def extract_script_metadata (source : PyStr) : Except PyError PyStr :=
  first_block (splitlines source)

/-! ## The document in a block -/

/-- A line of the block without its comment prefix. -/
def uncomment (raw : PyStr) : PyStr :=
  if (py "# ").isPrefixOf raw then raw.drop 2 else raw.drop 1

/-- `metadata.splitlines()[1:-1]` -/
def block_lines (metadata : PyStr) : List PyStr := (splitlines metadata).tail.dropLast

/-- The text is these lines, each of them ended by LF or CR LF. -/
inductive Ended : List PyStr → PyStr → Prop where
  | nil : Ended [] []
  | lf {line : PyStr} {rest : List PyStr} {text : PyStr} (h : Ended rest text) :
      Ended (line :: rest) (line ++ LF :: text)
  | crlf {line : PyStr} {rest : List PyStr} {text : PyStr} (h : Ended rest text) :
      Ended (line :: rest) (line ++ CR :: LF :: text)

/-- A line of a block and the line of the document it carries. -/
def Bears (raw line : PyStr) : Prop := raw = py "# " ++ line ∨ (raw = py "#" ∧ line = [])

/-- The block carries the document with these lines. -/
def Carries (metadata : PyStr) (document : List PyStr) : Prop :=
  ∃ raws, Ended (PEP723_OPEN :: raws ++ [PEP723_CLOSE]) metadata ∧
    List.Forall₂ Bears raws document

/-- No line has a character at which `str.splitlines` ends one. -/
def Unbroken (document : List PyStr) : Prop :=
  ∀ line ∈ document, ∀ c ∈ line, isLineBoundary c = false

theorem splitlines_ended {ls : List PyStr} {text : PyStr} (h : Ended ls text)
    (hls : Unbroken ls) : splitlines text = ls := by
  induction h with
  | nil => rfl
  | @lf line rest text h ih =>
      have hline := hls line List.mem_cons_self
      rw [splitlines_append_line, splitlines_line hline,
        ih fun l hl => hls l (List.mem_cons_of_mem _ hl), List.singleton_append]
  | @crlf line rest text h ih =>
      have hline := hls line List.mem_cons_self
      have hcr : CR ∉ line := fun hmem => absurd (hline _ hmem) (by decide)
      have hjoin : joinCrLf (line ++ CR :: LF :: text) = joinCrLf (line ++ LF :: text) := by
        rw [joinCrLf_append hcr, joinCrLf_append hcr]
        simp [joinCrLf, CR]
      have hsame : splitlines (line ++ CR :: LF :: text) = splitlines (line ++ LF :: text) := by
        unfold splitlines
        rw [hjoin]
      rw [hsame, splitlines_append_line, splitlines_line hline,
        ih fun l hl => hls l (List.mem_cons_of_mem _ hl), List.singleton_append]

theorem uncomment_of_bears {raw line : PyStr} (h : Bears raw line) : uncomment raw = line := by
  rcases h with rfl | ⟨rfl, rfl⟩
  · have hprefix : (py "# ").isPrefixOf (py "# " ++ line) = true := by simp
    rw [uncomment, if_pos hprefix]
    rfl
  · decide

theorem unbroken_of_bears {raw line : PyStr} (h : Bears raw line)
    (hline : ∀ c ∈ line, isLineBoundary c = false) : ∀ c ∈ raw, isLineBoundary c = false := by
  rcases h with rfl | ⟨rfl, rfl⟩
  · intro c hc
    rcases List.mem_append.mp hc with hc | hc
    · exact (by decide : ∀ c ∈ py "# ", isLineBoundary c = false) c hc
    · exact hline c hc
  · decide

/-- The lines read from a block are those of its document, as long as no other
character of them ends a line. -/
theorem uncomment_block_lines {metadata : PyStr} {document : List PyStr}
    (h : Carries metadata document) (hunbroken : Unbroken document) :
    (block_lines metadata).map uncomment = document := by
  obtain ⟨raws, hended, hbears⟩ := h
  have hraws : Unbroken raws ∧ raws.map uncomment = document := by
    clear hended
    induction hbears with
    | nil => exact ⟨by simp [Unbroken], rfl⟩
    | @cons raw line raws document hraw hrest ih =>
        have hrest := ih fun l hl => hunbroken l (List.mem_cons_of_mem _ hl)
        have hfirst := unbroken_of_bears hraw (hunbroken line List.mem_cons_self)
        refine ⟨?_, ?_⟩
        · rw [Unbroken, List.forall_mem_cons]
          exact ⟨hfirst, hrest.1⟩
        · rw [List.map_cons, uncomment_of_bears hraw, hrest.2]
  have hall : Unbroken (PEP723_OPEN :: raws ++ [PEP723_CLOSE]) := by
    intro line hline
    rcases List.mem_append.mp hline with hline | hline
    · rcases List.mem_cons.mp hline with rfl | hline
      · decide
      · exact hraws.1 line hline
    · obtain rfl := List.mem_singleton.mp hline
      decide
  rw [block_lines, splitlines_ended hended hall, List.cons_append, List.tail_cons,
    List.dropLast_concat]
  exact hraws.2

end PwshPy.Packing
