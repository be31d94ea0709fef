import PwshPy.Packing.UvArgs
import PwshPy.Text.Runs

/-! # The relative paths among the `--with` values

A value is read as uv reads it: blanks, the `name[extras] @` of a direct
reference or nothing, then one word and what stands behind it. Where the word is
a path that is not absolute, the packer's split has to leave it at the head of
the location, for the caller's directory goes right in front of that.
-/

namespace PwshPy.Packing

open Shell (AT isLetter)
open Runs (Stops)

/-! ## How a value is read -/

/-- Blanks, of any number. -/
abbrev Gap : Type := {blanks : PyStr // ∀ c ∈ blanks, isSpace c = true}

/-- `name[extras] @` with the blanks it may hold. -/
structure Reference where
  lead : Gap
  name : PyStr
  name_chars : ∀ c ∈ name, isReferenceChar c = true
  name_ends : name.head?.any isAlphanumeric = true ∧ name.getLast?.any isAlphanumeric = true
  gap : Gap
  extras : Option {body : PyStr // 0x5d ∉ body}
  behind : Gap
  last : Gap

def extras_text (extras : Option {body : PyStr // 0x5d ∉ body}) : PyStr :=
  match extras with
  | some body => 0x5b :: body.1 ++ [0x5d]
  | none => []

def Reference.text (r : Reference) : PyStr :=
  r.lead.1 ++ (r.name ++ (r.gap.1 ++ (extras_text r.extras ++ (r.behind.1 ++ AT :: r.last.1))))

/-- What stands in front of the location. -/
inductive Head where
  | bare (lead : Gap)
  | named (reference : Reference)

def Head.text : Head → PyStr
  | .bare lead => lead.1
  | .named reference => reference.text

/-- The end of a word: a blank, or the `;` of a marker. -/
def endsWord (c : Nat) : Bool := isSpace c || c == 0x3b

/-- A `--with` value in its parts. A path without a name may have extras right
behind it; a value is a direct reference whenever it can be read as one. -/
structure WithValue where
  head : Head
  word : PyStr
  extras : PyStr
  tail : PyStr
  word_ne : word ≠ []
  word_chars : ∀ c ∈ word, endsWord c = false
  bracketed : extras = [] ∨
    ∃ body, extras = 0x5b :: body ++ [0x5d] ∧ ∀ c ∈ body, isReferenceChar c ∨ c = 0x2c
  unnamed_extras : ∀ reference, head = .named reference → extras = []
  tail_stops : ∀ c, tail.head? = some c → endsWord c = true
  unnamed : ∀ lead, head = .bare lead →
    ∀ (reference : Reference) (rest : PyStr), lead.1 ++ (word ++ extras ++ tail) ≠ reference.text ++ rest

def WithValue.text (v : WithValue) : PyStr := v.head.text ++ (v.word ++ v.extras ++ v.tail)

/-! ## What a word names -/

/-- `[A-Za-z0-9+.-]` -/
def isSchemeChar (c : Nat) : Bool := isAlphanumeric c || c == 0x2b || c == 0x2e || c == 0x2d

/-- `scheme://…`, or a `file:` reference. -/
def IsUrl (word : PyStr) : Prop :=
  ((word.takeWhile isSchemeChar).head?.any isLetter = true ∧
    py "://" <+: word.dropWhile isSchemeChar) ∨ py "file:" <+: asciiLower word

/-- A path with a root or a drive. -/
def IsAbsolute : PyStr → Prop
  | [] => False
  | first :: rest =>
      first = 0x2f ∨ first = BACKSLASH ∨ (isLetter first = true ∧ rest.head? = some 0x3a)

/-- An absolute path, one below a home or a variable. -/
def IsFixed (word : PyStr) : Prop :=
  IsAbsolute word ∨ word.head? = some 0x7e ∨ word.head? = some 0x24

def HasSeparator (word : PyStr) : Prop := 0x2f ∈ word ∨ BACKSLASH ∈ word

/-- `x.whl` and the like. -/
def IsDistribution (word : PyStr) : Prop :=
  ∃ suffix ∈ DISTRIBUTION_SUFFIXES, suffix <:+ asciiLower word

/-- A word with the shape of a path: a separator, a dot name, a distribution's suffix. -/
def HasPathShape (word : PyStr) : Prop :=
  HasSeparator word ∨ word = py "." ∨ word = py ".." ∨ IsDistribution word

/-- A path relative to the working directory. -/
def IsRelativePath (word : PyStr) : Prop := ¬IsUrl word ∧ ¬IsFixed word ∧ HasPathShape word

/-- `[A-Za-z0-9._\-\[\],<>=!~*+()]`, the characters of a name, its extras and its versions. -/
def isRequirementChar (c : Nat) : Bool := isReferenceChar c || c ∈ py "[],<>=!~*+()"

/-- The first word of `rich`, `rich>=13` or `pkg[ab]`. -/
def IsRequirement (word : PyStr) : Prop :=
  word.head?.any isAlphanumeric = true ∧ ∀ c ∈ word, isRequirementChar c = true

instance (word : PyStr) : Decidable (IsUrl word) := inferInstanceAs (Decidable (_ ∨ _))

instance (word : PyStr) : Decidable (IsAbsolute word) :=
  match word with
  | [] => inferInstanceAs (Decidable False)
  | _ :: _ => inferInstanceAs (Decidable (_ ∨ _ ∨ _))

instance (word : PyStr) : Decidable (IsFixed word) := inferInstanceAs (Decidable (_ ∨ _))

instance (word : PyStr) : Decidable (HasSeparator word) := inferInstanceAs (Decidable (_ ∨ _))

instance (word : PyStr) : Decidable (IsDistribution word) :=
  inferInstanceAs (Decidable (∃ suffix ∈ DISTRIBUTION_SUFFIXES, _))

instance (word : PyStr) : Decidable (HasPathShape word) :=
  inferInstanceAs (Decidable (_ ∨ _ ∨ _ ∨ _))

instance (word : PyStr) : Decidable (IsRelativePath word) := inferInstanceAs (Decidable (_ ∧ _))

instance (word : PyStr) : Decidable (IsRequirement word) := inferInstanceAs (Decidable (_ ∧ _))

/-- The file a path names in a directory. -/
def resolve (directory path : PyStr) : PyStr :=
  if IsAbsolute path then path else directory ++ 0x2f :: path

/-- The split keeps the value and leaves its path at the head of the location:
with a directory between the two parts the value names, from anywhere, the file
it named in that directory. -/
def Reanchors (v : WithValue) : Prop :=
  ∃ head location, split_relative_requirement v.text = some (head, location) ∧
    head ++ location = v.text ∧ v.word <+: location ∧
    ∀ directory, IsAbsolute directory →
      head ++ directory ++ 0x2f :: location =
        v.head.text ++ (resolve directory v.word ++ v.extras ++ v.tail) ∧
      ∀ cwd, resolve cwd (resolve directory v.word) = resolve directory v.word

/-! ## The reference in front -/

theorem isSpace_of_reference {c : Nat} (h : isReferenceChar c = true) : isSpace c = false := by
  simp only [isReferenceChar, isAlphanumeric, isLetter, isDigit, Bool.or_eq_true,
    Bool.and_eq_true, decide_eq_true_eq, beq_iff_eq] at h
  simp only [isSpace, Bool.or_eq_false_iff, Bool.and_eq_false_iff, decide_eq_false_iff_not,
    beq_eq_false_iff_ne]
  omega

theorem reference_of_isSpace {c : Nat} (h : isSpace c = true) : isReferenceChar c = false := by
  by_contra hreference
  rw [isSpace_of_reference (Bool.not_eq_false _ ▸ hreference)] at h
  cases h

theorem skip_extras_text (extras : Option {body : PyStr // 0x5d ∉ body}) (gap behind : Gap)
    {c : Nat} (hspace : isSpace c = false) (hopen : c ≠ 0x5b) (rest : PyStr) :
    skip_extras ((gap.1 ++ (extras_text extras ++ (behind.1 ++ c :: rest))).dropWhile isSpace) =
      c :: rest := by
  have hstop : Stops isSpace (c :: rest) := Runs.stops_cons.mpr hspace
  cases extras with
  | none =>
      rw [extras_text, List.nil_append, ← List.append_assoc, Runs.dropWhile_run _ hstop,
        skip_extras, if_neg hopen]
      intro d hd
      cases List.mem_append.mp hd with
      | inl hgap => exact gap.2 d hgap
      | inr hbehind => exact behind.2 d hbehind
  | some body =>
      have hbody : ∀ d ∈ body.1, (d != 0x5d) = true := by
        intro d hd
        exact bne_iff_ne.mpr fun hclose => body.2 (hclose ▸ hd)
      have hbracket : Stops isSpace (extras_text (some body) ++ (behind.1 ++ c :: rest)) := by
        rw [extras_text]
        exact Runs.stops_cons.mpr (by decide)
      rw [Runs.dropWhile_run gap.2 hbracket, extras_text]
      show skip_extras (0x5b :: (body.1 ++ [0x5d] ++ (behind.1 ++ c :: rest))) = _
      have hclose : (body.1 ++ 0x5d :: (behind.1 ++ c :: rest)).dropWhile (· != 0x5d) =
          0x5d :: (behind.1 ++ c :: rest) :=
        Runs.dropWhile_run hbody (Runs.stops_cons.mpr (by decide))
      rw [skip_extras, if_pos rfl, List.append_assoc, List.singleton_append, hclose]
      exact Runs.dropWhile_run behind.2 hstop

/-- A direct reference is read up to the end of the blanks behind its `@`. -/
theorem after_named_reference_text (r : Reference) (rest : PyStr) :
    after_named_reference (r.text ++ rest) = some (rest.dropWhile isSpace) := by
  have hbehind : Stops isReferenceChar
      (r.gap.1 ++ (extras_text r.extras ++ (r.behind.1 ++ AT :: (r.last.1 ++ rest)))) := by
    have hat : Stops isReferenceChar (r.behind.1 ++ AT :: (r.last.1 ++ rest)) :=
      Stops.append (fun c hc => reference_of_isSpace (r.behind.2 c hc))
        (Runs.stops_cons.mpr (by decide))
    refine Stops.append (fun c hc => reference_of_isSpace (r.gap.2 c hc)) ?_
    cases r.extras with
    | none => exact hat
    | some body => exact Runs.stops_cons.mpr (by decide)
  have hname : Stops isSpace (r.name ++
      (r.gap.1 ++ (extras_text r.extras ++ (r.behind.1 ++ AT :: (r.last.1 ++ rest))))) := by
    cases hcase : r.name with
    | nil =>
        have hends := r.name_ends.1
        rw [hcase] at hends
        cases hends
    | cons c name =>
        have hc := r.name_chars c (by simp [hcase])
        exact Runs.stops_cons.mpr (isSpace_of_reference hc)
  have htext : r.text ++ rest = r.lead.1 ++ (r.name ++
      (r.gap.1 ++ (extras_text r.extras ++ (r.behind.1 ++ AT :: (r.last.1 ++ rest))))) := by
    simp [Reference.text]
  rw [after_named_reference, htext, Runs.dropWhile_run r.lead.2 hname]
  simp only [Runs.takeWhile_run r.name_chars hbehind, Runs.dropWhile_run r.name_chars hbehind]
  rw [if_pos r.name_ends,
    skip_extras_text r.extras r.gap r.behind (by decide) (by decide), skip_at, if_pos rfl,
    List.dropWhile_append_of_pos r.last.2]

theorem unnamed_of_none {text : PyStr} (h : after_named_reference text = none) (r : Reference)
    (rest : PyStr) : text ≠ r.text ++ rest := by
  intro htext
  rw [htext, after_named_reference_text] at h
  cases h

/-- Where blanks, a bracket and an `@` are read there were such parts. -/
theorem skip_extras_sound {text rest : PyStr}
    (h : skip_at (skip_extras (text.dropWhile isSpace)) = some rest) :
    ∃ (gap : Gap) (extras : Option {body : PyStr // 0x5d ∉ body}) (behind last : Gap),
      text = gap.1 ++ (extras_text extras ++ (behind.1 ++ AT :: (last.1 ++ rest))) ∧
        Stops isSpace rest := by
  have hat : ∀ s : PyStr, skip_at s = some rest →
      ∃ last : Gap, s = AT :: (last.1 ++ rest) ∧ Stops isSpace rest := by
    intro s hs
    cases s with
    | nil => cases hs
    | cons c s =>
        by_cases hc : c = AT
        · rw [skip_at, if_pos hc] at hs
          cases hs
          refine ⟨⟨s.takeWhile isSpace, fun d hd => Runs.mem_takeWhile hd⟩, ?_,
            Runs.stops_dropWhile _ _⟩
          rw [hc, List.takeWhile_append_dropWhile]
        · rw [skip_at, if_neg hc] at hs
          cases hs
  have htext := List.takeWhile_append_dropWhile (p := isSpace) (l := text)
  let gap : Gap := ⟨text.takeWhile isSpace, fun d hd => Runs.mem_takeWhile hd⟩
  cases hdrop : text.dropWhile isSpace with
  | nil =>
      rw [hdrop] at h
      cases h
  | cons c behind =>
      rw [hdrop] at h htext
      by_cases hopen : c = 0x5b
      · rw [skip_extras, if_pos hopen] at h
        have hbody := List.takeWhile_append_dropWhile (p := (· != 0x5d)) (l := behind)
        cases hclose : behind.dropWhile (· != 0x5d) with
        | nil =>
            rw [hclose] at h
            obtain ⟨last, hlast, -⟩ := hat _ h
            rw [hopen] at hlast
            cases hlast
        | cons d after =>
            rw [hclose] at h hbody
            obtain ⟨last, hlast, hstop⟩ := hat _ h
            have hd : d = 0x5d := by
              have hstops := Runs.stops_dropWhile (· != 0x5d) behind
              rw [hclose, Runs.stops_cons] at hstops
              simpa using hstops
            have hkept := List.takeWhile_append_dropWhile (p := isSpace) (l := after)
            refine ⟨gap, some ⟨behind.takeWhile (· != 0x5d), fun hmem => ?_⟩,
              ⟨after.takeWhile isSpace, fun e he => Runs.mem_takeWhile he⟩, last, ?_, hstop⟩
            · have himpossible := Runs.mem_takeWhile hmem
              cases himpossible
            · have hafter : after.takeWhile isSpace ++ AT :: (last.1 ++ rest) = after := by
                rw [← hlast]
                exact hkept
              rw [hd] at hbody
              calc text = gap.1 ++ 0x5b :: behind := by rw [← hopen]; exact htext.symm
                _ = gap.1 ++ 0x5b :: (behind.takeWhile (· != 0x5d) ++ 0x5d :: after) := by
                    rw [hbody]
                _ = gap.1 ++ ((0x5b :: behind.takeWhile (· != 0x5d) ++ [0x5d]) ++
                      (after.takeWhile isSpace ++ AT :: (last.1 ++ rest))) := by
                    rw [hafter, List.append_assoc]
                    rfl
      · rw [skip_extras, if_neg hopen] at h
        obtain ⟨last, hlast, hstop⟩ := hat _ h
        refine ⟨gap, none, ⟨[], fun d hd => absurd hd List.not_mem_nil⟩, last, ?_, hstop⟩
        rw [← htext, hlast]
        rfl

theorem after_named_reference_sound {spec rest : PyStr}
    (h : after_named_reference spec = some rest) :
    ∃ r : Reference, spec = r.text ++ rest ∧ Stops isSpace rest := by
  let text := spec.dropWhile isSpace
  let name := text.takeWhile isReferenceChar
  by_cases hends : name.head?.any isAlphanumeric ∧ name.getLast?.any isAlphanumeric
  · have hskip : skip_at (skip_extras ((text.dropWhile isReferenceChar).dropWhile isSpace)) =
        some rest := by
      rwa [after_named_reference, if_pos hends] at h
    obtain ⟨gap, extras, behind, last, htext, hstop⟩ := skip_extras_sound hskip
    refine ⟨⟨⟨spec.takeWhile isSpace, fun c hc => Runs.mem_takeWhile hc⟩, name,
      fun c hc => Runs.mem_takeWhile hc, hends, gap, extras, behind, last⟩, ?_, hstop⟩
    have hname := List.takeWhile_append_dropWhile (p := isReferenceChar) (l := text)
    have hspec := List.takeWhile_append_dropWhile (p := isSpace) (l := spec)
    calc spec = spec.takeWhile isSpace ++ text := hspec.symm
      _ = spec.takeWhile isSpace ++ (name ++ text.dropWhile isReferenceChar) := by rw [hname]
      _ = _ := by
          rw [htext]
          simp [Reference.text]
  · rw [after_named_reference, if_neg hends] at h
    cases h

/-! ## The split of a value -/

theorem isFixed_cons {first : Nat} {rest : PyStr} :
    IsFixed (first :: rest) ↔
      first ∈ py "/\\~$" ∨ (isLetter first = true ∧ rest.head? = some 0x3a) := by
  have hset : first ∈ py "/\\~$" ↔
      first = 0x2f ∨ first = BACKSLASH ∨ first = 0x7e ∨ first = 0x24 := by
    show first ∈ [0x2f, BACKSLASH, 0x7e, 0x24] ↔ _
    simp
  rw [hset, IsFixed, IsAbsolute, List.head?_cons, Option.some_inj, Option.some_inj]
  tauto

/-- What the packer takes for a relative path, said of its token. -/
def RelativeToken (token : PyStr) : Prop :=
  ¬py "://" <:+: token ∧ ¬py "file:" <+: asciiLower token ∧ ¬IsFixed token ∧ HasPathShape token

theorem hasPathShape_iff {token : PyStr} :
    HasPathShape token ↔ 0x2f ∈ token ∨ BACKSLASH ∈ token ∨ token ∈ [py ".", py ".."] ∨
      ∃ suffix ∈ DISTRIBUTION_SUFFIXES, suffix <:+ asciiLower token := by
  have hdots : token ∈ [py ".", py ".."] ↔ token = py "." ∨ token = py ".." := by
    simp only [List.mem_cons, List.not_mem_nil, or_false]
  rw [hdots, HasPathShape, HasSeparator, IsDistribution, or_assoc, or_assoc]

theorem is_relative_location_iff {location token : PyStr} (hne : token ≠ [])
    (h : (strip location).takeWhile (fun c => !(isSpace c || c == 0x3b)) = token) :
    is_relative_location location = true ↔ RelativeToken token := by
  obtain ⟨first, rest, rfl⟩ := List.exists_cons_of_ne_nil hne
  rw [RelativeToken, hasPathShape_iff, isFixed_cons]
  unfold is_relative_location
  simp only [h]
  split
  · rename_i hurl
    constructor
    · intro hfalse
      cases hfalse
    · intro hrelative
      exact absurd hurl (not_or.mpr ⟨hrelative.1, hrelative.2.1⟩)
  · rename_i hurl
    obtain ⟨hscheme, hfile⟩ := not_or.mp hurl
    split
    · rename_i hfixed
      constructor
      · intro hfalse
        cases hfalse
      · intro hrelative
        exact absurd hfixed hrelative.2.2.1
    · rename_i hfixed
      rw [decide_eq_true_iff]
      constructor
      · intro hshape
        exact ⟨hscheme, hfile, hfixed, hshape⟩
      · intro hrelative
        exact hrelative.2.2.2

namespace WithValue

variable (v : WithValue)

/-- The word with its extras, what the packer takes for one word. -/
def token : PyStr := v.word ++ v.extras

theorem endsWord_of_isSpace {c : Nat} (h : isSpace c = true) : endsWord c = true := by
  rw [endsWord, h]
  rfl

theorem token_chars : ∀ c ∈ v.token, endsWord c = false := by
  intro c hc
  cases List.mem_append.mp hc with
  | inl hword => exact v.word_chars c hword
  | inr hextras =>
      obtain hnil | ⟨body, hbody, hchars⟩ := v.bracketed
      · rw [hnil] at hextras
        cases hextras
      · rw [hbody] at hextras
        simp only [List.cons_append, List.mem_cons, List.mem_append, List.not_mem_nil,
          or_false] at hextras
        obtain rfl | hmem | rfl := hextras
        · decide
        · cases hchars c hmem with
          | inl hreference =>
              have hsemicolon : c ≠ 0x3b := by
                intro hc
                rw [hc] at hreference
                exact absurd hreference (by decide)
              simp [endsWord, isSpace_of_reference hreference, hsemicolon]
          | inr hcomma =>
              rw [hcomma]
              decide
        · decide

theorem token_ne : v.token ≠ [] := List.append_ne_nil_of_left_ne_nil v.word_ne _

theorem token_stops : Stops isSpace (v.token ++ v.tail) := by
  have hchars := v.token_chars
  cases htoken : v.token with
  | nil => exact absurd htoken v.token_ne
  | cons c token =>
      rw [htoken] at hchars
      have hc := hchars c List.mem_cons_self
      rw [endsWord, Bool.or_eq_false_iff] at hc
      exact Runs.stops_cons.mpr hc.1

/-- Behind blanks, the packer's token is the word with its extras. -/
theorem takeWhile_strip (lead : Gap) :
    (strip (lead.1 ++ (v.token ++ v.tail))).takeWhile (fun c => !(isSpace c || c == 0x3b)) =
      v.token := by
  have hchars := v.token_chars
  have htokenStops := v.token_stops
  have htailStops := v.tail_stops
  obtain ⟨token, c, htoken⟩ : ∃ t c, v.token = t ++ [c] :=
    ⟨_, _, (List.dropLast_append_getLast v.token_ne).symm⟩
  have hc : isSpace c = false := by
    have hends := hchars c (by rw [htoken]; simp)
    rw [endsWord, Bool.or_eq_false_iff] at hends
    exact hends.1
  have hstrip : strip (lead.1 ++ (v.token ++ v.tail)) = v.token ++ v.tail.rdropWhile isSpace := by
    rw [strip, stripBy, Runs.dropWhile_run lead.2 htokenStops, htoken, List.append_assoc,
      List.singleton_append, Runs.rdropWhile_append_stop hc]
    simp
  rw [hstrip]
  refine Runs.takeWhile_run (fun d hd => by simpa [endsWord] using hchars d hd) ?_
  intro d hd
  obtain ⟨rest, hrest⟩ := List.rdropWhile_prefix isSpace v.tail
  have hhead : v.tail.head? = some d := by
    rw [← hrest, List.head?_append, hd]
    rfl
  show (!endsWord d) = false
  rw [htailStops d hhead]
  rfl

theorem text_eq : v.text = v.head.text ++ (v.token ++ v.tail) := rfl

theorem requirement_head_named {r : Reference} (h : v.head = .named r) :
    requirement_head v.text = r.text := by
  have htext : v.text = r.text ++ (v.token ++ v.tail) := by
    rw [text_eq, h]
    rfl
  have hnamed : named_reference v.text = some r.text := by
    rw [named_reference, htext, after_named_reference_text, Runs.dropWhile_stops v.token_stops,
      Option.map_some, List.length_append, Nat.add_sub_cancel, List.take_left]
  have hdot : ¬py "." <+: v.text.dropWhile isSpace := by
    rw [htext, Reference.text, List.append_assoc]
    cases hname : r.name with
    | nil =>
        have hends := r.name_ends.1
        rw [hname] at hends
        cases hends
    | cons c name =>
        have hc : isReferenceChar c = true := r.name_chars c (by simp [hname])
        have hends := r.name_ends.1
        rw [hname, List.head?_cons, Option.any_some] at hends
        rw [List.cons_append, List.cons_append,
          Runs.dropWhile_run r.lead.2 (Runs.stops_cons.mpr (isSpace_of_reference hc))]
        intro hprefix
        obtain ⟨hdot, -⟩ := List.cons_prefix_cons.mp hprefix
        rw [← hdot] at hends
        exact absurd hends (by decide)
  rw [requirement_head, hnamed]
  exact if_neg hdot

theorem requirement_head_bare {lead : Gap} (h : v.head = .bare lead) :
    requirement_head v.text = [] := by
  have hnone : after_named_reference v.text = none := by
    cases hread : after_named_reference v.text with
    | none => rfl
    | some rest =>
        obtain ⟨r, htext, -⟩ := after_named_reference_sound hread
        rw [text_eq, h] at htext
        exact absurd htext (v.unnamed lead h r rest)
  rw [requirement_head, named_reference, hnone]
  rfl

/-- What the packer takes off in front: the reference, but not the blanks in
front of a bare path. -/
def taken : PyStr :=
  match v.head with
  | .bare _ => []
  | .named reference => reference.text

def location : PyStr :=
  match v.head with
  | .bare lead => lead.1 ++ (v.token ++ v.tail)
  | .named _ => v.token ++ v.tail

theorem taken_append_location : v.taken ++ v.location = v.text := by
  rw [text_eq, taken, location]
  cases v.head with
  | bare lead => rfl
  | named reference => rfl

theorem requirement_head_eq : requirement_head v.text = v.taken := by
  rw [taken]
  split
  · rename_i lead h
    exact v.requirement_head_bare h
  · rename_i reference h
    exact v.requirement_head_named h

theorem is_relative_location_eq :
    is_relative_location v.location = true ↔ RelativeToken v.token := by
  refine is_relative_location_iff v.token_ne ?_
  rw [location]
  split
  · rename_i lead h
    exact v.takeWhile_strip lead
  · exact v.takeWhile_strip ⟨[], fun c hc => absurd hc List.not_mem_nil⟩

/-- Whatever stands in front, the token decides. -/
theorem split_iff (parts : PyStr × PyStr) :
    split_relative_requirement v.text = some parts ↔
      RelativeToken v.token ∧ parts = (v.taken, v.location) := by
  have hlocation : v.text.drop v.taken.length = v.location := by
    rw [← v.taken_append_location, List.drop_left]
  rw [split_relative_requirement, requirement_head_eq]
  simp only [hlocation]
  by_cases hrelative : is_relative_location v.location = true
  · rw [if_pos hrelative, Option.some_inj]
    exact ⟨fun h => ⟨v.is_relative_location_eq.mp hrelative, h.symm⟩, fun h => h.2.symm⟩
  · rw [if_neg hrelative]
    constructor
    · intro h
      cases h
    · intro h
      exact absurd (v.is_relative_location_eq.mpr h.1) hrelative

theorem split_eq_none_iff :
    split_relative_requirement v.text = none ↔ ¬RelativeToken v.token := by
  rw [Option.eq_none_iff_forall_ne_some]
  constructor
  · intro h hrelative
    exact h _ ((v.split_iff _).mpr ⟨hrelative, rfl⟩)
  · intro h parts hparts
    exact h ((v.split_iff parts).mp hparts).1

end WithValue

/-! ## What the token tells of the word -/

theorem isFixed_append {word : PyStr} (hword : word ≠ []) {c : Nat} (hc : c ≠ 0x3a) (rest : PyStr) :
    IsFixed (word ++ c :: rest) ↔ IsFixed word := by
  obtain ⟨first, word, rfl⟩ := List.exists_cons_of_ne_nil hword
  have hsecond : (word ++ c :: rest).head? = some 0x3a ↔ word.head? = some 0x3a := by
    cases word with
    | nil => simp [hc]
    | cons d word => rfl
  rw [List.cons_append, isFixed_cons, isFixed_cons, hsecond]

theorem colon_of_mem_asciiLower {word : PyStr} (h : 0x3a ∈ asciiLower word) : 0x3a ∈ word := by
  obtain ⟨c, hc, hlower⟩ := List.mem_map.mp h
  split at hlower
  · omega
  · rwa [hlower] at hc

/-- No suffix of a distribution ends in a bracket. -/
theorem not_isDistribution_bracket (word : PyStr) : ¬IsDistribution (word ++ [0x5d]) := by
  rintro ⟨suffix, hsuffix, hends⟩
  rw [asciiLower_append] at hends
  have hlast : suffix.getLast? = some 0x5d := by
    obtain ⟨before, hbefore⟩ := hends
    have hne : suffix ≠ [] := by
      intro hnil
      rw [hnil] at hsuffix
      exact absurd hsuffix (by decide)
    have hlast := congrArg List.getLast? hbefore
    rw [List.getLast?_append_of_ne_nil _ hne] at hlast
    rw [hlast]
    exact List.getLast?_concat ..
  have hnone : ∀ s ∈ DISTRIBUTION_SUFFIXES, s.getLast? ≠ some 0x5d := by decide
  exact hnone suffix hsuffix hlast

/-- Extras hide the shape of the word in front of them, but not its separator. -/
theorem relativeToken_extras {word body : PyStr} (hword : word ≠ [])
    (hbody : ∀ c ∈ body, isReferenceChar c ∨ c = 0x2c) :
    RelativeToken (word ++ (0x5b :: body ++ [0x5d])) ↔
      ¬py "://" <:+: word ∧ ¬py "file:" <+: asciiLower word ∧ ¬IsFixed word ∧
        HasSeparator word := by
  have habsent : ∀ c ∈ body ++ [0x5d], c ≠ 0x2f ∧ c ≠ BACKSLASH ∧ c ≠ 0x3a := by
    intro c hc
    have hnot : ∀ d ∈ [0x2f, BACKSLASH, 0x3a], isReferenceChar d = false ∧ d ≠ 0x2c ∧ d ≠ 0x5d := by
      decide
    by_contra hnone
    have hmem : c ∈ [0x2f, BACKSLASH, 0x3a] := by
      simp only [List.mem_cons, List.not_mem_nil, or_false]
      tauto
    obtain ⟨hreference, hcomma, hclose⟩ := hnot c hmem
    cases List.mem_append.mp hc with
    | inl hmem =>
        cases hbody c hmem with
        | inl h => exact absurd h (by rw [hreference]; decide)
        | inr h => exact hcomma h
    | inr hmem => exact hclose (List.mem_singleton.mp hmem)
  have hscheme : py "://" <:+: word ++ 0x5b :: (body ++ [0x5d]) ↔ py "://" <:+: word := by
    rw [Runs.infix_append_cons (by decide)]
    refine or_iff_left fun h => ?_
    have hcolon : 0x3a ∈ body ++ [0x5d] := h.subset (by decide)
    exact (habsent _ hcolon).2.2 rfl
  have hfile : py "file:" <+: asciiLower (word ++ 0x5b :: (body ++ [0x5d])) ↔
      py "file:" <+: asciiLower word := by
    rw [asciiLower_append]
    exact Runs.prefix_append_cons (by decide)
  have hshape : HasPathShape (word ++ 0x5b :: (body ++ [0x5d])) ↔ HasSeparator word := by
    have hends : word ++ 0x5b :: (body ++ [0x5d]) = word ++ 0x5b :: body ++ [0x5d] := by simp
    have hdot : ∀ name, name.getLast? = some 0x2e → word ++ 0x5b :: (body ++ [0x5d]) ≠ name := by
      intro name hname heq
      rw [← heq, hends, List.getLast?_concat] at hname
      cases hname
    have hdistribution : ¬IsDistribution (word ++ 0x5b :: (body ++ [0x5d])) := by
      rw [hends]
      exact not_isDistribution_bracket _
    have hmem : ∀ c, c ∈ [0x2f, BACKSLASH] → (c ∈ word ++ 0x5b :: (body ++ [0x5d]) ↔ c ∈ word) := by
      intro c hc
      rw [List.mem_append, List.mem_cons]
      refine or_iff_left fun h => ?_
      cases h with
      | inl hopen =>
          rw [hopen] at hc
          exact absurd hc (by decide)
      | inr hrest =>
          obtain ⟨hslash, hback, -⟩ := habsent c hrest
          simp only [List.mem_cons, List.not_mem_nil, or_false] at hc
          tauto
    rw [HasPathShape, HasSeparator, HasSeparator, hmem _ (by decide), hmem _ (by decide)]
    have hone := hdot (py ".") (by decide)
    have htwo := hdot (py "..") (by decide)
    tauto
  rw [List.cons_append, RelativeToken, hscheme, hfile, hshape,
    isFixed_append hword (by decide)]

/-! ## Values that stay as they are -/

theorem not_relativeToken_url {word : PyStr} (h : IsUrl word) (extras : PyStr) :
    ¬RelativeToken (word ++ extras) := by
  intro hrelative
  cases h with
  | inl hscheme =>
      refine hrelative.1 ((hscheme.2.isInfix.trans ?_).trans
        (List.prefix_append word extras).isInfix)
      exact (List.dropWhile_suffix isSchemeChar).isInfix
  | inr hfile =>
      refine hrelative.2.1 ?_
      rw [asciiLower_append]
      exact hfile.trans (List.prefix_append _ _)

theorem not_relativeToken_fixed {word : PyStr} (h : IsFixed word) (extras : PyStr) :
    ¬RelativeToken (word ++ extras) := by
  intro hrelative
  refine hrelative.2.2.1 ?_
  cases word with
  | nil => obtain h | h | h := h <;> cases h
  | cons first word =>
      rw [isFixed_cons] at h
      rw [List.cons_append, isFixed_cons]
      refine h.imp_right fun hdrive => ⟨hdrive.1, ?_⟩
      rw [List.head?_append, hdrive.2]
      rfl

/-- The characters of a requirement leave only its end to take it for a path. -/
theorem relativeToken_requirement {word : PyStr} (h : IsRequirement word) :
    RelativeToken word ↔ IsDistribution word := by
  obtain ⟨hfirst, hchars⟩ := h
  have habsent : ∀ c, isRequirementChar c = false → c ∉ word := by
    intro c hc hmem
    rw [hchars c hmem] at hc
    cases hc
  have hcolon : 0x3a ∉ word := habsent _ (by decide)
  have hslash : 0x2f ∉ word := habsent _ (by decide)
  have hback : BACKSLASH ∉ word := habsent _ (by decide)
  have hstart : ∀ c, isAlphanumeric c = false → word.head? ≠ some c := by
    intro c hc hhead
    rw [hhead, Option.any_some, hc] at hfirst
    cases hfirst
  constructor
  · intro hrelative
    obtain hseparator | hdot | hdots | hdistribution := hrelative.2.2.2
    · exact absurd hseparator (not_or.mpr ⟨hslash, hback⟩)
    · exact absurd (by rw [hdot]; rfl) (hstart 0x2e (by decide))
    · exact absurd (by rw [hdots]; rfl) (hstart 0x2e (by decide))
    · exact hdistribution
  · intro hdistribution
    refine ⟨fun hscheme => hcolon (hscheme.subset (by decide)),
      fun hfile => hcolon (colon_of_mem_asciiLower (hfile.subset (by decide))), ?_,
      Or.inr (Or.inr (Or.inr hdistribution))⟩
    cases word with
    | nil => cases hfirst
    | cons first word =>
        rw [isFixed_cons]
        intro hfixed
        cases hfixed with
        | inl hroot =>
            have hnone : ∀ c ∈ py "/\\~$", isAlphanumeric c = false := by decide
            exact hstart first (hnone first hroot) rfl
        | inr hdrive => exact hcolon (List.mem_cons_of_mem _ (List.mem_of_head? hdrive.2))

/-! ## Re-anchored values -/

theorem resolve_absolute {directory : PyStr} (h : IsAbsolute directory) (path cwd : PyStr) :
    resolve cwd (directory ++ 0x2f :: path) = directory ++ 0x2f :: path := by
  refine if_pos ?_
  cases directory with
  | nil => cases h
  | cons first directory =>
      obtain hslash | hback | hdrive := h
      · exact Or.inl hslash
      · exact Or.inr (Or.inl hback)
      · refine Or.inr (Or.inr ⟨hdrive.1, ?_⟩)
        show (directory ++ 0x2f :: path).head? = some 0x3a
        rw [List.head?_append, hdrive.2]
        rfl

namespace WithValue

variable {v : WithValue}

theorem relativeToken_iff (h : IsRelativePath v.word) :
    RelativeToken v.token ↔
      ¬py "://" <:+: v.word ∧ (v.extras = [] ∨ HasSeparator v.word) := by
  obtain ⟨hurl, hfixed, hshape⟩ := h
  have hfile : ¬py "file:" <+: asciiLower v.word := fun hfile => hurl (Or.inr hfile)
  obtain hnil | ⟨body, hbody, hchars⟩ := v.bracketed
  · rw [token, hnil, List.append_nil, RelativeToken]
    tauto
  · have hextras : v.extras ≠ [] := by
      rw [hbody]
      exact List.cons_ne_nil _ _
    rw [token, hbody, relativeToken_extras v.word_ne hchars, ← hbody]
    tauto

/-- A path stands at the head of the location when nothing stands in front of it
that the packer leaves there. -/
theorem location_begins_iff :
    v.word <+: v.location ↔ ∀ lead, v.head = .bare lead → lead.1 = [] := by
  obtain ⟨first, word, hword⟩ := List.exists_cons_of_ne_nil v.word_ne
  constructor
  · intro hbegins lead hlead
    rw [location, hlead, hword] at hbegins
    replace hbegins : first :: word <+: lead.1 ++ (v.token ++ v.tail) := hbegins
    cases hcase : lead.1 with
    | nil => rfl
    | cons c lead' =>
        rw [hcase] at hbegins
        obtain ⟨rfl, -⟩ := List.cons_prefix_cons.mp hbegins
        have hspace := lead.2 first (by rw [hcase]; exact List.mem_cons_self)
        have hends := v.word_chars first (by rw [hword]; exact List.mem_cons_self)
        rw [endsWord_of_isSpace hspace] at hends
        cases hends
  · intro hlead
    have htoken : v.word <+: v.token ++ v.tail :=
      (List.prefix_append v.word v.extras).trans (List.prefix_append _ _)
    rw [location]
    split
    · rename_i lead h
      rw [hlead lead h]
      exact htoken
    · exact htoken

theorem reanchors_iff (h : IsRelativePath v.word) :
    Reanchors v ↔ (∀ lead, v.head = .bare lead → lead.1 = []) ∧
      ¬py "://" <:+: v.word ∧ (v.extras = [] ∨ HasSeparator v.word) := by
  constructor
  · intro hreanchors
    obtain ⟨head, location, hsplit, -, hbegins, -⟩ := hreanchors
    obtain ⟨hrelative, hparts⟩ := (v.split_iff _).mp hsplit
    cases hparts
    exact ⟨location_begins_iff.mp hbegins, (relativeToken_iff h).mp hrelative⟩
  · intro hcondition
    obtain ⟨hlead, htoken⟩ := hcondition
    have hrelative := (relativeToken_iff h).mpr htoken
    refine ⟨v.taken, v.location, (v.split_iff _).mpr ⟨hrelative, rfl⟩, v.taken_append_location,
      location_begins_iff.mpr hlead, ?_⟩
    intro directory hdirectory
    have hresolve : resolve directory v.word = directory ++ 0x2f :: v.word :=
      if_neg fun habsolute => h.2.1 (Or.inl habsolute)
    have hparts : v.taken = v.head.text ∧ v.location = v.word ++ v.extras ++ v.tail := by
      rw [taken, location]
      cases hhead : v.head with
      | bare lead =>
          have hnil : lead.1 = [] := hlead lead hhead
          refine ⟨hnil.symm, ?_⟩
          show lead.1 ++ (v.token ++ v.tail) = v.word ++ v.extras ++ v.tail
          rw [hnil]
          rfl
      | named reference => exact ⟨rfl, rfl⟩
    rw [hresolve]
    refine ⟨?_, fun cwd => resolve_absolute hdirectory v.word cwd⟩
    rw [hparts.1, hparts.2]
    simp

end WithValue

/-- A relative path is re-anchored as the file it names just when a bare one
begins its value, no `://` is in it and only a path with a separator has extras
behind it. A URL, an absolute or home path and a word without a path's shape
stay; a requirement stays unless its first word ends like a distribution. -/
theorem relative_values_reanchored_iff (v : WithValue) :
    (IsRelativePath v.word →
      (Reanchors v ↔ (∀ lead, v.head = .bare lead → lead.1 = []) ∧
        ¬py "://" <:+: v.word ∧ (v.extras = [] ∨ HasSeparator v.word))) ∧
    (IsUrl v.word ∨ IsFixed v.word → split_relative_requirement v.text = none) ∧
    (v.extras = [] → ¬HasPathShape v.word → split_relative_requirement v.text = none) ∧
    (v.extras = [] → IsRequirement v.word →
      (split_relative_requirement v.text = none ↔ ¬IsDistribution v.word)) := by
  refine ⟨WithValue.reanchors_iff, ?_, ?_, ?_⟩
  · intro hfixed
    rw [v.split_eq_none_iff]
    cases hfixed with
    | inl hurl => exact not_relativeToken_url hurl v.extras
    | inr hfixed => exact not_relativeToken_fixed hfixed v.extras
  · intro hextras hshape
    rw [v.split_eq_none_iff, WithValue.token, hextras, List.append_nil]
    exact fun hrelative => hshape hrelative.2.2.2
  · intro hextras hrequirement
    rw [v.split_eq_none_iff, WithValue.token, hextras, List.append_nil,
      relativeToken_requirement hrequirement]

def noGap : Gap := ⟨[], fun _ hc => absurd hc List.not_mem_nil⟩

def oneBlank : Gap := ⟨[0x20], by decide⟩

/-- `tool @ ` -/
def toolReference : Reference where
  lead := noGap
  name := py "tool"
  name_chars := by decide
  name_ends := by decide
  gap := oneBlank
  extras := none
  behind := noGap
  last := oneBlank

/-- A word behind `tool @ `. -/
def namedWord (word : PyStr) (hne : word ≠ []) (hchars : ∀ c ∈ word, endsWord c = false) :
    WithValue where
  head := .named toolReference
  word := word
  extras := []
  tail := []
  word_ne := hne
  word_chars := hchars
  bracketed := Or.inl rfl
  unnamed_extras := fun _ _ => rfl
  tail_stops := fun _ h => nomatch h
  unnamed := fun _ h => nomatch h

/-- A word behind blanks. -/
def bareWord (lead : Gap) (word : PyStr) (hne : word ≠ [])
    (hchars : ∀ c ∈ word, endsWord c = false)
    (hnone : after_named_reference (lead.1 ++ (word ++ [] ++ [])) = none) : WithValue where
  head := .bare lead
  word := word
  extras := []
  tail := []
  word_ne := hne
  word_chars := hchars
  bracketed := Or.inl rfl
  unnamed_extras := fun _ h => nomatch h
  tail_stops := fun _ h => nomatch h
  unnamed := by
    intro lead' hlead
    cases hlead
    exact unnamed_of_none hnone

theorem relative_values_reanchored_iff_tool :
    Reanchors (namedWord (py "../tool") (by decide) (by decide)) ∧
    split_relative_requirement (py "tool @ https://host/tool.whl") = none ∧
    split_relative_requirement (py "tool @ wheels") = none ∧
    split_relative_requirement (py "rich>=13") = none :=
  ⟨((relative_values_reanchored_iff (namedWord (py "../tool") (by decide) (by decide))).1
      (by decide)).mpr ⟨fun _ h => (nomatch h), by decide, Or.inl rfl⟩,
    (relative_values_reanchored_iff
      (namedWord (py "https://host/tool.whl") (by decide) (by decide))).2.1 (by decide),
    (relative_values_reanchored_iff
      (namedWord (py "wheels") (by decide) (by decide))).2.2.1 rfl (by decide),
    ((relative_values_reanchored_iff
      (bareWord noGap (py "rich>=13") (by decide) (by decide) (by decide))).2.2.2 rfl
        (by decide)).mpr (by decide)⟩

/-- ` ./x.whl` names a file of the working directory, but the caller's directory
goes in front of the blank; and `tool==1.0+x.zip` is no path. -/
theorem blank_stays_in_front_of_path :
    IsRelativePath (py "./x.whl") ∧
    (bareWord oneBlank (py "./x.whl") (by decide) (by decide) (by decide)).text = py " ./x.whl" ∧
    split_relative_requirement (py " ./x.whl") = some ([], py " ./x.whl") ∧
    anchor (py "/home/me/") (py "--with") (py " ./x.whl") = py "/home/me/ ./x.whl" ∧
    ¬Reanchors (bareWord oneBlank (py "./x.whl") (by decide) (by decide) (by decide)) ∧
    IsRequirement (py "tool==1.0+x.zip") ∧
    split_relative_requirement (py "tool==1.0+x.zip") = some ([], py "tool==1.0+x.zip") := by
  refine ⟨by decide, by decide, by decide, by decide, ?_, by decide, by decide⟩
  intro hreanchors
  have hlead := ((WithValue.reanchors_iff (by decide)).mp hreanchors).1 oneBlank rfl
  cases hlead

end PwshPy.Packing
