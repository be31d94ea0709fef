import PwshPy.Native.UserDirs

/-! # The grammar of `user-dirs.dirs` lines

The cursor is followed through what stands behind it. It accepts the lines of a grammar and stays
inside the line, and its first length guard decides nothing.
-/

namespace PwshPy.UserDirs

variable {separator : Nat → Bool}

/-! ## The cursor and what stands behind it -/

/-- The position of what ends a line. -/
def at_end (line rest : PyStr) : Nat := line.length - rest.length

theorem drop_at_end {line rest : PyStr} (h : rest <:+ line) : line.drop (at_end line rest) = rest :=
  (List.suffix_iff_eq_drop.mp h).symm

theorem at_end_length {line rest : PyStr} (h : rest <:+ line) :
    at_end line rest + rest.length = line.length := by
  have hlength := h.length_le
  rw [at_end]
  omega

theorem at_end_append {line first rest : PyStr} (h : first ++ rest <:+ line) :
    at_end line (first ++ rest) + first.length = at_end line rest := by
  have hlength := h.length_le
  rw [List.length_append] at hlength
  rw [at_end, at_end, List.length_append]
  omega

theorem suffix_of_append {line first rest : PyStr} (h : first ++ rest <:+ line) : rest <:+ line :=
  (List.suffix_append first rest).trans h

theorem char_at_end {line rest : PyStr} {char : Nat} (h : char :: rest <:+ line) :
    char_at line (at_end line (char :: rest)) = .ok char := by
  have hchar : (line)[at_end line (char :: rest)]? = some char := by
    rw [← List.head?_drop, drop_at_end h, List.head?_cons]
  rw [char_at, hchar]

theorem skip_run_eq (pos : Nat) (rest : PyStr) : skip_run separator pos rest =
    pos + (rest.takeWhile (is_dotnet_whitespace separator)).length := by
  induction rest generalizing pos with
  | nil => rfl
  | cons char rest ih =>
      rw [skip_run]
      by_cases h : is_dotnet_whitespace separator char = true
      · rw [if_pos h, ih, List.takeWhile_cons_of_pos h, List.length_cons]
        omega
      · rw [if_neg h, List.takeWhile_cons_of_neg h, List.length_nil, Nat.add_zero]

theorem skip_at_end {line rest : PyStr} (h : rest <:+ line) :
    skip_whitespace separator line (at_end line rest) =
      at_end line (rest.dropWhile (is_dotnet_whitespace separator)) := by
  rw [skip_whitespace, drop_at_end h, skip_run_eq]
  rw [← List.takeWhile_append_dropWhile (p := is_dotnet_whitespace separator) (l := rest)] at h
  have hmoved := at_end_append h
  rwa [List.takeWhile_append_dropWhile] at hmoved

theorem startswith_at_end {line rest : PyStr} (h : rest <:+ line) (start : PyStr) :
    startswith line start (at_end line rest) = start.isPrefixOf rest := by
  rw [startswith, drop_at_end h]

/-- A guard that asks how much of the line is left. -/
def Asks (guard : PyStr → Nat → Bool) (least : Nat) : Prop :=
  ∀ line rest : PyStr, rest <:+ line → guard line (at_end line rest) = decide (rest.length ≤ least)

theorem asks_nearer (margin : Nat) : Asks (nearer margin) margin := by
  intro line rest h
  have hlength := at_end_length h
  rw [nearer, decide_eq_decide]
  omega

theorem asks_outside : Asks outside 0 := by
  intro line rest h
  have hlength := at_end_length h
  rw [outside, decide_eq_decide]
  omega

/-! ## The start of the value -/

/-- What stands behind a mark that begins a text of more than `least` characters. -/
def behind (least mark : Nat) (text : PyStr) : Option PyStr :=
  match text with
  | [] => none
  | char :: rest => if text.length ≤ least ∨ char ≠ mark then none else some rest

theorem past_at_end {guard : PyStr → Nat → Bool} {least : Nat} (hguard : Asks guard least)
    {line text : PyStr} (h : text <:+ line) (mark : Nat) :
    past line (guard line (at_end line text)) mark (at_end line text) =
      .ok ((behind least mark text).map (at_end line)) := by
  rw [past, hguard line text h]
  cases text with
  | nil => rfl
  | cons char rest =>
      rw [behind]
      by_cases hshort : (char :: rest).length ≤ least
      · rw [if_pos (Or.inl hshort), decide_eq_true hshort]
        rfl
      · rw [decide_eq_false hshort, char_at_end h]
        by_cases hmark : char = mark
        · have hline : [char] ++ rest <:+ line := h
          have hstep : at_end line (char :: rest) + 1 = at_end line rest := at_end_append hline
          rw [if_neg (not_or.mpr ⟨hshort, not_not.mpr hmark⟩), Option.map_some, ← hstep]
          simp [hmark, pure, Except.pure, Bind.bind, Except.bind]
        · rw [if_pos (Or.inr hmark)]
          simp [hmark, pure, Except.pure, Bind.bind, Except.bind]

/-- What stands behind the opening quote. -/
def found (separator : Nat → Bool) (least : Nat) (line key : PyStr) : Option PyStr :=
  let start := line.dropWhile (is_dotnet_whitespace separator)
  if key.isPrefixOf start then do
    let value ← behind least EQUALS
      ((start.drop key.length).dropWhile (is_dotnet_whitespace separator))
    behind 3 QUOTE (value.dropWhile (is_dotnet_whitespace separator))
  else none

theorem suffix_of_behind {least mark : Nat} {text rest : PyStr}
    (h : behind least mark text = some rest) : rest <:+ text := by
  cases text with
  | nil => cases h
  | cons char text =>
      rw [behind] at h
      split at h
      · cases h
      · cases h
        exact List.suffix_cons _ _

theorem value_start_by_eq {guard : PyStr → Nat → Bool} {least : Nat} (hguard : Asks guard least)
    (line key : PyStr) : value_start_by separator guard line key =
      .ok ((found separator least line key).map (at_end line)) := by
  have hstart : line.dropWhile (is_dotnet_whitespace separator) <:+ line := List.dropWhile_suffix _
  have hfirst : skip_whitespace separator line 0 =
      at_end line (line.dropWhile (is_dotnet_whitespace separator)) := by
    rw [← skip_at_end List.suffix_rfl, at_end, Nat.sub_self]
  rw [value_start_by, found]
  simp only [hfirst, startswith_at_end hstart]
  cases hkey : key.isPrefixOf (line.dropWhile (is_dotnet_whitespace separator)) with
  | false => rfl
  | true =>
      obtain ⟨text, htext⟩ := List.isPrefixOf_iff_prefix.mp hkey
      rw [← htext] at hstart ⊢
      have hbehind := suffix_of_append hstart
      have hequals : text.dropWhile (is_dotnet_whitespace separator) <:+ line :=
        (List.dropWhile_suffix _).trans hbehind
      simp only [at_end_append hstart, skip_at_end hbehind, List.drop_left, if_true,
        Bool.true_eq_false, if_false, past_at_end hguard hequals]
      cases hvalue : behind least EQUALS (text.dropWhile (is_dotnet_whitespace separator)) with
      | none => rfl
      | some value =>
          have hquote : value <:+ line := (suffix_of_behind hvalue).trans hequals
          have hlast : value.dropWhile (is_dotnet_whitespace separator) <:+ line :=
            (List.dropWhile_suffix _).trans hquote
          show past line (nearer 3 line (skip_whitespace separator line (at_end line value))) QUOTE
            (skip_whitespace separator line (at_end line value)) = _
          rw [skip_at_end hquote, past_at_end (asks_nearer 3) hlast]
          rfl

/-! ## The value -/

/-- The text before the first quote. -/
def before_quote (text : PyStr) : PyStr := text.takeWhile (· != QUOTE)

/-- What is made of the text behind the opening quote. -/
def value_of (home rest : PyStr) : Option PyStr :=
  if HOME_PREFIX.isPrefixOf rest then
    let text := rest.drop HOME_PREFIX.length
    if QUOTE ∈ text ∧ before_quote text ≠ [] then some (join home (before_quote text)) else none
  else if rest.head? = some SLASH ∧ QUOTE ∈ rest then some (before_quote rest)
  else none

theorem idxOf?_quote {text : PyStr} (h : QUOTE ∈ text) :
    text.idxOf? QUOTE = some (before_quote text).length := by
  induction text with
  | nil => cases h
  | cons char rest ih =>
      rw [List.idxOf?_cons, before_quote]
      by_cases hchar : char = QUOTE
      · simp [hchar]
      · have hrest : QUOTE ∈ rest := List.mem_of_ne_of_mem (Ne.symm hchar) h
        rw [ih hrest]
        simp [hchar, before_quote]

theorem find_at_end {line text : PyStr} (h : text <:+ line) :
    find line QUOTE (at_end line text) =
      if QUOTE ∈ text then ((at_end line text + (before_quote text).length : Nat) : Int) else -1 := by
  rw [find, drop_at_end h]
  by_cases hmem : QUOTE ∈ text
  · rw [if_pos hmem, idxOf?_quote hmem]
    exact (Int.natCast_add _ _).symm
  · rw [if_neg hmem, List.idxOf?_eq_none_iff.mpr hmem]

theorem slice_at_end {line text : PyStr} (h : text <:+ line) (length : Nat) :
    slice line (at_end line text) (at_end line text + length) = text.take length := by
  rw [slice, List.drop_take, drop_at_end h, Nat.add_sub_cancel_left]

theorem take_before_quote (text : PyStr) : text.take (before_quote text).length = before_quote text :=
  (List.prefix_iff_eq_take.mp (List.takeWhile_prefix _)).symm

/-- The end of the reader, from the first character of the value on. -/
theorem quoted_at_end {line text : PyStr} (h : text <:+ line) (made : PyStr → PyStr) :
    quoted line (at_end line text) made =
      if QUOTE ∈ text ∧ before_quote text ≠ [] then some (made (before_quote text)) else none := by
  rw [quoted, find_at_end h]
  by_cases hmem : QUOTE ∈ text
  · rw [if_pos hmem]
    by_cases hempty : before_quote text = []
    · rw [hempty, if_pos (by simp), if_neg fun both => both.2 rfl]
    · have hlength : 0 < (before_quote text).length := List.length_pos_iff.mpr hempty
      rw [if_neg (by omega), if_pos ⟨hmem, hempty⟩, Int.toNat_natCast, slice_at_end h,
        take_before_quote]
  · rw [if_neg hmem, if_pos (by omega), if_neg fun both => hmem both.1]

theorem behind_eq_some {least mark : Nat} {text rest : PyStr} :
    behind least mark text = some rest ↔ text = mark :: rest ∧ least ≤ rest.length := by
  cases text with
  | nil => simp [behind]
  | cons char text =>
      rw [behind]
      constructor
      · intro h
        split at h
        · cases h
        · rename_i hboth
          cases h
          rw [not_or, not_not, List.length_cons] at hboth
          exact ⟨by rw [hboth.2], by omega⟩
      · intro h
        obtain ⟨heq, hlength⟩ := h
        cases heq
        rw [if_neg]
        rw [not_or, not_not, List.length_cons]
        exact ⟨by omega, rfl⟩

theorem length_of_found {least : Nat} {line key rest : PyStr}
    (h : found separator least line key = some rest) : 3 ≤ rest.length := by
  rw [found] at h
  split at h
  · obtain ⟨value, -, hrest⟩ := Option.bind_eq_some_iff.mp h
    exact (behind_eq_some.mp hrest).2
  · cases h

theorem suffix_of_found {least : Nat} {line key rest : PyStr}
    (h : found separator least line key = some rest) : rest <:+ line := by
  rw [found] at h
  split at h
  · obtain ⟨value, hvalue, hrest⟩ := Option.bind_eq_some_iff.mp h
    have hlast := (suffix_of_behind hrest).trans (List.dropWhile_suffix _)
    have hfirst := (suffix_of_behind hvalue).trans (List.dropWhile_suffix _)
    exact (hlast.trans hfirst).trans ((List.drop_suffix _ _).trans (List.dropWhile_suffix _))
  · cases h

/-- The cursor reads what stands behind the opening quote. -/
theorem user_dirs_value_by_eq {guard : PyStr → Nat → Bool} {least : Nat} (hguard : Asks guard least)
    (line home key : PyStr) : user_dirs_value_by separator guard line home key =
      .ok ((found separator least line key).bind (value_of home)) := by
  rw [user_dirs_value_by, value_start_by_eq hguard]
  cases hfound : found separator least line key with
  | none => rfl
  | some rest =>
      have hrest := suffix_of_found hfound
      have hlength := length_of_found hfound
      show (if startswith line HOME_PREFIX (at_end line rest) then _ else _ :
        Except Raised (Option PyStr)) = .ok (value_of home rest)
      rw [startswith_at_end hrest, value_of]
      cases hhome : HOME_PREFIX.isPrefixOf rest with
      | true =>
          obtain ⟨text, rfl⟩ := List.isPrefixOf_iff_prefix.mp hhome
          rw [at_end_append hrest, quoted_at_end (suffix_of_append hrest), List.drop_left]
          rfl
      | false =>
          cases rest with
          | nil => cases hlength
          | cons char rest =>
              rw [char_at_end hrest]
              by_cases hchar : char = SLASH
              · have hvalue : before_quote (char :: rest) ≠ [] := by
                  rw [hchar, before_quote, List.takeWhile_cons_of_pos (by decide)]
                  exact List.cons_ne_nil _ _
                rw [quoted_at_end hrest]
                simp [hchar, hchar ▸ hvalue, pure, Except.pure, Bind.bind, Except.bind]
              · simp [hchar, pure, Except.pure, Bind.bind, Except.bind]

/-! ## The grammar -/

/-- `ws* key ws* = ws* " rest` -/
structure Line (separator : Nat → Bool) (key line rest : PyStr) (lead middle gap : PyStr) :
    Prop where
  text : line = lead ++ (key ++ (middle ++ EQUALS :: (gap ++ QUOTE :: rest)))
  lead_blank : ∀ char ∈ lead, is_dotnet_whitespace separator char = true
  middle_blank : ∀ char ∈ middle, is_dotnet_whitespace separator char = true
  gap_blank : ∀ char ∈ gap, is_dotnet_whitespace separator char = true

/-- The text of the value and what it stands for. -/
inductive Value (home text : PyStr) : PyStr → Prop
  | absolute : text.head? = some SLASH → Value home text text
  | relative {under : PyStr} : text = HOME_PREFIX ++ under → under ≠ [] →
      Value home text (join home under)

/-- A line of the grammar, with its value. -/
def Accepts (separator : Nat → Bool) (line home key value : PyStr) : Prop :=
  ∃ lead middle gap rest, Line separator key line rest lead middle gap ∧ 3 ≤ rest.length ∧
    QUOTE ∈ rest ∧ Value home (before_quote rest) value

theorem found_eq_some {least : Nat} (hleast : least ≤ 4) {line key rest : PyStr}
    (hkey : ∃ char more, key = char :: more ∧ is_dotnet_whitespace separator char = false) :
    found separator least line key = some rest ↔
      (∃ lead middle gap, Line separator key line rest lead middle gap) ∧ 3 ≤ rest.length := by
  constructor
  · intro h
    refine ⟨?_, length_of_found h⟩
    rw [found] at h
    split at h
    · rename_i hlead
      obtain ⟨text, htext⟩ := List.isPrefixOf_iff_prefix.mp hlead
      rw [← htext, List.drop_left] at h
      obtain ⟨value, hvalue, hrest⟩ := Option.bind_eq_some_iff.mp h
      have hequals := (behind_eq_some.mp hvalue).1
      have hquote := (behind_eq_some.mp hrest).1
      refine ⟨line.takeWhile (is_dotnet_whitespace separator),
        text.takeWhile (is_dotnet_whitespace separator),
        value.takeWhile (is_dotnet_whitespace separator), ?_, fun _ => List.mem_takeWhile_imp,
        fun _ => List.mem_takeWhile_imp, fun _ => List.mem_takeWhile_imp⟩
      rw [← hquote, List.takeWhile_append_dropWhile, ← hequals, List.takeWhile_append_dropWhile,
        htext, List.takeWhile_append_dropWhile]
    · cases h
  · intro h
    obtain ⟨⟨lead, middle, gap, hline⟩, hlength⟩ := h
    obtain ⟨char, more, hkey, hchar⟩ := hkey
    have hstart : line.dropWhile (is_dotnet_whitespace separator) =
        key ++ (middle ++ EQUALS :: (gap ++ QUOTE :: rest)) := by
      rw [hline.text]
      refine Runs.dropWhile_run hline.lead_blank ?_
      rw [hkey]
      exact Runs.stops_cons.mpr hchar
    have hlead : key.isPrefixOf (key ++ (middle ++ EQUALS :: (gap ++ QUOTE :: rest))) = true :=
      List.isPrefixOf_iff_prefix.mpr (List.prefix_append _ _)
    have hequals : behind least EQUALS (EQUALS :: (gap ++ QUOTE :: rest)) =
        some (gap ++ QUOTE :: rest) := by
      refine behind_eq_some.mpr ⟨rfl, ?_⟩
      rw [List.length_append, List.length_cons]
      omega
    rw [found, hstart]
    simp only [hlead, if_true, List.drop_left]
    rw [Runs.dropWhile_run hline.middle_blank (Runs.stops_cons.mpr rfl), hequals]
    show behind 3 QUOTE ((gap ++ QUOTE :: rest).dropWhile _) = some rest
    rw [Runs.dropWhile_run hline.gap_blank (Runs.stops_cons.mpr rfl)]
    exact behind_eq_some.mpr ⟨rfl, hlength⟩

theorem before_quote_append {first : PyStr} (hfirst : QUOTE ∉ first) (text : PyStr) :
    before_quote (first ++ text) = first ++ before_quote text := by
  refine List.takeWhile_append_of_pos fun char hchar => ?_
  rw [bne_iff_ne]
  intro heq
  exact hfirst (heq ▸ hchar)

theorem quote_not_mem_home_prefix : QUOTE ∉ HOME_PREFIX := by decide

theorem head_before_quote {text : PyStr} :
    (before_quote text).head? = some SLASH ↔ text.head? = some SLASH := by
  cases text with
  | nil => rfl
  | cons char text =>
      rw [before_quote]
      by_cases h : char = QUOTE
      · subst h
        simp [QUOTE, SLASH]
      · simp [h]

theorem value_of_eq_some {home rest value : PyStr} : value_of home rest = some value ↔
    QUOTE ∈ rest ∧ Value home (before_quote rest) value := by
  rw [value_of]
  cases hhome : HOME_PREFIX.isPrefixOf rest with
  | true =>
      obtain ⟨text, rfl⟩ := List.isPrefixOf_iff_prefix.mp hhome
      have hmem : QUOTE ∈ HOME_PREFIX ++ text ↔ QUOTE ∈ text := by
        rw [List.mem_append, or_iff_right quote_not_mem_home_prefix]
      rw [if_pos rfl, List.drop_left, hmem, before_quote_append quote_not_mem_home_prefix]
      constructor
      · intro h
        obtain ⟨⟨hquote, hne⟩, hmade⟩ := Option.ite_none_right_eq_some.mp h
        cases hmade
        exact ⟨hquote, .relative rfl hne⟩
      · intro h
        obtain ⟨hquote, hvalue⟩ := h
        cases hvalue with
        | absolute hhead => exact absurd (Option.some.inj hhead) (by decide)
        | relative hunder hne =>
            have hsame := List.append_cancel_left hunder
            subst hsame
            exact if_pos ⟨hquote, hne⟩
  | false =>
      rw [if_neg Bool.false_ne_true]
      constructor
      · intro h
        obtain ⟨⟨hhead, hquote⟩, hmade⟩ := Option.ite_none_right_eq_some.mp h
        cases hmade
        exact ⟨hquote, .absolute (head_before_quote.mpr hhead)⟩
      · intro h
        obtain ⟨hquote, hvalue⟩ := h
        cases hvalue with
        | absolute hhead => rw [if_pos ⟨head_before_quote.mp hhead, hquote⟩]
        | relative hunder _ =>
            have hlead : HOME_PREFIX <+: rest :=
              (hunder ▸ List.prefix_append _ _ : HOME_PREFIX <+: before_quote rest).trans
                (List.takeWhile_prefix _)
            rw [List.isPrefixOf_iff_prefix.mpr hlead] at hhome
            cases hhome

/-- The reader returns the value of each line of its grammar, `None` for every other line, and never
indexes outside the line; with its first guard only a range test it returns the same. -/
theorem user_dirs_value_spec (home : PyStr) {key : PyStr}
    (hkey : ∃ char more, key = char :: more ∧ is_dotnet_whitespace separator char = false)
    (line : PyStr) :
    (∃ result, user_dirs_value separator line home key = .ok result) ∧
      (∀ value, user_dirs_value separator line home key = .ok (some value) ↔
        Accepts separator line home key value) ∧
      user_dirs_value_by separator outside line home key = user_dirs_value separator line home key := by
  have hvalue : user_dirs_value separator line home key =
      .ok ((found separator 4 line key).bind (value_of home)) :=
    user_dirs_value_by_eq (asks_nearer 4) line home key
  refine ⟨⟨_, hvalue⟩, ?_, ?_⟩
  · intro value
    rw [hvalue, Except.ok.injEq, Option.bind_eq_some_iff]
    simp only [found_eq_some (le_refl 4) hkey, value_of_eq_some]
    constructor
    · intro h
      obtain ⟨rest, ⟨⟨lead, middle, gap, hline⟩, hlength⟩, hquote, htext⟩ := h
      exact ⟨lead, middle, gap, rest, hline, hlength, hquote, htext⟩
    · intro h
      obtain ⟨lead, middle, gap, rest, hline, hlength, hquote, htext⟩ := h
      exact ⟨rest, ⟨⟨lead, middle, gap, hline⟩, hlength⟩, hquote, htext⟩
  · have hsame : found separator 0 line key = found separator 4 line key := by
      ext rest
      rw [found_eq_some (Nat.zero_le 4) hkey, found_eq_some (le_refl 4) hkey]
    rw [hvalue, user_dirs_value_by_eq asks_outside, hsame]

theorem user_dirs_value_spec_desktop :
    user_dirs_value_by (fun _ => false) outside (py "XDG_DESKTOP_DIR=\"$HOME/Desk\"") (py "/h")
        (py "XDG_DESKTOP_DIR") =
      user_dirs_value (fun _ => false) (py "XDG_DESKTOP_DIR=\"$HOME/Desk\"") (py "/h")
        (py "XDG_DESKTOP_DIR") :=
  (user_dirs_value_spec (py "/h") ⟨0x58, _, rfl, rfl⟩ _).2.2

end PwshPy.UserDirs
