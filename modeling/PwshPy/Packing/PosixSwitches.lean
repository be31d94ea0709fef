import PwshPy.Packing.UvArgs
import PwshPy.Shell.Fields

/-! # The wrapper switches of the `.sh`

The runner takes its own switches off the front of its arguments, up to the
first argument that is none or a `--`. A relaunch under `sudo` is given the ones
that are passed on, the pin, a `--` and the script's own arguments.
-/

namespace PwshPy.Packing.Posix

open Shell (fields isFieldSpace fields_append)

/-! ## The loop -/

/-- The switches that take no value and do not end the run. -/
inductive Flag where
  | info
  | clean
  | no_install_uv
  | elevate
  deriving DecidableEq

def Flag.name : Flag → PyStr
  | info => py "--pwshpy-info"
  | clean => py "--pwshpy-clean"
  | no_install_uv => py "--pwshpy-no-install-uv"
  | elevate => py "--pwshpy-elevate"

def HELP : PyStr := py "--pwshpy-help"
def UV : PyStr := py "--pwshpy-uv"
def DASHES : PyStr := py "--"

structure Settings where
  clean : Bool
  no_install_uv : Bool
  want_elevate : Bool
  info : Bool
  uv_pin : PyStr
  fwd : PyStr

def Settings.start : Settings where
  clean := false
  no_install_uv := false
  want_elevate := false
  info := false
  uv_pin := []
  fwd := []

inductive Outcome where
  /-- `pwshpy_show_help`, exit 0 -/
  | help
  /-- `pwshpy_die` -/
  | died (text : PyStr) (code : Nat)
  /-- the loop has ended, the script's arguments are left -/
  | go (s : Settings) (script : List PyStr)

/-- The case of a switch without a value. -/
def Settings.set (s : Settings) : Flag → Settings
  | .info => { s with info := true }
  | .clean => { s with clean := true, fwd := s.fwd ++ py " --pwshpy-clean" }
  | .no_install_uv =>
      { s with no_install_uv := true, fwd := s.fwd ++ py " --pwshpy-no-install-uv" }
  | .elevate => { s with want_elevate := true }

def split_switches (s : Settings) : List PyStr → Outcome
  | [] => .go s []
  | arg :: rest =>
      if arg = HELP then .help
      else if arg = Flag.info.name then split_switches (s.set .info) rest
      else if arg = Flag.clean.name then split_switches (s.set .clean) rest
      else if arg = Flag.no_install_uv.name then split_switches (s.set .no_install_uv) rest
      else if arg = Flag.elevate.name then split_switches (s.set .elevate) rest
      else if arg = UV then
        match rest with
        | [] => .died (py "--pwshpy-uv needs the absolute path of a uv executable") 64
        | value :: later =>
            if value.head? = some 0x2f then split_switches { s with uv_pin := value } later
            else .died (py "--pwshpy-uv needs an absolute path, got: " ++ value) 64
      else if arg = DASHES then .go s rest
      else .go s (arg :: rest)

/-! ## The relaunch -/

/-- What follows `sudo -n /bin/sh "$0"`. -/
def relaunch_args (s : Settings) (script : List PyStr) : List PyStr :=
  fields isFieldSpace s.fwd ++ ((if s.uv_pin ≠ [] then [UV, s.uv_pin] else []) ++ DASHES :: script)

/-! ## Leading switches -/

inductive Item where
  | flag (f : Flag)
  | pin (path : PyStr)
  deriving DecidableEq

def Item.words : Item → List PyStr
  | flag f => [f.name]
  | pin path => [UV, path]

def Item.apply (s : Settings) : Item → Settings
  | flag f => s.set f
  | pin path => { s with uv_pin := path }

/-- A pin is an absolute path. -/
def Item.Valid : Item → Prop
  | flag _ => True
  | pin path => path.head? = some 0x2f

/-- The argument is read as a wrapper switch. -/
def isSwitch (arg : PyStr) : Bool :=
  arg == HELP || arg == UV || arg == Flag.info.name || arg == Flag.clean.name ||
    arg == Flag.no_install_uv.name || arg == Flag.elevate.name

/-- How the leading switches end: with the arguments, at a `--` or in front of
the first argument that is no switch. -/
inductive Ends : List PyStr → List PyStr → Prop where
  | nil : Ends [] []
  | dashes (script : List PyStr) : Ends (DASHES :: script) script
  | argument {arg : PyStr} (rest : List PyStr) : isSwitch arg = false → arg ≠ DASHES →
      Ends (arg :: rest) (arg :: rest)

section

variable {s : Settings} {tail script : List PyStr}

theorem split_flag (f : Flag) (rest : List PyStr) :
    split_switches s (f.name :: rest) = split_switches (s.set f) rest := by
  rw [split_switches.eq_def]
  cases f <;> rfl

theorem split_pin {path : PyStr} (h : path.head? = some 0x2f) (rest : List PyStr) :
    split_switches s (UV :: path :: rest) = split_switches { s with uv_pin := path } rest := by
  rw [split_switches.eq_def]
  exact if_pos h

theorem split_relative_pin {path : PyStr} (h : ¬path.head? = some 0x2f) (rest : List PyStr) :
    split_switches s (UV :: path :: rest) =
      .died (py "--pwshpy-uv needs an absolute path, got: " ++ path) 64 := by
  rw [split_switches.eq_def]
  exact if_neg h

theorem split_ends (h : Ends tail script) : split_switches s tail = .go s script := by
  cases h with
  | nil => rfl
  | dashes script =>
      rw [split_switches.eq_def]
      rfl
  | argument rest hswitch hdashes =>
      simp only [isSwitch, Bool.or_eq_false_iff, beq_eq_false_iff_ne] at hswitch
      rw [split_switches.eq_def]
      simp [hswitch, hdashes]

/-- Leading switches are taken one by one. -/
theorem split_items {items : List Item} (h : ∀ item ∈ items, item.Valid)
    (hends : Ends tail script) : split_switches s (items.flatMap Item.words ++ tail) =
      .go (items.foldl Item.apply s) script := by
  induction items generalizing s with
  | nil => exact split_ends hends
  | cons item items ih =>
      obtain ⟨hitem, hlater⟩ := List.forall_mem_cons.mp h
      rw [List.flatMap_cons, List.append_assoc, List.foldl_cons]
      cases item with
      | flag f => exact (split_flag f _).trans (ih hlater)
      | pin path => exact (split_pin hitem _).trans (ih hlater)

/-- What an argument in the place of a switch can be. -/
theorem switch_cases (arg : PyStr) :
    arg = HELP ∨ arg = UV ∨ (∃ f : Flag, arg = f.name) ∨ isSwitch arg = false := by
  by_cases hhelp : arg = HELP
  · exact Or.inl hhelp
  by_cases huv : arg = UV
  · exact Or.inr (Or.inl huv)
  by_cases hflag : ∃ f : Flag, arg = f.name
  · exact Or.inr (Or.inr (Or.inl hflag))
  · have hnone : ∀ f : Flag, arg ≠ f.name := fun f hf => hflag ⟨f, hf⟩
    right; right; right
    simp [isSwitch, hhelp, huv, hnone]

theorem split_help (rest : List PyStr) : split_switches s (HELP :: rest) = .help := by
  rw [split_switches.eq_def]
  rfl

/-- Arguments taken as leading switches and their end. -/
def ReadAs (s : Settings) (args : List PyStr) (s' : Settings) (script : List PyStr) : Prop :=
  ∃ (items : List Item) (tail : List PyStr), args = items.flatMap Item.words ++ tail ∧
    (∀ item ∈ items, item.Valid) ∧ Ends tail script ∧ s' = items.foldl Item.apply s

theorem ReadAs.cons {args : List PyStr} {s' : Settings} {item : Item} (hitem : item.Valid)
    (h : ReadAs (item.apply s) args s' script) : ReadAs s (item.words ++ args) s' script := by
  obtain ⟨items, tail, rfl, hvalid, hends, hsettings⟩ := h
  refine ⟨item :: items, tail, ?_, List.forall_mem_cons.mpr ⟨hitem, hvalid⟩, hends, hsettings⟩
  rw [List.flatMap_cons, List.append_assoc]

theorem ReadAs.of_ends {s' : Settings} (h : split_switches s tail = .go s' script)
    {left : List PyStr} (hends : Ends tail left) : ReadAs s tail s' script := by
  rw [split_ends hends] at h
  cases h
  exact ⟨[], tail, rfl, by simp, hends, rfl⟩

/-- Where the loop ends by itself, it has read leading switches and their end. -/
theorem readAs_of_split {args : List PyStr} {s' : Settings}
    (h : split_switches s args = .go s' script) : ReadAs s args s' script := by
  induction hn : args.length using Nat.strongRecOn generalizing args s with
  | ind n ih =>
      cases args with
      | nil => exact .of_ends h .nil
      | cons arg rest =>
          rw [List.length_cons] at hn
          rcases switch_cases arg with hhelp | huv | ⟨f, hf⟩ | hswitch
          · rw [hhelp, split_help] at h
            cases h
          · subst huv
            cases rest with
            | nil => cases h
            | cons value later =>
                rw [List.length_cons] at hn
                by_cases habsolute : value.head? = some 0x2f
                · rw [split_pin habsolute] at h
                  have hitem : (Item.pin value).Valid := habsolute
                  exact ReadAs.cons hitem (ih later.length (by omega) h rfl)
                · rw [split_relative_pin habsolute] at h
                  cases h
          · subst hf
            rw [split_flag] at h
            have hitem : (Item.flag f).Valid := trivial
            exact ReadAs.cons hitem (ih rest.length (by omega) h rfl)
          · by_cases hdashes : arg = DASHES
            · subst hdashes
              exact .of_ends h (.dashes rest)
            · exact .of_ends h (.argument rest hswitch hdashes)

end

/-! ## What a relaunch is told -/

section

/-- The words an item adds to the list of those passed on. -/
def Item.forwarded : Item → Option Item
  | flag .clean => some (flag .clean)
  | flag .no_install_uv => some (flag .no_install_uv)
  | _ => none

theorem fields_apply (s : Settings) (item : Item) : fields isFieldSpace (item.apply s).fwd =
    fields isFieldSpace s.fwd ++ (item.forwarded.map Item.words).getD [] := by
  have hclean : fields isFieldSpace Flag.clean.name = [Flag.clean.name] := by decide
  have hinstall : fields isFieldSpace Flag.no_install_uv.name = [Flag.no_install_uv.name] := by decide
  cases item with
  | pin path => exact (List.append_nil _).symm
  | flag f =>
      cases f with
      | info => exact (List.append_nil _).symm
      | elevate => exact (List.append_nil _).symm
      | clean =>
          have hspace : py " --pwshpy-clean" = 0x20 :: Flag.clean.name := by decide
          show fields isFieldSpace (s.fwd ++ py " --pwshpy-clean") = _
          rw [hspace, fields_append (by decide), hclean]
          rfl
      | no_install_uv =>
          have hspace : py " --pwshpy-no-install-uv" = 0x20 :: Flag.no_install_uv.name := by decide
          show fields isFieldSpace (s.fwd ++ py " --pwshpy-no-install-uv") = _
          rw [hspace, fields_append (by decide), hinstall]
          rfl

theorem fields_fwd (items : List Item) (s : Settings) :
    fields isFieldSpace (items.foldl Item.apply s).fwd =
      fields isFieldSpace s.fwd ++ (items.filterMap Item.forwarded).flatMap Item.words := by
  induction items generalizing s with
  | nil => exact (List.append_nil _).symm
  | cons item items ih =>
      rw [List.foldl_cons, ih, fields_apply]
      cases hforwarded : item.forwarded with
      | none =>
          rw [List.filterMap_cons_none hforwarded]
          simp
      | some child =>
          rw [List.filterMap_cons_some hforwarded]
          simp

/-- The settings a list of flags is about. -/
def Settings.flags (s : Settings) : Settings :=
  { s with want_elevate := false, info := false, uv_pin := [] }

/-- What a child is told: the elevation and the information are the parent's. -/
def Settings.passed_on (s : Settings) : Settings :=
  { s with want_elevate := false, info := false }

theorem flags_apply (s : Settings) (item : Item) :
    (item.apply s).flags = (item.forwarded.toList).foldl Item.apply s.flags := by
  cases item with
  | pin path => rfl
  | flag f => cases f <;> rfl

theorem foldl_forwarded (items : List Item) (s : Settings) :
    (items.filterMap Item.forwarded).foldl Item.apply s.flags =
      (items.foldl Item.apply s).flags := by
  induction items generalizing s with
  | nil => rfl
  | cons item items ih =>
      have hitem := flags_apply s item
      cases hforwarded : item.forwarded with
      | none =>
          rw [hforwarded] at hitem
          rw [List.filterMap_cons_none hforwarded, List.foldl_cons, ← ih, hitem]
          rfl
      | some child =>
          rw [hforwarded] at hitem
          rw [List.filterMap_cons_some hforwarded, List.foldl_cons, List.foldl_cons, ← ih, hitem]
          rfl

/-- A pin that is set is an absolute path. -/
theorem pin_absolute {items : List Item} (h : ∀ item ∈ items, item.Valid) {s : Settings}
    (hs : s.uv_pin ≠ [] → s.uv_pin.head? = some 0x2f) :
    (items.foldl Item.apply s).uv_pin ≠ [] →
      (items.foldl Item.apply s).uv_pin.head? = some 0x2f := by
  induction items generalizing s with
  | nil => exact hs
  | cons item items ih =>
      obtain ⟨hitem, hlater⟩ := List.forall_mem_cons.mp h
      apply ih hlater
      cases item with
      | pin path => exact fun _ => hitem
      | flag f => cases f <;> exact hs

/-- The switches of a relaunch. -/
def childItems (items : List Item) (pin : PyStr) : List Item :=
  items.filterMap Item.forwarded ++ if pin ≠ [] then [.pin pin] else []

theorem childItems_valid {items : List Item} {pin : PyStr}
    (hpin : pin ≠ [] → pin.head? = some 0x2f) :
    ∀ item ∈ childItems items pin, item.Valid := by
  intro child hchild
  cases List.mem_append.mp hchild with
  | inl hflag =>
      obtain ⟨item, -, hforwarded⟩ := List.mem_filterMap.mp hflag
      cases item with
      | pin path => cases hforwarded
      | flag f => cases f <;> cases hforwarded <;> trivial
  | inr hlast =>
      by_cases hset : pin ≠ []
      · rw [if_pos hset] at hlast
        rw [List.mem_singleton.mp hlast]
        exact hpin hset
      · rw [if_neg hset] at hlast
        cases hlast

theorem relaunch_args_eq (items : List Item) (script : List PyStr) :
    relaunch_args (items.foldl Item.apply .start) script =
      (childItems items (items.foldl Item.apply .start).uv_pin).flatMap Item.words ++
        DASHES :: script := by
  have hstart : fields isFieldSpace Settings.start.fwd = [] := rfl
  rw [relaunch_args, fields_fwd, hstart, childItems, List.flatMap_append, List.append_assoc,
    List.nil_append, List.append_assoc]
  split <;> rfl

theorem foldl_childItems (items : List Item) :
    (childItems items (items.foldl Item.apply .start).uv_pin).foldl Item.apply .start =
      (items.foldl Item.apply .start).passed_on := by
  have hflags := foldl_forwarded items .start
  have hstart : Settings.start.flags = .start := rfl
  rw [hstart] at hflags
  rw [childItems, List.foldl_append, hflags]
  by_cases hset : (items.foldl Item.apply .start).uv_pin ≠ []
  · rw [if_pos hset]
    rfl
  · have hnone : (items.foldl Item.apply .start).uv_pin = [] := not_not.mp hset
    rw [if_neg hset, List.foldl_nil, Settings.flags, Settings.passed_on, hnone]

/-- The child of a relaunch reads the settings its parent read. -/
theorem split_relaunch_args {args script : List PyStr} {s : Settings}
    (h : split_switches .start args = .go s script) :
    split_switches .start (relaunch_args s script) = .go s.passed_on script := by
  obtain ⟨items, tail, -, hvalid, -, rfl⟩ := readAs_of_split h
  have hpin := pin_absolute hvalid (s := .start) fun hset => absurd rfl hset
  rw [relaunch_args_eq, split_items (childItems_valid hpin) (.dashes script), foldl_childItems]

end

/-- A relaunch reads the switches it is meant to read and leaves the script's
arguments; the loop takes switches from the front only; and what it leaves ends
the arguments of uv, with and without the caller's directory in front of paths. -/
theorem switches_survive_the_relaunch :
    (∀ (args script : List PyStr) (s : Settings), split_switches .start args = .go s script →
      split_switches .start (relaunch_args s script) = .go s.passed_on script ∧
      ReadAs .start args s script) ∧
    (∀ (items : List Item) (tail script : List PyStr), (∀ item ∈ items, item.Valid) →
      Ends tail script → split_switches .start (items.flatMap Item.words ++ tail) =
        .go (items.foldl Item.apply .start) script) ∧
    ∀ (sh : Shell.Context) (values script : List PyStr) (path : PyStr) (depth : Nat),
      (∀ value ∈ values, 0 ∉ value) → sh.positional = path :: script →
      (sh.vars (py "PWSHPY_UV_ARGS_RAW") = some (posix_shell_args values) →
        Shell.run sh (depth + 2) EXPAND_RAW =
          some { sh with positional := values ++ path :: script }) ∧
      ∀ front : PyStr, sh.vars (py "PWSHPY_UV_ARGS_ANCHORED_RAW") =
          some (posix_anchored_args split_relative_requirement values) →
        sh.vars (py "PWSHPY_CALLER_PREFIX") = some front →
        Shell.run sh (depth + 2) EXPAND_ANCHORED_RAW =
          some { sh with positional := anchored front values ++ path :: script } := by
  refine ⟨fun args script s h => ⟨split_relaunch_args h, readAs_of_split h⟩,
    fun items tail script => split_items, ?_⟩
  intro sh values script path depth hzero hpositional
  constructor
  · intro hraw
    rw [run_expand hzero hraw depth, hpositional]
  · intro front hraw hfront
    rw [run_expand_anchored hzero hraw hfront depth, hpositional]

/-- A path with a blank for the pin, and a script's argument spelled like a switch. -/
theorem switches_survive_the_relaunch_at : ∃ s : Settings,
    split_switches .start [UV, py "/opt/u v", Flag.clean.name, Flag.elevate.name, DASHES, HELP] =
      .go s [HELP] ∧
    split_switches .start [Flag.clean.name, UV, py "/opt/u v", DASHES, HELP] =
      .go s.passed_on [HELP] := by
  let items : List Item := [.pin (py "/opt/u v"), .flag .clean, .flag .elevate]
  have hvalid : ∀ item ∈ items, item.Valid :=
    List.forall_mem_cons.mpr ⟨rfl, List.forall_mem_cons.mpr ⟨trivial,
      List.forall_mem_singleton.mpr trivial⟩⟩
  have hread := switches_survive_the_relaunch.2.1 items (DASHES :: [HELP]) [HELP] hvalid (.dashes _)
  have hrelaunch := (switches_survive_the_relaunch.1 _ _ _ hread).1
  have hargs : relaunch_args (items.foldl Item.apply .start) [HELP] =
      [Flag.clean.name, UV, py "/opt/u v", DASHES, HELP] := by decide
  rw [hargs] at hrelaunch
  exact ⟨_, hread, hrelaunch⟩

end PwshPy.Packing.Posix
