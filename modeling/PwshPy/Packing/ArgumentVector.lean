import PwshPy.Bytes.Base64
import PwshPy.Files.Decoding
import PwshPy.Handover.Shim
import PwshPy.Packing.WrapperSwitches

/-! # The argument vector of the `.ps1`

The arguments behind the wrapper switches reach the shim in one variable, each in
base64 behind a version tag; an elevated child gets them on its command line,
behind the switches that are passed on.
-/

namespace PwshPy.Packing.Wrapper

open Bytes Files Handover

/-! ## The variable -/

def BAR : Nat := 0x7c

/-- `$PwshPyEncoded -join '|'` -/
def encode_argv (argv : List PyStr) : PyStr :=
  [BAR].intercalate (ARGV_ENCODING_TAG :: argv.map fun argument => base64 (utf8_text argument))

/-- `base64.b64decode(piece).decode("utf-8")` -/
def decode_piece (piece : PyStr) : Option PyStr := (b64decode piece).bind (decode_utf8 .start)

/-- A text of Unicode characters. -/
def IsText (text : PyStr) : Prop := ∀ c ∈ text, isScalar c = true

theorem decode_piece_encoded {argument : PyStr} (h : IsText argument) :
    decode_piece (base64 (utf8_text argument)) = some argument := by
  rw [decode_piece, b64decode_base64, Option.bind_some, decode_utf8_text h]

theorem mapM_decode_piece {argv : List PyStr} (h : ∀ argument ∈ argv, IsText argument) :
    (argv.map fun argument => base64 (utf8_text argument)).mapM decode_piece = some argv := by
  induction argv with
  | nil => rfl
  | cons argument argv ih =>
      have hfirst := decode_piece_encoded (h argument (List.mem_cons_self ..))
      have hlater := ih fun a ha => h a (List.mem_cons_of_mem _ ha)
      rw [List.map_cons, List.mapM_cons, hfirst, hlater]
      rfl

theorem bar_not_mem_base64 (data : List UInt8) : BAR ∉ base64 data := by
  intro h
  cases mem_base64 h with
  | inl hpad => exact absurd hpad (by decide)
  | inr hsymbol =>
      obtain ⟨v, hv⟩ := hsymbol
      exact symbol_ne_bar v hv.symm

theorem splitOn_encode_argv (argv : List PyStr) : (encode_argv argv).splitOn BAR =
    ARGV_ENCODING_TAG :: argv.map fun argument => base64 (utf8_text argument) := by
  apply List.splitOn_intercalate
  · intro piece hpiece
    rcases List.mem_cons.mp hpiece with htag | hargument
    · rw [htag]
      decide
    · obtain ⟨argument, -, rfl⟩ := List.mem_map.mp hargument
      exact bar_not_mem_base64 _
  · exact List.cons_ne_nil _ _

theorem encode_argv_ne_nil (argv : List PyStr) : encode_argv argv ≠ [] := by
  intro hnil
  have hsplit := splitOn_encode_argv argv
  rw [hnil] at hsplit
  exact absurd (List.cons.inj hsplit).1 (by decide)

/-- The shim takes out what the runner put in, and the variable itself. -/
theorem argv_from_encoded {argv : List PyStr} (h : ∀ argument ∈ argv, IsText argument)
    (own : List PyStr) {env : Env} (hvar : env ARGV_ENV_VAR = some (encode_argv argv)) :
    argv_from_environment decode_piece own env = some (argv, env.unset ARGV_ENV_VAR) := by
  cases hvalue : encode_argv argv with
  | nil => exact absurd hvalue (encode_argv_ne_nil argv)
  | cons c value =>
      have hsplit := splitOn_encode_argv argv
      rw [hvalue] at hsplit
      simp only [argv_from_environment, hvar, hvalue]
      rw [show (0x7c : Nat) = BAR from rfl, hsplit]
      show ((List.mapM decode_piece _).map _) = _
      rw [mapM_decode_piece h]
      rfl

theorem encode_argv_injective {argv argv' : List PyStr} (h : ∀ argument ∈ argv, IsText argument)
    (h' : ∀ argument ∈ argv', IsText argument) (heq : encode_argv argv = encode_argv argv') :
    argv = argv' := by
  have hpieces := splitOn_encode_argv argv
  rw [heq, splitOn_encode_argv argv'] at hpieces
  have hread := mapM_decode_piece h
  rw [← (List.cons.inj hpieces).2, mapM_decode_piece h'] at hread
  exact (Option.some.inj hread).symm

/-! ## The relaunch -/

/-- What a child is told of the settings: the others are the parent's to handle. -/
def passed_on (s : ArgumentSplit) : ArgumentSplit :=
  { ArgumentSplit.start with
    clean := s.clean
    no_install_uv := s.no_install_uv
    uv_pin := s.uv_pin
    rest := s.rest
    relaunch_switches := s.relaunch_switches }

/-- The items of a relaunch. -/
def childItems (items : List Item) : List Item :=
  items.filterMap Item.relaunched ++ (items.filterMap Item.forwarded).map .argument

theorem words_childItems (items : List Item) :
    (childItems items).flatMap Item.words = forward_args (summary items) := by
  simp [childItems, forward_args, summary, List.flatMap_map, Item.words]

section

variable {cmp : Comparison}

theorem switchOf_name (cmp : Comparison) (s : Switch) : switchOf cmp s.name = some s := by
  have hsame : ∀ t : Switch, cmp.same s.name t.name = (asciiLower s.name == asciiLower t.name) := by
    intro t
    have hprintable : ∀ u : Switch, u.name.all isPrintableAscii = true := by
      intro u
      rcases u with f | v
      · cases f <;> decide
      · cases v <;> decide
    exact cmp.same_ascii _ _ (hprintable s) (hprintable t)
  simp only [switchOf, hsame]
  rcases s with f | v
  · cases f <;> decide
  · cases v <;> decide

theorem relaunched_reads {item child : Item} (h : item.Reads cmp)
    (hchild : item.relaunched = some child) : child.Reads cmp := by
  cases item with
  | argument text => cases hchild
  | flag f spelled =>
      cases f with
      | clean => cases hchild; exact h
      | no_install_uv => cases hchild; exact h
      | elevate => cases hchild
      | info => cases hchild
      | help => cases hchild
  | valued v spelled value =>
      cases v with
      | uv => cases hchild; exact switchOf_name cmp (.valued .uv)
      | relay => cases hchild
      | relay_cwd => cases hchild
      | relay_cwd_unc => cases hchild

theorem forwarded_reads {item : Item} {text : PyStr} (h : item.Reads cmp)
    (htext : item.forwarded = some text) : (Item.argument text).Reads cmp := by
  cases item with
  | argument text' => cases htext; exact h
  | flag f spelled => cases htext
  | valued v spelled value => cases htext

theorem childItems_reads {items : List Item} (h : ∀ item ∈ items, item.Reads cmp) :
    ∀ item ∈ childItems items, item.Reads cmp := by
  intro child hchild
  rcases List.mem_append.mp hchild with hswitch | hargument
  · obtain ⟨item, hitem, hrelaunched⟩ := List.mem_filterMap.mp hswitch
    exact relaunched_reads (h item hitem) hrelaunched
  · obtain ⟨text, htext, rfl⟩ := List.mem_map.mp hargument
    obtain ⟨item, hitem, hforwarded⟩ := List.mem_filterMap.mp htext
    exact forwarded_reads (h item hitem) hforwarded

end

/-- Only the two flags are passed on. -/
theorem relaunched_isFlag (f : Flag) (item : Item) : item.relaunched.any (Item.isFlag f) =
    (decide (f = .clean ∨ f = .no_install_uv) && item.isFlag f) := by
  cases item with
  | argument text => simp [Item.relaunched, Item.isFlag]
  | flag g spelled => cases g <;> cases f <;> rfl
  | valued v spelled value => cases v <;> simp [Item.relaunched, Item.isFlag]

/-- Of the values, only the pin is passed on. -/
theorem relaunched_valueOf (v : ValueSwitch) (item : Item) :
    item.relaunched.bind (Item.valueOf v) = if v = .uv then item.valueOf v else none := by
  cases item with
  | argument text => simp [Item.relaunched, Item.valueOf]
  | flag g spelled => cases g <;> simp [Item.relaunched, Item.valueOf]
  | valued w spelled value => cases w <;> cases v <;> rfl

theorem relaunched_forwarded (item : Item) : item.relaunched.bind Item.forwarded = none := by
  cases item with
  | argument text => rfl
  | flag g spelled => cases g <;> rfl
  | valued w spelled value => cases w <;> rfl

theorem relaunched_relaunched (item : Item) :
    item.relaunched.bind Item.relaunched = item.relaunched := by
  cases item with
  | argument text => rfl
  | flag g spelled => cases g <;> rfl
  | valued w spelled value => cases w <;> rfl

theorem any_childItems (f : Flag) (items : List Item) :
    (childItems items).any (Item.isFlag f) =
      (decide (f = .clean ∨ f = .no_install_uv) && items.any (Item.isFlag f)) := by
  have harguments : ((items.filterMap Item.forwarded).map Item.argument).any (Item.isFlag f) =
      false := by
    rw [List.any_map]
    exact List.any_eq_false.mpr fun _ _ => Bool.false_ne_true
  rw [childItems, List.any_append, harguments, Bool.or_false]
  clear harguments
  induction items with
  | nil => simp
  | cons item items ih =>
      have hitem := relaunched_isFlag f item
      cases hrelaunched : item.relaunched with
      | none =>
          rw [hrelaunched] at hitem
          rw [List.filterMap_cons_none hrelaunched, ih, List.any_cons, Bool.and_or_distrib_left,
            ← hitem]
          rfl
      | some child =>
          rw [hrelaunched] at hitem
          rw [List.filterMap_cons_some hrelaunched, List.any_cons, ih, List.any_cons,
            Bool.and_or_distrib_left, ← hitem]
          rfl

theorem filterMap_childItems {α : Type} (f : Item → Option α) (items : List Item) :
    (childItems items).filterMap f =
      items.filterMap (fun item => item.relaunched.bind f) ++
        (items.filterMap Item.forwarded).filterMap (f ∘ .argument) := by
  rw [childItems, List.filterMap_append, List.filterMap_filterMap, List.filterMap_map]

theorem lastValue_childItems (v : ValueSwitch) (items : List Item) :
    lastValue v (childItems items) = if v = .uv then lastValue v items else none := by
  have harguments : (items.filterMap Item.forwarded).filterMap (Item.valueOf v ∘ .argument) = [] :=
    List.filterMap_eq_nil_iff.mpr fun _ _ => rfl
  have hitems : (fun item : Item => item.relaunched.bind (Item.valueOf v)) =
      fun item => if v = .uv then item.valueOf v else none := funext (relaunched_valueOf v)
  rw [lastValue, filterMap_childItems, harguments, List.append_nil, hitems]
  by_cases hv : v = .uv
  · simp only [if_pos hv]
    rfl
  · simp only [if_neg hv]
    rw [List.filterMap_eq_nil_iff.mpr fun _ _ => rfl]
    rfl

theorem forwarded_childItems (items : List Item) :
    (childItems items).filterMap Item.forwarded = items.filterMap Item.forwarded := by
  have hitems : (fun item : Item => item.relaunched.bind Item.forwarded) = fun _ => none :=
    funext relaunched_forwarded
  have harguments : Item.forwarded ∘ Item.argument = some := rfl
  rw [filterMap_childItems, hitems, harguments, List.filterMap_some,
    List.filterMap_eq_nil_iff.mpr fun _ _ => rfl]
  rfl

theorem relaunched_childItems (items : List Item) :
    (childItems items).filterMap Item.relaunched = items.filterMap Item.relaunched := by
  have hitems : (fun item : Item => item.relaunched.bind Item.relaunched) = Item.relaunched :=
    funext relaunched_relaunched
  have harguments :
      (items.filterMap Item.forwarded).filterMap (Item.relaunched ∘ .argument) = [] :=
    List.filterMap_eq_nil_iff.mpr fun _ _ => rfl
  rw [filterMap_childItems, hitems, harguments, List.append_nil]

theorem summary_childItems (items : List Item) :
    summary (childItems items) = passed_on (summary items) := by
  simp [summary, passed_on, ArgumentSplit.start, any_childItems, lastValue_childItems,
    forwarded_childItems, relaunched_childItems]

section

variable (cmp : Comparison) (args : List PyStr)

/-- The child of a relaunch under `sudo` reads what it is told. -/
theorem split_forward_args : split_arguments cmp (forward_args (split_arguments cmp args)) =
    passed_on (split_arguments cmp args) := by
  obtain ⟨r⟩ := exists_reading cmp args
  have hargs : forward_args (split_arguments cmp args) =
      (childItems r.items).flatMap Item.words := by
    rw [words_childItems, r.split_eq]
    rfl
  rw [hargs, split_items (childItems_reads r.reads), summary_childItems, r.split_eq]
  rfl

/-- The items in front of a Windows child's arguments. -/
def relayItems (relay caller_directory : PyStr) (unc : Option PyStr) : List Item :=
  [.valued .relay ValueSwitch.relay.name relay,
    .valued .relay_cwd ValueSwitch.relay_cwd.name caller_directory] ++
    (match unc with
      | some unc => [.valued .relay_cwd_unc ValueSwitch.relay_cwd_unc.name unc]
      | none => [])

theorem relayItems_reads (relay caller_directory : PyStr) (unc : Option PyStr) :
    ∀ item ∈ relayItems relay caller_directory unc, item.Reads cmp := by
  have hname : ∀ (v : ValueSwitch) (value : PyStr), (Item.valued v v.name value).Reads cmp :=
    fun v _ => switchOf_name cmp (.valued v)
  cases unc with
  | none => simp [relayItems, hname]
  | some unc => simp [relayItems, hname]

theorem split_child_args (relay caller_directory : PyStr) (unc : Option PyStr) :
    split_arguments cmp (child_args relay caller_directory unc (split_arguments cmp args)) =
      { passed_on (split_arguments cmp args) with
        relay := some relay
        relay_cwd := some caller_directory
        relay_cwd_unc := unc } := by
  obtain ⟨r⟩ := exists_reading cmp args
  have hargs : child_args relay caller_directory unc (split_arguments cmp args) =
      (relayItems relay caller_directory unc ++ childItems r.items).flatMap Item.words := by
    rw [List.flatMap_append, words_childItems, r.split_eq]
    cases unc <;> rfl
  have hreads : ∀ item ∈ relayItems relay caller_directory unc ++ childItems r.items,
      item.Reads cmp := by
    intro item hitem
    cases List.mem_append.mp hitem with
    | inl hrelay => exact relayItems_reads cmp relay caller_directory unc item hrelay
    | inr hchild => exact childItems_reads r.reads item hchild
  have hlast : ∀ v, lastValue v (relayItems relay caller_directory unc ++ childItems r.items) =
      (lastValue v (childItems r.items)).or
        (lastValue v (relayItems relay caller_directory unc)) := by
    intro v
    rw [lastValue, List.filterMap_append, List.getLast?_append]
    rfl
  have hrest : (relayItems relay caller_directory unc).filterMap Item.forwarded = [] := by
    cases unc <;> rfl
  have hrelaunched : (relayItems relay caller_directory unc).filterMap Item.relaunched = [] := by
    cases unc <;> rfl
  have hflags : ∀ f, (relayItems relay caller_directory unc).any (Item.isFlag f) = false := by
    intro f
    cases unc <;> rfl
  have hvalues : lastValue .uv (relayItems relay caller_directory unc) = none ∧
      lastValue .relay (relayItems relay caller_directory unc) = some relay ∧
      lastValue .relay_cwd (relayItems relay caller_directory unc) = some caller_directory ∧
      lastValue .relay_cwd_unc (relayItems relay caller_directory unc) = unc := by
    cases unc <;> exact ⟨rfl, rfl, rfl, rfl⟩
  rw [hargs, split_items hreads, r.split_eq]
  simp [summary, passed_on, ArgumentSplit.start, hlast, hrest, hrelaunched, hflags, hvalues,
    any_childItems, lastValue_childItems, forwarded_childItems, relaunched_childItems]

/-- A child that is relaunched passes the checks its parent passed. -/
theorem usage_passed_on {absolute : PyStr → Bool} {s : ArgumentSplit}
    (h : usage_error absolute s = none) : usage_error absolute (passed_on s) = none := by
  by_cases hpin : s.uv_pin.any (!absolute ·) = true
  · simp only [usage_error, if_pos hpin] at h
    split at h <;> cases h
  · simp [usage_error, passed_on, ArgumentSplit.start, hpin]

theorem usage_child {absolute : PyStr → Bool} {s : ArgumentSplit}
    (h : usage_error absolute s = none) {relay caller_directory : PyStr} (hrelay : relay ≠ [])
    (hdirectory : caller_directory ≠ []) (unc : Option PyStr) :
    usage_error absolute { passed_on s with
      relay := some relay
      relay_cwd := some caller_directory
      relay_cwd_unc := unc } = none := by
  have hpin : ¬s.uv_pin.any (!absolute ·) = true := by
    have hpassed := usage_passed_on h
    intro hany
    simp [usage_error, passed_on, ArgumentSplit.start, hany] at hpassed
  simp [usage_error, passed_on, ArgumentSplit.start, hpin, hrelay, hdirectory, isMissing]

end

/-- The variable gives the shim the forwarded arguments; the loop takes the
switches, their values and nothing else; and a relaunch is read as it was meant. -/
theorem argument_vector_out_of_band (cmp : Comparison) (absolute : PyStr → Bool) :
    (∀ argv : List PyStr, (∀ argument ∈ argv, IsText argument) →
      (∀ (own : List PyStr) (env : Env), env ARGV_ENV_VAR = some (encode_argv argv) →
        argv_from_environment decode_piece own env = some (argv, env.unset ARGV_ENV_VAR)) ∧
      ∀ argv' : List PyStr, (∀ argument ∈ argv', IsText argument) →
        encode_argv argv = encode_argv argv' → argv = argv') ∧
    ∀ args : List PyStr,
      let s := split_arguments cmp args
      Nonempty (Reading cmp args) ∧
      (∀ r : Reading cmp args,
        s = { summary r.items with expect := r.dangling.map Prod.fst }) ∧
      split_arguments cmp (forward_args s) = passed_on s ∧
      (usage_error absolute s = none → usage_error absolute (passed_on s) = none) ∧
      ∀ (relay caller_directory : PyStr) (unc : Option PyStr),
        let child := split_arguments cmp (child_args relay caller_directory unc s)
        child = { passed_on s with
          relay := some relay
          relay_cwd := some caller_directory
          relay_cwd_unc := unc } ∧
        (usage_error absolute s = none → relay ≠ [] → caller_directory ≠ [] →
          usage_error absolute child = none) := by
  constructor
  · intro argv hargv
    exact ⟨fun own _ hvar => argv_from_encoded hargv own hvar,
      fun _ hargv' => encode_argv_injective hargv hargv'⟩
  · intro args s
    refine ⟨exists_reading cmp args, Reading.split_eq, split_forward_args cmp args,
      usage_passed_on, ?_⟩
    intro relay caller_directory unc child
    have hchild := split_child_args cmp args relay caller_directory unc
    refine ⟨hchild, ?_⟩
    intro husage hrelay hdirectory
    show usage_error absolute (split_arguments cmp _) = none
    rw [hchild]
    exact usage_child husage hrelay hdirectory unc

/-- Texts that differ at most in the case of their ASCII letters. -/
def asciiComparison : Comparison where
  same := fun a b => asciiLower a == asciiLower b
  same_ascii := fun _ _ _ _ => rfl

/-- A pin that is spelled like a switch, and an argument that holds a bar. -/
theorem argument_vector_out_of_band_at :
    (split_arguments asciiComparison (forward_args (split_arguments asciiComparison
      [py "-pwshpyuv", py "-PwshPyClean", py "a|b", []]))).uv_pin = some (py "-PwshPyClean") ∧
    argv_from_environment decode_piece [] (fun _ => some (encode_argv [py "a|b", []])) =
      some ([py "a|b", []],
        Storage.Variables.unset (fun _ => some (encode_argv [py "a|b", []])) ARGV_ENV_VAR) := by
  obtain ⟨hvariable, hloop⟩ := argument_vector_out_of_band asciiComparison fun _ => true
  have hrelaunch := (hloop [py "-pwshpyuv", py "-PwshPyClean", py "a|b", []]).2.2.1
  have hdecode := (hvariable [py "a|b", []] (by unfold IsText; decide)).1 []
    (fun _ => some (encode_argv [py "a|b", []])) rfl
  refine ⟨?_, hdecode⟩
  rw [hrelaunch]
  decide

/-- The value of `-PwshPyRelay` is taken too, and `-PwshPyElevate` is not passed on. -/
theorem relay_value_is_taken :
    let s := split_arguments asciiComparison
      [py "-PwshPyRelay", py "report", py "-PwshPyElevate", py "x"]
    switchOf asciiComparison (py "report") = none ∧ usage_error (fun _ => true) s = none ∧
      s.rest = [py "x"] ∧ s.want_elevate = true ∧
      (split_arguments asciiComparison (forward_args s)).want_elevate = false := by
  decide

end PwshPy.Packing.Wrapper
