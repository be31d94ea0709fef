import PwshPy.Text.PyStr

/-! # The wrapper switches of the `.ps1`

The runner takes its own switches out of the arguments wherever they stand, with
the value behind those that take one, and forwards the rest. What it passes on
to an elevated child is read by the same loop.
-/

namespace PwshPy.Packing.Wrapper

/-! ## Names -/

/-- The switches that stand alone. -/
inductive Flag where
  | clean
  | no_install_uv
  | elevate
  | info
  | help
  deriving DecidableEq

/-- The switches that take the argument behind them. -/
inductive ValueSwitch where
  | relay
  | relay_cwd
  | relay_cwd_unc
  | uv
  deriving DecidableEq

inductive Switch where
  | flag (f : Flag)
  | valued (v : ValueSwitch)
  deriving DecidableEq

def Flag.name : Flag → PyStr
  | clean => py "-PwshPyClean"
  | no_install_uv => py "-PwshPyNoInstallUv"
  | elevate => py "-PwshPyElevate"
  | info => py "-PwshPyInfo"
  | help => py "-PwshPyHelp"

def ValueSwitch.name : ValueSwitch → PyStr
  | relay => py "-PwshPyRelay"
  | relay_cwd => py "-PwshPyRelayCwd"
  | relay_cwd_unc => py "-PwshPyRelayCwdUnc"
  | uv => py "-PwshPyUv"

def Switch.name : Switch → PyStr
  | flag f => f.name
  | valued v => v.name

/-- The cases of the loop, in its order. -/
def SWITCHES : List Switch :=
  [.flag .clean, .flag .no_install_uv, .flag .elevate, .flag .info, .flag .help, .valued .relay,
    .valued .relay_cwd, .valued .relay_cwd_unc, .valued .uv]

def isPrintableAscii (c : Nat) : Bool := 0x20 ≤ c && c ≤ 0x7e

/-- What `switch -Exact` takes for one text: a comparison that ignores case by
tables of its own, and on printable ASCII by the case of the letters only. -/
structure Comparison where
  same : PyStr → PyStr → Bool
  same_ascii : ∀ a b, a.all isPrintableAscii = true → b.all isPrintableAscii = true →
    same a b = (asciiLower a == asciiLower b)

/-- The switch an argument is taken for. -/
def switchOf (cmp : Comparison) (text : PyStr) : Option Switch :=
  SWITCHES.find? fun s => cmp.same text s.name

/-! ## The loop -/

structure ArgumentSplit where
  clean : Bool
  no_install_uv : Bool
  want_elevate : Bool
  info : Bool
  help : Bool
  relay : Option PyStr
  relay_cwd : Option PyStr
  relay_cwd_unc : Option PyStr
  uv_pin : Option PyStr
  rest : List PyStr
  relaunch_switches : List PyStr
  /-- the one of the four `Expect` flags that is set -/
  expect : Option ValueSwitch

def ArgumentSplit.start : ArgumentSplit where
  clean := false
  no_install_uv := false
  want_elevate := false
  info := false
  help := false
  relay := none
  relay_cwd := none
  relay_cwd_unc := none
  uv_pin := none
  rest := []
  relaunch_switches := []
  expect := none

/-- The body of the loop. -/
def step (cmp : Comparison) (s : ArgumentSplit) (text : PyStr) : ArgumentSplit :=
  match s.expect with
  | some .relay => { s with relay := some text, expect := none }
  | some .relay_cwd => { s with relay_cwd := some text, expect := none }
  | some .relay_cwd_unc => { s with relay_cwd_unc := some text, expect := none }
  | some .uv =>
      { s with
        uv_pin := some text
        expect := none
        relaunch_switches := s.relaunch_switches ++ [ValueSwitch.uv.name, text] }
  | none =>
      match switchOf cmp text with
      | some (.flag .clean) =>
          { s with clean := true, relaunch_switches := s.relaunch_switches ++ [text] }
      | some (.flag .no_install_uv) =>
          { s with no_install_uv := true, relaunch_switches := s.relaunch_switches ++ [text] }
      | some (.flag .elevate) => { s with want_elevate := true }
      | some (.flag .info) => { s with info := true }
      | some (.flag .help) => { s with help := true }
      | some (.valued v) => { s with expect := some v }
      | none => { s with rest := s.rest ++ [text] }

def split_arguments (cmp : Comparison) (args : List PyStr) : ArgumentSplit :=
  args.foldl (step cmp) .start

/-- The value of a switch that is set but empty, or not set. -/
def isMissing (value : Option PyStr) : Bool := value.all (· == [])

/-- The checks behind the loop: what is written before the run exits 64. -/
def usage_error (absolute : PyStr → Bool) (s : ArgumentSplit) : Option PyStr :=
  if s.expect = some .uv then
    some (py "pwshpy: -PwshPyUv needs the absolute path of a uv executable")
  else if s.uv_pin.any (!absolute ·) then
    some (py "pwshpy: -PwshPyUv needs an absolute path, got: " ++ s.uv_pin.getD [])
  else if s.expect = some .relay ∨ s.relay = some [] then
    some (py "pwshpy: -PwshPyRelay is set only by the elevated relaunch, with a path")
  else if s.expect = some .relay_cwd ∨ s.expect = some .relay_cwd_unc ∨
      (s.relay_cwd_unc.isSome ∧ s.relay_cwd = none) ∨
      (s.relay_cwd.isSome ∧ (isMissing s.relay ∨ isMissing s.relay_cwd)) then
    some (py "pwshpy: -PwshPyRelayCwd and -PwshPyRelayCwdUnc are set only by the elevated relaunch, next to -PwshPyRelay and with a directory")
  else none

/-! ## The relaunch -/

/-- What `Invoke-PwshPyElevated` is given: all the arguments of a relaunch under
`sudo`. -/
def forward_args (s : ArgumentSplit) : List PyStr := s.relaunch_switches ++ s.rest

/-- The arguments of a relaunch on Windows. -/
def child_args (relay caller_directory : PyStr) (unc : Option PyStr) (s : ArgumentSplit) :
    List PyStr :=
  [ValueSwitch.relay.name, relay, ValueSwitch.relay_cwd.name, caller_directory] ++
    (match unc with
      | some unc => [ValueSwitch.relay_cwd_unc.name, unc]
      | none => []) ++
    forward_args s

/-! ## The arguments as switches, values and the rest -/

inductive Item where
  | flag (f : Flag) (spelled : PyStr)
  | valued (v : ValueSwitch) (spelled value : PyStr)
  | argument (text : PyStr)

namespace Item

def words : Item → List PyStr
  | flag _ spelled => [spelled]
  | valued _ spelled value => [spelled, value]
  | argument text => [text]

/-- The words are what the item says. -/
def Reads (cmp : Comparison) : Item → Prop
  | flag f spelled => switchOf cmp spelled = some (.flag f)
  | valued v spelled _ => switchOf cmp spelled = some (.valued v)
  | argument text => switchOf cmp text = none

def isFlag (f : Flag) : Item → Bool
  | flag g _ => g = f
  | _ => false

def valueOf (v : ValueSwitch) : Item → Option PyStr
  | valued w _ value => if w = v then some value else none
  | _ => none

def forwarded : Item → Option PyStr
  | argument text => some text
  | _ => none

/-- The item as a relaunch passes it on. -/
def relaunched : Item → Option Item
  | flag .clean spelled => some (flag .clean spelled)
  | flag .no_install_uv spelled => some (flag .no_install_uv spelled)
  | valued .uv _ value => some (valued .uv ValueSwitch.uv.name value)
  | _ => none

end Item

/-- A vector of arguments, read from the left; a last switch may lack its value. -/
structure Reading (cmp : Comparison) (args : List PyStr) where
  items : List Item
  reads : ∀ item ∈ items, item.Reads cmp
  dangling : Option (ValueSwitch × PyStr)
  dangles : ∀ d ∈ dangling, switchOf cmp d.2 = some (.valued d.1)
  whole : args = items.flatMap Item.words ++ (dangling.map Prod.snd).toList

/-- The last value given to a switch. -/
def lastValue (v : ValueSwitch) (items : List Item) : Option PyStr :=
  (items.filterMap (Item.valueOf v)).getLast?

/-- What the loop makes of whole items. -/
def summary (items : List Item) : ArgumentSplit where
  clean := items.any (Item.isFlag .clean)
  no_install_uv := items.any (Item.isFlag .no_install_uv)
  want_elevate := items.any (Item.isFlag .elevate)
  info := items.any (Item.isFlag .info)
  help := items.any (Item.isFlag .help)
  relay := lastValue .relay items
  relay_cwd := lastValue .relay_cwd items
  relay_cwd_unc := lastValue .relay_cwd_unc items
  uv_pin := lastValue .uv items
  rest := items.filterMap Item.forwarded
  relaunch_switches := (items.filterMap Item.relaunched).flatMap Item.words
  expect := none

/-! ## The loop reads items -/

section

variable {cmp : Comparison}

theorem lastValue_concat (v : ValueSwitch) (items : List Item) (item : Item) :
    lastValue v (items ++ [item]) = (item.valueOf v).or (lastValue v items) := by
  unfold lastValue
  cases hvalue : item.valueOf v with
  | none => simp [hvalue]
  | some value => simp [hvalue]

theorem summary_concat {items : List Item} {item : Item} (h : item.Reads cmp) :
    item.words.foldl (step cmp) (summary items) = summary (items ++ [item]) := by
  cases item with
  | argument text =>
      have hnone : switchOf cmp text = none := h
      simp [Item.words, step, hnone, summary, lastValue_concat, Item.valueOf,
        Item.isFlag, Item.forwarded, Item.relaunched]
  | flag f spelled =>
      have hflag : switchOf cmp spelled = some (.flag f) := h
      cases f <;>
        simp [Item.words, step, hflag, summary, lastValue_concat, Item.valueOf,
          Item.isFlag, Item.forwarded, Item.relaunched]
  | valued v spelled value =>
      have hvalued : switchOf cmp spelled = some (.valued v) := h
      cases v <;>
        simp [Item.words, step, hvalued, summary, lastValue_concat, Item.valueOf,
          Item.isFlag, Item.forwarded, Item.relaunched]

/-- One item at a time, the loop is at the summary of what it has read. -/
theorem split_items {items : List Item} (h : ∀ item ∈ items, item.Reads cmp) :
    split_arguments cmp (items.flatMap Item.words) = summary items := by
  unfold split_arguments
  induction items using List.reverseRecOn with
  | nil => rfl
  | append_singleton items item ih =>
      have hbefore := ih fun i hi => h i (List.mem_append_left _ hi)
      rw [List.flatMap_append, List.foldl_append, hbefore]
      simp only [List.flatMap_cons, List.flatMap_nil, List.append_nil]
      exact summary_concat (h item (by simp))

theorem step_dangling (items : List Item) {d : ValueSwitch × PyStr}
    (h : switchOf cmp d.2 = some (.valued d.1)) :
    step cmp (summary items) d.2 = { summary items with expect := some d.1 } := by
  have hexpect : (summary items).expect = none := rfl
  simp [step, hexpect, h]

theorem Reading.split_eq {args : List PyStr} (r : Reading cmp args) :
    split_arguments cmp args = { summary r.items with expect := r.dangling.map Prod.fst } := by
  obtain ⟨items, reads, dangling, dangles, rfl⟩ := r
  have hitems := split_items reads
  rw [split_arguments] at hitems ⊢
  rw [List.foldl_append, hitems]
  cases dangling with
  | none => rfl
  | some d => exact step_dangling items (dangles d rfl)

/-- Every vector has a reading: the first argument decides how many it takes. -/
theorem exists_reading (cmp : Comparison) (args : List PyStr) : Nonempty (Reading cmp args) := by
  induction hn : args.length using Nat.strongRecOn generalizing args with
  | ind n ih =>
      cases args with
      | nil => exact ⟨⟨[], by simp, none, by simp, rfl⟩⟩
      | cons text later =>
          rw [List.length_cons] at hn
          cases hswitch : switchOf cmp text with
          | none =>
              obtain ⟨r⟩ := ih later.length (by omega) later rfl
              have hreads : ∀ item ∈ .argument text :: r.items, item.Reads cmp :=
                List.forall_mem_cons.mpr ⟨hswitch, r.reads⟩
              exact ⟨⟨.argument text :: r.items, hreads, r.dangling, r.dangles,
                congrArg (text :: ·) r.whole⟩⟩
          | some s =>
              cases s with
              | flag f =>
                  obtain ⟨r⟩ := ih later.length (by omega) later rfl
                  have hreads : ∀ item ∈ .flag f text :: r.items, item.Reads cmp :=
                    List.forall_mem_cons.mpr ⟨hswitch, r.reads⟩
                  exact ⟨⟨.flag f text :: r.items, hreads, r.dangling, r.dangles,
                    congrArg (text :: ·) r.whole⟩⟩
              | valued v =>
                  cases later with
                  | nil =>
                      have hdangles : ∀ d ∈ some (v, text), switchOf cmp d.2 = some (.valued d.1) := by
                        intro d hd
                        rw [← Option.some.inj hd]
                        exact hswitch
                      exact ⟨⟨[], by simp, some (v, text), hdangles, rfl⟩⟩
                  | cons value later =>
                      rw [List.length_cons] at hn
                      obtain ⟨r⟩ := ih later.length (by omega) later rfl
                      have hreads : ∀ item ∈ .valued v text value :: r.items, item.Reads cmp :=
                        List.forall_mem_cons.mpr ⟨hswitch, r.reads⟩
                      exact ⟨⟨.valued v text value :: r.items, hreads, r.dangling, r.dangles,
                        congrArg ([text, value] ++ ·) r.whole⟩⟩

end

end PwshPy.Packing.Wrapper
