import PwshPy.Storage.Nested
import PwshPy.Text.Errors

/-! # Configuration overrides

Each `--set SECTION.KEY=VALUE` is parsed, overrides that contradict each other
are refused, and the rest are nested into one mapping, in their order.
-/

namespace PwshPy.Config

open Storage

def EQUALS : Nat := 0x3d
def DOT : Nat := 0x2e

/-! ## One override -/

structure ConfigOverride (σ : Type) where
  section_ : PyStr
  key_path : List PyStr
  value : Item PyStr σ

variable {σ : Type}

/-- `(override.section, *override.key_path)` -/
def ConfigOverride.components (override : ConfigOverride σ) : List PyStr :=
  override.section_ :: override.key_path

def ConfigOverride.dotted_key (override : ConfigOverride σ) : PyStr :=
  [DOT].intercalate override.components

section Parse

-- `orjson.loads`, none where it raises, and a text as a value
variable (loads : PyStr → Option (Item PyStr σ)) (str : PyStr → σ)

def coerce_value (raw : PyStr) : Item PyStr σ :=
  if raw = [] then .scalar (str [])
  else
    match loads raw with
    | some value => value.given
    | none => .scalar (str raw)

/-- What stands before the first `=`. -/
def path_part (raw : PyStr) : PyStr := raw.takeWhile (· ≠ EQUALS)

/-- What stands behind the first `=`. -/
def value_str (raw : PyStr) : PyStr := (raw.dropWhile (· ≠ EQUALS)).tail

def parse_override (raw : PyStr) : Except PyError (ConfigOverride σ) :=
  let invalid (why : PyStr) : PyError :=
    valueError [.text (py "Invalid override "), .repr raw, .text why]
  if EQUALS ∉ raw then .error (invalid (py ": must contain '='"))
  else if DOT ∉ path_part raw then
    .error (invalid (py ": key must contain at least one dot (SECTION.KEY)"))
  else
    let parts := (path_part raw).splitOn DOT
    let section_ := parts.headD []
    let key_parts := parts.tail
    if section_ = [] then .error (invalid (py ": section name is empty"))
    else if ¬key_parts.all (· ≠ []) then
      .error (invalid (py ": key path contains empty component"))
    else .ok { section_, key_path := key_parts, value := coerce_value loads str (value_str raw) }

end Parse

/-! ## All overrides -/

/-- `_nest_override`: the nested tables, and of each table entered or written into whether it is
part of an override's value; none where a value stands where a table is needed. -/
def nest_override (target : Item PyStr σ) (override : ConfigOverride σ) :
    Option (Item PyStr σ × List Bool) :=
  target.write override.components override.value

/-- The loop of `nest_overrides`. -/
def nest_all (target : Item PyStr σ) : List (ConfigOverride σ) → Option (Item PyStr σ × List Bool)
  | [] => some (target, [])
  | override :: rest =>
      match nest_override target override with
      | none => none
      | some (target, entered) =>
          match nest_all target rest with
          | none => none
          | some (target, later) => some (target, entered ++ later)

/-- The first key that another one is under, and the first that is. -/
def find_conflict (dotted_keys : List PyStr) : Option (PyStr × PyStr) :=
  dotted_keys.findSome? fun key =>
    (dotted_keys.find? fun other => (key ++ [DOT]).isPrefixOf other).map fun nested => (key, nested)

/-- `_refuse_conflicts` -/
def refuse_conflicts (dotted_keys : List PyStr) : Except PyError Unit :=
  match find_conflict dotted_keys with
  | some (key, nested) =>
      .error (valueError [.text (py "conflicting --set overrides: "), .text key,
        .text (py " is given a value and "), .text nested, .text (py " puts a key under it")])
  | none => .ok ()

inductive OverrideError where
  | value_error (e : PyError)
  /-- a step met a value that is no table -/
  | attribute_error

/-- The nested mapping, the dotted keys it sets, and what the steps that built it entered. -/
structure Overrides (σ : Type) where
  tree : Item PyStr σ
  keys : List PyStr
  entered : List Bool

def nest_overrides (loads : PyStr → Option (Item PyStr σ)) (str : PyStr → σ)
    (raw_overrides : List PyStr) : Except OverrideError (Overrides σ) :=
  match raw_overrides.mapM (parse_override loads str) with
  | .error e => .error (.value_error e)
  | .ok parsed =>
      let dotted_keys := parsed.map ConfigOverride.dotted_key
      match refuse_conflicts dotted_keys with
      | .error e => .error (.value_error e)
      | .ok () =>
          match nest_all Item.fresh parsed with
          | none => .error .attribute_error
          | some (tree, entered) => .ok { tree, keys := dotted_keys, entered }

end PwshPy.Config
