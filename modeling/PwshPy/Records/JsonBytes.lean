import PwshPy.Records.PyValues

/-! # The repairing dump

`json_bytes` dumps a value as it is; only when orjson refuses is it walked, its
surrogates replaced, and dumped again. The walk tells values apart in its own way, and
agrees with orjson's where the two ways meet.
-/

namespace PwshPy.Records

open Storage

variable {κ σ : Type} [DecidableEq κ]

/-! ## The walk -/

section Walk

-- `str(key)` of a key that is no `str`
variable (key_text : κ → PyStr)

def shown_key : Key κ → PyStr
  | .text t => t
  | .other k => key_text k

mutual

/-- `_Repairer.value`, with `default=str`: the repaired value and the paths it replaced. `none` if
the `str()` of an object raises. -/
def walk (path : PyStr) : PyValue κ σ → Option (PyValue κ σ × List PyStr)
  | .text _ t =>
      let out := Repairer.text path t
      some (.text none out.1, out.2)
  | .mapping _ entries => do
      -- `_mapping`
      let out ← walk_entries path (renamed_of (entries.map Prod.fst)) entries
      some (.mapping none (Dict.ofPairs out.1), out.2)
  | .sequence _ items => do
      let out ← walk_items path 0 items
      some (.sequence none out.1, out.2)
  -- `_leaf`
  | .number own => some (.number own, [])
  | .leaf none _ => none
  | .leaf (some converted) own =>
      if has_surrogate converted then
        let out := Repairer.text path converted
        some (.text none out.1, out.2)
      else some (.leaf (some converted) own, [])

def walk_items (path : PyStr) (index : Nat) :
    List (PyValue κ σ) → Option (List (PyValue κ σ) × List PyStr)
  | [] => some ([], [])
  | item :: rest => do
      let out ← walk (join path (decimal index)) item
      let more ← walk_items path (index + 1) rest
      some (out.1 :: more.1, out.2 ++ more.2)

def walk_entries (path : PyStr) (renamed : List (PyStr × PyStr)) :
    List (Key κ × PyValue κ σ) → Option (List (Key κ × PyValue κ σ) × List PyStr)
  | [] => some ([], [])
  | (key, item) :: rest => do
      let new := renamed_key renamed key
      let place := join path (ascii (shown_key key_text new))
      let out ← walk place item
      let more ← walk_entries path renamed rest
      some ((new, out.1) :: more.1,
        (if key ∈ (renamed.map Prod.fst).map Key.text then [place] else []) ++ out.2 ++ more.2)

end

structure JsonBytes (σ : Type) where
  data : Value σ
  replaced : List PyStr

/-- `json_bytes(value, default=str)`, `none` if it raises. -/
def json_bytes (fits : σ → Bool) (value : PyValue κ σ) : Option (JsonBytes σ) :=
  match dumps fits value.read with
  | some data => some { data, replaced := [] }
  | none => do
      let out ← walk key_text [] value
      if out.2 = [] then none
      else
        let data ← dumps fits out.1.read
        some { data, replaced := Dict.fromkeys out.2 }

end Walk

end PwshPy.Records
