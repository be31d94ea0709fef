import PwshPy.Records.Annotations
import PwshPy.Records.Repair

/-! # Dumping records with undecodable keys

The dump of a record cannot be trusted with a key that holds a surrogate, so
each such key is masked by a placeholder no key of the record equals, and put
back afterwards. The library dumps keys repaired; the output layer dumps them
as they are and repairs them itself.
-/

namespace PwshPy.Records

open Naming Storage

variable {κ σ τ : Type} [DecidableEq κ] (models : Models κ)

/-! ## The keys of a record -/

mutual

/-- `_string_keys` -/
def string_keys : Datum κ σ → List PyStr
  | .text _ => []
  | .scalar _ => []
  | .list items => items_string_keys items
  | .tuple items => items_string_keys items
  | .mapping entries => entries_string_keys entries
  | .record m fields => fields_string_keys (mapping_fields models m) fields

def items_string_keys : List (Datum κ σ) → List PyStr
  | [] => []
  | item :: rest => string_keys item ++ items_string_keys rest

def entries_string_keys : List (PyStr × Datum κ σ) → List PyStr
  | [] => []
  | (key, item) :: rest => key :: string_keys item ++ entries_string_keys rest

def fields_string_keys (walked : List PyStr) : List (PyStr × Datum κ σ) → List PyStr
  | [] => []
  | (name, item) :: rest =>
      if name ∈ walked then string_keys item ++ fields_string_keys walked rest
      else fields_string_keys walked rest

end

mutual

/-- `_holds_surrogate_key` -/
def holds_surrogate_key : Datum κ σ → Bool
  | .text _ => false
  | .scalar _ => false
  | .list items => items_hold_surrogate_key items
  | .tuple items => items_hold_surrogate_key items
  | .mapping entries => entries_hold_surrogate_key entries
  | .record m fields => fields_hold_surrogate_key (mapping_fields models m) fields

def items_hold_surrogate_key : List (Datum κ σ) → Bool
  | [] => false
  | item :: rest => holds_surrogate_key item || items_hold_surrogate_key rest

def entries_hold_surrogate_key : List (PyStr × Datum κ σ) → Bool
  | [] => false
  | (key, item) :: rest =>
      (has_surrogate key || holds_surrogate_key item) || entries_hold_surrogate_key rest

def fields_hold_surrogate_key (walked : List PyStr) : List (PyStr × Datum κ σ) → Bool
  | [] => false
  | (name, item) :: rest =>
      if name ∈ walked then holds_surrogate_key item || fields_hold_surrogate_key walked rest
      else fields_hold_surrogate_key walked rest

end

/-! ## The mask -/

/-- `_KeyMask` -/
structure KeyMask where
  taken : List PyStr
  originals : List (PyStr × PyStr)

namespace KeyMask

def new (v : Datum κ σ) : KeyMask := { taken := string_keys models v, originals := [] }

/-- A NUL and a number. -/
def placeholder (n : Nat) : PyStr := 0 :: decimal n

/-- `_stand_in` -/
def stand_in (mask : KeyMask) (key : PyStr) : PyStr × KeyMask :=
  if has_surrogate key then
    let name := firstFree placeholder mask.taken mask.originals.length
    (name, { taken := name :: mask.taken, originals := Dict.store name key mask.originals })
  else (key, mask)

/-- `_original` -/
def original (mask : KeyMask) (key : PyStr) : PyStr := Dict.getSelf mask.originals key

mutual

/-- `mask` -/
def mask (m : KeyMask) : Datum κ σ → Datum κ σ × KeyMask
  | .text t => (.text t, m)
  | .scalar s => (.scalar s, m)
  | .list items =>
      let out := mask_items m items
      (.list out.1, out.2)
  | .tuple items =>
      let out := mask_items m items
      (.tuple out.1, out.2)
  | .mapping entries =>
      let out := mask_entries m entries
      (.mapping (Dict.ofPairs out.1), out.2)
  | .record model fields =>
      let out := mask_fields (mapping_fields models model) m fields
      (.record model out.1, out.2)

def mask_items (m : KeyMask) : List (Datum κ σ) → List (Datum κ σ) × KeyMask
  | [] => ([], m)
  | item :: rest =>
      let out := mask m item
      let more := mask_items out.2 rest
      (out.1 :: more.1, more.2)

def mask_entries (m : KeyMask) : List (PyStr × Datum κ σ) → List (PyStr × Datum κ σ) × KeyMask
  | [] => ([], m)
  | (key, item) :: rest =>
      let name := m.stand_in key
      let out := mask name.2 item
      let more := mask_entries out.2 rest
      ((name.1, out.1) :: more.1, more.2)

/-- `model_copy`, the fields that are walked replaced. -/
def mask_fields (walked : List PyStr) (m : KeyMask) :
    List (PyStr × Datum κ σ) → List (PyStr × Datum κ σ) × KeyMask
  | [] => ([], m)
  | (name, item) :: rest =>
      if name ∈ walked then
        let out := mask m item
        let more := mask_fields walked out.2 rest
        ((name, out.1) :: more.1, more.2)
      else
        let more := mask_fields walked m rest
        ((name, item) :: more.1, more.2)

end

mutual

/-- `unmask` -/
def unmask (m : KeyMask) : Value τ → Value τ
  | .text t => .text t
  | .scalar s => .scalar s
  | .list items => .list (unmask_items m items)
  | .tuple items => .tuple items
  | .mapping entries => .mapping (Dict.ofPairs (unmask_entries m entries))

def unmask_items (m : KeyMask) : List (Value τ) → List (Value τ)
  | [] => []
  | item :: rest => unmask m item :: unmask_items m rest

def unmask_entries (m : KeyMask) : List (PyStr × Value τ) → List (PyStr × Value τ)
  | [] => []
  | (key, item) :: rest => (m.original key, unmask m item) :: unmask_entries m rest

end

end KeyMask

mutual

/-- `_repair_keys` -/
def repair_keys : Value τ → Value τ
  | .text t => .text t
  | .scalar s => .scalar s
  | .list items => .list (repair_keys_items items)
  | .tuple items => .tuple items
  | .mapping entries =>
      let renamed := repaired_key_names (entries.map Prod.fst)
      .mapping (Dict.ofPairs (repair_keys_entries renamed entries))

def repair_keys_items : List (Value τ) → List (Value τ)
  | [] => []
  | item :: rest => repair_keys item :: repair_keys_items rest

def repair_keys_entries (renamed : List (PyStr × PyStr)) :
    List (PyStr × Value τ) → List (PyStr × Value τ)
  | [] => []
  | (key, item) :: rest =>
      (Dict.getSelf renamed key, repair_keys item) :: repair_keys_entries renamed rest

end

/-! ## The dumps -/

section Dumps

-- `model_dump(mode="json")`, which is not this program's: it may raise
variable (model_dump : Datum κ σ → Option (Value τ))

/-- `_dump_keeping_keys` -/
def dump_keeping_keys (record : Datum κ σ) : Option (Value τ) :=
  let masked := (KeyMask.new models record).mask models record
  (model_dump masked.1).map masked.2.unmask

def to_dict_keeping_surrogate_keys (record : Datum κ σ) : Option (Value τ) :=
  if holds_surrogate_key models record then dump_keeping_keys models model_dump record
  else model_dump record

def to_dict (record : Datum κ σ) : Option (Value τ) :=
  if holds_surrogate_key models record then
    (dump_keeping_keys models model_dump record).map repair_keys
  else model_dump record

/-- `repair_record` -/
def repair_record (record : Datum κ σ) : Option (Repaired τ) :=
  (to_dict_keeping_surrogate_keys models model_dump record).map repair_surrogates

end Dumps

/-! ## What a dump keeps -/

mutual

/-- The structure of a record as plain data: fields and mappings become mappings with the same
names, lists and tuples lists, each scalar its own JSON form. -/
def dump (leaf : σ → Value τ) : Datum κ σ → Value τ
  | .text t => .text t
  | .scalar s => leaf s
  | .list items => .list (dump_items leaf items)
  | .tuple items => .list (dump_items leaf items)
  | .mapping entries => .mapping (dump_entries leaf entries)
  | .record _ fields => .mapping (dump_entries leaf fields)

def dump_items (leaf : σ → Value τ) : List (Datum κ σ) → List (Value τ)
  | [] => []
  | item :: rest => dump leaf item :: dump_items leaf rest

def dump_entries (leaf : σ → Value τ) : List (PyStr × Datum κ σ) → List (PyStr × Value τ)
  | [] => []
  | (name, item) :: rest => (name, dump leaf item) :: dump_entries leaf rest

end

end PwshPy.Records
