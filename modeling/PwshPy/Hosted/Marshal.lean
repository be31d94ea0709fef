import PwshPy.Storage.Dict
import PwshPy.Text.Errors

/-! # Marshaling the engine's results

The engine hands back a graph of objects. Each call into it answers or raises, references may form
cycles, and Python stops a recursion that runs out of frames.
-/

namespace PwshPy.Hosted

open Storage Raises

/-! ## The graph -/

/-- What pythonnet hands over as a Python value. -/
inductive Primitive where
  | none
  | str (text : PyStr)
  | int (n : Int)
  /-- a double by its bits -/
  | float (bits : Nat)
  | bool (b : Bool)
  deriving DecidableEq

/-- A .NET exception by its text. -/
structure NetException where
  message : PyStr
  deriving DecidableEq

/-- The outcome of a call into the engine. -/
abbrev Read (α : Type) : Type := Except NetException α

/-- A value inside a graph of so many objects. -/
inductive NetValue (size : Nat) where
  | primitive (p : Primitive)
  | object (place : Fin size)

structure PSObject (size : Nat) where
  /-- `BaseObject`, where it is a primitive -/
  base : Option Primitive
  /-- `str(prop.Name)` and `prop.Value` -/
  properties : List (Read PyStr × Read (NetValue size))
  type_names : List PyStr

inductive NetObject (size : Nat) where
  | ps_object (o : PSObject size)
  /-- an `IDictionary`: `str(key)` and `value[key]` -/
  | dictionary (entries : List (Read PyStr × Read (NetValue size)))
  /-- an `IEnumerable` that is no dictionary -/
  | enumerable (items : List (Read (NetValue size)))
  /-- any other .NET object by its `str(value)` -/
  | other (text : Read PyStr)

structure Graph where
  size : Nat
  object : Fin size → NetObject size

/-! ## Marshaling -/

/-- A Python value; a `PSObjectRecord` by its two fields. -/
inductive Marshaled where
  | primitive (p : Primitive)
  | record (type_name : PyStr) (properties : List (PyStr × Marshaled))
  | dict (entries : List (PyStr × Marshaled))
  | list (items : List Marshaled)

inductive Raised where
  | feature_unavailable
  | powershell (message : PyStr)
  | net (e : NetException)
  | recursion_error
  | type_error
  deriving DecidableEq

/-- `isinstance(exc, PwshPyError)` -/
def Raised.is_pwshpy : Raised → Bool
  | .feature_unavailable => true
  | .powershell _ => true
  | .net _ => false
  | .recursion_error => false
  | .type_error => false

/-- A call into the engine that nothing guards. -/
def read {α : Type} : Read α → Except Raised α
  | .ok value => .ok value
  | .error e => .error (.net e)

section Members

variable {size : Nat} (marshal_value : NetValue size → Except Raised Marshaled)

/-- The pairs of a dict comprehension, in their order. -/
def members : List (Read PyStr × Read (NetValue size)) → Except Raised (List (PyStr × Marshaled))
  | [] => .ok []
  | (key, value) :: rest => do
      let key ← read key
      let value ← read value
      let value ← marshal_value value
      let rest ← members rest
      .ok ((key, value) :: rest)

def items : List (Read (NetValue size)) → Except Raised (List Marshaled)
  | [] => .ok []
  | item :: rest => do
      let item ← read item
      let item ← marshal_value item
      let rest ← items rest
      .ok (item :: rest)

end Members

theorem frames_sub_lt (frames taken : Nat) : frames - taken < frames + 1 :=
  Nat.lt_succ_of_le (Nat.sub_le frames taken)

/-- `str(type_names[0]) if type_names.Count else ""` -/
def PSObject.type_name {size : Nat} (o : PSObject size) : PyStr := o.type_names.headD []

section Marshal

-- `comprehension`: the frames a comprehension takes, none from Python 3.12 on and one before
variable (graph : Graph) (comprehension : Nat)

mutual

/-- `_marshal_value`, with so many frames left. -/
def marshal_value : Nat → NetValue graph.size → Except Raised Marshaled
  | 0, _ => .error .recursion_error
  | _ + 1, .primitive p => .ok (.primitive p)
  | frames + 1, .object place =>
      match graph.object place with
      | .ps_object o => marshal frames o
      | .dictionary entries =>
          if comprehension ≤ frames then do
            let entries ← members (marshal_value (frames - comprehension)) entries
            .ok (.dict (Dict.ofPairs entries))
          else .error .recursion_error
      | .enumerable values =>
          if comprehension ≤ frames then do
            let values ← items (marshal_value (frames - comprehension)) values
            .ok (.list values)
          else .error .recursion_error
      | .other text => do
          let text ← read text
          .ok (.primitive (.str text))
termination_by frames => frames
decreasing_by
  all_goals first | exact Nat.lt_succ_self _ | exact frames_sub_lt _ _

/-- `_marshal` -/
def marshal : Nat → PSObject graph.size → Except Raised Marshaled
  | 0, _ => .error .recursion_error
  | frames + 1, o =>
      match o.base with
      | some p => .ok (.primitive p)
      | none =>
          if comprehension ≤ frames then do
            let properties ← members (marshal_value (frames - comprehension)) o.properties
            .ok (.record o.type_name (Dict.ofPairs properties))
          else .error .recursion_error
termination_by frames => frames
decreasing_by exact frames_sub_lt _ _

end

end Marshal

/-! ## What marshaling raises -/

/-- What is raised is none of the program's own errors. -/
def Untyped {α : Type} (x : Except Raised α) : Prop := ∀ e, x = .error e → e.is_pwshpy = false

section Untyped

variable {α β : Type}

theorem untyped_ok (a : α) : Untyped (.ok a) := by
  intro e h
  cases h

theorem untyped_recursion_error : Untyped (.error .recursion_error : Except Raised α) := by
  intro e h
  cases h
  rfl

theorem untyped_read (x : Read α) : Untyped (read x) := by
  intro e h
  cases x with
  | ok a => cases h
  | error raised =>
      cases h
      rfl

theorem Untyped.bind {x : Except Raised α} {f : α → Except Raised β} (hx : Untyped x)
    (hf : ∀ a, Untyped (f a)) : Untyped (x >>= f) := by
  intro e h
  rw [bind_eq_error] at h
  cases h with
  | inl h => exact hx e h
  | inr h =>
      obtain ⟨a, -, h⟩ := h
      exact hf a e h

theorem Untyped.stopped {enough : Prop} [Decidable enough] {x : Except Raised α} (hx : Untyped x) :
    Untyped (if enough then x else .error .recursion_error) := by
  split
  · exact hx
  · exact untyped_recursion_error

variable {size : Nat} {inner : NetValue size → Except Raised Marshaled}

theorem untyped_members (h : ∀ v, Untyped (inner v))
    (pairs : List (Read PyStr × Read (NetValue size))) : Untyped (members inner pairs) := by
  induction pairs with
  | nil => exact untyped_ok _
  | cons pair rest ih =>
      rw [members]
      exact (untyped_read _).bind fun _ => (untyped_read _).bind fun _ => (h _).bind fun _ =>
        ih.bind fun _ => untyped_ok _

theorem untyped_items (h : ∀ v, Untyped (inner v)) (values : List (Read (NetValue size))) :
    Untyped (items inner values) := by
  induction values with
  | nil => exact untyped_ok _
  | cons value rest ih =>
      rw [items]
      exact (untyped_read _).bind fun _ => (h _).bind fun _ => ih.bind fun _ => untyped_ok _

theorem untyped_marshal (graph : Graph) (comprehension frames : Nat) :
    (∀ v, Untyped (marshal_value graph comprehension frames v)) ∧
      ∀ o, Untyped (marshal graph comprehension frames o) := by
  induction frames using Nat.strong_induction_on with
  | _ frames ih =>
      cases frames with
      | zero =>
          constructor
          · intro v
            rw [marshal_value]
            exact untyped_recursion_error
          · intro o
            rw [marshal]
            exact untyped_recursion_error
      | succ frames =>
          have hinner := (ih (frames - comprehension) (by omega)).1
          constructor
          · intro v
            cases v with
            | primitive p =>
                rw [marshal_value]
                exact untyped_ok _
            | object place =>
                rw [marshal_value]
                split
                · exact (ih frames (Nat.lt_succ_self _)).2 _
                · exact ((untyped_members hinner _).bind fun _ => untyped_ok _).stopped
                · exact ((untyped_items hinner _).bind fun _ => untyped_ok _).stopped
                · exact (untyped_read _).bind fun _ => untyped_ok _
          · intro o
            rw [marshal]
            split
            · exact untyped_ok _
            · exact ((untyped_members hinner _).bind fun _ => untyped_ok _).stopped

end Untyped

end PwshPy.Hosted
