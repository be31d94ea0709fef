import Mathlib.Logic.Function.Basic
import Mathlib.Data.List.Basic

/-! # A directory of files

Names lead to files through links, so a file that was opened can be read on
after its name is gone. A file only grows; a name is given to a new file or
taken away.
-/

namespace PwshPy.Storage

structure Directory (ν β : Type) where
  links : List (ν × Nat)
  body : Nat → List β
  /-- no file beyond this one was made yet -/
  fresh : Nat
  made : ∀ link ∈ links, link.2 < fresh

namespace Directory

variable {ν β : Type} [DecidableEq ν] (d : Directory ν β)

/-- The file a name leads to. -/
def entry (n : ν) : Option Nat := d.links.lookup n

/-- What is in the file a name leads to. -/
def file (n : ν) : Option (List β) := (d.entry n).map d.body

def unlink (n : ν) : Directory ν β where
  links := d.links.filter fun link => link.1 ≠ n
  body := d.body
  fresh := d.fresh
  made := fun link hlink => d.made link (List.mem_of_mem_filter hlink)

/-- Give a name to a new, empty file. -/
def create (n : ν) : Directory ν β where
  links := (n, d.fresh) :: d.links.filter fun link => link.1 ≠ n
  body := Function.update d.body d.fresh []
  fresh := d.fresh + 1
  made := by
    intro link hlink
    rcases List.mem_cons.mp hlink with rfl | hlink
    · exact Nat.lt_succ_self _
    · exact Nat.lt_succ_of_lt (d.made link (List.mem_of_mem_filter hlink))

def append (ino : Nat) (bytes : List β) : Directory ν β :=
  { d with body := Function.update d.body ino (d.body ino ++ bytes) }

/-- Write a name: the file it leads to is emptied first, a new one is made where
there is none. -/
def write (n : ν) (bytes : List β) : Directory ν β :=
  match d.entry n with
  | some ino => { d with body := Function.update d.body ino bytes }
  | none => (d.create n).append d.fresh bytes

variable {d}

theorem entry_lt {n : ν} {ino : Nat} (h : d.entry n = some ino) : ino < d.fresh := by
  obtain ⟨l₁, l₂, hlinks, -⟩ := List.lookup_eq_some_iff.mp h
  exact d.made (n, ino) (by simp [hlinks])

theorem entry_eq_none_of_links_nil (h : d.links = []) (n : ν) : d.entry n = none := by
  simp [entry, h]

theorem file_eq_some {n : ν} {b : List β} :
    d.file n = some b ↔ ∃ ino, d.entry n = some ino ∧ d.body ino = b := by
  simp [file]

private theorem lookup_filter_self (links : List (ν × Nat)) (n : ν) :
    (links.filter fun link => link.1 ≠ n).lookup n = none := by
  rw [List.lookup_eq_none_iff]
  intro link hlink
  have hne : link.1 ≠ n := of_decide_eq_true (List.mem_filter.mp hlink).2
  exact bne_iff_ne.mpr (Ne.symm hne)

private theorem lookup_filter_of_ne (links : List (ν × Nat)) {n m : ν} (h : m ≠ n) :
    (links.filter fun link => link.1 ≠ n).lookup m = links.lookup m := by
  induction links with
  | nil => rfl
  | cons link links ih =>
      by_cases hlink : link.1 = n
      · have hm : (m == link.1) = false := by simp [hlink, h]
        rw [List.filter_cons_of_neg (by simp [hlink]), ih, List.lookup_cons, hm]
      · rw [List.filter_cons_of_pos (by simp [hlink]), List.lookup_cons, List.lookup_cons, ih]

@[simp] theorem entry_unlink_self (n : ν) : (d.unlink n).entry n = none :=
  lookup_filter_self d.links n

theorem entry_unlink_of_ne {n m : ν} (h : m ≠ n) : (d.unlink n).entry m = d.entry m :=
  lookup_filter_of_ne d.links h

@[simp] theorem body_unlink (n : ν) : (d.unlink n).body = d.body := rfl

@[simp] theorem entry_create_self (n : ν) : (d.create n).entry n = some d.fresh := by
  simp [entry, create]

theorem entry_create_of_ne {n m : ν} (h : m ≠ n) : (d.create n).entry m = d.entry m := by
  have hm : (m == n) = false := by simp [h]
  simp only [entry, create, List.lookup_cons, hm]
  exact lookup_filter_of_ne d.links h

@[simp] theorem body_create_fresh (n : ν) : (d.create n).body d.fresh = [] := by
  simp [create]

theorem body_create_of_lt (n : ν) {ino : Nat} (h : ino < d.fresh) :
    (d.create n).body ino = d.body ino := by
  simp [create, Nat.ne_of_lt h]

@[simp] theorem entry_append (ino : Nat) (bytes : List β) (n : ν) :
    (d.append ino bytes).entry n = d.entry n := rfl

omit [DecidableEq ν] in
@[simp] theorem body_append_self (ino : Nat) (bytes : List β) :
    (d.append ino bytes).body ino = d.body ino ++ bytes := by
  simp [append]

omit [DecidableEq ν] in
theorem body_append_of_ne {ino other : Nat} (h : other ≠ ino) (bytes : List β) :
    (d.append ino bytes).body other = d.body other := by
  simp [append, h]

theorem entry_write_of_ne {n m : ν} (h : m ≠ n) (bytes : List β) :
    (d.write n bytes).entry m = d.entry m := by
  cases hn : d.entry n with
  | none =>
      simp only [write, hn, entry_append]
      exact entry_create_of_ne h
  | some ino =>
      simp only [write, hn]
      rfl

/-- A name that leads somewhere goes on leading there. -/
theorem entry_write_of_isSome {n m : ν} (h : (d.entry m).isSome = true) (bytes : List β) :
    (d.write n bytes).entry m = d.entry m := by
  by_cases hne : m = n
  · obtain ⟨ino, hino⟩ := Option.isSome_iff_exists.mp h
    rw [← hne, write, hino]
    exact hino
  · exact entry_write_of_ne hne bytes

/-! ## What a change leaves alone -/

theorem file_unlink_of_ne {n m : ν} (h : m ≠ n) : (d.unlink n).file m = d.file m := by
  rw [file, file, entry_unlink_of_ne h, body_unlink]

theorem file_create_of_ne {n m : ν} (h : m ≠ n) : (d.create n).file m = d.file m := by
  rw [file, file, entry_create_of_ne h]
  cases hm : d.entry m with
  | none => rfl
  | some ino => exact congrArg some (body_create_of_lt n (entry_lt hm))

theorem file_append_of_ne {ino : Nat} {m : ν} (h : d.entry m ≠ some ino) (bytes : List β) :
    (d.append ino bytes).file m = d.file m := by
  rw [file, file, entry_append]
  cases hm : d.entry m with
  | none => rfl
  | some other =>
      have hne : other ≠ ino := fun heq => h (by rw [hm, heq])
      exact congrArg some (body_append_of_ne hne bytes)

theorem file_append_self {ino : Nat} {n : ν} (h : d.entry n = some ino) (bytes : List β) :
    (d.append ino bytes).file n = some (d.body ino ++ bytes) := by
  simp [file, h]

@[simp] theorem file_write_self (n : ν) (bytes : List β) :
    (d.write n bytes).file n = some bytes := by
  cases hn : d.entry n with
  | none =>
      simp only [write, hn]
      rw [file_append_self (entry_create_self n), body_create_fresh, List.nil_append]
  | some ino =>
      have hentry : ({ d with body := Function.update d.body ino bytes } : Directory ν β).entry n =
          some ino := hn
      simp only [write, hn]
      rw [file, hentry]
      simp

/-- Only names of the file that is written see it change. -/
theorem file_write_of_entry_ne {n m : ν} (hne : m ≠ n)
    (h : d.entry m ≠ d.entry n ∨ d.entry m = none) (bytes : List β) :
    (d.write n bytes).file m = d.file m := by
  cases hn : d.entry n with
  | none =>
      have hfresh : (d.create n).entry m ≠ some d.fresh := by
        rw [entry_create_of_ne hne]
        intro heq
        exact Nat.lt_irrefl _ (entry_lt heq)
      simp only [write, hn]
      rw [file_append_of_ne hfresh, file_create_of_ne hne]
  | some ino =>
      have hentry : ({ d with body := Function.update d.body ino bytes } : Directory ν β).entry m =
          d.entry m := rfl
      simp only [write, hn]
      rw [file, file, hentry]
      cases hm : d.entry m with
      | none => rfl
      | some other =>
          have hother : other ≠ ino := by
            intro heq
            cases h with
            | inl h => exact h (by rw [hm, hn, heq])
            | inr h =>
                rw [hm] at h
                cases h
          simp [hother]

end Directory

end PwshPy.Storage
