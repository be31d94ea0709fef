import Mathlib.Logic.Function.Basic
import Mathlib.Logic.Relation

/-! # Processes and a job object

What a member of a job starts is a member too, unless it asks to break away and the
job lets it. A process that was created suspended runs nothing before it is resumed.
A process is named by its place in the order of creation.
-/

namespace PwshPy.Jobs

open Relation (ReflTransGen)

structure Process where
  /-- the exit code, once it has ended -/
  ended : Option Int
  suspended : Bool
  member : Bool
  /-- It is the one the tree is of, or was started in the tree without asking to break away. -/
  tree : Bool

inductive Handle where
  | unmade
  | opened
  | closed
  deriving DecidableEq

/-- The processes of a host and one job on it. -/
structure Host where
  next : Nat
  process : Nat → Process
  handle : Handle
  /-- the limit flags of the job -/
  flags : Nat
  /-- the process a thread belongs to -/
  owner : Nat → Nat
  /-- the process the tree was begun with -/
  launched : Option Nat
  /-- Killing a process has failed. -/
  unkilled : Bool

namespace Host

def KILL_ON_JOB_CLOSE : Nat := 0x2000

def BREAKAWAY_OK : Nat := 0x0800

def killsOnClose (s : Host) : Bool := s.flags.testBit 13

def allowsBreakaway (s : Host) : Bool := s.flags.testBit 11

def update (s : Host) (p : Nat) (x : Process) : Host :=
  { s with process := Function.update s.process p x }

/-- A new process at the end. -/
def add (s : Host) (x : Process) : Host :=
  { s with next := s.next + 1, process := Function.update s.process s.next x }

/-- A new process that the tree is begun with. -/
def launch (s : Host) (x : Process) : Host := { s.add x with launched := some s.next }

def child (s : Host) (p : Nat) (asks suspended : Bool) : Process where
  ended := none
  suspended
  member := (s.process p).member && !(asks && s.allowsBreakaway)
  tree := (s.process p).tree && !asks

/-- A process that has ended keeps its exit code. -/
def endOf (x : Process) (code : Int) : Process := { x with ended := some (x.ended.getD code) }

def finish (s : Host) (p : Nat) (code : Int) : Host := s.update p (endOf (s.process p) code)

/-- All members end. -/
def endMembers (s : Host) (code : Int) : Host :=
  { s with process := fun p => if (s.process p).member then endOf (s.process p) code else s.process p }

/-- The last handle of the job is closed. -/
def closeJob (s : Host) : Host :=
  if s.killsOnClose then { s.endMembers 0 with handle := .closed } else { s with handle := .closed }

end Host

/-- What the processes of the host do. A process of the tree that is not in the job is
resumed by nobody but the one that created it. -/
inductive Move : Host → Host → Prop where
  | start {s : Host} {p : Nat} {asks suspended : Bool} (hp : p < s.next)
      (halive : (s.process p).ended = none) (hruns : (s.process p).suspended = false)
      (hmay : asks = true → (s.process p).member = true → s.allowsBreakaway = true) :
      Move s (s.add (s.child p asks suspended))
  | finish {s : Host} {p : Nat} {code : Int} (hp : p < s.next) : Move s (s.finish p code)
  | suspend {s : Host} {p : Nat} {on : Bool}
      (h : (s.process p).tree = true → (s.process p).member = true) :
      Move s (s.update p { s.process p with suspended := on })

abbrev Later : Host → Host → Prop := ReflTransGen Move

/-! ## What stays -/

namespace Host

variable {s s' : Host} {p q : Nat}

@[simp] theorem process_update_self (x : Process) : (s.update p x).process p = x :=
  Function.update_self _ _ _

theorem process_update_of_ne (h : q ≠ p) (x : Process) : (s.update p x).process q = s.process q :=
  Function.update_of_ne h _ _

@[simp] theorem process_add_next (x : Process) : (s.add x).process s.next = x :=
  Function.update_self _ _ _

theorem process_add_of_lt (h : q < s.next) (x : Process) : (s.add x).process q = s.process q :=
  Function.update_of_ne (Nat.ne_of_lt h) _ _

/-- No process belongs to the tree yet. -/
def Bare (s : Host) : Prop := ∀ p < s.next, (s.process p).tree = false

/-- No process of the tree is left running. -/
def Gone (s : Host) : Prop := ∀ p < s.next, (s.process p).tree = true → (s.process p).ended ≠ none

/-- What is left of the tree is in the job. -/
def Confined (s : Host) : Prop :=
  ∀ p < s.next, (s.process p).tree = true → (s.process p).ended = none → (s.process p).member = true

/-- The tree is one process, which has run nothing yet. -/
structure Waiting (s : Host) (program : Nat) : Prop where
  launched : s.launched = some program
  created : program < s.next
  tree : (s.process program).tree = true
  only : ∀ p < s.next, (s.process p).tree = true → p = program
  suspended : (s.process program).suspended = true
  outside : (s.process program).member = false

/-- The program the tree was begun with ended with this code. -/
structure Ended (s : Host) (program : Nat) (code : Int) : Prop where
  launched : s.launched = some program
  created : program < s.next
  tree : (s.process program).tree = true
  ended : (s.process program).ended = some code

/-- What is left of the tree is in the job, or it is the program alone, which waits
outside because killing it failed. -/
def Left (s : Host) : Prop :=
  s.Confined ∨ s.unkilled = true ∧ ∃ program, s.Waiting program

theorem Gone.confined (h : s.Gone) : s.Confined := fun p hp htree hended =>
  absurd hended (h p hp htree)

/-- What a move of the processes can do. -/
structure Onward (s s' : Host) : Prop where
  handle : s'.handle = s.handle
  flags : s'.flags = s.flags
  launched : s'.launched = s.launched
  unkilled : s'.unkilled = s.unkilled
  next : s.next ≤ s'.next
  tree : ∀ q < s.next, (s'.process q).tree = (s.process q).tree
  member : ∀ q < s.next, (s'.process q).member = (s.process q).member
  ended : ∀ q < s.next, ∀ code, (s.process q).ended = some code → (s'.process q).ended = some code
  /-- what waits outside the job goes on waiting -/
  waits : ∀ q < s.next, (s.process q).tree = true → (s.process q).member = false →
    (s'.process q).suspended = (s.process q).suspended
  /-- a new process of the tree was started by one that runs, and is in the job with it -/
  fresh : ∀ q, s.next ≤ q → q < s'.next → (s'.process q).tree = true →
    ∃ p < s.next, (s.process p).tree = true ∧ (s.process p).ended = none ∧
      (s.process p).suspended = false ∧ (s'.process q).member = (s.process p).member

end Host

theorem Host.Onward.update {s : Host} {p : Nat} {x : Process} (htree : x.tree = (s.process p).tree)
    (hmember : x.member = (s.process p).member)
    (hended : ∀ code, (s.process p).ended = some code → x.ended = some code)
    (hwaits : (s.process p).tree = true → (s.process p).member = false →
      x.suspended = (s.process p).suspended) : s.Onward (s.update p x) := by
  have hother : ∀ q, q ≠ p → (s.update p x).process q = s.process q := fun q hq =>
    Host.process_update_of_ne hq x
  constructor
  case handle => rfl
  case flags => rfl
  case launched => rfl
  case unkilled => rfl
  case next => exact Nat.le_refl _
  case tree =>
    intro q _
    by_cases hq : q = p
    · rw [hq, Host.process_update_self, htree]
    · rw [hother q hq]
  case member =>
    intro q _
    by_cases hq : q = p
    · rw [hq, Host.process_update_self, hmember]
    · rw [hother q hq]
  case ended =>
    intro q _ code hcode
    by_cases hq : q = p
    · rw [hq] at hcode ⊢
      rw [Host.process_update_self, hended code hcode]
    · rw [hother q hq, hcode]
  case waits =>
    intro q _ htree hout
    by_cases hq : q = p
    · rw [hq] at htree hout ⊢
      rw [Host.process_update_self, hwaits htree hout]
    · rw [hother q hq]
  case fresh => exact fun q hge hlt => absurd hlt (Nat.not_lt.mpr hge)

theorem endOf_some {x : Process} {code before : Int} (h : x.ended = some before) :
    (Host.endOf x code).ended = some before := by
  rw [Host.endOf, h, Option.getD_some]

theorem Move.onward {s s' : Host} (h : Move s s') : s.Onward s' := by
  cases h with
  | @start p asks suspended hp halive hruns hmay =>
      have hold : ∀ q < s.next, (s.add (s.child p asks suspended)).process q = s.process q :=
        fun q hq => Host.process_add_of_lt hq _
      constructor
      case handle => rfl
      case flags => rfl
      case launched => rfl
      case unkilled => rfl
      case next => exact Nat.le_succ _
      case tree => exact fun q hq => congrArg Process.tree (hold q hq)
      case member => exact fun q hq => congrArg Process.member (hold q hq)
      case ended => exact fun q hq code hcode => hold q hq ▸ hcode
      case waits => exact fun q hq _ _ => congrArg Process.suspended (hold q hq)
      case fresh =>
        intro q hge hlt htree
        obtain rfl : q = s.next := Nat.le_antisymm (Nat.le_of_lt_succ hlt) hge
        rw [Host.process_add_next] at htree ⊢
        simp only [Host.child, Bool.and_eq_true, Bool.not_eq_true'] at htree
        refine ⟨p, hp, htree.1, halive, hruns, ?_⟩
        simp [Host.child, htree.2]
  | finish hp => exact .update rfl rfl (fun _ hcode => endOf_some hcode) fun _ _ => rfl
  | suspend hwaits =>
      refine .update rfl rfl (fun _ hcode => hcode) fun htree hout => ?_
      rw [hwaits htree] at hout
      cases hout

/-! ## What the processes keep -/

namespace Host

theorem kept {P : Host → Prop} {s s' : Host} (hstep : ∀ t t', t.Onward t' → P t → P t')
    (hlater : Later s s') (h : P s) : P s' := by
  induction hlater with
  | refl => exact h
  | tail _ hmove ih => exact hstep _ _ hmove.onward ih

variable {s s' : Host} {p program : Nat} {code : Int}

theorem Onward.bare (ho : s.Onward s') (h : s.Bare) : s'.Bare := by
  intro q hq
  by_cases hold : q < s.next
  · rw [ho.tree q hold, h q hold]
  · by_contra htree
    obtain ⟨p, hp, hparent, -⟩ := ho.fresh q (Nat.not_lt.mp hold) hq (Bool.not_eq_false _ ▸ htree)
    rw [h p hp] at hparent
    cases hparent

theorem Onward.gone (ho : s.Onward s') (h : s.Gone) : s'.Gone := by
  intro q hq htree
  by_cases hold : q < s.next
  · rw [ho.tree q hold] at htree
    obtain ⟨code, hcode⟩ := Option.ne_none_iff_exists'.mp (h q hold htree)
    rw [ho.ended q hold code hcode]
    exact Option.some_ne_none code
  · obtain ⟨p, hp, hparent, halive, -⟩ := ho.fresh q (Nat.not_lt.mp hold) hq htree
    exact absurd halive (h p hp hparent)

theorem Onward.confined (ho : s.Onward s') (h : s.Confined) : s'.Confined := by
  intro q hq htree halive
  by_cases hold : q < s.next
  · rw [ho.tree q hold] at htree
    rw [ho.member q hold]
    refine h q hold htree ?_
    by_contra hended
    obtain ⟨code, hcode⟩ := Option.ne_none_iff_exists'.mp hended
    rw [ho.ended q hold code hcode] at halive
    cases halive
  · obtain ⟨p, hp, hparent, hrunning, -, hmember⟩ := ho.fresh q (Nat.not_lt.mp hold) hq htree
    rw [hmember, h p hp hparent hrunning]

theorem Onward.waiting (ho : s.Onward s') (h : s.Waiting program) : s'.Waiting program := by
  constructor
  case launched => rw [ho.launched, h.launched]
  case created => exact Nat.lt_of_lt_of_le h.created ho.next
  case tree => rw [ho.tree program h.created, h.tree]
  case suspended => rw [ho.waits program h.created h.tree h.outside, h.suspended]
  case outside => rw [ho.member program h.created, h.outside]
  case only =>
    intro q hq htree
    by_cases hold : q < s.next
    · rw [ho.tree q hold] at htree
      exact h.only q hold htree
    · obtain ⟨p, hp, hparent, -, hruns, -⟩ := ho.fresh q (Nat.not_lt.mp hold) hq htree
      rw [h.only p hp hparent, h.suspended] at hruns
      cases hruns

theorem Onward.program_ended (ho : s.Onward s') (h : s.Ended program code) : s'.Ended program code where
  launched := by rw [ho.launched, h.launched]
  created := Nat.lt_of_lt_of_le h.created ho.next
  tree := by rw [ho.tree program h.created, h.tree]
  ended := ho.ended program h.created code h.ended

theorem Onward.left (ho : s.Onward s') (h : s.Left) : s'.Left := by
  obtain hconfined | ⟨hfailed, program, hwaiting⟩ := h
  · exact Or.inl (ho.confined hconfined)
  · refine Or.inr ⟨?_, program, ho.waiting hwaiting⟩
    rw [ho.unkilled, hfailed]

/-! ## What is done to a job -/

/-- The program is in the job, with all that is left of its tree, and the job kills when
it is closed. -/
structure Inside (s : Host) (program : Nat) : Prop where
  kills : s.killsOnClose = true
  confined : s.Confined
  launched : s.launched = some program
  created : program < s.next
  tree : (s.process program).tree = true
  member : (s.process program).member = true

theorem Onward.kills (ho : s.Onward s') (h : s.killsOnClose = true) : s'.killsOnClose = true := by
  rw [killsOnClose, ho.flags]
  exact h

theorem Onward.inside (ho : s.Onward s') (h : s.Inside program) : s'.Inside program where
  kills := ho.kills h.kills
  confined := ho.confined h.confined
  launched := by rw [ho.launched, h.launched]
  created := Nat.lt_of_lt_of_le h.created ho.next
  tree := by rw [ho.tree program h.created, h.tree]
  member := by rw [ho.member program h.created, h.member]

theorem update_suspended (q : Nat) (on : Bool) :
    ∀ p, ((s.update q { s.process q with suspended := on }).process p).tree = (s.process p).tree ∧
      ((s.update q { s.process q with suspended := on }).process p).member = (s.process p).member ∧
        ((s.update q { s.process q with suspended := on }).process p).ended = (s.process p).ended := by
  intro p
  by_cases h : p = q
  · rw [h, process_update_self]
    exact ⟨rfl, rfl, rfl⟩
  · rw [process_update_of_ne h]
    exact ⟨rfl, rfl, rfl⟩

theorem Inside.resume (h : s.Inside program) (q : Nat) :
    (s.update q { s.process q with suspended := false }).Inside program := by
  have hsame := update_suspended (s := s) q false
  refine ⟨h.kills, fun p hp htree halive => ?_, h.launched, h.created, ?_, ?_⟩
  · rw [(hsame p).1] at htree
    rw [(hsame p).2.2] at halive
    rw [(hsame p).2.1]
    exact h.confined p hp htree halive
  · rw [(hsame program).1, h.tree]
  · rw [(hsame program).2.1, h.member]

theorem Inside.unkilled (h : s.Inside program) : { s with unkilled := true }.Inside program :=
  ⟨h.kills, h.confined, h.launched, h.created, h.tree, h.member⟩

theorem Waiting.unkilled (h : s.Waiting program) : { s with unkilled := true }.Waiting program :=
  ⟨h.launched, h.created, h.tree, h.only, h.suspended, h.outside⟩

theorem Onward.finish : s.Onward (s.finish p code) :=
  .update rfl rfl (fun _ hcode => endOf_some hcode) fun _ _ => rfl

theorem process_endMembers (q : Nat) : (s.endMembers code).process q =
    if (s.process q).member then endOf (s.process q) code else s.process q := rfl

theorem Onward.endMembers : s.Onward (s.endMembers code) where
  handle := rfl
  flags := rfl
  launched := rfl
  unkilled := rfl
  next := Nat.le_refl _
  tree := fun q _ => by
    rw [process_endMembers]
    split <;> rfl
  member := fun q _ => by
    rw [process_endMembers]
    split <;> rfl
  ended := fun q _ before h => by
    rw [process_endMembers]
    split
    · exact endOf_some h
    · exact h
  waits := fun q _ _ _ => by
    rw [process_endMembers]
    split <;> rfl
  fresh := fun q hge hlt => absurd hlt (Nat.not_lt.mpr hge)

theorem Confined.endMembers (h : s.Confined) : (s.endMembers code).Gone := by
  intro q hq htree halive
  rw [process_endMembers] at htree halive
  split at halive
  · exact Option.some_ne_none _ halive
  · rename_i hout
    rw [if_neg hout] at htree
    exact hout (h q hq htree halive)

theorem Confined.closeJob (h : s.Confined) (hkills : s.killsOnClose = true) : s.closeJob.Gone := by
  rw [Host.closeJob, if_pos hkills]
  exact h.endMembers

theorem unkilled_closeJob : s.closeJob.unkilled = s.unkilled := by
  rw [Host.closeJob]
  split <;> rfl

theorem Ended.closeJob (h : s.Ended program code) : s.closeJob.Ended program code := by
  rw [Host.closeJob]
  split
  · have hended : (s.endMembers 0).Ended program code := Onward.endMembers.program_ended h
    exact ⟨hended.launched, hended.created, hended.tree, hended.ended⟩
  · exact ⟨h.launched, h.created, h.tree, h.ended⟩

/-- What waits outside the job is not ended with it. -/
theorem Waiting.closeJob (h : s.Waiting program) : s.closeJob.Waiting program := by
  have hmembers : (s.endMembers 0).Waiting program := Onward.endMembers.waiting h
  rw [Host.closeJob]
  split
  · exact ⟨hmembers.launched, hmembers.created, hmembers.tree, hmembers.only, hmembers.suspended,
      hmembers.outside⟩
  · exact ⟨h.launched, h.created, h.tree, h.only, h.suspended, h.outside⟩

/-- The program is created before anything of its tree. -/
theorem Bare.launch (h : s.Bare) : (s.launch ⟨none, true, false, true⟩).Waiting s.next := by
  have hprocess : ∀ x : Process, (s.launch x).process = (s.add x).process := fun _ => rfl
  constructor
  case launched => rfl
  case created => exact Nat.lt_succ_self _
  case tree => rw [hprocess, process_add_next]
  case suspended => rw [hprocess, process_add_next]
  case outside => rw [hprocess, process_add_next]
  case only =>
    intro q hq htree
    rcases Nat.lt_succ_iff_lt_or_eq.mp hq with hold | hnew
    · rw [hprocess, process_add_of_lt hold, h q hold] at htree
      cases htree
    · exact hnew

theorem Waiting.assign (h : s.Waiting program) (hkills : s.killsOnClose = true) :
    (s.update program { s.process program with member := true }).Inside program where
  kills := hkills
  launched := h.launched
  created := h.created
  tree := by rw [process_update_self]; exact h.tree
  member := by rw [process_update_self]
  confined := fun q hq htree _ => by
    by_cases hprogram : q = program
    · rw [hprogram, process_update_self]
    · rw [process_update_of_ne hprogram] at htree
      exact absurd (h.only q hq htree) hprogram

theorem Waiting.finish (h : s.Waiting program) : (s.finish program code).Gone := by
  intro q hq htree
  by_cases hprogram : q = program
  · rw [hprogram, Host.finish, process_update_self]
    exact Option.some_ne_none _
  · rw [Host.finish, process_update_of_ne hprogram] at htree
    exact absurd (h.only q hq htree) hprogram

theorem Bare.gone (h : s.Bare) : s.Gone := fun p hp htree => by
  rw [h p hp] at htree
  cases htree

theorem Bare.closeJob (h : s.Bare) : s.closeJob.Bare := by
  have hmembers : (s.endMembers 0).Bare := Onward.endMembers.bare h
  rw [Host.closeJob]
  split
  · exact hmembers
  · exact h

end Host

end PwshPy.Jobs
