import Mathlib.Logic.Relation
import PwshPy.Files.Buffered
import PwshPy.Native.StatusJson

/-! # What the tree helper reports

`main` from the moment its handlers are installed: it opens the status pipe, reads
and runs the request, and reports. SIGTERM is raised as an exception wherever it
is delivered, once at most; what each `except` and the `with` then do is the rest
of the run.
-/

namespace PwshPy.TreeReaper

open Buffered

/-- Where a report is made: in the body of the `try`, or in one of its handlers. -/
inductive Scope where
  | body
  | terminated
  | failed
  deriving DecidableEq

namespace Report

/-- Where the helper is. -/
inductive Place where
  /-- the handlers are installed -/
  | installed
  /-- in the `with`, before its `try` -/
  | opened
  /-- the request is read and decoded -/
  | requesting
  /-- in `_run`, before its `try` -/
  | becoming
  /-- in the `try` of `_run`: the program is started and waited for -/
  | running
  /-- in the handler of `_run`: the tree is killed -/
  | killing
  | reporting (scope : Scope) (status : Status) (ops : List (Op Nat))
  /-- behind the `try`: the `with` closes the pipe -/
  | closing (ops : List (Op Nat))
  | exited

/-- A delivery of SIGTERM: where the helper was and what the file had taken. -/
structure Delivery where
  place : Place
  file : File Nat

structure State where
  place : Place
  file : File Nat
  /-- the SIGTERM, once it has been delivered -/
  term : Option Delivery

def start : State := { place := .installed, file := .empty, term := none }

/-- `_report(status, …)`, about to write. -/
def Place.report (scope : Scope) (status : Status) : Place :=
  .reporting scope status (Buffered.report (encode_status status))

/-- Where `_TerminateRequestedError` leads from a place. -/
def Place.raised : Place → Place
  | installed => .exited
  | opened => .closing Buffered.close
  | running => .killing
  | requesting | becoming | killing => .report .terminated .killed
  | reporting .body _ _ => .report .terminated .killed
  | reporting _ _ _ => .closing Buffered.close
  | closing _ => .exited
  | exited => .exited

variable (sizes : Sizes)

/-- One step of the helper. What the request says, how the program is started and how it ends is
open, and so is how much the pipe takes at a time. -/
inductive Step : State → State → Prop
  | open_status {f : File Nat} {term : Option Delivery} :
      Step ⟨.installed, f, term⟩ ⟨.opened, f, term⟩
  | try_ {f : File Nat} {term : Option Delivery} : Step ⟨.opened, f, term⟩ ⟨.requesting, f, term⟩
  | decoded {f : File Nat} {term : Option Delivery} :
      Step ⟨.requesting, f, term⟩ ⟨.becoming, f, term⟩
  | became {f : File Nat} {term : Option Delivery} :
      Step ⟨.becoming, f, term⟩ ⟨.running, f, term⟩
  /-- The whole tree is gone. -/
  | waited {f : File Nat} {term : Option Delivery} (code : Int) :
      Step ⟨.running, f, term⟩ ⟨.report .body (.exited code), f, term⟩
  /-- `_start` raises an `OSError`. -/
  | not_started {f : File Nat} {term : Option Delivery} (exc : Raised) :
      Step ⟨.running, f, term⟩ ⟨.report .body (.of exc), f, term⟩
  | killed {f : File Nat} {term : Option Delivery} :
      Step ⟨.killing, f, term⟩ ⟨.report .body .killed, f, term⟩
  /-- Any other exception is caught by `main`. -/
  | raised {f : File Nat} {term : Option Delivery} {place : Place} (exc : Raised)
      (h : place = .requesting ∨ place = .becoming ∨ place = .running ∨ place = .killing) :
      Step ⟨place, f, term⟩ ⟨.report .failed (.of exc), f, term⟩
  | write {f : File Nat} {term : Option Delivery} {scope : Scope} {status : Status} {op : Op Nat}
      {ops : List (Op Nat)} (n : Nat) :
      Step ⟨.reporting scope status (op :: ops), f, term⟩
        ⟨.reporting scope status ((exec sizes n f op).2 ++ ops), (exec sizes n f op).1, term⟩
  | reported {f : File Nat} {term : Option Delivery} {scope : Scope} {status : Status} :
      Step ⟨.reporting scope status [], f, term⟩ ⟨.closing Buffered.close, f, term⟩
  | close {f : File Nat} {term : Option Delivery} {op : Op Nat} {ops : List (Op Nat)} (n : Nat) :
      Step ⟨.closing (op :: ops), f, term⟩
        ⟨.closing ((exec sizes n f op).2 ++ ops), (exec sizes n f op).1, term⟩
  | closed {f : File Nat} {term : Option Delivery} :
      Step ⟨.closing [], f, term⟩ ⟨.exited, f, term⟩
  /-- SIGTERM, at any point of the run. -/
  | sigterm {f : File Nat} {place : Place} :
      Step ⟨place, f, none⟩ ⟨place.raised, f, some ⟨place, f⟩⟩

def Reaches : State → State → Prop := Relation.ReflTransGen (Step sizes)

/-! ## What a delivery leads to -/

/-- The delivery spoils no report: it comes behind the beginning of the `try`; in its body nothing of
the report was taken, and in a handler all of it. -/
def Delivery.Harmless (d : Delivery) : Prop :=
  match d.place with
  | .installed | .opened => False
  | .requesting | .becoming | .running | .killing => True
  | .reporting .body _ _ => d.file.content = []
  | .reporting _ status _ => d.file.content = encode_status status
  | .closing _ | .exited => True

def Harmless (term : Option Delivery) : Prop := ∀ d ∈ term, d.Harmless

/-- The bytes are one report exactly when the delivery was harmless. -/
def Settled (bytes : PyStr) (term : Option Delivery) : Prop := OneReport bytes ↔ Harmless term

def Inv (st : State) : Prop :=
  match st.place with
  | .installed | .opened => st.file = .empty ∧ st.term = none
  | .requesting | .becoming | .running | .killing => st.file = .empty ∧ Harmless st.term
  | .reporting _ status ops =>
      Working st.file ops ∧ Settled (total st.file ops) st.term ∧
        (st.term = none → total st.file ops = encode_status status)
  | .closing ops =>
      Working st.file ops ∧ Settled (total st.file ops) st.term ∧
        (st.term = none → st.file.Drained ∧ ops.flatMap Op.inFlight = [])
  | .exited => Settled st.file.pipe st.term

theorem harmless_none : Harmless none := nofun

theorem harmless_some {d : Delivery} : Harmless (some d) ↔ d.Harmless := by
  simp [Harmless]

variable {sizes} {st st' : State}

theorem Inv.report {scope : Scope} {status : Status} {term : Option Delivery}
    (h : Harmless term) : Inv ⟨.report scope status, .empty, term⟩ := by
  have htotal : total File.empty (Buffered.report (encode_status status)) = encode_status status :=
    total_report _ _
  refine ⟨.report _ _, ?_, fun _ => htotal⟩
  rw [htotal]
  exact iff_of_true (oneReport_encode status) h

/-- The handler reports the kill behind what the file had taken. -/
theorem Inv.terminated {f : File Nat} {d : Delivery} (h : f.content = [] ↔ d.Harmless) :
    Inv ⟨.report .terminated .killed, f, some d⟩ := by
  refine ⟨.report _ _, ?_, nofun⟩
  rw [total_report, Settled, oneReport_append_killed, h, harmless_some]

/-- The `with` closes a file that has taken the beginning of a report. -/
theorem Inv.unwound {f : File Nat} {d : Delivery} {status : Status}
    (hbegun : f.content <+: encode_status status)
    (h : f.content = encode_status status ↔ d.Harmless) :
    Inv ⟨.closing Buffered.close, f, some d⟩ := by
  refine ⟨.close _, ?_, nofun⟩
  rw [total_close, Settled, oneReport_prefix hbegun, h, harmless_some]

theorem Inv.sigterm {f : File Nat} {place : Place} (inv : Inv ⟨place, f, none⟩) :
    Inv ⟨place.raised, f, some ⟨place, f⟩⟩ := by
  cases place with
  | installed =>
      obtain ⟨rfl, -⟩ := inv
      exact iff_of_false not_oneReport_nil (by simp [harmless_some, Delivery.Harmless])
  | opened =>
      obtain ⟨rfl, -⟩ := inv
      exact ⟨.close _, iff_of_false not_oneReport_nil (by simp [harmless_some, Delivery.Harmless]),
        nofun⟩
  | requesting =>
      obtain ⟨rfl, -⟩ := inv
      exact .terminated (by simp [Delivery.Harmless, File.content, File.empty])
  | becoming =>
      obtain ⟨rfl, -⟩ := inv
      exact .terminated (by simp [Delivery.Harmless, File.content, File.empty])
  | running =>
      obtain ⟨rfl, -⟩ := inv
      exact ⟨rfl, harmless_some.mpr trivial⟩
  | killing =>
      obtain ⟨rfl, -⟩ := inv
      exact .terminated (by simp [Delivery.Harmless, File.content, File.empty])
  | reporting scope status ops =>
      obtain ⟨-, -, htotal⟩ := inv
      have hbegun := content_prefix_total f ops
      rw [htotal rfl] at hbegun
      cases scope with
      | body => exact .terminated Iff.rfl
      | terminated => exact .unwound hbegun Iff.rfl
      | failed => exact .unwound hbegun Iff.rfl
  | closing ops =>
      obtain ⟨-, hsettled, hdrained⟩ := inv
      obtain ⟨hdrained, hnone⟩ := hdrained rfl
      rw [total, hnone, List.append_nil, ← hdrained.pipe] at hsettled
      exact iff_of_true (hsettled.mpr harmless_none) (harmless_some.mpr trivial)
  | exited => exact iff_of_true (inv.mpr harmless_none) (harmless_some.mpr trivial)

theorem Inv.step (inv : Inv st) (h : Step sizes st st') : Inv st' := by
  cases h with
  | open_status => exact inv
  | try_ =>
      obtain ⟨hfile, hterm⟩ := inv
      exact ⟨hfile, hterm ▸ harmless_none⟩
  | decoded => exact inv
  | became => exact inv
  | waited code =>
      obtain ⟨rfl, hterm⟩ := inv
      exact .report hterm
  | not_started exc =>
      obtain ⟨rfl, hterm⟩ := inv
      exact .report hterm
  | killed =>
      obtain ⟨rfl, hterm⟩ := inv
      exact .report hterm
  | raised exc hplace =>
      rcases hplace with rfl | rfl | rfl | rfl
      all_goals
        obtain ⟨rfl, hterm⟩ := inv
        exact .report hterm
  | write n =>
      obtain ⟨hworking, hsettled, htotal⟩ := inv
      have hsame := exec_total sizes n hworking.ordered
      refine ⟨hworking.exec sizes n, ?_, ?_⟩
      · rw [hsame]
        exact hsettled
      · rw [hsame]
        exact htotal
  | reported =>
      obtain ⟨hworking, hsettled, htotal⟩ := inv
      rw [total_nil] at hsettled
      refine ⟨.close _, ?_, fun _ => ⟨hworking.drains.drained, rfl⟩⟩
      rw [total_close]
      exact hsettled
  | @close f term op ops n =>
      obtain ⟨hworking, hsettled, hdrained⟩ := inv
      have hsame := exec_total sizes n hworking.ordered
      refine ⟨hworking.exec sizes n, ?_, ?_⟩
      · rw [hsame]
        exact hsettled
      · intro hterm
        obtain ⟨hdrained, hnone⟩ := hdrained hterm
        rw [List.flatMap_cons, List.append_eq_nil_iff] at hnone
        obtain ⟨hdrained, hflight⟩ := hdrained.exec sizes hnone.1 n
        exact ⟨hdrained, by rw [List.flatMap_append, hflight, hnone.2, List.append_nil]⟩
  | closed =>
      obtain ⟨hworking, hsettled, -⟩ := inv
      rw [total_nil, ← hworking.drains.drained.pipe] at hsettled
      exact hsettled
  | sigterm => exact inv.sigterm

theorem inv_start : Inv start := ⟨rfl, rfl⟩

theorem Reaches.inv (h : Reaches sizes start st) : Inv st := by
  induction h with
  | refl => exact inv_start
  | tail _ hstep ih => exact ih.step hstep

/-- When the helper exits the pipe holds one report, exactly when SIGTERM was not delivered, or was
delivered where it does no harm. -/
theorem reports_once_iff (sizes : Sizes) (st : State) (hrun : Reaches sizes start st)
    (hexit : st.place = .exited) : OneReport st.file.pipe ↔ Harmless st.term := by
  have inv := hrun.inv
  rw [Inv, hexit] at inv
  exact inv

/-! ## Two runs -/

/-- A file whose bytes are all on the pipe. -/
def sent (bytes : PyStr) : File Nat := { pending := [], buffered := [], pipe := bytes }

/-- A report that fits both layers is written at once. -/
theorem reaches_reported {bytes data : PyStr} {scope : Scope} {status : Status}
    {term : Option Delivery} (hdata : encode_status status = data) (hne : data ≠ [])
    (hchunk : data.length < sizes.chunk) (hbuffer : data.length ≤ sizes.buffer) :
    Reaches sizes ⟨.report scope status, sent bytes, term⟩
      ⟨.reporting scope status [], sent (bytes ++ data), term⟩ := by
  have hwrite : exec sizes 0 (sent bytes) (.write data) =
      ({ sent bytes with pending := data }, []) := by
    rw [exec, if_neg (by simp [sent]), if_neg (by simp [sent]; omega)]
    rfl
  have hpass : exec sizes 0 { sent bytes with pending := data } .writeflush =
      ({ sent bytes with buffered := data }, []) := by
    rw [exec, if_pos (by simp [sent]; omega)]
    rfl
  have hdrain : exec sizes data.length { sent bytes with buffered := data } .flush =
      (sent (bytes ++ data), [.flush]) := by
    rw [exec, if_neg (by simp [hne])]
    simp [File.drain, sent, List.take_of_length_le, List.drop_of_length_le]
  have hdone : exec sizes 0 (sent (bytes ++ data)) .flush = (sent (bytes ++ data), []) := rfl
  have h₁ := @Step.write sizes (sent bytes) term scope status (.write data) [.writeflush, .flush] 0
  have h₂ := @Step.write sizes { sent bytes with pending := data } term scope status .writeflush
    [.flush] 0
  have h₃ := @Step.write sizes { sent bytes with buffered := data } term scope status .flush []
    data.length
  have h₄ := @Step.write sizes (sent (bytes ++ data)) term scope status .flush [] 0
  rw [hwrite] at h₁
  rw [hpass] at h₂
  rw [hdrain] at h₃
  rw [hdone] at h₄
  rw [Place.report, hdata]
  exact (((Relation.ReflTransGen.single h₁).tail h₂).tail h₃).tail h₄

theorem reaches_exited {bytes : PyStr} {scope : Scope} {status : Status} {term : Option Delivery} :
    Reaches sizes ⟨.reporting scope status [], sent bytes, term⟩ ⟨.exited, sent bytes, term⟩ := by
  have hpass : exec sizes 0 (sent bytes) .writeflush = (sent bytes, []) := by
    rw [exec, if_pos (by simp [sent])]
    rfl
  have h₁ := @Step.close sizes (sent bytes) term .writeflush [.flush] 0
  have h₂ := @Step.close sizes (sent bytes) term .flush [] 0
  rw [hpass] at h₁
  exact (((Relation.ReflTransGen.single .reported).tail h₁).tail h₂).tail .closed

/-- The layers of a file as Python opens it on a pipe. -/
def pipeSizes : Sizes := { chunk := 8192, buffer := 4096 }

theorem reaches_running : Reaches pipeSizes start ⟨.running, .empty, none⟩ :=
  (((Relation.ReflTransGen.single .open_status).tail .try_).tail .decoded).tail .became

theorem reports_once_killed : ∃ st, Reaches pipeSizes start st ∧ st.place = .exited ∧
    st.term.isSome ∧ OneReport st.file.pipe := by
  have hkilled := @reaches_reported pipeSizes [] (encode_status .killed) .body .killed
    (some ⟨.running, .empty⟩) rfl (by decide) (by decide) (by decide)
  have hrun : Reaches pipeSizes start
      ⟨.exited, sent (encode_status .killed), some ⟨.running, .empty⟩⟩ :=
    (((reaches_running.tail .sigterm).tail .killed).trans hkilled).trans reaches_exited
  exact ⟨_, hrun, rfl, rfl, (reports_once_iff pipeSizes _ hrun rfl).mpr (harmless_some.mpr trivial)⟩

/-- SIGTERM behind the flush of a report, still in the `try`: a second object follows the first. -/
theorem late_sigterm_reports_twice : ∃ st, Reaches pipeSizes start st ∧ st.place = .exited ∧
    st.file.pipe = encode_status (.exited 0) ++ encode_status .killed ∧
    ¬ OneReport st.file.pipe := by
  have hexited := @reaches_reported pipeSizes [] (encode_status (.exited 0)) .body (.exited 0)
    none rfl (by decide) (by decide) (by decide)
  have hkilled := @reaches_reported pipeSizes (encode_status (.exited 0)) (encode_status .killed)
    .terminated .killed
    (some ⟨.reporting .body (.exited 0) [], sent (encode_status (.exited 0))⟩) rfl (by decide)
    (by decide) (by decide)
  have hrun := ((((reaches_running.tail (.waited 0)).trans hexited).tail .sigterm).trans
    hkilled).trans reaches_exited
  refine ⟨_, hrun, rfl, rfl, ?_⟩
  intro h
  exact absurd (oneReport_append_killed.mp h) (by decide)

end Report

end PwshPy.TreeReaper
