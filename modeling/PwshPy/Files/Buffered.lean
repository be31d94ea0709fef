import Mathlib.Data.List.Basic

/-! # A buffered text file

A text file has two layers above the pipe it writes to: pending text, and a
buffer of bytes. Work on it is a list of operations carried out in steps, between
which an exception may be raised; what the layers hold by then stays in them, and
what an operation had not handed over is lost.
-/

namespace PwshPy.Buffered

variable {α : Type}

/-- How much pending text is passed on, and how much the buffer holds. -/
structure Sizes where
  chunk : Nat
  buffer : Nat

structure File (α : Type) where
  pending : List α
  buffered : List α
  pipe : List α

def File.empty : File α := { pending := [], buffered := [], pipe := [] }

/-- All that the file has taken. -/
def File.content (f : File α) : List α := f.pipe ++ f.buffered ++ f.pending

inductive Op (α : Type) where
  /-- `write` of the text layer -/
  | write (data : List α)
  /-- the text layer passes on what is pending -/
  | writeflush
  /-- the buffer takes bytes that do not fit as they are -/
  | pass (rest : List α)
  /-- `flush` of the buffer -/
  | flush

/-- What an operation has not handed over yet. -/
def Op.inFlight : Op α → List α
  | write data => data
  | pass rest => rest
  | writeflush | flush => []

/-- The pipe takes at least one byte of the buffer. -/
def File.drain (f : File α) (n : Nat) : File α :=
  { f with pipe := f.pipe ++ f.buffered.take (n + 1), buffered := f.buffered.drop (n + 1) }

variable (sizes : Sizes)

/-- One step of an operation, where the pipe takes at most `n + 1` bytes, and what is left of it. -/
def exec (n : Nat) (f : File α) : Op α → File α × List (Op α)
  | .write data =>
      if f.pending.length ≠ 0 ∧ sizes.chunk < f.pending.length + data.length then
        (f, [.writeflush, .write data])
      else
        ({ f with pending := f.pending ++ data },
          if sizes.chunk ≤ f.pending.length + data.length then [.writeflush] else [])
  | .writeflush =>
      if f.buffered.length + f.pending.length ≤ sizes.buffer then
        ({ f with pending := [], buffered := f.buffered ++ f.pending }, [])
      else ({ f with pending := [] }, [.pass f.pending])
  | .pass rest =>
      if f.buffered.length ≠ 0 then (f.drain n, [.pass rest])
      else if sizes.buffer < rest.length then
        ({ f with pipe := f.pipe ++ rest.take (n + 1) }, [.pass (rest.drop (n + 1))])
      else ({ f with buffered := rest }, [])
  | .flush => if f.buffered.length = 0 then (f, []) else (f.drain n, [.flush])

/-- `write` and `flush` of the file. -/
def report (data : List α) : List (Op α) := [.write data, .writeflush, .flush]

/-- What `close` does first. -/
def close : List (Op α) := [.writeflush, .flush]

/-! ## Nothing is lost between two steps -/

/-- What the pipe has in the end if the operations are carried out. -/
def total (f : File α) (ops : List (Op α)) : List α := f.content ++ ops.flatMap Op.inFlight

def Op.isPass : Op α → Bool
  | pass _ => true
  | _ => false

/-- Bytes are on their way to the buffer only while no text is pending behind them. -/
structure Ordered (f : File α) (ops : List (Op α)) : Prop where
  head : ∀ op ∈ ops.head?, op.isPass = true → f.pending = []
  tail : ∀ op ∈ ops.tail, op.isPass = false

theorem content_drain (f : File α) (n : Nat) : (f.drain n).content = f.content := by
  rw [File.content, File.content, File.drain, List.append_assoc f.pipe, List.take_append_drop]

theorem exec_total (n : Nat) {f : File α} {op : Op α} {ops : List (Op α)} (h : Ordered f (op :: ops)) :
    total (exec sizes n f op).1 ((exec sizes n f op).2 ++ ops) = total f (op :: ops) := by
  cases op with
  | write data =>
      rw [exec]
      split
      · simp [total, Op.inFlight]
      · split <;> simp [total, File.content, Op.inFlight]
  | writeflush =>
      rw [exec]
      split <;> simp [total, File.content, Op.inFlight]
  | pass rest =>
      have hpending := h.head (.pass rest) rfl rfl
      rw [exec]
      split
      · simp [total, content_drain]
      · rename_i hempty
        have hbuffered : f.buffered = [] := List.eq_nil_of_length_eq_zero (not_not.mp hempty)
        split
        · have hrest (more : List α) : rest.take (n + 1) ++ (rest.drop (n + 1) ++ more) =
              rest ++ more := by rw [← List.append_assoc, List.take_append_drop]
          simp [total, File.content, Op.inFlight, hbuffered, hpending, hrest]
        · simp [total, File.content, Op.inFlight, hbuffered, hpending]
  | flush =>
      rw [exec]
      split
      · simp [total, Op.inFlight]
      · simp [total, content_drain, Op.inFlight]

section

variable {f : File α} {op : Op α} {ops : List (Op α)}

theorem Ordered.of_plain (h : ∀ op ∈ ops, op.isPass = false) : Ordered f ops where
  head := by
    intro op hop hpass
    rw [h op (List.mem_of_head? hop)] at hpass
    cases hpass
  tail op hop := h op (List.mem_of_mem_tail hop)

theorem Ordered.pass {rest : List α} (hpending : f.pending = [])
    (h : ∀ op ∈ ops, op.isPass = false) : Ordered f (.pass rest :: ops) where
  head _ _ _ := hpending
  tail := h

theorem exec_ordered (n : Nat) (h : Ordered f (op :: ops)) :
    Ordered (exec sizes n f op).1 ((exec sizes n f op).2 ++ ops) := by
  have hplain : ∀ op ∈ ops, op.isPass = false := h.tail
  cases op with
  | write data =>
      rw [exec]
      split
      · exact .of_plain (List.forall_mem_cons.mpr ⟨rfl, List.forall_mem_cons.mpr ⟨rfl, hplain⟩⟩)
      · split
        · exact .of_plain (List.forall_mem_cons.mpr ⟨rfl, hplain⟩)
        · exact .of_plain hplain
  | writeflush =>
      rw [exec]
      split
      · exact .of_plain hplain
      · exact .pass rfl hplain
  | pass rest =>
      have hpending := h.head (.pass rest) rfl rfl
      rw [exec]
      split
      · exact .pass hpending hplain
      · split
        · exact .pass hpending hplain
        · exact .of_plain hplain
  | flush =>
      rw [exec]
      split
      · exact .of_plain hplain
      · exact .of_plain (List.forall_mem_cons.mpr ⟨rfl, hplain⟩)

/-! ## A file is flushed in the end -/

def File.Drained (f : File α) : Prop := f.pending = [] ∧ f.buffered = []

/-- Operations behind which the file is drained. -/
inductive Drains (f : File α) : List (Op α) → Prop
  | before (ops : List (Op α)) : Drains f (ops ++ close)
  | passing {rest : List α} (h : f.pending = []) : Drains f [.pass rest, .flush]
  | flushing (h : f.pending = []) : Drains f [.flush]
  | done (h : f.Drained) : Drains f []

theorem Drains.report (f : File α) (data : List α) : Drains f (report data) :=
  .before [.write data]

theorem Drains.close (f : File α) : Drains f Buffered.close := .before []

theorem exec_drains (n : Nat) (h : Drains f (op :: ops)) :
    Drains (exec sizes n f op).1 ((exec sizes n f op).2 ++ ops) := by
  generalize hall : op :: ops = all at h
  cases h with
  | before earlier =>
      cases earlier with
      | cons first earlier =>
          cases hall
          show Drains _ ((exec sizes n f op).2 ++ (earlier ++ Buffered.close))
          rw [← List.append_assoc]
          exact .before _
      | nil =>
          cases hall
          rw [exec]
          split
          · exact .flushing rfl
          · exact .passing rfl
  | passing hpending =>
      cases hall
      rw [exec]
      split
      · exact .passing hpending
      · split
        · exact .passing hpending
        · exact .flushing hpending
  | flushing hpending =>
      cases hall
      rw [exec]
      split
      · rename_i hempty
        exact .done ⟨hpending, List.eq_nil_of_length_eq_zero hempty⟩
      · exact .flushing hpending
  | done hdrained => cases hall

theorem Drains.drained (h : Drains f []) : f.Drained := by
  generalize hnil : ([] : List (Op α)) = ops at h
  cases h with
  | before earlier =>
      cases earlier with
      | nil => cases hnil
      | cons first earlier => cases hnil
  | passing => cases hnil
  | flushing => cases hnil
  | done hdrained => exact hdrained

/-- A drained file stays so while nothing is written. -/
theorem File.Drained.exec (h : f.Drained) (hnone : op.inFlight = []) (n : Nat) :
    (Buffered.exec sizes n f op).1.Drained ∧
      (Buffered.exec sizes n f op).2.flatMap Op.inFlight = [] := by
  obtain ⟨hpending, hbuffered⟩ := h
  cases op with
  | write data =>
      cases hnone
      rw [Buffered.exec, if_neg (by simp [hpending])]
      refine ⟨⟨by simp [hpending], hbuffered⟩, ?_⟩
      dsimp only
      split <;> rfl
  | writeflush =>
      rw [Buffered.exec, if_pos (by simp [hpending, hbuffered])]
      exact ⟨⟨rfl, by simp [hpending, hbuffered]⟩, rfl⟩
  | pass rest =>
      cases hnone
      rw [Buffered.exec, if_neg (by simp [hbuffered]), if_neg (by simp)]
      exact ⟨⟨hpending, rfl⟩, rfl⟩
  | flush =>
      rw [Buffered.exec, if_pos (by simp [hbuffered])]
      exact ⟨⟨hpending, hbuffered⟩, rfl⟩

theorem File.Drained.pipe (h : f.Drained) : f.pipe = f.content := by
  rw [File.content, h.1, h.2, List.append_nil, List.append_nil]

end

/-- What every step keeps: the order of what is on its way, and that the file is drained in the end. -/
structure Working (f : File α) (ops : List (Op α)) : Prop where
  ordered : Ordered f ops
  drains : Drains f ops

theorem Working.report (f : File α) (data : List α) : Working f (Buffered.report data) :=
  ⟨.of_plain (by simp [Buffered.report, Op.isPass]), .report f data⟩

theorem Working.close (f : File α) : Working f Buffered.close :=
  ⟨.of_plain (by simp [Buffered.close, Op.isPass]), .close f⟩

theorem Working.exec {f : File α} {op : Op α} {ops : List (Op α)} (h : Working f (op :: ops)) (n : Nat) :
    Working (exec sizes n f op).1 ((Buffered.exec sizes n f op).2 ++ ops) :=
  ⟨exec_ordered sizes n h.ordered, exec_drains sizes n h.drains⟩

@[simp] theorem total_nil (f : File α) : total f [] = f.content := List.append_nil _

@[simp] theorem total_close (f : File α) : total f close = f.content := List.append_nil _

@[simp] theorem total_report (f : File α) (data : List α) :
    total f (report data) = f.content ++ data := by
  simp [total, report, Op.inFlight]

theorem content_prefix_total (f : File α) (ops : List (Op α)) : f.content <+: total f ops :=
  List.prefix_append _ _

end PwshPy.Buffered
