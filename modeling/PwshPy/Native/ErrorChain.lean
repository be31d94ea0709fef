import Mathlib.Data.List.Basic

/-! # The typed error of a native failure

`native_error` reads the code of the first error down a chain of causes that carries
one. The exceptions are the nodes of a graph, which may be cyclic; a result is an
exception itself, and a node of the graphs that are walked after it.
-/

namespace PwshPy.Marshal

/-! ## Exceptions -/

/-- What `getattr` finds, or an item of a tuple. -/
inductive Attr where
  | none
  | int (n : Int)
  | bool (b : Bool)
  | tuple (items : List Attr)
  /-- any other object; it equals no number -/
  | other

/-- What `isinstance` tells of a class; a `NativeAccessDeniedError` is both of the others. -/
inductive Lineage where
  | other
  | os_error
  | native_call
  | native_os_error
  | access_denied
  deriving DecidableEq

def Lineage.is_os_error : Lineage → Bool
  | os_error | native_os_error | access_denied => true
  | other | native_call => false

def Lineage.is_native_call : Lineage → Bool
  | native_call | native_os_error | access_denied => true
  | other | os_error => false

def Lineage.is_access_denied : Lineage → Bool
  | access_denied => true
  | other | os_error | native_call | native_os_error => false

structure ExcClass where
  name : String
  module : String
  lineage : Lineage

/-- An exception, whose cause and context are nodes of the graph. -/
structure PyException (ι : Type) where
  cls : ExcClass
  args : List Attr
  hresult : Attr
  winerror : Attr
  errno : Attr
  excepinfo : Attr
  cause : Option ι
  context : Option ι
  suppress_context : Bool

variable {ι : Type}

/-! ## Codes -/

def is_com_error (exc : PyException ι) : Bool :=
  (exc.cls.name = "com_error" || exc.cls.name = "error") && exc.cls.module = "pywintypes"

/-- `_as_int` -/
def as_int : Attr → Option Int
  | .int n => some n
  | .none | .bool _ | .tuple _ | .other => none

/-- `_arg` -/
def arg (exc : PyException ι) (index : Nat) : Attr := exc.args.getD index .none

/-- `code & _HRESULT_MASK` -/
def masked (code : Int) : Int := code % 0x100000000

/-- `_own_hresult` -/
def own_hresult (exc : PyException ι) : Option Int :=
  let code := as_int exc.hresult
  let code := if code.isNone && exc.cls.name = "com_error" then as_int (arg exc 0) else code
  code.map masked

/-- `_win32_code` -/
def win32_code (exc : PyException ι) : Option Int :=
  let code := as_int exc.winerror
  if code.isNone && exc.cls.name = "error" then as_int (arg exc 0) else code

def DISP_E_EXCEPTION : Int := 0x80020009

/-- `_callee_excepinfo` -/
def callee_excepinfo (exc : PyException ι) (own : Int) : Option (List Attr) :=
  if own ≠ DISP_E_EXCEPTION then none
  else
    let info := match exc.excepinfo with
      | .none => arg exc 2
      | info => info
    match info with
    | .tuple fields => if 5 < fields.length then some fields else none
    | _ => none

/-- `_callee_scode` -/
def callee_scode (fields : Option (List Attr)) : Option Int :=
  match fields.bind fun fields => as_int (fields.getD 5 .none) with
  | none => none
  | some scode => if masked scode = 0 then none else some (masked scode)

/-- `_win32_to_hresult` -/
def win32_to_hresult (code : Int) : Int :=
  if 0 < code ∧ code ≤ 0xFFFF then ((0x80070000 ||| code.toNat : Nat) : Int) else masked code

def com_outer_hresult (exc : PyException ι) : Option Int :=
  if !is_com_error exc then none
  else match own_hresult exc with
    | some own => some own
    | none => (win32_code exc).map win32_to_hresult

def com_hresult (exc : PyException ι) : Option Int :=
  match com_outer_hresult exc with
  | none => none
  | some outer =>
      match callee_scode (callee_excepinfo exc outer) with
      | none => some outer
      | some scode => some scode

def E_ACCESSDENIED : Int := 0x80070005

/-- `_DENIED_ERRNOS`: `EACCES` and `EPERM` -/
def DENIED_ERRNOS : List Int := [13, 1]

/-- `errno in _DENIED_ERRNOS`, where `True` equals 1. -/
def is_denied_errno : Attr → Bool
  | .int n => n ∈ DENIED_ERRNOS
  | .bool b => b
  | .none | .tuple _ | .other => false

/-! ## The chain -/

/-- `_is_code_carrier` -/
def is_code_carrier (exc : PyException ι) : Bool :=
  is_com_error exc || exc.cls.lineage.is_os_error || exc.cls.lineage.is_native_call

/-- `_next_link` -/
def next_link (link : PyException ι) : Option ι :=
  match link.cause with
  | some cause => some cause
  | none => if link.suppress_context then link.context else none

/-- `_MAX_CHAIN_LINKS` -/
def MAX_CHAIN_LINKS : Nat := 4

/-- The loop of `_walked_links`, for so many turns. -/
def walk (graph : ι → PyException ι) : Nat → Option ι → List ι
  | 0, _ => []
  | _ + 1, none => []
  | turns + 1, some link =>
      if is_code_carrier (graph link) then [link]
      else link :: walk graph turns (next_link (graph link))

/-- `_walked_links` -/
def walked_links (graph : ι → PyException ι) (cause : ι) : List ι :=
  walk graph (MAX_CHAIN_LINKS + 1) (some cause)

/-- `_cause_hresult` -/
def cause_hresult (cause : PyException ι) : Option Int :=
  if is_com_error cause then com_hresult cause
  else if cause.cls.lineage.is_os_error then (as_int cause.winerror).map win32_to_hresult
  else none

/-- `_is_psutil_denied` -/
def is_psutil_denied (cls : ExcClass) : Bool :=
  cls.name = "AccessDenied" && (cls.module.splitOn ".").head? = some "psutil"

/-- `_judge` -/
def judge (native : PyException ι) : Attr × Bool :=
  if native.cls.lineage.is_native_call then (native.hresult, native.cls.lineage.is_access_denied)
  else match cause_hresult native with
    | some hresult => (.int hresult, hresult = E_ACCESSDENIED)
    | none => (.none, native.cls.lineage.is_os_error && is_denied_errno native.errno)

/-! ## The error -/

/-- What a caller reads of a `NativeCallError`. -/
structure NativeError where
  cls : ExcClass
  message : String
  hresult : Attr
  errno : Attr

/-- A class for `kind`: `NativeCallError`, or one below it. None is psutil's own. -/
inductive Kind where
  | native_call_error
  | subclass (cls : ExcClass) (native : cls.lineage.is_native_call = true)
      (own : is_psutil_denied cls = false)

def Kind.cls : Kind → ExcClass
  | native_call_error => ⟨"NativeCallError", "pwshpy.domain.errors", .native_call⟩
  | subclass cls _ _ => cls

def access_denied_class : ExcClass :=
  ⟨"NativeAccessDeniedError", "pwshpy.domain.errors", .access_denied⟩

def native_error (graph : ι → PyException ι) (message : String) (cause : ι) (kind : Kind) :
    NativeError :=
  let links := walked_links graph cause
  let last := links.getLastD cause
  let native := graph (if is_code_carrier (graph last) then last else cause)
  let (hresult, denied) := judge native
  let denied := denied || links.any fun link => is_psutil_denied (graph link).cls
  match kind, denied with
  | .native_call_error, true =>
      ⟨access_denied_class, message, hresult,
        if native.cls.lineage.is_os_error then native.errno else .none⟩
  | kind, _ => ⟨kind.cls, message, hresult, .none⟩

/-! ## The walk ends -/

section Walk

variable {graph graph' : ι → PyException ι} {cause node : ι} {links turns : Nat}

theorem walk_length_le (start : Option ι) : (walk graph turns start).length ≤ turns := by
  induction turns generalizing start with
  | zero => simp [walk]
  | succ turns ih =>
      cases start with
      | none => simp [walk]
      | some link =>
          have hrest := ih (next_link (graph link))
          rw [walk]
          split
          · simp
          · rw [List.length_cons]
            omega

/-- `links[-1]` never fails. -/
theorem walked_links_eq_cons : ∃ below, walked_links graph cause = cause :: below := by
  unfold walked_links MAX_CHAIN_LINKS
  rw [walk]
  split
  · exact ⟨[], rfl⟩
  · exact ⟨_, rfl⟩

/-! ## Implicit contexts -/

/-- Contexts that no `from None` suppressed are replaced. -/
def Recontexted (graph graph' : ι → PyException ι) : Prop :=
  ∀ link, graph' link = graph link ∨
    (graph link).suppress_context = false ∧
      ∃ context, graph' link = { graph link with context := context }

/-- No code, class or cause is a context. -/
theorem Recontexted.link (h : Recontexted graph graph') (link : ι) :
    is_code_carrier (graph' link) = is_code_carrier (graph link) ∧
    judge (graph' link) = judge (graph link) ∧
    (graph' link).cls = (graph link).cls ∧ (graph' link).errno = (graph link).errno ∧
    next_link (graph' link) = next_link (graph link) := by
  rcases h link with heq | ⟨hopen, context, heq⟩
  · rw [heq]
    exact ⟨rfl, rfl, rfl, rfl, rfl⟩
  · rw [heq]
    refine ⟨rfl, rfl, rfl, rfl, ?_⟩
    simp only [next_link, hopen]
    rfl

theorem Recontexted.walk (h : Recontexted graph graph') (start : Option ι) :
    walk graph' turns start = walk graph turns start := by
  induction turns generalizing start with
  | zero => rfl
  | succ turns ih =>
      cases start with
      | none => rfl
      | some link =>
          obtain ⟨hcarrier, _, _, _, hnext⟩ := h.link link
          simp only [Marshal.walk, hcarrier, hnext, ih]

theorem Recontexted.native_error (h : Recontexted graph graph') (message : String) (cause : ι)
    (kind : Kind) :
    native_error graph' message cause kind = native_error graph message cause kind := by
  have hwalk : walked_links graph' cause = walked_links graph cause := h.walk _
  have hcarrier link := (h.link link).1
  have hjudge link := (h.link link).2.1
  have hcls link := (h.link link).2.2.1
  have herrno link := (h.link link).2.2.2.1
  simp only [Marshal.native_error, hwalk, hcarrier, hjudge, hcls, herrno]

/-! ## Chains of wraps -/

/-- A wrapper library's own error: no code, and no denial of psutil's. -/
structure Quiet (exc : PyException ι) : Prop where
  no_code : is_code_carrier exc = false
  not_psutil : is_psutil_denied exc.cls = false

/-- So many explicit causes below an exception, all through quiet errors. -/
inductive Reaches (graph : ι → PyException ι) (node : ι) : Nat → ι → Prop
  | here : Reaches graph node 0 node
  | cause {link next : ι} {links : Nat} (quiet : Quiet (graph link))
      (explicit : (graph link).cause = some next) (below : Reaches graph node links next) :
      Reaches graph node (links + 1) link

theorem Reaches.walk (h : Reaches graph node links cause)
    (hcarrier : is_code_carrier (graph node) = true) (hlinks : links < turns) :
    ∃ above, walk graph turns (some cause) = above ++ [node] ∧
      ∀ link ∈ above, is_psutil_denied (graph link).cls = false := by
  induction h generalizing turns with
  | here =>
      obtain ⟨more, rfl⟩ : ∃ more, turns = more + 1 := ⟨turns - 1, by omega⟩
      exact ⟨[], by simp [Marshal.walk, hcarrier], by simp⟩
  | @cause link next links quiet explicit below ih =>
      obtain ⟨more, rfl⟩ : ∃ more, turns = more + 1 := ⟨turns - 1, by omega⟩
      obtain ⟨above, hwalk, habove⟩ := @ih more (by omega)
      have hnext : next_link (graph link) = some next := by simp [next_link, explicit]
      refine ⟨link :: above, ?_, ?_⟩
      · simp [Marshal.walk, quiet.no_code, hnext, hwalk]
      · intro l hl
        rcases List.mem_cons.mp hl with rfl | hl
        · exact quiet.not_psutil
        · exact habove l hl

end Walk

/-- Whether access was denied, the HRESULT and, for a denial, the errno. -/
def NativeError.verdict (error : NativeError) : Bool × Attr × Option Attr :=
  let denied := error.cls.lineage.is_access_denied
  (denied, error.hresult, if denied then some error.errno else none)

/-- What every result is. -/
structure NativeError.Own (error : NativeError) : Prop where
  native : error.cls.lineage.is_native_call = true
  not_psutil : is_psutil_denied error.cls = false

theorem Kind.own (kind : Kind) :
    kind.cls.lineage.is_native_call = true ∧ is_psutil_denied kind.cls = false := by
  cases kind with
  | native_call_error => exact ⟨rfl, by simp [Kind.cls, is_psutil_denied]⟩
  | subclass cls native own => exact ⟨native, own⟩

theorem native_error_own (graph : ι → PyException ι) (message : String) (cause : ι)
    (kind : Kind) : (native_error graph message cause kind).Own := by
  obtain ⟨native, own⟩ := kind.own
  simp only [native_error]
  split
  · exact ⟨rfl, by simp [access_denied_class, is_psutil_denied]⟩
  · exact ⟨native, own⟩

/-- The exception is an earlier result. -/
structure PyException.Holds (exc : PyException ι) (error : NativeError) : Prop where
  cls : exc.cls = error.cls
  hresult : exc.hresult = error.hresult
  errno : exc.errno = error.errno

/-- One wrap. -/
theorem verdict_native_error {graph : ι → PyException ι} {cause node : ι} {links : Nat}
    {error : NativeError} (message : String) (hown : error.Own)
    (hnode : (graph node).Holds error) (h : Reaches graph node links cause)
    (hlinks : links ≤ MAX_CHAIN_LINKS) :
    (native_error graph message cause .native_call_error).verdict = error.verdict := by
  have hnative := hnode.cls ▸ hown.native
  have hcarrier : is_code_carrier (graph node) = true := by simp [is_code_carrier, hnative]
  obtain ⟨above, hwalk, habove⟩ := @h.walk _ _ _ _ _ (MAX_CHAIN_LINKS + 1) hcarrier (by omega)
  have hlast : (walked_links graph cause).getLastD cause = node := by
    simp [walked_links, hwalk]
  have hpsutil : ((walked_links graph cause).any fun link =>
      is_psutil_denied (graph link).cls) = false := by
    rw [walked_links, hwalk, List.any_append, List.any_eq_false.mpr fun l hl => by simp [habove l hl]]
    simp [hnode.cls, hown.not_psutil]
  have hjudge : judge (graph node) = (error.hresult, error.cls.lineage.is_access_denied) := by
    rw [judge, if_pos hnative, hnode.hresult, hnode.cls]
  simp only [native_error, hlast, hcarrier, if_true, hjudge, hpsutil, Bool.or_false]
  cases hdenied : error.cls.lineage.is_access_denied with
  | false =>
      have hplain : Kind.native_call_error.cls.lineage.is_access_denied = false := rfl
      simp [NativeError.verdict, hdenied, hplain]
  | true =>
      have hos : error.cls.lineage.is_os_error = true := by
        cases hlineage : error.cls.lineage <;>
          simp_all [Lineage.is_access_denied, Lineage.is_os_error]
      have hraised : access_denied_class.lineage.is_access_denied = true := rfl
      simp [NativeError.verdict, hdenied, hraised, hnode.cls, hos, hnode.errno]

/-- Further wraps of the first result, each in the default kind, of an exception of its own graph
whose explicit causes reach the result before. -/
inductive Wraps (first : NativeError) : NativeError → Prop
  | refl : Wraps first first
  | wrap {ι : Type} {graph : ι → PyException ι} {cause node : ι} {links : Nat}
      {error : NativeError} (message : String) (before : Wraps first error)
      (holds : (graph node).Holds error) (reaches : Reaches graph node links cause)
      (near : links ≤ MAX_CHAIN_LINKS) :
      Wraps first (native_error graph message cause .native_call_error)

theorem Wraps.own {first last : NativeError} (h : Wraps first last) (hfirst : first.Own) :
    last.Own := by
  cases h with
  | refl => exact hfirst
  | wrap message before holds reaches near => exact native_error_own _ _ _ _

theorem Wraps.verdict {first last : NativeError} (h : Wraps first last) (hfirst : first.Own) :
    last.verdict = first.verdict := by
  induction h with
  | refl => rfl
  | wrap message before holds reaches near ih =>
      rw [verdict_native_error message (before.own hfirst) holds reaches near, ih]

/-- The walk ends with at most four links below the cause, whatever the graph; no implicit context
counts; and further wraps keep the verdict. -/
theorem native_error_verdict_stable :
    (∀ (ι : Type) (graph : ι → PyException ι) (cause : ι),
      walked_links graph cause ≠ [] ∧
      (walked_links graph cause).length ≤ MAX_CHAIN_LINKS + 1) ∧
    (∀ (ι : Type) (graph graph' : ι → PyException ι) (message : String) (cause : ι)
      (kind : Kind), Recontexted graph graph' →
      native_error graph' message cause kind = native_error graph message cause kind) ∧
    (∀ (ι : Type) (graph : ι → PyException ι) (message : String) (cause : ι) (kind : Kind)
      (last : NativeError), Wraps (native_error graph message cause kind) last →
      last.verdict = (native_error graph message cause kind).verdict) := by
  refine ⟨?_, ?_, ?_⟩
  · intro ι graph cause
    obtain ⟨below, hbelow⟩ := @walked_links_eq_cons ι graph cause
    exact ⟨by simp [hbelow], walk_length_le _⟩
  · intro ι graph graph' message cause kind h
    exact h.native_error message cause kind
  · intro ι graph message cause kind last h
    exact h.verdict (native_error_own graph message cause kind)

end PwshPy.Marshal
