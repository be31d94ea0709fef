import Mathlib.Data.List.Basic

/-! # Downloads to a file

`download_file` in terms of the outcomes of its calls: each of them succeeds or raises, and what a
file holds after a call on it that failed is open. The n-th read and the n-th write are those of
the n-th turn of the copy.
-/

namespace PwshPy.Download

abbrev Content : Type := List UInt8

/-- `_TRANSPORT_ERRORS`, the one that has an arm of its own apart. -/
inductive Transport where
  /-- whether its reason is a `TimeoutError` -/
  | url_error (timeout : Bool)
  | timeout_error
  | os_error
  | http_exception
  deriving DecidableEq

inductive Raised where
  /-- `urllib.error.HTTPError` -/
  | http_error (code : Nat)
  | transport (e : Transport)
  deriving DecidableEq

/-- What the caller sees. -/
inductive Failure where
  | unsupported_scheme
  | http (code : Nat)
  | timed_out
  | failed (e : Transport)
  deriving DecidableEq

structure Calls where
  /-- whether the scheme of the URL is `http` or `https` -/
  http_scheme : Bool
  /-- `_open` -/
  connect : Except Raised Unit
  /-- the `Content-Length` -/
  announced : Option Nat
  open_destination : Except Transport Unit
  /-- `response.read(chunk_size)` -/
  read : Nat → Except Transport Content
  write : Nat → Except Transport Unit
  close_handle : Except Transport Unit
  close_response : Except Transport Unit
  /-- what the file holds after a call on it that failed -/
  left : Content

structure State where
  /-- the file at the destination -/
  destination : Option Content
  opened : Bool
  /-- the bytes read so far -/
  received : Content
  /-- whether a write has failed -/
  spoiled : Bool

/-- A block of the source from a state: `none` while it is still running. -/
abbrev Block : Type := State → Option (State × Except Raised Unit)

/-- `with enter() as …: body`: the exit runs however the body ends, and what it raises takes the
place of what the body raised. -/
def within (enter : State → State × Except Raised Unit) (leave : State → State × Except Raised Unit)
    (body : Block) : Block := fun s =>
  match enter s with
  | (s, .error e) => some (s, .error e)
  | (s, .ok ()) =>
      match body s with
      | none => none
      | some (s, result) =>
          match leave s with
          | (s, .error e) => some (s, .error e)
          | (s, .ok ()) => some (s, result)

section Calls

variable (calls : Calls)

/-- `shutil.copyfileobj(response, handle, chunk_size)`, from its n-th turn, for so many turns -/
def copyfileobj : Nat → Nat → Block
  | 0, _, _ => none
  | turns + 1, n, s =>
      match calls.read n with
      | .error e => some (s, .error (.transport e))
      | .ok [] => some (s, .ok ())
      | .ok (byte :: more) =>
          let s := { s with received := s.received ++ byte :: more }
          match calls.write n with
          | .error e => some ({ s with spoiled := true }, .error (.transport e))
          | .ok () => copyfileobj turns (n + 1) s

/-- `_require_complete_body`: `response.length` counts the announced bytes that are still due. -/
def require_complete_body (s : State) : Except Raised Unit :=
  match calls.announced with
  | none => .ok ()
  | some announced =>
      let remaining : Int := announced - s.received.length
      if remaining ≠ 0 then .error (.transport .os_error) else .ok ()

def open_destination (s : State) : State × Except Raised Unit :=
  match calls.open_destination with
  | .error e => (s, .error (.transport e))
  | .ok () => ({ s with destination := some [] }, .ok ())

/-- Closing the handle writes what it still holds. -/
def close_handle (s : State) : State × Except Raised Unit :=
  match calls.close_handle with
  | .error e => ({ s with destination := some calls.left }, .error (.transport e))
  | .ok () =>
      ({ s with destination := some (if s.spoiled then calls.left else s.received) }, .ok ())

def close_response (s : State) : State × Except Raised Unit :=
  (s, calls.close_response.mapError .transport)

/-- What stands in the two `with` blocks. -/
def transfer (turns : Nat) : Block := fun s =>
  let s := { s with opened := true }
  match copyfileobj calls turns 0 s with
  | none => none
  | some (s, .error e) => some (s, .error e)
  | some (s, .ok ()) => some (s, require_complete_body calls s)

/-- `_transport_error` -/
def transport_error : Transport → Failure
  | .timeout_error => .timed_out
  | .url_error true => .timed_out
  | e => .failed e

/-- The file at the destination after the call, and how the call ends. -/
def download_file (turns : Nat) (before : Option Content) :
    Option (Option Content × Except Failure Unit) :=
  if calls.http_scheme = false then some (before, .error .unsupported_scheme)
  else
    let s := { destination := before, opened := false, received := [], spoiled := false }
    match within (fun s => (s, calls.connect)) (close_response calls)
        (within (open_destination calls) (close_handle calls) (transfer calls turns)) s with
    | none => none
    | some (s, .ok ()) => some (s.destination, .ok ())
    | some (s, .error (.http_error code)) => some (s.destination, .error (.http code))
    | some (s, .error (.transport e)) =>
        some (if s.opened then none else s.destination, .error (transport_error e))

end Calls

/-! ## What the copy receives -/

/-- The body that the reads give from the n-th on, up to their end. -/
inductive Received (calls : Calls) : Nat → Content → Prop
  | finished {n : Nat} (last : calls.read n = .ok []) : Received calls n []
  | chunk {n : Nat} {chunk rest : Content} (more : calls.read n = .ok chunk) (nonempty : chunk ≠ [])
      (later : Received calls (n + 1) rest) : Received calls n (chunk ++ rest)

variable {calls : Calls} {turns n : Nat} {s s' : State} {result : Except Raised Unit}

def OnlyTransport (result : Except Raised Unit) : Prop := ∀ code, result ≠ .error (.http_error code)

theorem onlyTransport_transport {e : Transport} : OnlyTransport (.error (.transport e)) := by
  intro code h
  cases h

theorem onlyTransport_ok : OnlyTransport (.ok ()) := by
  intro code h
  cases h

/-- The copy touches neither the flag nor what is known of the file. -/
theorem copyfileobj_keeps (h : copyfileobj calls turns n s = some (s', result)) :
    s'.destination = s.destination ∧ s'.opened = s.opened ∧ OnlyTransport result := by
  induction turns generalizing n s with
  | zero => cases h
  | succ turns ih =>
      rw [copyfileobj] at h
      split at h
      · cases h
        exact ⟨rfl, rfl, onlyTransport_transport⟩
      · cases h
        exact ⟨rfl, rfl, onlyTransport_ok⟩
      · split at h
        · cases h
          exact ⟨rfl, rfl, onlyTransport_transport⟩
        · have hrest := ih h
          exact hrest

/-- A copy that returns has handed all of the body to the file. -/
theorem copyfileobj_received (h : copyfileobj calls turns n s = some (s', .ok ())) :
    s'.spoiled = s.spoiled ∧ ∃ body, Received calls n body ∧ s'.received = s.received ++ body := by
  induction turns generalizing n s with
  | zero => cases h
  | succ turns ih =>
      rw [copyfileobj] at h
      split at h
      · cases h
      · rename_i hread
        cases h
        exact ⟨rfl, [], .finished hread, (List.append_nil _).symm⟩
      · rename_i byte more hread
        split at h
        · cases h
        · obtain ⟨hspoiled, body, hbody, hreceived⟩ := ih h
          refine ⟨hspoiled, byte :: more ++ body, .chunk hread (List.cons_ne_nil _ _) hbody, ?_⟩
          rw [hreceived, List.append_assoc]

/-! ## The blocks -/

theorem require_complete_body_transport : OnlyTransport (require_complete_body calls s) := by
  intro code h
  rw [require_complete_body] at h
  split at h
  · cases h
  · dsimp only at h
    split at h <;> cases h

/-- The announced length is the length of what came. -/
theorem require_complete_body_ok (h : require_complete_body calls s = .ok ()) {announced : Nat}
    (hannounced : calls.announced = some announced) : s.received.length = announced := by
  rw [require_complete_body, hannounced] at h
  dsimp only at h
  split at h
  · cases h
  · omega

/-- How a `with` block ends. -/
theorem within_cases {enter leave : State → State × Except Raised Unit} {body : Block}
    (h : within enter leave body s = some (s', result)) :
    (∃ e, enter s = (s', .error e) ∧ result = .error e) ∨
      ∃ entered left inner closed, enter s = (entered, .ok ()) ∧ body entered = some (left, inner) ∧
        leave left = (s', closed) ∧
        result = match closed with
          | .error e => .error e
          | .ok () => inner := by
  rw [within] at h
  split at h
  · rename_i henter
    cases h
    exact Or.inl ⟨_, henter, rfl⟩
  · rename_i entered henter
    split at h
    · cases h
    · rename_i left inner hbody
      split at h
      · rename_i hleave
        cases h
        exact Or.inr ⟨_, _, _, _, henter, hbody, hleave, rfl⟩
      · rename_i hleave
        cases h
        exact Or.inr ⟨_, _, _, _, henter, hbody, hleave, rfl⟩

theorem transfer_spec (h : transfer calls turns s = some (s', result)) :
    s'.opened = true ∧ OnlyTransport result ∧
      (result = .ok () → s'.spoiled = s.spoiled ∧ require_complete_body calls s' = .ok () ∧
        ∃ body, Received calls 0 body ∧ s'.received = s.received ++ body) := by
  rw [transfer] at h
  split at h
  · cases h
  · rename_i hcopy
    cases h
    have hkeeps := copyfileobj_keeps hcopy
    exact ⟨hkeeps.2.1, hkeeps.2.2, fun hok => by cases hok⟩
  · rename_i copied hcopy
    cases h
    have hkeeps := copyfileobj_keeps hcopy
    have hreceived := copyfileobj_received hcopy
    exact ⟨hkeeps.2.1, require_complete_body_transport, fun hcomplete =>
      ⟨hreceived.1, hcomplete, hreceived.2⟩⟩

/-- All of the body the reads give, and no less than was announced. -/
structure Complete (calls : Calls) (body : Content) : Prop where
  received : Received calls 0 body
  announced : ∀ announced, calls.announced = some announced → body.length = announced

/-- The state in which the blocks start. -/
def start (before : Option Content) : State :=
  { destination := before, opened := false, received := [], spoiled := false }

/-- How the block of the handle leaves the file. -/
theorem handle_block_spec {before : Option Content}
    (h : within (open_destination calls) (close_handle calls) (transfer calls turns)
      (start before) = some (s', result)) :
    OnlyTransport result ∧
      (calls.open_destination ≠ .ok () → s' = start before ∧ result ≠ .ok ()) ∧
      (calls.open_destination = .ok () → s'.opened = true ∧
        (result = .ok () → ∃ body, Complete calls body ∧ s'.destination = some body)) := by
  rcases within_cases h with ⟨e, henter, hresult⟩ | ⟨entered, left, inner, closed, henter, hbody,
    hleave, hresult⟩
  · rw [open_destination] at henter
    split at henter
    · rename_i hopen
      cases henter
      rw [hresult, hopen]
      refine ⟨onlyTransport_transport, fun _ => ⟨rfl, ?_⟩, ?_⟩
      · intro h
        cases h
      · intro h
        cases h
    · cases henter
  · have hopen : calls.open_destination = .ok () ∧
        entered = { start before with destination := some [] } := by
      rw [open_destination] at henter
      split at henter
      · cases henter
      · rename_i hopen
        cases henter
        exact ⟨hopen, rfl⟩
    have htransfer := transfer_spec hbody
    rw [close_handle] at hleave
    split at hleave
    · cases hleave
      subst hresult
      refine ⟨onlyTransport_transport, fun hno => absurd hopen.1 hno, fun _ => ⟨htransfer.1, ?_⟩⟩
      intro h
      cases h
    · cases hleave
      subst hresult
      refine ⟨htransfer.2.1, fun hno => absurd hopen.1 hno, fun _ => ⟨htransfer.1, fun hok => ?_⟩⟩
      obtain ⟨hspoiled, hcomplete, body, hbody, hreceived⟩ := htransfer.2.2 hok
      rw [hopen.2] at hspoiled hreceived
      have hall : left.received = body := hreceived
      have hclean : left.spoiled = false := hspoiled
      refine ⟨body, ⟨hbody, fun announced hannounced => ?_⟩, ?_⟩
      · rw [← hall]
        exact require_complete_body_ok hcomplete hannounced
      · dsimp only
        rw [hclean, hall]
        rfl

/-- The call gets as far as a destination of its own. -/
def Opens (calls : Calls) : Prop :=
  calls.http_scheme = true ∧ calls.connect = .ok () ∧ calls.open_destination = .ok ()

/-- How the blocks end: without a destination of their own they leave the file as it was. -/
theorem blocks_spec {before : Option Content}
    (h : within (fun s => (s, calls.connect)) (close_response calls)
      (within (open_destination calls) (close_handle calls) (transfer calls turns))
      (start before) = some (s', result)) :
    (¬ (calls.connect = .ok () ∧ calls.open_destination = .ok ()) →
      s' = start before ∧ result ≠ .ok ()) ∧
    (calls.connect = .ok () ∧ calls.open_destination = .ok () →
      s'.opened = true ∧ OnlyTransport result ∧
        (result = .ok () → ∃ body, Complete calls body ∧ s'.destination = some body)) := by
  rcases within_cases h with ⟨e, henter, hresult⟩ | ⟨entered, left, inner, closed, henter, hbody,
    hleave, hresult⟩
  · have hstart : start before = s' := congrArg Prod.fst henter
    have hconnect : calls.connect = .error e := congrArg Prod.snd henter
    rw [hconnect, hresult, ← hstart]
    refine ⟨fun _ => ⟨rfl, ?_⟩, fun h => ?_⟩
    · intro h
      cases h
    · cases h.1
  · have hstart : start before = entered := congrArg Prod.fst henter
    have hconnect : calls.connect = .ok () := congrArg Prod.snd henter
    rw [← hstart] at hbody
    obtain ⟨honly, hunopened, hopened⟩ := handle_block_spec hbody
    have hleft : left = s' := congrArg Prod.fst hleave
    have hclosed : calls.close_response.mapError .transport = closed := congrArg Prod.snd hleave
    rw [hleft] at hunopened hopened
    subst hresult
    cases hclose : calls.close_response with
    | error e =>
        rw [hclose] at hclosed
        subst hclosed
        refine ⟨fun hno => ⟨(hunopened fun h => hno ⟨hconnect, h⟩).1, ?_⟩, fun h =>
          ⟨(hopened h.2).1, onlyTransport_transport, ?_⟩⟩
        · intro h
          cases h
        · intro h
          cases h
    | ok =>
        rw [hclose] at hclosed
        subst hclosed
        exact ⟨fun hno => hunopened fun h => hno ⟨hconnect, h⟩, fun h =>
          ⟨(hopened h.2).1, honly, (hopened h.2).2⟩⟩

/-- Once the destination is open, a return leaves all of the body there and a raise nothing at all;
before that the file stays what it was. -/
theorem download_all_or_nothing {before after : Option Content} {outcome : Except Failure Unit}
    (h : download_file calls turns before = some (after, outcome)) :
    (outcome = .ok () → ∃ body, Complete calls body ∧ after = some body) ∧
      ∀ failure, outcome = .error failure →
        (Opens calls → after = none) ∧ (¬ Opens calls → after = before) := by
  rw [download_file] at h
  split at h
  · rename_i hscheme
    cases h
    refine ⟨fun h => ?_, fun _ _ => ⟨fun hopens => ?_, fun _ => rfl⟩⟩
    · cases h
    · have hhttp := hopens.1
      rw [hscheme] at hhttp
      cases hhttp
  · rename_i hscheme
    have hscheme : calls.http_scheme = true := by simpa using hscheme
    have hopens : Opens calls ↔ calls.connect = .ok () ∧ calls.open_destination = .ok () := by
      rw [Opens, hscheme]
      simp only [true_and]
    dsimp only at h
    split at h
    · cases h
    -- the blocks return
    · rename_i s hblocks
      have hspec := blocks_spec hblocks
      cases h
      have hopen : calls.connect = .ok () ∧ calls.open_destination = .ok () := by
        by_contra hno
        exact (hspec.1 hno).2 rfl
      refine ⟨fun _ => (hspec.2 hopen).2.2 rfl, fun failure h => ?_⟩
      cases h
    -- an HTTPError comes from connecting alone
    · rename_i s code hblocks
      have hspec := blocks_spec hblocks
      cases h
      have hno : ¬ (calls.connect = .ok () ∧ calls.open_destination = .ok ()) := fun hopen =>
        (hspec.2 hopen).2.1 code rfl
      refine ⟨fun h => ?_, fun _ _ => ⟨fun h => absurd (hopens.mp h) hno, fun _ => ?_⟩⟩
      · cases h
      · rw [(hspec.1 hno).1]
        rfl
    · rename_i s e hblocks
      have hspec := blocks_spec hblocks
      cases h
      refine ⟨fun h => ?_, fun _ _ => ⟨fun h => ?_, fun h => ?_⟩⟩
      · cases h
      · rw [(hspec.2 (hopens.mp h)).1]
        rfl
      · rw [(hspec.1 fun hopen => h (hopens.mpr hopen)).1]
        rfl

/-- A body of one byte under an announced length. -/
def oneByte (announced : Nat) : Calls where
  http_scheme := true
  connect := .ok ()
  announced := some announced
  open_destination := .ok ()
  read n := if n = 0 then .ok [1] else .ok []
  write _ := .ok ()
  close_handle := .ok ()
  close_response := .ok ()
  left := []

/-- The whole body takes the place of the old file; one that is a byte short takes it away. -/
theorem download_all_or_nothing_one_byte :
    (∃ body, Complete (oneByte 1) body ∧
      download_file (oneByte 1) 2 (some [7]) = some (some body, .ok ())) ∧
    download_file (oneByte 2) 2 (some [7]) = some (none, .error (.failed .os_error)) := by
  have hrun : download_file (oneByte 1) 2 (some [7]) = some (some [1], .ok ()) := rfl
  obtain ⟨body, hcomplete, hafter⟩ := (download_all_or_nothing hrun).1 rfl
  exact ⟨⟨body, hcomplete, by rw [← hafter, hrun]⟩, rfl⟩

/-! ## The copy ends -/

/-- A copy whose reads come to an end or fail is done by that turn. -/
theorem copyfileobj_ends {more : Nat} (h : ∀ byte rest, calls.read (n + more) ≠ .ok (byte :: rest)) :
    copyfileobj calls (more + 1) n s ≠ none := by
  induction more generalizing n s with
  | zero =>
      rw [copyfileobj]
      split
      · exact Option.some_ne_none _
      · exact Option.some_ne_none _
      · rename_i hread
        exact absurd hread (h _ _)
  | succ more ih =>
      rw [copyfileobj]
      split
      · exact Option.some_ne_none _
      · exact Option.some_ne_none _
      · split
        · exact Option.some_ne_none _
        · apply ih
          intro byte rest
          rw [Nat.add_right_comm, Nat.add_assoc n]
          exact h byte rest

theorem within_ends {enter leave : State → State × Except Raised Unit} {body : Block}
    (h : ∀ s, body s ≠ none) : within enter leave body s ≠ none := by
  rw [within]
  split
  · exact Option.some_ne_none _
  · split
    · rename_i hbody
      exact absurd hbody (h _)
    · split <;> exact Option.some_ne_none _

/-- The whole call returns or raises once the reads do not go on for ever. -/
theorem download_file_ends {before : Option Content} {last : Nat}
    (h : ∀ byte rest, calls.read last ≠ .ok (byte :: rest)) :
    download_file calls (last + 1) before ≠ none := by
  have htransfer : ∀ s, transfer calls (last + 1) s ≠ none := by
    intro s
    rw [transfer]
    split
    · rename_i hcopy
      exact absurd hcopy (copyfileobj_ends (by simpa using h))
    · exact Option.some_ne_none _
    · exact Option.some_ne_none _
  rw [download_file]
  split
  · exact Option.some_ne_none _
  · dsimp only
    split
    · rename_i hblocks
      exact absurd hblocks (within_ends fun s => within_ends htransfer)
    · exact Option.some_ne_none _
    · exact Option.some_ne_none _
    · exact Option.some_ne_none _

end PwshPy.Download
