import PwshPy.Wim.Reader

/-! # What a hostile file can do

Whatever the file holds and however the parser ends: what is read, what is yielded,
and when something other than a `NativeCallError` is raised or a number is too wide.
-/

namespace PwshPy.Wim

open Xml (View Element Content Token Builder Reported)

variable {table : Nat → Bool} {path : PyStr} {file : File}

/-! ## The file -/

/-- A range that the header names, inside the file as it is measured and not too long. -/
structure Named (path : PyStr) (file : File) (range : Range) : Prop where
  header : ∃ content, file.first = .ok content ∧ xmlLocation path (HEADER.slice content) = .ok range
  measured : ∃ size, file.st_size = .ok size ∧ range.offset + range.length ≤ size
  behind : HEADER_SIZE ≤ range.offset
  capped : range.length ≤ MAX_XML_BYTES

/-- Every call succeeds, and the resource is as long as the header says. -/
structure Gives (path : PyStr) (file : File) (raw : List UInt8) : Prop where
  opened : file.opened = .ok ()
  sought : file.sought = .ok ()
  closed : file.closed = .ok ()
  resource : ∃ range later, Named path file range ∧ file.later = .ok later ∧
    raw = range.slice later ∧ raw.length = range.length

theorem xmlLocation_cases (path : PyStr) (header : List UInt8) :
    (∃ text, xmlLocation path header = .error (.nativeCall text)) ∨
      ∃ range, xmlLocation path header = .ok range ∧ HEADER_SIZE ≤ range.offset ∧
        range.length ≤ MAX_XML_BYTES := by
  unfold xmlLocation
  simp only
  split
  · exact .inl ⟨_, rfl⟩
  · split
    · exact .inl ⟨_, rfl⟩
    · split
      · exact .inl ⟨_, rfl⟩
      · split
        · exact .inl ⟨_, rfl⟩
        · split
          · exact .inl ⟨_, rfl⟩
          · split
            · exact .inl ⟨_, rfl⟩
            · exact .inr ⟨_, rfl, Nat.le_of_not_lt ‹_›, Nat.le_of_not_lt ‹_›⟩

section Fetched

variable {α β : Type}

theorem call_bind (outcome : Except PyStr α) (f : α → Fetch Failure β) :
    (call outcome >>= f) =
      match outcome with
      | .error text => ⟨[], .error (.os text)⟩
      | .ok a => f a := by
  cases outcome <;> rfl

theorem of_bind (result : Except Raised α) (f : α → Fetch Failure β) :
    (Fetch.of (result.mapError .raised) >>= f) =
      match result with
      | .error e => ⟨[], .error (.raised e)⟩
      | .ok a => f a := by
  cases result <;> rfl

theorem read_bind (content : Except PyStr (List UInt8)) (range : Range)
    (f : List UInt8 → Fetch Failure β) :
    (read content range >>= f) =
      match content with
      | .error text => ⟨[range], .error (.os text)⟩
      | .ok content => ⟨range :: (f (range.slice content)).reads, (f (range.slice content)).result⟩ := by
  cases content <;> rfl

/-- An `OSError`, or a `NativeCallError` of the reader's own. -/
def Failure.Typed : Failure → Prop
  | os _ => True
  | raised e => e.isNativeCallError = true

/-- What reading the resource comes to. -/
structure Fetched (path : PyStr) (file : File) (fetched : Fetch Failure (Range × List UInt8)) :
    Prop where
  reads : ∀ range ∈ fetched.reads, range = HEADER ∨ Named path file range
  error : ∀ e, fetched.result = .error e → e.Typed
  ok : ∀ range raw, fetched.result = .ok (range, raw) →
    Named path file range ∧ file.sought = .ok () ∧ ∃ later, file.later = .ok later ∧
      raw = range.slice later

theorem fetched_error {reads : List Range} {e : Failure}
    (hreads : ∀ range ∈ reads, range = HEADER ∨ Named path file range) (he : e.Typed) :
    Fetched path file ⟨reads, .error e⟩ := by
  refine ⟨hreads, ?_, fun _ _ h => by cases h⟩
  intro e' h
  cases h
  exact he

theorem fetched_fetchResource (path : PyStr) (file : File) :
    Fetched path file (fetchResource path file) := by
  have hheader : ∀ range ∈ [HEADER], range = HEADER ∨ Named path file range := by simp
  unfold fetchResource
  rw [read_bind]
  cases hfirst : file.first with
  | error text => exact fetched_error hheader trivial
  | ok content =>
      simp only [of_bind]
      rcases xmlLocation_cases path (HEADER.slice content) with ⟨text, hlocation⟩ |
        ⟨range, hlocation, hbehind, hcapped⟩
      · simp only [hlocation]
        exact fetched_error hheader rfl
      · simp only [hlocation, call_bind]
        cases hsize : file.st_size with
        | error text => exact fetched_error hheader trivial
        | ok size =>
            simp only
            split
            · exact fetched_error hheader rfl
            · have hnamed : Named path file range :=
                ⟨⟨content, hfirst, hlocation⟩, ⟨size, hsize, by omega⟩, hbehind, hcapped⟩
              have hboth : ∀ r ∈ [HEADER, range], r = HEADER ∨ Named path file r := by
                simp [hnamed]
              cases hsought : file.sought with
              | error text => exact fetched_error hheader trivial
              | ok _ =>
                  simp only [read_bind]
                  cases hlater : file.later with
                  | error text => exact fetched_error hboth trivial
                  | ok later =>
                      refine ⟨hboth, fun _ h => (by cases h), ?_⟩
                      intro range' raw h
                      cases h
                      exact ⟨hnamed, hsought, later, hlater, rfl⟩

theorem fetched_withOpen (path : PyStr) (file : File) :
    Fetched path file (withOpen file (fetchResource path file)) := by
  have hbody := fetched_fetchResource path file
  unfold withOpen
  rw [call_bind]
  cases file.opened with
  | error text => exact fetched_error (by simp) trivial
  | ok _ =>
      simp only
      cases file.closed with
      | error text => exact fetched_error hbody.reads trivial
      | ok _ => exact hbody

theorem withOpen_ok {body : Fetch Failure α} {a : α} (h : (withOpen file body).result = .ok a) :
    file.opened = .ok () ∧ file.closed = .ok () ∧ body.result = .ok a := by
  unfold withOpen at h
  rw [call_bind] at h
  cases hopened : file.opened with
  | error text => simp [hopened] at h
  | ok _ =>
      simp only [hopened] at h
      cases hclosed : file.closed with
      | error text => simp [hclosed] at h
      | ok _ =>
          simp only [hclosed] at h
          exact ⟨rfl, rfl, h⟩

end Fetched

/-- Nothing is read outside the header and the range it names. -/
theorem readXmlResource_reads :
    ∀ range ∈ (readXmlResource path file).reads, range = HEADER ∨ Named path file range :=
  (fetched_withOpen path file).reads

theorem readXmlResource_error {e : Raised} (h : (readXmlResource path file).result = .error e) :
    e.isNativeCallError = true := by
  have htyped := (fetched_withOpen path file).error
  unfold readXmlResource at h
  generalize withOpen file (fetchResource path file) = fetched at h htyped
  obtain ⟨reads, result⟩ := fetched
  cases result with
  | error failure =>
      cases failure with
      | os text =>
          cases h
          rfl
      | raised e' =>
          cases h
          exact htyped _ rfl
  | ok found =>
      simp only at h
      split at h
      · cases h
        rfl
      · cases h

theorem readXmlResource_ok {raw : List UInt8} :
    (readXmlResource path file).result = .ok raw ↔ Gives path file raw := by
  constructor
  · intro h
    simp only [readXmlResource] at h
    cases hresult : (withOpen file (fetchResource path file)).result with
    | error failure =>
        rw [hresult] at h
        cases failure with
        | os text => simp at h
        | raised e => simp at h
    | ok found =>
        obtain ⟨range, found⟩ := found
        rw [hresult] at h
        simp only at h
        split at h
        · cases h
        · rename_i hlength
          obtain rfl := Except.ok.inj h
          obtain ⟨hopened, hclosed, hbody⟩ := withOpen_ok hresult
          obtain ⟨hnamed, hsought, later, hlater, hraw⟩ :=
            (fetched_fetchResource path file).ok range found hbody
          exact ⟨hopened, hsought, hclosed, range, later, hnamed, hlater, hraw, not_not.mp hlength⟩
  · rintro ⟨hopened, hsought, hclosed, range, later, hnamed, hlater, rfl, hlength⟩
    obtain ⟨content, hfirst, hlocation⟩ := hnamed.header
    obtain ⟨size, hsize, hfits⟩ := hnamed.measured
    have hshort : ¬size < range.offset + range.length := by omega
    simp only [readXmlResource, withOpen, fetchResource, call_bind, read_bind, of_bind, hopened,
      hclosed, hfirst, hlocation, hsize, hsought, hlater, if_neg hshort]
    simp only [pure, Fetch.of]
    rw [if_neg (fun h => h hlength)]

/-! ## The records -/

/-- The direct `IMAGE` children of the root. -/
def images (content : Content) : List Element := content.elements.filter fun x => x.tag = IMAGE

/-- The records of the first of some images, and how it ended there. -/
inductive Delivered (table : Nat → Bool) (path : PyStr) (final : Except Raised Unit) :
    List Element → List WindowsImage → Except Raised Unit → Prop
  /-- no image is left: the parser's ending -/
  | nil : Delivered table path final [] [] final
  /-- the record of the first, and what follows -/
  | cons {x : Element} {xs : List Element} {record : WindowsImage} {records : List WindowsImage}
      {ending : Except Raised Unit} (first : image .element x table path = .ok record)
      (rest : Delivered table path final xs records ending) :
      Delivered table path final (x :: xs) (record :: records) ending
  /-- an image that gives no record ends it -/
  | refused {x : Element} {xs : List Element} {e : Raised}
      (first : image .element x table path = .error e) :
      Delivered table path final (x :: xs) [] (.error e)

/-- What agrees on each pair agrees on each first. -/
theorem eq_of_forall₂ {β γ δ : Type} {f g : β → δ} {k : γ → δ} {xs : List β} {ys : List γ}
    (hf : List.Forall₂ (fun x y => f x = k y) xs ys) (hg : List.Forall₂ (fun x y => g x = k y) xs ys)
    {x : β} (hx : x ∈ xs) : f x = g x := by
  induction hf with
  | nil => cases hx
  | cons hfirst _ ih =>
      cases hg with
      | cons hsecond hrest =>
          rcases List.mem_cons.mp hx with rfl | hx
          · rw [hfirst, hsecond]
          · exact ih hrest hx

/-- The children in the store are read as the elements they are. -/
theorem visit_laid {content : Content} {nodes : Nat → Xml.Node} (h : content.Laid nodes 1) :
    List.Forall₂ (fun id x => visit table path (.stored nodes) id = visit table path .element x)
      (content.ids 1) content.elements := by
  refine h.held.imp fun id x h => ?_
  rw [visit, visit, h.tag, image_held h]
  rfl

/-- Each child of the root is read as the whole element it is, however the chunks are cut. -/
theorem topLevelElements_parsed (parsed : Parsed) (ending : Except Raised Unit) :
    topLevelElements (fun b => visit table path (.stored b.nodes)) ending parsed.chunks .start
      .empty = consume (visit table path .element) ending parsed.content.elements := by
  have hmet := parsed.nested.met
  have hyields : yields .start (Builder.empty.feed parsed.chunks.flatten).2 =
      parsed.content.ids 1 := yields_met hmet
  have hroot : Rooted .start (Builder.empty.feed parsed.chunks.flatten).2 := by
    refine .inr ⟨rfl, ?_⟩
    rcases hmet.events with ⟨hnone, _⟩ | ⟨rest, hevents, _⟩
    · simp [hnone]
    · simp [hevents]
  have hall := @topLevelElements_eq Raised WindowsImage
    (fun b => visit table path (.stored b.nodes))
    (visit table path (.stored (Builder.empty.feed parsed.chunks.flatten).1.nodes))
    parsed.chunks [] .empty ending (.refl 0 _) hroot ?_
  · refine hall.trans ?_
    show consume _ ending (yields .start (Builder.empty.feed parsed.chunks.flatten).2) = _
    rw [hyields]
    exact consume_congr (visit_laid hmet.laid)
  · intro front hfront b' hb' id hid
    obtain ⟨content, hreported⟩ := parsed.nested.of_front hfront
    obtain ⟨rest, hrest⟩ := hfront
    have hfirst := hreported.met
    have hwhole := (hfirst.feed rest).1
    have hlaid : content.Laid b'.nodes 1 :=
      hfirst.laid.congr fun id hlow _ => hb'.nodes id (by omega)
    have hfed : ((Builder.empty.feed front).1.feed rest).1 =
        (Builder.empty.feed parsed.chunks.flatten).1 := by
      rw [List.nil_append] at hrest
      rw [← hrest, Builder.feed_append]
    rw [hfed] at hwhole
    rw [yields_met hfirst] at hid
    exact eq_of_forall₂ (visit_laid hlaid) (visit_laid hwhole) hid

theorem delivered_consume (final : Except Raised Unit) (xs : List Element) :
    Delivered table path final (xs.filter fun x => x.tag = IMAGE)
      (consume (visit table path .element) final xs).1
      (consume (visit table path .element) final xs).2 := by
  induction xs with
  | nil => exact .nil
  | cons x xs ih =>
      rw [consume]
      by_cases htag : x.tag = IMAGE
      · have hkept : (x :: xs).filter (fun x => x.tag = IMAGE) =
            x :: xs.filter fun x => x.tag = IMAGE := by simp [htag]
        have hview : View.element.tag x = IMAGE := htag
        rw [hkept]
        cases himage : image .element x table path with
        | error e =>
            have hvisit : visit table path .element x = .error e := by
              simp [visit, hview, himage, Except.map]
            rw [hvisit]
            exact .refused himage
        | ok record =>
            have hvisit : visit table path .element x = .ok [record] := by
              simp [visit, hview, himage, Except.map]
            rw [hvisit]
            exact .cons himage ih
      · have hkept : (x :: xs).filter (fun x => x.tag = IMAGE) =
            xs.filter fun x => x.tag = IMAGE := by simp [htag]
        have hvisit : visit table path .element x = .ok [] := by
          simp [visit, View.element, htag]
        rw [hkept, hvisit]
        exact ih

/-! ## When the contract is kept -/

/-- The `INDEX` of an image can be read. -/
def Numbered (x : Element) : Prop := isDecimal (View.element.get x INDEX []) = true

/-- The numbers of an image fit in 64 bits. -/
def Narrow (x : Element) : Prop :=
  intOf (View.element.get x INDEX []) < 2 ^ 64 ∧
    ∀ field ∈ [BUILD, SPBUILD, TOTALBYTES], int .element x field < 2 ^ 64

/-- The images that come before one without a number are narrow, and unless there is such a one the
parser ends with an error that is caught. -/
structure Sound (parsed : Parsed) : Prop where
  narrow : ∀ front x, front ++ [x] <+: images parsed.content → (∀ y ∈ front ++ [x], Numbered y) →
    Narrow x
  caught : (∀ x ∈ images parsed.content, Numbered x) →
    parsed.ending ≠ .error .lookup ∧ parsed.ending ≠ .error .value

theorem image_cases (x : Element) :
    (∃ record, image .element x table path = .ok record ∧ Numbered x ∧
      record.numbers = [intOf (View.element.get x INDEX []), int .element x BUILD,
        int .element x SPBUILD, int .element x TOTALBYTES]) ∨
    ∃ text, image .element x table path = .error (.nativeCall text) ∧ ¬Numbered x := by
  unfold image index Numbered
  simp only
  split
  · rename_i h
    exact .inr ⟨_, rfl, by simpa using h⟩
  · rename_i h
    exact .inl ⟨_, rfl, by simpa using h, rfl⟩

theorem image_ok {x : Element} {record : WindowsImage}
    (h : image .element x table path = .ok record) :
    Numbered x ∧ ((∀ n ∈ record.numbers, n < 2 ^ 64) ↔ Narrow x) := by
  rcases image_cases x with ⟨record', hrecord, hnumbered, hnumbers⟩ | ⟨text, herror, _⟩
  · obtain rfl := Except.ok.inj (hrecord.symm.trans h)
    refine ⟨hnumbered, ?_⟩
    rw [hnumbers]
    simp [Narrow]
  · rw [herror] at h
    cases h

theorem image_error {x : Element} {e : Raised} (h : image .element x table path = .error e) :
    ¬Numbered x ∧ e.isNativeCallError = true := by
  rcases image_cases x with ⟨record, hrecord, _, _⟩ | ⟨text, herror, hunnumbered⟩
  · rw [hrecord] at h
    cases h
  · obtain rfl := Except.error.inj (herror.symm.trans h)
    exact ⟨hunnumbered, rfl⟩

section Delivered

variable {final ending : Except Raised Unit} {xs : List Element} {records : List WindowsImage}

/-- The numbers are those of the images before one without a number. -/
theorem Delivered.narrow (h : Delivered table path final xs records ending) :
    (∀ record ∈ records, ∀ n ∈ record.numbers, n < 2 ^ 64) ↔
      ∀ front x, front ++ [x] <+: xs → (∀ y ∈ front ++ [x], Numbered y) → Narrow x := by
  induction h with
  | nil => simp
  | @cons x xs record records ending first rest ih =>
      obtain ⟨hnumbered, hnarrow⟩ := image_ok first
      rw [List.forall_mem_cons, ih, hnarrow]
      constructor
      · rintro ⟨hfirst, hrest⟩ front y hprefix hall
        cases front with
        | nil => exact (List.cons_prefix_cons.mp hprefix).1 ▸ hfirst
        | cons z front =>
            obtain ⟨rfl, hlater⟩ := List.cons_prefix_cons.mp hprefix
            exact hrest front y hlater fun w hw => hall w (List.mem_cons_of_mem _ hw)
      · intro h
        constructor
        · exact h [] x (List.cons_prefix_cons.mpr ⟨rfl, List.nil_prefix⟩) (by simpa using hnumbered)
        · intro front y hprefix hall
          refine h (x :: front) y (List.cons_prefix_cons.mpr ⟨rfl, hprefix⟩) ?_
          exact List.forall_mem_cons.mpr ⟨hnumbered, hall⟩
  | @refused x xs e first =>
      have hunnumbered := (image_error first).1
      refine iff_of_true (by simp) ?_
      intro front y hprefix hall
      have hx : x ∈ front ++ [y] := by
        cases front with
        | nil => simp [(List.cons_prefix_cons.mp hprefix).1]
        | cons z front => simp [(List.cons_prefix_cons.mp hprefix).1]
      exact absurd (hall x hx) hunnumbered

/-- The parser's ending is raised unless an image without a number comes first. -/
theorem Delivered.raises (h : Delivered table path final xs records ending) :
    (∀ e, ending = .error e → e.isNativeCallError = true) ↔
      ((∀ x ∈ xs, Numbered x) → ∀ e, final = .error e → e.isNativeCallError = true) := by
  induction h with
  | nil => simp
  | cons first rest ih =>
      rw [ih, List.forall_mem_cons]
      exact ⟨fun h hall => h hall.2, fun h hrest => h ⟨(image_ok first).1, hrest⟩⟩
  | @refused x xs e first =>
      obtain ⟨hunnumbered, htyped⟩ := image_error first
      constructor
      · intro _ hall
        exact absurd (hall x List.mem_cons_self) hunnumbered
      · intro _ e' he
        exact Except.error.inj he ▸ htyped

end Delivered

theorem raisedOf_typed (final : Except XmlError Unit) :
    (∀ e, final.mapError (raisedOf path) = .error e → e.isNativeCallError = true) ↔
      final ≠ .error .lookup ∧ final ≠ .error .value := by
  cases final with
  | ok _ => simp [Except.mapError]
  | error e => cases e <;> simp [Except.mapError, raisedOf, Raised.isNativeCallError]

/-- What an iteration keeps to. -/
structure Contract (table : Nat → Bool) (parser : List UInt8 → Parsed) (path : PyStr) (file : File)
    (run : Iteration) : Prop where
  raises : ∀ e, run.ending = .error e → e.isNativeCallError = true
  reads : ∀ range ∈ run.reads, range = HEADER ∨ Named path file range
  /-- a record of each image, up to one that gives none -/
  records : ∀ raw, Gives path file raw → Delivered table path
    ((parser raw).ending.mapError (raisedOf path)) (images (parser raw).content) run.records run.ending
  /-- nothing is yielded of a resource that is not given -/
  nothing : (∀ raw, ¬Gives path file raw) → run.records = []
  numbers : ∀ record ∈ run.records, ∀ n ∈ record.numbers, n < 2 ^ 64

theorem iterWimImages_of_error {parser : List UInt8 → Parsed} {e : Raised}
    (h : (readXmlResource path file).result = .error e) :
    iterWimImages table parser path file = ⟨(readXmlResource path file).reads, [], .error e⟩ := by
  simp only [iterWimImages, h]

theorem iterWimImages_of_ok {parser : List UInt8 → Parsed} {raw : List UInt8}
    (h : (readXmlResource path file).result = .ok raw) :
    let yielded := consume (visit table path .element)
      ((parser raw).ending.mapError (raisedOf path)) (parser raw).content.elements
    iterWimImages table parser path file =
      ⟨(readXmlResource path file).reads, yielded.1, yielded.2⟩ := by
  simp only [iterWimImages, h, topLevelElements_parsed]

/-- The contract is kept exactly if what is given of the file is sound. -/
theorem iterWimImages_contract_iff (table : Nat → Bool) (parser : List UInt8 → Parsed)
    (path : PyStr) (file : File) :
    Contract table parser path file (iterWimImages table parser path file) ↔
      ∀ raw, Gives path file raw → Sound (parser raw) := by
  have hreads := @readXmlResource_reads path file
  cases hresult : (readXmlResource path file).result with
  | error e =>
      have hnone (raw : List UInt8) : ¬Gives path file raw := by
        intro hgives
        rw [readXmlResource_ok.mpr hgives] at hresult
        cases hresult
      rw [iterWimImages_of_error hresult]
      refine iff_of_true ⟨?_, hreads, ?_, fun _ => rfl, by simp⟩ fun raw h => absurd h (hnone raw)
      · intro e' he
        exact Except.error.inj he ▸ readXmlResource_error hresult
      · exact fun raw h => absurd h (hnone raw)
  | ok raw =>
      have hgives := readXmlResource_ok.mp hresult
      have honly (raw' : List UInt8) (h : Gives path file raw') : raw' = raw :=
        Except.ok.inj ((readXmlResource_ok.mpr h).symm.trans hresult)
      have hdelivered := @delivered_consume table path
        ((parser raw).ending.mapError (raisedOf path)) (parser raw).content.elements
      rw [iterWimImages_of_ok hresult]
      constructor
      · intro hcontract raw' h
        obtain rfl := honly raw' h
        refine ⟨hdelivered.narrow.mp hcontract.numbers, fun hall => ?_⟩
        exact (raisedOf_typed _).mp (hdelivered.raises.mp hcontract.raises hall)
      · intro hsound
        have hraw := hsound raw hgives
        refine ⟨?_, hreads, ?_, fun hnone => absurd hgives (hnone raw), ?_⟩
        · exact hdelivered.raises.mpr fun hall => (raisedOf_typed _).mpr (hraw.caught hall)
        · intro raw' h
          obtain rfl := honly raw' h
          exact hdelivered
        · exact hdelivered.narrow.mpr hraw.narrow

/-! ## An encoding nobody knows -/

/-- `<?xml version='1.0' encoding='x'?><WIM/>` -/
def strangeXml : List UInt8 :=
  [0x3c, 0x3f, 0x78, 0x6d, 0x6c, 0x20, 0x76, 0x65, 0x72, 0x73, 0x69, 0x6f, 0x6e, 0x3d, 0x27, 0x31,
    0x2e, 0x30, 0x27, 0x20, 0x65, 0x6e, 0x63, 0x6f, 0x64, 0x69, 0x6e, 0x67, 0x3d, 0x27, 0x78, 0x27,
    0x3f, 0x3e, 0x3c, 0x57, 0x49, 0x4d, 0x2f, 0x3e]

/-- A header that names it, and it. -/
def strangeFile : List UInt8 :=
  MAGIC ++ List.replicate 64 0 ++ Bytes.le 7 40 ++ [0x02] ++ Bytes.le 8 208 ++ Bytes.le 8 40 ++
    List.replicate 112 0 ++ strangeXml

def unchanged (content : List UInt8) : File :=
  { opened := .ok ()
    first := .ok content
    st_size := .ok content.length
    sought := .ok ()
    later := .ok content
    closed := .ok () }

/-- What is reported of it: nothing, and that there is no such encoding. -/
def strangeParsed : Parsed :=
  { chunks := [], ending := .error .lookup, content := .nil, nested := .nothing }

set_option maxRecDepth 8000 in
theorem strange_encoding_escapes :
    ¬Contract (fun _ => true) (fun _ => strangeParsed) (py "x.wim") (unchanged strangeFile)
      (iterWimImages (fun _ => true) (fun _ => strangeParsed) (py "x.wim")
        (unchanged strangeFile)) := by
  intro h
  have hending : (iterWimImages (fun _ => true) (fun _ => strangeParsed) (py "x.wim")
      (unchanged strangeFile)).ending = .error .lookupError := by decide
  exact absurd (h.raises _ hending) (by decide)

end PwshPy.Wim
