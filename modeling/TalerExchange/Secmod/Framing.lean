import TalerExchange.Secmod.Batches
import TalerExchange.Transition.Path

/-!
# Messages from a stream

`TES_read_work` reads from a socket and hands on the messages that are complete. It is called again and
again until it fails.

* `Recv`, `Reader`: the results of `recv`, the reader between them; `readerStep`: what it does then;
* `frames`: the messages in a sequence of bytes; `frames_append`: they do not depend on its parts;
* `FramesExactly`: the reader hands on those messages, and fails when it is to;
* `KeepsUp`: the invariant; **`readerStep_keepsUp`**: a step keeps it;
* **`framesExactly_iff`**: when it does; a header in two parts.
-/

namespace TalerExchange

open Transition

/-! ## The reader -/

/-- What `recv` comes back with. -/
inductive Recv
  | data (c : List UInt8)
  | eintr
  | eagain
  | closed
deriving DecidableEq, Repr

/-- A reader waits for data, has returned `GNUNET_SYSERR`, or has followed a null pointer. -/
inductive ReaderStatus
  | running
  | failed
  | crashed
deriving DecidableEq, Repr

/-- `sizeof (struct GNUNET_MessageHeader)`. -/
def messageHeader : ℕ := 4

/-- `hdr` and `msize`: a null pointer and zero, or a header and the size in it. -/
abbrev MessageSize := Option { n : ℕ // messageHeader ≤ n }

/-- The reader: the bytes in `iobuf`, the header, the messages that were dispatched. -/
structure Reader where
  buf : List UInt8 := []
  header : MessageSize := none
  dispatched : List (List UInt8) := []
  status : ReaderStatus := .running
deriving DecidableEq

namespace Reader

/-- From the label `more` on: the header is read if it is there, and `none` if its size is invalid. -/
def more (r : Reader) : Option Reader :=
  if r.buf.length < messageHeader then some r
  else if h : headerSize r.buf < messageHeader then none
  else some { r with header := some ⟨headerSize r.buf, not_lt.mp h⟩ }

@[simp] theorem buf_more {r r' : Reader} (h : r.more = some r') : r'.buf = r.buf := by
  unfold more at h
  split_ifs at h <;> obtain rfl := Option.some.inj h <;> rfl

/-- `TES_read_work` has returned without an error and is called again. -/
def again (r : Reader) : Reader := { dispatched := r.dispatched }

def fail (r : Reader) : Reader := { r with status := .failed }

variable (dispatch : List (List UInt8) → Bool)

/-- From the condition of the loop on: more data is waited for, or a message is dispatched. Without a
header, `msize` is zero and the loop ends. -/
def loopEnd (r : Reader) : Reader :=
  match r.header with
  | none => { r with status := .crashed }
  | some n =>
    if r.buf.length < n then r
    else
      let msgs := r.dispatched ++ [r.buf.take n]
      if dispatch msgs = false then { r with dispatched := msgs, status := .failed }
      else if r.buf.length = n then { r with dispatched := msgs }.again
      else
        match _hmore : { r with dispatched := msgs, buf := r.buf.drop n }.more with
        | none => { r with dispatched := msgs, status := .failed }
        | some r' => loopEnd r'
termination_by r.buf.length
decreasing_by
  have hn : 0 < n.val := (show 0 < messageHeader by decide).trans_le n.2
  rw [buf_more _hmore, List.length_drop]
  omega

end Reader

/-- **One result of `recv`.** -/
def readerStep (dispatch : List (List UInt8) → Bool) (r : Reader) (e : Recv) : Reader :=
  if r.status ≠ .running then r
  else
    match e with
    | .closed => r.fail
    | .eagain => if r.buf = [] then r.again else r.loopEnd dispatch
    | .eintr => r.loopEnd dispatch
    | .data c =>
      let r := { r with buf := r.buf ++ c }
      match r.more with
      | none => r.fail
      | some r' => r'.loopEnd dispatch

/-! ## The messages of a stream -/

/-- The messages in a sequence of bytes: what is left, what was dispatched, whether that failed. -/
structure Framed where
  pending : List UInt8 := []
  dispatched : List (List UInt8) := []
  failed : Bool := false
deriving DecidableEq

section Frames

variable (dispatch : List (List UInt8) → Bool)

/-- **The complete messages**, one after the other, as the size fields give them. -/
def frames (msgs : List (List UInt8)) (bytes : List UInt8) : Framed :=
  if bytes.length < messageHeader then ⟨bytes, msgs, false⟩
  else if headerSize bytes < messageHeader then ⟨[], msgs, true⟩
  else if bytes.length < headerSize bytes then ⟨bytes, msgs, false⟩
  else
    let msgs := msgs ++ [bytes.take (headerSize bytes)]
    if dispatch msgs = false then ⟨[], msgs, true⟩
    else frames msgs (bytes.drop (headerSize bytes))
termination_by bytes.length
decreasing_by
  rw [List.length_drop]
  unfold messageHeader at *
  omega

/-- The messages, one result of `recv` after the other. -/
def framedStep (f : Framed) (e : Recv) : Framed :=
  if f.failed then f
  else
    match e with
    | .closed => { f with pending := [], failed := true }
    | .eintr | .eagain => f
    | .data c => frames dispatch f.dispatched (f.pending ++ c)

end Frames

/-- The bytes that are received until the connection is closed. -/
def received : List Recv → List UInt8
  | [] => []
  | .closed :: _ => []
  | .data c :: es => c ++ received es
  | _ :: es => received es

/-- **The reader hands on exactly the messages of the stream** and returns an error if and only if a
size is invalid, a message is refused or the connection is closed. -/
def FramesExactly (dispatch : List (List UInt8) → Bool) (es : List Recv) : Prop :=
  let r := run (readerStep dispatch) {} es
  let f := frames dispatch [] (received es)
  r.dispatched = f.dispatched ∧ (r.status = .failed ↔ f.failed = true ∨ .closed ∈ es) ∧
    r.status ≠ .crashed

/-- Between two messages, `recv` is not interrupted and comes back with a header. -/
def BetweenOk (f : Framed) (e : Recv) : Prop :=
  f.failed = false → f.pending = [] → e ≠ .eintr ∧ ∀ c, e = .data c → messageHeader ≤ c.length

/-! ## Parts of a stream -/

section Frames

variable {dispatch : List (List UInt8) → Bool} {msgs : List (List UInt8)} {a b : List UInt8}

theorem headerSize_append (h : messageHeader ≤ a.length) : headerSize (a ++ b) = headerSize a := by
  unfold messageHeader at h
  unfold headerSize
  rw [List.getD_eq_getElem?_getD, List.getD_eq_getElem?_getD, List.getD_eq_getElem?_getD,
    List.getD_eq_getElem?_getD, List.getElem?_append_left (by omega),
    List.getElem?_append_left (by omega)]

theorem frames_short (h : a.length < messageHeader) :
    frames dispatch msgs a = ⟨a, msgs, false⟩ := by
  rw [frames, if_pos h]

theorem frames_invalid (h : messageHeader ≤ a.length) (hs : headerSize a < messageHeader) :
    frames dispatch msgs a = ⟨[], msgs, true⟩ := by
  rw [frames, if_neg (not_lt.mpr h), if_pos hs]

theorem frames_incomplete (h : messageHeader ≤ a.length) (hs : messageHeader ≤ headerSize a)
    (hlt : a.length < headerSize a) : frames dispatch msgs a = ⟨a, msgs, false⟩ := by
  rw [frames, if_neg (not_lt.mpr h), if_neg (not_lt.mpr hs), if_pos hlt]

theorem frames_complete (hs : messageHeader ≤ headerSize a) (hle : headerSize a ≤ a.length) :
    frames dispatch msgs a =
      if dispatch (msgs ++ [a.take (headerSize a)]) = false then
        ⟨[], msgs ++ [a.take (headerSize a)], true⟩
      else frames dispatch (msgs ++ [a.take (headerSize a)]) (a.drop (headerSize a)) := by
  rw [frames, if_neg (not_lt.mpr (hs.trans hle)), if_neg (not_lt.mpr hs), if_neg (not_lt.mpr hle)]

/-- **The parts do not matter**: the messages of the first part, and then those of what is left of it
and the second part. -/
theorem frames_append : frames dispatch msgs (a ++ b) =
    if (frames dispatch msgs a).failed then frames dispatch msgs a
    else frames dispatch (frames dispatch msgs a).dispatched
      ((frames dispatch msgs a).pending ++ b) := by
  induction hn : a.length using Nat.strong_induction_on generalizing msgs a with
  | _ n ih =>
    by_cases hshort : a.length < messageHeader
    · rw [frames_short hshort]
      rfl
    rw [not_lt] at hshort
    by_cases hinv : headerSize a < messageHeader
    · rw [frames_invalid hshort hinv, if_pos rfl]
      refine frames_invalid (hshort.trans ?_) (by rwa [headerSize_append hshort])
      simp
    rw [not_lt] at hinv
    by_cases hlt : a.length < headerSize a
    · rw [frames_incomplete hshort hinv hlt]
      rfl
    rw [not_lt] at hlt
    have hsize : headerSize (a ++ b) = headerSize a := headerSize_append hshort
    rw [frames_complete (a := a ++ b) (by rwa [hsize]) (by rw [hsize]; simp; omega), hsize,
      List.take_append_of_le_length hlt, List.drop_append_of_le_length hlt,
      frames_complete hinv hlt]
    split_ifs with hd hf hf
    · rfl
    · exact absurd rfl hf
    · rw [ih _ (by unfold messageHeader at *; rw [List.length_drop]; omega) rfl, if_pos hf]
    · rw [ih _ (by unfold messageHeader at *; rw [List.length_drop]; omega) rfl, if_neg hf]

theorem frames_idem (h : (frames dispatch msgs a).failed = false) :
    frames dispatch (frames dispatch msgs a).dispatched (frames dispatch msgs a).pending =
      frames dispatch msgs a := by
  have happ := @frames_append dispatch msgs a []
  rw [if_neg (by simp [h]), List.append_nil, List.append_nil] at happ
  exact happ.symm

theorem framedStep_failed {f : Framed} (hf : f.failed = true) (e : Recv) :
    framedStep dispatch f e = f := by
  simp [framedStep, hf]

theorem run_framedStep_failed {f : Framed} (hf : f.failed = true) (es : List Recv) :
    run (framedStep dispatch) f es = f := by
  induction es with
  | nil => rfl
  | cons e es ih =>
    rw [run_cons, framedStep_failed hf]
    exact ih

/-- **The messages, one result after the other**, are those of the whole stream. -/
theorem run_framedStep {f : Framed} (hf : f.failed = false)
    (hp : frames dispatch f.dispatched f.pending = f) (es : List Recv) :
    (run (framedStep dispatch) f es).dispatched =
        (frames dispatch f.dispatched (f.pending ++ received es)).dispatched ∧
      ((run (framedStep dispatch) f es).failed = true ↔
        (frames dispatch f.dispatched (f.pending ++ received es)).failed = true ∨ .closed ∈ es) := by
  induction es generalizing f with
  | nil =>
    rw [received, List.append_nil, hp]
    simp
  | cons e es ih =>
    rw [run_cons]
    cases e with
    | closed =>
      have hstep : framedStep dispatch f .closed = { f with pending := [], failed := true } := by
        simp [framedStep, hf]
      rw [hstep, run_framedStep_failed rfl, received, List.append_nil, hp]
      simp
    | eintr =>
      have hstep : framedStep dispatch f .eintr = f := by simp [framedStep]
      rw [hstep]
      simpa [received] using ih hf hp
    | eagain =>
      have hstep : framedStep dispatch f .eagain = f := by simp [framedStep]
      rw [hstep]
      simpa [received] using ih hf hp
    | data c =>
      have hstep : framedStep dispatch f (.data c) =
          frames dispatch f.dispatched (f.pending ++ c) := by
        simp [framedStep, hf]
      rw [hstep]
      have happ := @frames_append dispatch f.dispatched (f.pending ++ c) (received es)
      rw [List.append_assoc] at happ
      simp only [received]
      rw [happ]
      by_cases hf' : (frames dispatch f.dispatched (f.pending ++ c)).failed = true
      · rw [if_pos hf', run_framedStep_failed hf']
        simp [hf']
      · rw [if_neg hf']
        have hfalse := Bool.eq_false_of_not_eq_true hf'
        simpa using ih hfalse (frames_idem hfalse)

end Frames

/-! ## The invariant -/

/-- The reader is where the messages are: between two messages it begins anew; otherwise the size of the
message is known, or that of the message before it, which is longer than what is there. -/
structure KeepsUp (r : Reader) (f : Framed) : Prop where
  dispatched : r.dispatched = f.dispatched
  status : r.status = if f.failed then .failed else .running
  buf : f.failed = false → r.buf = f.pending
  anew : f.failed = false → f.pending = [] → r.header = none
  known : f.failed = false → f.pending ≠ [] → ∃ n, r.header = some n ∧ f.pending.length < n.val

section Reading

variable {dispatch : List (List UInt8) → Bool} {r : Reader}

theorem more_short (h : r.buf.length < messageHeader) : r.more = some r := if_pos h

theorem more_invalid (h : messageHeader ≤ r.buf.length) (hs : headerSize r.buf < messageHeader) :
    r.more = none := by
  rw [Reader.more, if_neg (not_lt.mpr h), dif_pos hs]

theorem more_valid (h : messageHeader ≤ r.buf.length) (hs : messageHeader ≤ headerSize r.buf) :
    r.more = some { r with header := some ⟨headerSize r.buf, hs⟩ } := by
  rw [Reader.more, if_neg (not_lt.mpr h), dif_neg (not_lt.mpr hs)]

theorem loopEnd_wait {n : { n : ℕ // messageHeader ≤ n }} (hn : r.header = some n)
    (h : r.buf.length < n.val) : r.loopEnd dispatch = r := by
  rw [Reader.loopEnd]
  simp only [hn, h, if_true]

/-- A message is there: it is dispatched, and the loop goes on with what follows it. -/
theorem loopEnd_dispatch {n : { n : ℕ // messageHeader ≤ n }} (hn : r.header = some n)
    (h : n.val ≤ r.buf.length) : r.loopEnd dispatch =
      if dispatch (r.dispatched ++ [r.buf.take n]) = false then
        { r with dispatched := r.dispatched ++ [r.buf.take n], status := .failed }
      else if r.buf.length = n then Reader.again { r with dispatched := r.dispatched ++ [r.buf.take n] }
      else
        match { r with dispatched := r.dispatched ++ [r.buf.take n], buf := r.buf.drop n }.more with
        | none => { r with dispatched := r.dispatched ++ [r.buf.take n], status := .failed }
        | some r' => r'.loopEnd dispatch := by
  rw [Reader.loopEnd]
  simp only [hn, not_lt.mpr h, if_false]
  split_ifs
  · rfl
  · rfl
  · split
    · next hm =>
      rw [hn] at hm
      simp only [hm]
    · next r' hm =>
      rw [hn] at hm
      simp only [hm]

/-- **The loop**, with the size of a message at hand: it hands on the messages that are there. -/
theorem loopEnd_follows {n : { n : ℕ // messageHeader ≤ n }} (hs : r.status = .running)
    (hn : r.header = some n)
    (hsize : messageHeader ≤ r.buf.length → n.val = headerSize r.buf) (hne : r.buf ≠ []) :
    KeepsUp (r.loopEnd dispatch) (frames dispatch r.dispatched r.buf) := by
  induction hl : r.buf.length using Nat.strong_induction_on generalizing r n with
  | _ l ih =>
    by_cases hlt : r.buf.length < n.val
    · have hframes : frames dispatch r.dispatched r.buf = ⟨r.buf, r.dispatched, false⟩ := by
        by_cases hshort : r.buf.length < messageHeader
        · exact frames_short hshort
        · rw [not_lt] at hshort
          have hval := hsize hshort
          exact frames_incomplete hshort (hval ▸ n.2) (hval ▸ hlt)
      rw [loopEnd_wait hn hlt, hframes]
      exact ⟨rfl, hs, fun _ => rfl, fun _ he => absurd he hne, fun _ _ => ⟨n, hn, hlt⟩⟩
    rw [not_lt] at hlt
    have hval := hsize (n.2.trans hlt)
    rw [loopEnd_dispatch hn hlt, frames_complete (hval ▸ n.2) (hval ▸ hlt), ← hval]
    by_cases hd : dispatch (r.dispatched ++ [r.buf.take n]) = false
    · rw [if_pos hd, if_pos hd]
      exact ⟨rfl, rfl, by simp, by simp, by simp⟩
    rw [if_neg hd, if_neg hd]
    by_cases heq : r.buf.length = n.val
    · rw [if_pos heq, List.drop_eq_nil_of_le heq.le, frames_short (by decide)]
      exact ⟨rfl, rfl, fun _ => rfl, fun _ _ => rfl, fun _ he => absurd rfl he⟩
    rw [if_neg heq]
    obtain ⟨r₁, hr₁⟩ : ∃ r₁ : Reader, r₁ =
        { r with dispatched := r.dispatched ++ [r.buf.take n], buf := r.buf.drop n } := ⟨_, rfl⟩
    have hbuf : r₁.buf = r.buf.drop n := by rw [hr₁]
    have hmsgs : r₁.dispatched = r.dispatched ++ [r.buf.take n] := by rw [hr₁]
    have hs₁ : r₁.status = .running := by rw [hr₁]; exact hs
    have hn₁ : r₁.header = some n := by rw [hr₁]; exact hn
    have hdrop : r₁.buf.length < l := by
      have hpos : 0 < n.val := (show 0 < messageHeader by decide).trans_le n.2
      rw [hbuf, List.length_drop]
      omega
    have hnonempty : r₁.buf ≠ [] := by
      rw [hbuf, ne_eq, List.drop_eq_nil_iff]
      omega
    rw [← hr₁, ← hbuf, ← hmsgs]
    by_cases hshort : r₁.buf.length < messageHeader
    · rw [more_short hshort]
      exact ih _ hdrop hs₁ hn₁ (fun h => absurd hshort (not_lt.mpr h)) hnonempty rfl
    rw [not_lt] at hshort
    by_cases hinv : headerSize r₁.buf < messageHeader
    · rw [more_invalid hshort hinv, frames_invalid hshort hinv]
      exact ⟨rfl, rfl, by simp, by simp, by simp⟩
    · rw [more_valid hshort (not_lt.mp hinv)]
      exact @ih _ hdrop { r₁ with header := some ⟨headerSize r₁.buf, not_lt.mp hinv⟩ } _ hs₁ rfl
        (fun _ => rfl) hnonempty rfl

/-- From `more` on, with a header or the size of the message before. -/
theorem more_follows (hs : r.status = .running)
    (hh : r.buf.length < messageHeader → ∃ n, r.header = some n) (hne : r.buf ≠ []) :
    KeepsUp (match r.more with | none => r.fail | some r' => r'.loopEnd dispatch)
      (frames dispatch r.dispatched r.buf) := by
  by_cases hshort : r.buf.length < messageHeader
  · obtain ⟨n, hn⟩ := hh hshort
    rw [more_short hshort]
    exact loopEnd_follows hs hn (fun h => absurd hshort (not_lt.mpr h)) hne
  rw [not_lt] at hshort
  by_cases hinv : headerSize r.buf < messageHeader
  · rw [more_invalid hshort hinv, frames_invalid hshort hinv]
    exact ⟨rfl, rfl, by simp, by simp, by simp⟩
  · rw [more_valid hshort (not_lt.mp hinv)]
    exact @loopEnd_follows dispatch { r with header := some ⟨headerSize r.buf, not_lt.mp hinv⟩ } _ hs
      rfl (fun _ => rfl) hne

theorem loopEnd_null (h : r.header = none) : (r.loopEnd dispatch).status = .crashed := by
  rw [Reader.loopEnd]
  simp only [h]

theorem KeepsUp.running {f : Framed} (h : KeepsUp r f) (hf : f.failed = false) :
    r.status = .running := by
  rw [h.status, hf]
  rfl

theorem readerStep_ended (hs : r.status ≠ .running) (e : Recv) : readerStep dispatch r e = r := by
  unfold readerStep
  rw [if_pos hs]

theorem readerStep_running (hs : r.status = .running) (e : Recv) :
    readerStep dispatch r e = match e with
      | .closed => r.fail
      | .eagain => if r.buf = [] then r.again else r.loopEnd dispatch
      | .eintr => r.loopEnd dispatch
      | .data c =>
        match { r with buf := r.buf ++ c }.more with
        | none => { r with buf := r.buf ++ c }.fail
        | some r' => r'.loopEnd dispatch := by
  unfold readerStep
  rw [if_neg (not_not.mpr hs)]

/-- **One step** keeps the reader where the messages are, if it is one that it can take. -/
theorem readerStep_keepsUp {f : Framed} (h : KeepsUp r f) {e : Recv} (he : BetweenOk f e) :
    KeepsUp (readerStep dispatch r e) (framedStep dispatch f e) := by
  by_cases hfail : f.failed = true
  · have hs : r.status ≠ .running := by
      rw [h.status, hfail]
      exact fun hc => by cases hc
    rw [framedStep_failed hfail, readerStep_ended hs]
    exact h
  have hf := Bool.eq_false_of_not_eq_true hfail
  have hs := h.running hf
  have hbuf := h.buf hf
  rw [readerStep_running hs]
  -- within a message, the loop waits for more
  have hwait : f.pending ≠ [] → r.loopEnd dispatch = r := by
    intro hne
    obtain ⟨n, hn, hlt⟩ := h.known hf hne
    exact loopEnd_wait hn (hbuf ▸ hlt)
  cases e with
  | closed =>
    have hstep : framedStep dispatch f .closed = { f with pending := [], failed := true } := by
      simp [framedStep, hf]
    rw [hstep]
    exact ⟨h.dispatched, rfl, by simp, by simp, by simp⟩
  | eagain =>
    have hstep : framedStep dispatch f .eagain = f := by simp [framedStep]
    rw [hstep]
    dsimp only
    split_ifs with hempty
    · have hp : f.pending = [] := hbuf ▸ hempty
      refine ⟨h.dispatched, ?_, fun _ => hp.symm, fun _ _ => rfl, fun _ hne => absurd hp hne⟩
      rw [hf]
      rfl
    · rw [hwait (hbuf ▸ hempty)]
      exact h
  | eintr =>
    have hstep : framedStep dispatch f .eintr = f := by simp [framedStep]
    rw [hstep]
    dsimp only
    rw [hwait fun hp => (he hf hp).1 rfl]
    exact h
  | data c =>
    have hstep : framedStep dispatch f (.data c) = frames dispatch f.dispatched (f.pending ++ c) := by
      simp [framedStep, hf]
    rw [hstep, ← h.dispatched, ← hbuf]
    dsimp only
    have hsome : (r.buf ++ c).length < messageHeader → ∃ n, r.header = some n := by
      intro hshort
      by_cases hp : f.pending = []
      · have hlen := (he hf hp).2 c rfl
        rw [List.length_append] at hshort
        omega
      · obtain ⟨n, hn, -⟩ := h.known hf hp
        exact ⟨n, hn⟩
    have hne : r.buf ++ c ≠ [] := by
      by_cases hp : f.pending = []
      · have hlen := (he hf hp).2 c rfl
        intro hnil
        rw [(List.append_eq_nil_iff.mp hnil).2] at hlen
        exact absurd hlen (by decide)
      · rw [hbuf]
        exact fun hnil => hp (List.append_eq_nil_iff.mp hnil).1
    exact @more_follows dispatch { r with buf := r.buf ++ c } hs hsome hne

/-- **A step that it cannot take** is the last one. -/
theorem readerStep_crashed {f : Framed} (h : KeepsUp r f) {e : Recv} (he : ¬ BetweenOk f e) :
    (readerStep dispatch r e).status = .crashed := by
  simp only [BetweenOk, not_forall] at he
  obtain ⟨hf, hp, he⟩ := he
  have hs := h.running hf
  have hnone := h.anew hf hp
  have hempty : r.buf = [] := (h.buf hf).trans hp
  rw [readerStep_running hs]
  cases e with
  | closed => simp at he
  | eagain => simp at he
  | eintr => exact loopEnd_null hnone
  | data c =>
    have hshort : c.length < messageHeader := by simpa using he
    dsimp only
    rw [hempty, List.nil_append, more_short hshort]
    exact loopEnd_null hnone

theorem run_crashed (hs : r.status = .crashed) (es : List Recv) :
    (run (readerStep dispatch) r es).status = .crashed := by
  induction es generalizing r with
  | nil => exact hs
  | cons e es ih =>
    rw [run_cons]
    rw [readerStep_ended (by rw [hs]; exact fun hc => by cases hc)]
    exact ih hs

/-- **A run** follows the messages, or ends at the first step that the reader cannot take. -/
theorem run_keepsUp {f : Framed} (h : KeepsUp r f) (es : List Recv) :
    (Admits (framedStep dispatch) BetweenOk f es →
      KeepsUp (run (readerStep dispatch) r es) (run (framedStep dispatch) f es)) ∧
    (¬ Admits (framedStep dispatch) BetweenOk f es →
      (run (readerStep dispatch) r es).status = .crashed) := by
  induction es generalizing r f with
  | nil => exact ⟨fun _ => h, fun hno => absurd trivial hno⟩
  | cons e es ih =>
    rw [run_cons, run_cons]
    by_cases he : BetweenOk f e
    · obtain ⟨hok, hno⟩ := ih (readerStep_keepsUp h he)
      exact ⟨fun ha => hok ha.2, fun ha => hno fun hrest => ha ⟨he, hrest⟩⟩
    · exact ⟨fun ha => absurd ha.1 he, fun _ => run_crashed (readerStep_crashed h he) es⟩

end Reading

/-- **Framing**: however the stream is received, the reader hands on exactly its messages and fails
when it is to, if and only if between two messages `recv` is never interrupted and always comes back
with a whole header. -/
theorem framesExactly_iff (dispatch : List (List UInt8) → Bool) (es : List Recv) :
    FramesExactly dispatch es ↔ Admits (framedStep dispatch) BetweenOk {} es := by
  have hstart : KeepsUp {} {} := ⟨rfl, rfl, fun _ => rfl, fun _ _ => rfl, fun _ hne => absurd rfl hne⟩
  have hframed := @run_framedStep dispatch {} rfl (frames_short (by decide)) es
  obtain ⟨hok, hno⟩ := @run_keepsUp dispatch {} {} hstart es
  constructor
  · rintro ⟨-, -, hrun⟩
    by_contra hbad
    exact hrun (hno hbad)
  · intro ha
    have hfollows := hok ha
    refine ⟨hfollows.dispatched.trans hframed.1, ?_, ?_⟩
    · refine Iff.trans ?_ hframed.2
      rw [hfollows.status]
      split_ifs with hf <;> simp [hf]
    · rw [hfollows.status]
      split_ifs <;> simp

/-- A message of eight bytes comes in two parts, the first of which ends within the header. -/
theorem not_framesExactly : ¬ FramesExactly (fun _ => true)
    [.data [0, 8], .data [0, 1, 9, 9, 9, 9]] := by
  rintro ⟨-, -, hrun⟩
  refine hrun (run_crashed (readerStep_crashed (f := {}) ?_ ?_) _)
  · exact ⟨rfl, rfl, fun _ => rfl, fun _ _ => rfl, fun _ hne => absurd rfl hne⟩
  · intro h
    exact absurd ((h rfl rfl).2 _ rfl) (by decide)

end TalerExchange
