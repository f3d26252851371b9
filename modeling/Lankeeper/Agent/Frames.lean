import Lankeeper.Lib.JsonScan
import Lankeeper.Lib.Machine

/-!
# Lankeeper.Agent.Frames — the size and the time of one request

`frameReader` and `handleConn` of `internal/agent/server.go`. The reader counts the bytes of
each read on the connection, and sets a deadline with the first read that brings more than
white space; `endFrame` resets both when a request has been decoded. The decoder above it
keeps what it has read behind the end of a request. These bytes have been counted for the
request before, and they are not there when the deadline of their own request would be set.

`frames_safe_iff` says for every stream and every way it is split into reads when the limits
hold for requests as they are in the stream.
-/

namespace Lankeeper.Agent.Frames

open Lib JsonScan List

def hasFrameByte (b : Bytes) : Bool :=
  b.any fun c => !isSpace c

/-- From the first byte that is not white space on. -/
def trim (b : Bytes) : Bytes :=
  b.dropWhile isSpace

inductive Phase
  /-- in a read on the connection -/
  | reading
  /-- a request was decoded, and its handler runs -/
  | handling (text : Bytes)
  /-- `errFrameTooLarge` -/
  | refused
  | closed

structure Conn where
  /-- what the peer still sends -/
  future : Bytes
  /-- what the decoder has and has not decoded -/
  buf : Bytes
  read : Nat
  armed : Bool
  phase : Phase

inductive Event
  /-- a read that returns so many bytes, if the budget allows and the peer sends them -/
  | recv (k : Nat)
  /-- a read of `watchPeer` -/
  | watch (k : Nat)
  /-- the handler is done and its reply written -/
  | finish
  /-- a deadline, the end of the stream, or a failed write -/
  | hangUp

/-- The largest request, and the values that are requests: a decoded value of another form
ends the connection. -/
structure Server where
  maxFrameBytes : Nat
  decodes : Bytes → Bool

variable (srv : Server)

/-- `Decode` over what is in the buffer; `exhausted` is the error of the last read, which
counts only if no value is complete. -/
def decode (exhausted : Bool) (c : Conn) : Conn :=
  match scan start c.buf with
  | .value n =>
    if srv.decodes (c.buf.take n) then
      -- `endFrame`
      { c with phase := .handling (c.buf.take n), buf := c.buf.drop n, read := 0, armed := false }
    else { c with phase := .closed }
  | .bad => { c with phase := .closed }
  | .more => { c with phase := if exhausted then .refused else .reading }

/-- The bytes that a read returns. -/
def readBytes (k : Nat) (c : Conn) : Bytes :=
  c.future.take (min k (srv.maxFrameBytes - c.read))

/-- `frameReader.Read`, where it reads. -/
def received (k : Nat) (c : Conn) : Conn :=
  let b := readBytes srv k c
  { c with
    future := c.future.drop b.length
    buf := c.buf ++ b
    read := c.read + b.length
    armed := c.armed || hasFrameByte b }

def watchBytes (k : Nat) (c : Conn) : Bytes :=
  c.future.take (min k 64)

def step (c : Conn) : Event → Conn
  | .recv k =>
    match c.phase with
    | .reading =>
      if srv.maxFrameBytes ≤ c.read then { c with phase := .refused }
      else if readBytes srv k c = [] then c
      else
        let c' := received srv k c
        decode srv (decide (srv.maxFrameBytes ≤ c'.read)) c'
    | _ => c
  | .watch k =>
    match c.phase with
    | .handling _ =>
      if hasFrameByte (watchBytes k c) then { c with phase := .closed }
      else { c with future := c.future.drop (watchBytes k c).length }
    | _ => c
  | .finish =>
    match c.phase with
    | .handling _ => decode srv false c
    | _ => c
  | .hangUp => { c with phase := .closed }

/-- A new connection. -/
def system : Machine Conn Event where
  Init c := c.buf = [] ∧ c.read = 0 ∧ c.armed = false ∧ c.phase = .reading
  step := step srv

/-! ## The limits -/

/-- The next request of a stream, an object, is longer than the limit. -/
def TooLong (stream : Bytes) : Prop :=
  ∀ n, scan start stream = .value n → (trim (stream.take n)).head? = some brace →
    srv.maxFrameBytes < (trim (stream.take n)).length

structure Safe (c : Conn) : Prop where
  /-- no request is decoded that is too long -/
  decoded : ∀ text, c.phase = .handling text → (trim text).length ≤ srv.maxFrameBytes
  /-- no request is refused that is not -/
  refused : c.phase = .refused → TooLong srv (c.buf ++ c.future)
  /-- a request that has begun has a deadline -/
  armed : c.phase = .reading → hasFrameByte c.buf → c.armed

/-- The bytes counted for the request that is read. -/
def Conn.counted (c : Conn) : Bytes :=
  c.buf.drop (c.buf.length - c.read)

/-- The bytes counted are those of the request alone. -/
def StartsWithRequest (b : Bytes) : Prop :=
  ∃ first, b.head? = some first ∧ isSpace first = false

/-- The read uses up the budget, and the request is still not complete. -/
structure UsesUp (k : Nat) (c : Conn) : Prop where
  reading : c.phase = .reading
  full : srv.maxFrameBytes ≤ c.read + (readBytes srv k c).length
  more : scan start (c.buf ++ readBytes srv k c) = .more

/-- A read that uses up the budget before the request is complete had counted no white space
in front of it, or the request is too long anyway; and behind a request that was handled the
decoder has no beginning of an incomplete one. -/
def Fair (c : Conn) : Event → Prop
  | .recv k => UsesUp srv k c →
      StartsWithRequest (c.counted ++ readBytes srv k c) ∨ TooLong srv (c.buf ++ c.future)
  | .finish => (∃ text, c.phase = .handling text) → scan start c.buf = .more →
      hasFrameByte c.buf = false
  | _ => True

/-! ## What the decoder holds -/

/-- White space only. -/
def Blank (b : Bytes) : Prop :=
  ∀ x ∈ b, isSpace x

theorem blank_iff {b : Bytes} : Blank b ↔ hasFrameByte b = false := by
  unfold Blank hasFrameByte
  simp

theorem trim_append {w : Bytes} (hw : Blank w) (b : Bytes) : trim (w ++ b) = trim b :=
  dropWhile_append_of_pos hw

theorem length_trim_le (b : Bytes) : (trim b).length ≤ b.length :=
  (dropWhile_suffix _).length_le

theorem hasFrameByte_append {w : Bytes} (hw : Blank w) (b : Bytes) :
    hasFrameByte (w ++ b) = hasFrameByte b := by
  have hnone := blank_iff.mp hw
  unfold hasFrameByte at hnone ⊢
  rw [any_append, hnone, Bool.false_or]

variable {w b : Bytes}

/-- A value behind white space. -/
theorem scan_value_append (hw : Blank w) {n : Nat} (h : scan start (w ++ b) = .value n) :
    ∃ m, scan start b = .value m ∧ n = w.length + m ∧
      (w ++ b).take n = w ++ b.take m ∧ (w ++ b).drop n = b.drop m := by
  rw [scan_space hw] at h
  obtain ⟨m, hm, rfl⟩ := Found.shift_eq_value.mp h
  exact ⟨m, hm, rfl, by rw [take_length_add_append], by rw [drop_length_add_append]⟩

/-- A request that has filled the budget and is not complete is too long. -/
theorem tooLong_of_full (hw : Blank w) (hb : StartsWithRequest b)
    (hfull : srv.maxFrameBytes ≤ b.length) (hmore : scan start (w ++ b) = .more) (future : Bytes) :
    TooLong srv (w ++ b ++ future) := by
  intro n hn hobject
  rw [append_assoc] at hn hobject ⊢
  obtain ⟨m, hm, -, htake, -⟩ := scan_value_append hw hn
  rw [htake, trim_append hw] at hobject ⊢
  obtain ⟨first, hfirst, hspace⟩ := hb
  rcases b with _ | ⟨c, cs⟩
  · cases hfirst
  obtain rfl : c = first := Option.some.inj hfirst
  rcases m with _ | m
  · simp [trim] at hobject
  -- nothing is trimmed, and the first byte is the brace
  have htrim : trim ((c :: cs ++ future).take (m + 1)) = (c :: cs ++ future).take (m + 1) := by
    unfold trim
    rw [cons_append, take_succ_cons, dropWhile_cons_of_neg (by simp [hspace])]
  rw [htrim] at hobject ⊢
  obtain rfl : c = brace := by
    rw [cons_append, take_succ_cons] at hobject
    exact Option.some.inj hobject
  have hmore' : scan start (brace :: cs) = .more := by
    rw [scan_space hw] at hmore
    exact Found.shift_eq_more.mp hmore
  have hlt := lt_of_more hmore' hm
  have hle := scan_le hm
  rw [length_take]
  omega

/-! ## What a fair run keeps -/

structure Inv (c : Conn) : Prop where
  reading : c.phase = .reading → ∃ w b, c.buf = w ++ b ∧ Blank w ∧ b.length = c.read ∧
    c.read ≤ srv.maxFrameBytes ∧ c.armed = hasFrameByte b ∧ scan start c.buf = .more
  handling : ∀ text, c.phase = .handling text → (trim text).length ≤ srv.maxFrameBytes ∧
    c.buf.length ≤ srv.maxFrameBytes ∧ c.read = 0 ∧ c.armed = false
  refused : c.phase = .refused → TooLong srv (c.buf ++ c.future)

variable {srv} {c : Conn}

theorem Inv.safe (h : Inv srv c) : Safe srv c := by
  refine ⟨fun text ht => (h.handling text ht).1, h.refused, ?_⟩
  intro hphase hbyte
  obtain ⟨w, b, hbuf, hw, -, -, harmed, -⟩ := h.reading hphase
  rwa [harmed, ← hasFrameByte_append hw b, ← hbuf]

theorem Inv.of_closed (h : c.phase = .closed) : Inv srv c := by
  refine ⟨?_, ?_, ?_⟩
  · intro h'
    cases h.symm.trans h'
  · intro text h'
    cases h.symm.trans h'
  · intro h'
    cases h.symm.trans h'

/-- A request is decoded from what was counted, behind white space. -/
theorem Inv.of_value (hbuf : c.buf = w ++ b) (hw : Blank w)
    (hb : b.length ≤ srv.maxFrameBytes) {n : Nat} (hscan : scan start c.buf = .value n)
    (exhausted : Bool) : Inv srv (decode srv exhausted c) := by
  unfold decode
  rw [hscan]
  dsimp only
  split_ifs
  · refine ⟨nofun, ?_, nofun⟩
    rintro text ⟨⟩
    rw [hbuf] at hscan
    obtain ⟨m, -, -, htake, hdrop⟩ := scan_value_append hw hscan
    have htrim := length_trim_le (b.take m)
    rw [length_take] at htrim
    refine ⟨?_, ?_, rfl, rfl⟩
    · rw [hbuf, htake, trim_append hw]
      omega
    · rw [hbuf, hdrop, length_drop]
      omega
  · exact .of_closed rfl

theorem length_readBytes_le (srv : Server) (k : Nat) (c : Conn) :
    (readBytes srv k c).length ≤ srv.maxFrameBytes - c.read := by
  unfold readBytes
  rw [length_take]
  omega

theorem readBytes_append (k : Nat) (c : Conn) :
    readBytes srv k c ++ c.future.drop (readBytes srv k c).length = c.future :=
  prefix_iff_eq_append.mp ( take_prefix _ _)

/-- A read moves bytes of the stream into the buffer. -/
theorem received_stream (srv : Server) (k : Nat) (c : Conn) :
    (received srv k c).buf ++ (received srv k c).future = c.buf ++ c.future := by
  unfold received
  dsimp only
  rw [append_assoc, readBytes_append]

theorem counted_eq (hbuf : c.buf = w ++ b) (hlen : b.length = c.read) : c.counted = b := by
  unfold Conn.counted
  rw [hbuf, length_append, hlen, Nat.add_sub_cancel, drop_left]

theorem Inv.of_refused (hphase : c.phase = .refused) (hbuf : c.buf = w ++ b)
    (hw : Blank w) (hlen : b.length = c.read) (hfull : srv.maxFrameBytes ≤ c.read)
    (hmore : scan start c.buf = .more)
    (hfair : StartsWithRequest b ∨ TooLong srv (c.buf ++ c.future)) : Inv srv c := by
  refine ⟨?_, ?_, fun _ => ?_⟩
  · intro h
    cases hphase.symm.trans h
  · intro text h
    cases hphase.symm.trans h
  · rcases hfair with hstarts | hlong
    · rw [hbuf] at hmore ⊢
      exact tooLong_of_full srv hw hstarts (hlen ▸ hfull) hmore c.future
    · exact hlong

/-- Where a read leads: with no budget at all, with nothing to read, and otherwise. -/
theorem step_recv (srv : Server) (hphase : c.phase = .reading) (k : Nat) :
    (srv.maxFrameBytes ≤ c.read ∧ step srv c (.recv k) = { c with phase := .refused }) ∨
    (c.read < srv.maxFrameBytes ∧ readBytes srv k c = [] ∧ step srv c (.recv k) = c) ∨
    (c.read < srv.maxFrameBytes ∧ step srv c (.recv k) =
      decode srv (decide (srv.maxFrameBytes ≤ (received srv k c).read)) (received srv k c)) := by
  unfold step
  rw [hphase]
  dsimp only
  split_ifs with hzero hempty
  · exact .inl ⟨hzero, rfl⟩
  · exact .inr (.inl ⟨by omega, hempty, rfl⟩)
  · exact .inr (.inr ⟨by omega, rfl⟩)

theorem step_recv_of_ne (hphase : c.phase ≠ .reading) (k : Nat) : step srv c (.recv k) = c := by
  unfold step
  dsimp only
  split
  · rename_i h
    exact absurd h hphase
  · rfl

theorem Inv.recv (h : Inv srv c) (k : Nat) (hfair : Fair srv c (.recv k)) :
    Inv srv (step srv c (.recv k)) := by
  by_cases hphase : c.phase = .reading
  swap
  · rwa [step_recv_of_ne hphase]
  obtain ⟨w, b, hbuf, hw, hlen, hle, harmed, hmore⟩ := h.reading hphase
  have hcounted := counted_eq hbuf hlen
  rcases step_recv srv hphase k with ⟨hzero, hstep⟩ | ⟨-, -, hstep⟩ | ⟨hlt, hstep⟩
  · have hnone : readBytes srv k c = [] := by
      rw [readBytes, Nat.sub_eq_zero_of_le hzero, Nat.min_zero, take_zero]
    have hstarts := hfair ⟨hphase, Nat.le_add_right_of_le hzero, by rwa [hnone, append_nil]⟩
    rw [hcounted, hnone, append_nil] at hstarts
    rw [hstep]
    exact .of_refused rfl hbuf hw hlen hzero hmore hstarts
  · rwa [hstep]
  · -- the bytes that are read are counted, and still within the budget
    have hle' := length_readBytes_le srv k c
    have hbuf' : (received srv k c).buf = w ++ (b ++ readBytes srv k c) := by
      rw [← append_assoc, ← hbuf]
      rfl
    have hlen' : (b ++ readBytes srv k c).length = (received srv k c).read := by
      rw [length_append, hlen]
      rfl
    have hread' : (received srv k c).read ≤ srv.maxFrameBytes := by
      rw [← hlen', length_append]
      omega
    cases hscan : scan start (received srv k c).buf with
    | value n =>
      rw [hstep]
      exact .of_value hbuf' hw (hlen' ▸ hread') hscan _
    | bad =>
      rw [hstep]
      refine .of_closed ?_
      unfold decode
      rw [hscan]
    | more =>
      have hnext : decode srv (decide (srv.maxFrameBytes ≤ (received srv k c).read))
          (received srv k c) = { received srv k c with
            phase := if decide (srv.maxFrameBytes ≤ (received srv k c).read) then .refused
              else .reading } := by
        unfold decode
        rw [hscan]
      rw [hstep, hnext]
      by_cases hfull : srv.maxFrameBytes ≤ (received srv k c).read
      · have hstarts := hfair ⟨hphase, hfull, hscan⟩
        rw [hcounted, ← received_stream srv k c] at hstarts
        simp only [hfull, decide_true, if_true]
        exact .of_refused rfl hbuf' hw hlen' hfull hscan hstarts
      · simp only [hfull, decide_false, Bool.false_eq_true, if_false]
        refine ⟨fun _ => ⟨w, _, hbuf', hw, hlen', hread', ?_, hscan⟩, nofun, nofun⟩
        unfold received
        dsimp only
        rw [harmed]
        unfold hasFrameByte
        rw [any_append]

/-- Behind a request the decoder looks at what it has left. -/
theorem Inv.finish (h : Inv srv c)
    (hfair : (∃ text, c.phase = .handling text) → scan start c.buf = .more →
      hasFrameByte c.buf = false) : Inv srv (step srv c .finish) := by
  unfold step
  dsimp only
  split
  · rename_i text hphase
    obtain ⟨-, hlen, hread, harmed⟩ := h.handling text hphase
    cases hscan : scan start c.buf with
    | value n => exact .of_value (w := []) rfl nofun hlen hscan _
    | bad =>
      refine .of_closed ?_
      unfold decode
      rw [hscan]
    | more =>
      have hblank : Blank c.buf := blank_iff.mpr (hfair ⟨text, hphase⟩ hscan)
      unfold decode
      rw [hscan]
      refine ⟨fun _ => ?_, nofun, nofun⟩
      refine ⟨c.buf, [], (append_nil _).symm, hblank, hread.symm, ?_, harmed, hscan⟩
      show c.read ≤ _
      omega
  · exact h

theorem Inv.step (h : Inv srv c) (e : Event) (hfair : Fair srv c e) : Inv srv (step srv c e) := by
  cases e with
  | recv k => exact h.recv k hfair
  | finish => exact h.finish hfair
  | hangUp => exact .of_closed rfl
  | watch k =>
    unfold Frames.step
    dsimp only
    split
    · rename_i text hphase
      split_ifs
      · exact .of_closed rfl
      refine ⟨?_, h.handling, ?_⟩
      · intro h'
        have hreading : c.phase = .reading := h'
        cases hphase.symm.trans hreading
      · intro h'
        have hrefused : c.phase = .refused := h'
        cases hphase.symm.trans hrefused
    · exact h

/-- A read that uses up the budget ends in a refusal, and takes nothing out of the stream. -/
theorem UsesUp.refused {k : Nat} (h : UsesUp srv k c) :
    (step srv c (.recv k)).phase = .refused ∧
      (step srv c (.recv k)).buf ++ (step srv c (.recv k)).future = c.buf ++ c.future := by
  rcases step_recv srv h.reading k with ⟨-, hstep⟩ | ⟨hlt, hnone, -⟩ | ⟨-, hstep⟩
  · rw [hstep]
    exact ⟨rfl, rfl⟩
  · have hfull := h.full
    rw [hnone, length_nil] at hfull
    omega
  · have hmore : scan start (received srv k c).buf = .more := h.more
    have hfull : srv.maxFrameBytes ≤ (received srv k c).read := h.full
    rw [hstep, decode, hmore]
    exact ⟨if_pos (decide_eq_true hfull), received_stream srv k c⟩

/-- A step that leaves the limits kept is a fair one. -/
theorem Inv.fair (h : Inv srv c) (e : Event) (hsafe : Safe srv (Frames.step srv c e)) :
    Fair srv c e := by
  cases e with
  | watch k => trivial
  | hangUp => trivial
  | recv k =>
    intro huse
    obtain ⟨hrefused, hstream⟩ := huse.refused
    have hlong := hsafe.refused hrefused
    rw [hstream] at hlong
    exact .inr hlong
  | finish =>
    rintro ⟨text, hphase⟩ hmore
    obtain ⟨-, -, -, harmed⟩ := h.handling text hphase
    have hstep : Frames.step srv c .finish = { c with phase := .reading } := by
      unfold Frames.step decode
      rw [hphase, hmore]
      rfl
    rw [hstep] at hsafe
    cases hbyte : hasFrameByte c.buf with
    | false => rfl
    | true =>
      have := hsafe.armed rfl hbyte
      rw [← harmed, ← this]

/-- **The limits hold for requests as they are in the stream**, at any time of a run and
whatever the reads are, exactly if the run is fair. -/
theorem frames_safe_iff (srv : Server) (c : Conn) (hc : (system srv).Init c) (es : List Event) :
    (∀ pre, pre <+: es → Safe srv ((system srv).run c pre)) ↔
      Machine.Guarded (system srv) (Fair srv) c es := by
  obtain ⟨hbuf, hread, harmed, hphase⟩ := hc
  have hstart : Inv srv c := by
    refine ⟨fun _ => ⟨[], [], hbuf, nofun, hread.symm, ?_, harmed, ?_⟩, ?_, ?_⟩
    · omega
    · rw [hbuf]
      rfl
    · intro text h
      cases hphase.symm.trans h
    · intro h
      cases hphase.symm.trans h
  exact Machine.run_iff_guarded_strengthened (E := fun _ => True) (fun _ h => h.safe)
    (fun _ e _ h hs => h.fair e hs) (fun _ e _ h hg => h.step e hg) hstart fun _ _ => trivial

/-! ## Requests side by side -/

/-- A limit of eight bytes. -/
def small : Server where
  maxFrameBytes := 8
  decodes := fun _ => true

/-- A new connection of a peer that sends these bytes. -/
def sending (stream : Bytes) : Conn where
  future := stream
  buf := []
  read := 0
  armed := false
  phase := .reading

/-- An object of eight bytes: one key with the value 12. -/
def eightBytes : Bytes :=
  [0x7b, 0x22, 0x61, 0x22, 0x3a, 0x31, 0x32, 0x7d]

/-- Each request is read by itself, and the line break between them while the first is
handled. -/
def oneByOne : List Event :=
  [.recv 8, .watch 1, .finish, .recv 8]

theorem frames_safe_oneByOne :
    Machine.Guarded (system small) (Fair small) (sending (eightBytes ++ 0x0a :: eightBytes)) oneByOne ∧
      Safe small ((system small).run (sending (eightBytes ++ 0x0a :: eightBytes)) oneByOne) := by
  have hguarded : Machine.Guarded (system small) (Fair small)
      (sending (eightBytes ++ 0x0a :: eightBytes)) oneByOne := by
    refine ⟨?_, trivial, ?_, ?_, trivial⟩
    · intro h
      cases (show Found.value 8 = .more from h.more)
    · intro _ _
      rfl
    · intro h
      cases (show Found.value 8 = .more from h.more)
  have hall := (frames_safe_iff small _ ⟨rfl, rfl, rfl, rfl⟩ oneByOne).mpr hguarded
  exact ⟨hguarded, hall oneByOne (prefix_refl _)⟩

/-- An object of thirteen bytes, with two keys. -/
def thirteenBytes : Bytes :=
  [0x7b, 0x22, 0x61, 0x22, 0x3a, 0x31, 0x2c, 0x22, 0x62, 0x22, 0x3a, 0x32, 0x7d]

/-- The first read brings a whole request and the beginning of another. That one has no
deadline, and is decoded although it is too long. And a line break in front of a request of
eight bytes makes it too large. -/
theorem frames_not_safe :
    (((system small).run (sending ([0x7b, 0x7d] ++ thirteenBytes)) [.recv 8, .finish]).phase =
        .reading ∧
      hasFrameByte ((system small).run (sending ([0x7b, 0x7d] ++ thirteenBytes))
        [.recv 8, .finish]).buf ∧
      ((system small).run (sending ([0x7b, 0x7d] ++ thirteenBytes)) [.recv 8, .finish]).armed =
        false) ∧
    (((system small).run (sending ([0x7b, 0x7d] ++ thirteenBytes))
        [.recv 8, .finish, .recv 7]).phase = .handling thirteenBytes ∧
      small.maxFrameBytes < (trim thirteenBytes).length) ∧
    (((system small).run (sending (0x0a :: eightBytes)) [.recv 1, .recv 7]).phase = .refused ∧
      scan start (0x0a :: eightBytes) = .value 9 ∧
      (trim (0x0a :: eightBytes)).length = small.maxFrameBytes) :=
  ⟨⟨rfl, rfl, rfl⟩, ⟨rfl, by decide⟩, rfl, rfl, rfl⟩

end Lankeeper.Agent.Frames
