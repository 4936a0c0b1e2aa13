/-
  File:      RocketMQ/Remoting/TlsReader.lean
  Subject:   The frames that the TLS reader puts together.

  A read returns as many bytes as are there, or times out. The reader keeps a length it has read
  while it waits for the first byte of a body; a buffer that is begun is waited for to its end.

  * `tlsReadExact_fills`: nothing is lost of a buffer, wherever the timeouts are;
  * `tls_frames_reassembled`: **the frames reach `dispatch` in order and unmodified**, up to the
    first that it cannot decode and to the first bytes that begin no frame.
-/
import RocketMQ.Lib.Outcome
import RocketMQ.Remoting.Pairing

namespace RocketMQ.Tls

open List Outcome

/-! ## 1. The reader -/

/-- What the next reads of the stream meet. After the last of them the peer has closed. -/
inductive Arrival where
  | data (b : UInt8) (bs : List UInt8)
  | timeout
  | fails
deriving DecidableEq, Repr

/-- The bytes of the stream. -/
def Arrival.bytes : Arrival → List UInt8
  | .data b bs => b :: bs
  | _ => []

def bytesOf (arrivals : List Arrival) : List UInt8 := arrivals.flatMap Arrival.bytes

/-- `Ok(true)`, `Ok(false)` and `Err(_)`. -/
inductive ReadExact where
  | full (buf : List UInt8)
  | idle
  | failed
deriving DecidableEq, Repr

/-- `tls_read_exact`, with `filled` in the buffer of `len` bytes. -/
def tlsReadExact (len : Nat) (filled : List UInt8) : List Arrival → ReadExact × List Arrival
  | [] => if filled.length < len then (.failed, []) else (.full filled, [])
  | a :: rest =>
    if filled.length < len then
      match a with
      | .timeout => if filled.isEmpty then (.idle, rest) else tlsReadExact len filled rest
      | .fails => (.failed, rest)
      | .data b bs =>
        -- what does not fit into the buffer stays in the stream
        match (b :: bs).drop (len - filled.length) with
        | [] => tlsReadExact len (filled ++ (b :: bs)) rest
        | c :: cs => (.full (filled ++ (b :: bs).take (len - filled.length)), .data c cs :: rest)
    else (.full filled, a :: rest)

/-- `MAX_FRAME_LENGTH` -/
def maxFrameLength : Int := 16 * 1024 * 1024

/-- `i32::from_be_bytes` -/
def frameLength (lenBuf : List UInt8) : Int := Int.bmod (Binary.number lenBuf) (2 ^ 32)

/-- The variables of `tls_read_loop`, with the frames that went to `dispatch`. -/
structure TlsReader where
  arrivals : List Arrival
  lenBuf : List UInt8 := [0, 0, 0, 0]
  headerDone : Bool := false
  handed : List (List UInt8) := []
  turn : Nat := 0

/-- The length, read now or on an earlier turn. -/
def TlsReader.header (s : TlsReader) : ReadExact × List Arrival :=
  if s.headerDone then (.full s.lenBuf, s.arrivals) else tlsReadExact 4 [] s.arrivals

/-- One turn of `tls_read_loop`; it leaves with the frames that went to `dispatch`. `live` is what
the flags of the client and of the connection say at a turn, `trusted` what `dispatch` answers. -/
def tlsReadTurn (live : Nat → Bool) (trusted : Nat → List UInt8 → Bool) (s : TlsReader) :
    Outcome Empty (TlsReader ⊕ List (List UInt8)) :=
  if live s.turn then
    match s.header with
    | (.idle, rest) => ok (.inl { s with arrivals := rest, turn := s.turn + 1 })
    | (.failed, _) => ok (.inr s.handed)
    | (.full lenBuf, rest) =>
      if frameLength lenBuf ≤ 0 ∨ maxFrameLength < frameLength lenBuf then ok (.inr s.handed)
      else
        match tlsReadExact (frameLength lenBuf).toNat [] rest with
        | (.idle, rest') => ok (.inl ⟨rest', lenBuf, true, s.handed, s.turn + 1⟩)
        | (.failed, _) => ok (.inr s.handed)
        | (.full body, rest') =>
          let handed := s.handed ++ [lenBuf ++ body]
          if trusted s.handed.length (lenBuf ++ body) then
            ok (.inl ⟨rest', lenBuf, false, handed, s.turn + 1⟩)
          else ok (.inr handed)
  else ok (.inr s.handed)

def tlsReadLoop (live : Nat → Bool) (trusted : Nat → List UInt8 → Bool) (fuel : Nat)
    (arrivals : List Arrival) : Outcome Empty (List (List UInt8)) :=
  loop (tlsReadTurn live trusted) fuel { arrivals := arrivals }

/-! ## 2. Frames -/

/-- A body whose length the reader accepts. -/
def Accepted (body : List UInt8) : Prop := 0 < body.length ∧ (body.length : Int) ≤ maxFrameLength

/-- A frame: the length, and the body. -/
def frameOf (body : List UInt8) : List UInt8 := Binary.bigEndian 4 body.length ++ body

/-- The bytes begin with a whole frame of an accepted length. -/
def BeginsFrame (bs : List UInt8) : Prop := ∃ body rest, Accepted body ∧ bs = frameOf body ++ rest

/-- The frames up to the first one that `dispatch` cannot decode, that one included. -/
def upToUntrusted (trusted : Nat → List UInt8 → Bool) : Nat → List (List UInt8) →
    List (List UInt8)
  | _, [] => []
  | k, f :: fs => f :: if trusted k f then upToUntrusted trusted (k + 1) fs else []

theorem frameLength_eq {lenBuf : List UInt8} (h : lenBuf.length = 4)
    (hok : ¬ (frameLength lenBuf ≤ 0 ∨ maxFrameLength < frameLength lenBuf)) :
    frameLength lenBuf = Binary.number lenBuf := by
  have hlt := Binary.number_lt lenBuf
  rw [h] at hlt
  unfold frameLength at hok ⊢
  rw [Int.bmod_def] at hok ⊢
  omega

theorem frameLength_bigEndian {body : List UInt8} (h : Accepted body) :
    frameLength (Binary.bigEndian 4 body.length) = body.length := by
  obtain ⟨-, hmax⟩ := h
  unfold maxFrameLength at hmax
  unfold frameLength
  rw [Binary.number_bigEndian, Int.bmod_def]
  omega

/-- The length that begins a frame tells where it ends. -/
theorem frameOf_append_inj {body body' rest rest' : List UInt8} (h : Accepted body)
    (h' : Accepted body') (heq : frameOf body ++ rest = frameOf body' ++ rest') :
    body = body' ∧ rest = rest' := by
  unfold frameOf at heq
  rw [append_assoc, append_assoc] at heq
  obtain ⟨hlen, heq⟩ := append_inj heq (by simp)
  have hsize := congrArg frameLength hlen
  rw [frameLength_bigEndian h, frameLength_bigEndian h'] at hsize
  exact append_inj heq (by omega)

theorem frameLength_of_beginsFrame {bs : List UInt8} (h : BeginsFrame bs) :
    0 < frameLength (bs.take 4) ∧ frameLength (bs.take 4) ≤ maxFrameLength := by
  obtain ⟨body, rest, hbody, rfl⟩ := h
  have htake : (frameOf body ++ rest).take 4 = Binary.bigEndian 4 body.length := by
    rw [frameOf, append_assoc, take_left' (by simp)]
  rw [htake, frameLength_bigEndian hbody]
  exact ⟨by have := hbody.1; omega, hbody.2⟩

/-! ## 3. One buffer -/

/-- How much there is to read. -/
def weight (arrivals : List Arrival) : Nat := (bytesOf arrivals).length + arrivals.length

/-- What reading `len` bytes of a stream may come to. -/
def Fills (len : Nat) (stream : List UInt8) (bound : Nat) : ReadExact × List Arrival → Prop
  | (.full buf, rest) => buf.length = len ∧ stream = buf ++ bytesOf rest ∧
    Arrival.fails ∉ rest ∧ weight rest + len ≤ bound
  | (.idle, rest) => bytesOf rest = stream ∧ Arrival.fails ∉ rest ∧ weight rest < bound
  | (.failed, _) => stream.length < len

theorem Fills.mono {len bound bound' : Nat} {stream : List UInt8} {r : ReadExact × List Arrival}
    (h : Fills len stream bound r) (hle : bound ≤ bound') : Fills len stream bound' r := by
  obtain ⟨_ | _ | _, rest⟩ := r
  · exact ⟨h.1, h.2.1, h.2.2.1, h.2.2.2.trans hle⟩
  · exact ⟨h.1, h.2.1, lt_of_lt_of_le h.2.2 hle⟩
  · exact h

/-- **A buffer is filled with the bytes of the stream, whatever timeouts there are.** -/
theorem tlsReadExact_fills (len : Nat) (filled : List UInt8) (arrivals : List Arrival)
    (hfails : Arrival.fails ∉ arrivals) (hroom : filled.length ≤ len) :
    Fills len (filled ++ bytesOf arrivals) (weight arrivals + filled.length)
      (tlsReadExact len filled arrivals) := by
  induction arrivals generalizing filled with
  | nil =>
    unfold tlsReadExact
    by_cases h : filled.length < len
    · rw [if_pos h]
      simpa [Fills, bytesOf] using h
    · rw [if_neg h]
      exact ⟨by omega, rfl, hfails, by omega⟩
  | cons a rest ih =>
    obtain ⟨hne, hrest⟩ := not_or.mp (mt mem_cons.mpr hfails)
    unfold tlsReadExact
    by_cases h : filled.length < len
    · rw [if_pos h]
      cases a with
      | fails => exact absurd rfl hne
      | timeout =>
        have hw : weight (.timeout :: rest) = weight rest + 1 := rfl
        dsimp only
        split
        next hempty =>
          rw [List.isEmpty_iff.mp hempty]
          exact ⟨rfl, hrest, by rw [hw]; omega⟩
        next => exact (ih filled hrest hroom).mono (by omega)
      | data b bs =>
        have hw : weight (.data b bs :: rest) = (b :: bs).length + weight rest + 1 := by
          simp only [weight, bytesOf, flatMap_cons, Arrival.bytes, length_append,
            length_cons]
          omega
        show Fills len (filled ++ ((b :: bs) ++ bytesOf rest)) _ _
        dsimp only
        cases hdrop : (b :: bs).drop (len - filled.length) with
        | nil =>
          have hfit := drop_eq_nil_iff.mp hdrop
          have hnext := ih (filled ++ (b :: bs)) hrest (by rw [length_append]; omega)
          rw [append_assoc, length_append] at hnext
          exact hnext.mono (by omega)
        | cons c cs =>
          have hsplit := take_append_drop (len - filled.length) (b :: bs)
          have hsize := congrArg List.length hdrop
          simp only [length_drop, length_cons] at hsize
          have htake : ((b :: bs).take (len - filled.length)).length = len - filled.length := by
            rw [length_take, length_cons]
            omega
          refine ⟨by rw [length_append]; omega, ?_, ?_, ?_⟩
          · show _ = _ ++ (c :: cs ++ bytesOf rest)
            rw [← hdrop, append_assoc filled, ← append_assoc _ (List.drop _ _), hsplit]
          · exact not_mem_cons_of_ne_of_not_mem (by simp) hrest
          · simp only [weight, bytesOf, flatMap_cons, Arrival.bytes, length_append,
              length_cons] at hw hsize ⊢
            omega
    · rw [if_neg h]
      exact ⟨by omega, rfl, hfails, by omega⟩

/-! ## 4. The loop -/

/-- The bytes that the reader has not handed over yet. -/
def TlsReader.stream (s : TlsReader) : List UInt8 :=
  (if s.headerDone then s.lenBuf else []) ++ bytesOf s.arrivals

/-- **What is handed over and what is still in the stream make up `goal`.** -/
structure TlsReader.Owes (trusted : Nat → List UInt8 → Bool) (tail : List UInt8)
    (goal : List (List UInt8)) (s : TlsReader) : Prop where
  fails : Arrival.fails ∉ s.arrivals
  header : s.headerDone = true → s.lenBuf.length = 4
  rest : ∃ bodies : List (List UInt8), (∀ b ∈ bodies, Accepted b) ∧
    s.stream = bodies.flatMap frameOf ++ tail ∧
    goal = s.handed ++ upToUntrusted trusted s.handed.length (bodies.map frameOf)

namespace TlsReader.Owes

variable {trusted : Nat → List UInt8 → Bool} {tail : List UInt8}
  {goal : List (List UInt8)} {s : TlsReader}

theorem stop (h : s.Owes trusted tail goal) (hno : ¬ BeginsFrame s.stream) : s.handed = goal := by
  obtain ⟨bodies, hall, hstream, hgoal⟩ := h.rest
  cases bodies with
  | nil => rw [hgoal, map_nil, upToUntrusted, append_nil]
  | cons body bodies =>
    rw [flatMap_cons, append_assoc] at hstream
    exact absurd ⟨body, _, hall body mem_cons_self, hstream⟩ hno

theorem next (htail : ¬ BeginsFrame tail) (h : s.Owes trusted tail goal)
    {body left : List UInt8} (hbody : Accepted body) (hs : s.stream = frameOf body ++ left) :
    ∃ bodies : List (List UInt8), (∀ b ∈ bodies, Accepted b) ∧
      left = bodies.flatMap frameOf ++ tail ∧ goal = s.handed ++
        upToUntrusted trusted s.handed.length (frameOf body :: bodies.map frameOf) := by
  obtain ⟨bodies, hall, hstream, hgoal⟩ := h.rest
  rw [hs] at hstream
  cases bodies with
  | nil => exact absurd ⟨body, left, hbody, hstream.symm⟩ htail
  | cons first bodies =>
    rw [flatMap_cons, append_assoc] at hstream
    obtain ⟨rfl, rfl⟩ := frameOf_append_inj hbody (hall first mem_cons_self) hstream
    exact ⟨bodies, fun b hb => hall b (mem_cons_of_mem _ hb), rfl, hgoal⟩

theorem header_fills (h : s.Owes trusted tail goal) :
    Fills 4 s.stream (weight s.arrivals + if s.headerDone then 4 else 0) s.header := by
  unfold stream TlsReader.header
  cases hdone : s.headerDone with
  | true => exact ⟨h.header hdone, rfl, h.fails, le_rfl⟩
  | false => exact tlsReadExact_fills 4 [] s.arrivals h.fails (by decide)

/-- **A turn keeps what is owed, or leaves with all of it**; only a flag makes it leave early. -/
theorem turn (live : Nat → Bool) (htail : ¬ BeginsFrame tail) (h : s.Owes trusted tail goal) :
    Outcome.Returns (Sum.elim (fun t => t.Owes trusted tail goal ∧
        weight t.arrivals < weight s.arrivals)
      (fun handed => handed <+: goal ∧ ((∀ n, live n = true) → handed = goal)))
      (tlsReadTurn live trusted s) := by
  have done : ∀ {handed}, handed = goal →
      handed <+: goal ∧ ((∀ n, live n = true) → handed = goal) := by
    rintro _ rfl
    exact ⟨prefix_rfl, fun _ => rfl⟩
  obtain ⟨bodies, hall, hs, hgoal⟩ := h.rest
  unfold tlsReadTurn
  by_cases hlive : live s.turn = true
  · rw [if_pos hlive]
    have hheader := h.header_fills
    rcases hx : s.header with ⟨lenBuf | _ | _, rest⟩ <;> rw [hx] at hheader <;> dsimp only
    · obtain ⟨hlen, hstream, hnone, hw⟩ := hheader
      have hle : weight rest ≤ weight s.arrivals := by split at hw <;> omega
      by_cases hbad : frameLength lenBuf ≤ 0 ∨ maxFrameLength < frameLength lenBuf
      · rw [if_pos hbad]
        refine sat_ok (done (h.stop fun hbegin => ?_))
        have hgood := frameLength_of_beginsFrame hbegin
        rw [hstream, take_left' hlen] at hgood
        omega
      · rw [if_neg hbad]
        have hnumber := frameLength_eq hlen hbad
        have hbody := tlsReadExact_fills (frameLength lenBuf).toNat [] rest hnone (Nat.zero_le _)
        rcases hy : tlsReadExact (frameLength lenBuf).toNat [] rest with ⟨body | _ | _, rest'⟩ <;>
          rw [hy] at hbody <;> dsimp only
        · obtain ⟨hsize, hread, hnone', hw'⟩ := hbody
          have hprefix : lenBuf = Binary.bigEndian 4 body.length := by
            refine Binary.eq_of_number_eq (by simpa using hlen) ?_
            have hlt := Binary.number_lt lenBuf
            rw [hlen] at hlt
            rw [Binary.number_bigEndian, Nat.mod_eq_of_lt] <;> omega
          have hframe : lenBuf ++ body = frameOf body := by rw [frameOf, hprefix]
          have hnext : s.stream = frameOf body ++ bytesOf rest' := by
            rw [hstream, ← hframe, append_assoc, ← hread, nil_append]
          obtain ⟨bodies', hall', hleft, hgoal'⟩ := h.next htail ⟨by omega, by omega⟩ hnext
          rw [upToUntrusted, ← hframe] at hgoal'
          by_cases htrust : trusted s.handed.length (lenBuf ++ body) = true
          · rw [if_pos htrust] at hgoal' ⊢
            refine sat_ok ⟨⟨hnone', fun hdone => absurd hdone Bool.false_ne_true, bodies', hall',
              hleft, ?_⟩, ?_⟩
            · rw [hgoal', append_cons, length_append]
              rfl
            · rw [length_nil] at hw'
              dsimp only
              omega
          · rw [if_neg htrust] at hgoal' ⊢
            exact sat_ok (done hgoal'.symm)
        · obtain ⟨hbytes, hnone', hw'⟩ := hbody
          refine sat_ok ⟨⟨hnone', fun _ => hlen, bodies, hall, ?_, hgoal⟩,
            lt_of_lt_of_le hw' hle⟩
          rw [← hs, hstream, stream, hbytes]
          rfl
        · refine sat_ok (done (h.stop ?_))
          rintro ⟨body, left, haccepted, heq⟩
          rw [hstream, frameOf, append_assoc] at heq
          obtain ⟨rfl, hleft⟩ := append_inj heq (by simpa using hlen)
          rw [Fills, nil_append, hleft, frameLength_bigEndian haccepted,
            length_append] at hbody
          omega
    · have hdone : s.headerDone = false := by
        cases hdone : s.headerDone with
        | false => rfl
        | true =>
          rw [TlsReader.header, hdone] at hx
          cases hx
      obtain ⟨hbytes, hnone, hw⟩ := hheader
      rw [hdone] at hw
      refine sat_ok ⟨⟨hnone, h.header, bodies, hall, ?_, hgoal⟩, hw⟩
      rw [← hs, ← hbytes, hdone]
      rfl
    · refine sat_ok (done (h.stop ?_))
      rintro ⟨body, left, -, heq⟩
      rw [Fills, heq] at hheader
      simp [frameOf] at hheader
  · rw [if_neg hlive]
    exact sat_ok ⟨⟨_, hgoal.symm⟩, fun hall => absurd (hall s.turn) hlive⟩

end TlsReader.Owes

/-- **The frames reach `dispatch` in order and unmodified**, however the bytes are split into reads
and wherever a read times out: all of them, up to the first that `dispatch` cannot decode. Behind
them the reader leaves at the first bytes that begin no frame of an accepted length. -/
theorem tls_frames_reassembled (live : Nat → Bool) (trusted : Nat → List UInt8 → Bool)
    (bodies : List (List UInt8)) (hbodies : ∀ body ∈ bodies, Accepted body) (tail : List UInt8)
    (htail : ¬ BeginsFrame tail) (arrivals : List Arrival) (hfails : Arrival.fails ∉ arrivals)
    (hbytes : bytesOf arrivals = bodies.flatMap frameOf ++ tail) (fuel : Nat)
    (hfuel : weight arrivals < fuel) :
    ∃ handed, tlsReadLoop live trusted fuel arrivals = .ok handed ∧
      handed <+: upToUntrusted trusted 0 (bodies.map frameOf) ∧
      ((∀ n, live n = true) → handed = upToUntrusted trusted 0 (bodies.map frameOf)) := by
  have howes : TlsReader.Owes trusted tail (upToUntrusted trusted 0 (bodies.map frameOf))
      { arrivals := arrivals } :=
    ⟨hfails, fun hdone => absurd hdone Bool.false_ne_true, bodies, hbodies, hbytes, rfl⟩
  have hloop := Sat.loop (fun s : TlsReader => weight s.arrivals)
    (fun _ hs => hs.turn live htail) howes hfuel
  cases heq : tlsReadLoop live trusted fuel arrivals with
  | ok handed => exact ⟨handed, rfl, hloop.of_ok heq⟩
  | error e => exact e.elim
  | crash => exact absurd heq hloop.ne_crash

/-- A length of 0 ends the connection, with a frame on either side of it and a timeout inside. -/
theorem tls_frames_reassembled_zero :
    tlsReadLoop (fun _ => true) (fun _ _ => true) 30
        [.data 0 [0], .timeout, .data 0 [1], .timeout, .data 7 [0, 0], .data 0 [0, 0, 0, 0, 1, 9]]
      = .ok [[0, 0, 0, 1, 7]] ∧
    ∃ handed, tlsReadLoop (fun _ => true) (fun _ _ => true) 30
        [.data 0 [0], .timeout, .data 0 [1], .timeout, .data 7 [0, 0], .data 0 [0, 0, 0, 0, 1, 9]]
        = .ok handed ∧ handed <+: [[0, 0, 0, 1, 7]] ∧
      ((∀ n : Nat, (fun _ => true) n = true) → handed = [[0, 0, 0, 1, 7]]) := by
  refine ⟨by decide +kernel, tls_frames_reassembled _ _ [[7]] ?_ [0, 0, 0, 0, 0, 0, 0, 1, 9] ?_ _
    (by decide) (by decide) 30 (by decide)⟩
  · intro body hbody
    rw [mem_singleton.mp hbody]
    exact ⟨by decide, by decide⟩
  · intro hbegin
    exact absurd (frameLength_of_beginsFrame hbegin).1 (by decide)

/-- **A frame that cannot be decoded keeps the frames behind it from `dispatch`**, though the length
of each is in the range. -/
theorem tls_frames_lost_behind_undecodable :
    Accepted [7] ∧ bytesOf [.data 0 [0, 0, 1, 7, 0, 0, 0, 1, 7]] = [[7], [7]].flatMap frameOf ∧
    tlsReadLoop (fun _ => true)
        (fun _ frame => (RemotingClient.dispatch Script.remotingEnv
          (Script.clientAfter []).shared frame).1.trusted) 20
        [.data 0 [0, 0, 1, 7, 0, 0, 0, 1, 7]] = .ok [frameOf [7]] := by
  exact ⟨⟨by decide, by decide⟩, by decide, by decide +kernel⟩

end RocketMQ.Tls
