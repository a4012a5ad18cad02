/-
Length-prefixed frames over a stream socket. However the stream is cut into the chunks that
`recv` returns, the reader returns the body that was sent (`recvFrame_sent`), and refuses a
longer announced length (`recvFrame_long`).
-/
import MilpbookLM.Execution.SpecProtocol

namespace MilpbookLM.Execution

def maxFrameBytes : Nat := 4 * 1024 * 1024

/-! ## The stream -/

/-- What is still to be received of a stream, in the chunks it comes in; then its end. -/
structure Socket where
  chunks : List Bytes
  filled : ∀ chunk ∈ chunks, chunk ≠ []

def Socket.stream (sock : Socket) : Bytes := sock.chunks.flatten

/-- `sock.recv(count)` of a positive count: a chunk, or as much of it; nothing at the end of the stream. -/
def Socket.recv (sock : Socket) (count : Nat) : Bytes × Socket :=
  match sock with
  | ⟨[], h⟩ => ([], ⟨[], h⟩)
  | ⟨chunk :: chunks, h⟩ =>
    if hlong : count < chunk.length then
      (chunk.take count, ⟨chunk.drop count :: chunks, by
        rintro c hc
        rcases List.mem_cons.1 hc with rfl | hc
        · simpa using hlong
        · exact h c (List.mem_cons_of_mem _ hc)⟩)
    else (chunk, ⟨chunks, fun c hc => h c (List.mem_cons_of_mem _ hc)⟩)

/-- What was received, and what is still to be received. -/
theorem Socket.recv_stream (sock : Socket) (count : Nat) :
    (sock.recv count).1 ++ (sock.recv count).2.stream = sock.stream := by
  obtain ⟨_ | ⟨chunk, chunks⟩, h⟩ := sock
  · rfl
  · unfold recv
    dsimp only
    split
    · simp only [stream, List.flatten_cons, ← List.append_assoc, List.take_append_drop]
    · rfl

theorem Socket.recv_length (sock : Socket) (count : Nat) : (sock.recv count).1.length ≤ count := by
  obtain ⟨_ | ⟨chunk, chunks⟩, h⟩ := sock
  · exact Nat.zero_le _
  · unfold recv
    dsimp only
    split
    · next hlong => exact (List.length_take_le _ _)
    · next hshort => exact Nat.not_lt.1 hshort

/-- Nothing is received at the end of the stream only. -/
theorem Socket.recv_nil {sock : Socket} {count : Nat} (hcount : 0 < count) (h : (sock.recv count).1 = []) :
    sock.stream = [] := by
  obtain ⟨_ | ⟨chunk, chunks⟩, hfilled⟩ := sock
  · rfl
  · have hchunk : chunk ≠ [] := hfilled chunk List.mem_cons_self
    unfold recv at h
    dsimp only at h
    split at h
    · simp only [List.take_eq_nil_iff] at h
      rcases h with h | h
      · omega
      · exact absurd h hchunk
    · exact absurd h hchunk

/-! ## Reading -/

/-- `_recv_exact`. -/
def recvExact (count : Nat) (sock : Socket) : Option Bytes × Socket :=
  if count = 0 then (some [], sock)
  else
    let received := sock.recv (min count 65536)
    if received.1 = [] then (none, received.2)
    else
      let rest := recvExact (count - received.1.length) received.2
      (rest.1.map (received.1 ++ ·), rest.2)
termination_by count
decreasing_by
  next hcount hend => exact Nat.sub_lt (Nat.pos_of_ne_zero hcount) (List.length_pos_of_ne_nil hend)

/-- `_recv_exact` returns the next bytes of the stream, or None when there are too few. -/
theorem recvExact_eq (count : Nat) (sock : Socket) :
    (recvExact count sock).1 = (if count ≤ sock.stream.length then some (sock.stream.take count) else none) ∧
      (recvExact count sock).2.stream = sock.stream.drop count := by
  induction count, sock using recvExact.induct with
  | case1 sock =>
    unfold recvExact
    simp
  | case2 count sock hcount received hend =>
    have hnil : sock.stream = [] := Socket.recv_nil (by omega) hend
    have hrest : received.1 ++ received.2.stream = sock.stream := sock.recv_stream _
    have hstream : received.2.stream = [] := by simpa [hend, hnil] using hrest
    unfold recvExact
    simp [hcount, received, hend, hnil, hstream]
  | case3 count sock hcount received hend ih =>
    have hrest : received.1 ++ received.2.stream = sock.stream := sock.recv_stream _
    have hlen : received.1.length ≤ count := Nat.le_trans (sock.recv_length _) (Nat.min_le_left ..)
    have htake : sock.stream.take count = received.1 ++ received.2.stream.take (count - received.1.length) := by
      rw [← hrest, List.take_append, List.take_of_length_le hlen]
    have hdrop : sock.stream.drop count = received.2.stream.drop (count - received.1.length) := by
      rw [← hrest, List.drop_append, List.drop_of_length_le hlen, List.nil_append]
    have hshort : count ≤ sock.stream.length ↔ count - received.1.length ≤ received.2.stream.length := by
      rw [← hrest, List.length_append]
      omega
    unfold recvExact
    rw [if_neg hcount, if_neg hend, hdrop, htake]
    refine ⟨?_, ih.2⟩
    dsimp only
    rw [ih.1]
    simp only [hshort]
    split
    · rfl
    · rfl

/-! ## Frames -/

/-- `struct.pack("!I", n)`. -/
def packLength (n : Nat) : Bytes :=
  [UInt8.ofNat (n / 16777216), UInt8.ofNat (n / 65536), UInt8.ofNat (n / 256), UInt8.ofNat n]

/-- `struct.unpack("!I", header)`. -/
def unpackLength (header : Bytes) : Nat := header.foldl (fun n b => n * 256 + b.toNat) 0

/-- What `send_frame` writes; `none` for a struct.error. -/
def sendFrame (payload : Bytes) : Option Bytes :=
  if payload.length < 2 ^ 32 then some (packLength payload.length ++ payload) else none

/-- `recv_frame`. -/
def recvFrame (sock : Socket) : Except Raised Bytes × Socket :=
  match recvExact 4 sock with
  | (none, sock) => (refuse .malformedFrame "stream ended before frame", sock)
  | (some header, sock) =>
    if maxFrameBytes < unpackLength header then (refuse .malformedFrame "frame exceeds protocol cap", sock)
    else match recvExact (unpackLength header) sock with
      | (none, sock) => (refuse .malformedFrame "stream ended mid-frame", sock)
      | (some body, sock) => (.ok body, sock)

theorem unpackLength_packLength {n : Nat} (h : n < 2 ^ 32) : unpackLength (packLength n) = n := by
  simp only [unpackLength, packLength, List.foldl_cons, List.foldl_nil, UInt8.toNat_ofNat']
  omega

section Frames

variable {sock : Socket} {rest : Bytes}

/-- The header that is read, when one was written. -/
theorem recvExact_header {n : Nat} (h : sock.stream = packLength n ++ rest) :
    ∃ sock', recvExact 4 sock = (some (packLength n), sock') ∧ sock'.stream = rest := by
  have heq := recvExact_eq 4 sock
  rw [h] at heq
  refine ⟨(recvExact 4 sock).2, Prod.ext ?_ rfl, ?_⟩
  · simpa [packLength] using heq.1
  · simpa [packLength] using heq.2

/-- **However the stream is cut, the body that was sent is returned**, and what follows it is left. -/
theorem recvFrame_sent {body frame : Bytes} (hbody : body.length ≤ maxFrameBytes) (hframe : sendFrame body = some frame)
    (h : sock.stream = frame ++ rest) : (recvFrame sock).1 = .ok body ∧ (recvFrame sock).2.stream = rest := by
  have hlt : body.length < 2 ^ 32 := Nat.lt_of_le_of_lt hbody (by decide)
  rw [sendFrame, if_pos hlt, Option.some.injEq] at hframe
  subst hframe
  rw [List.append_assoc] at h
  obtain ⟨sock', hheader, hstream⟩ := recvExact_header h
  have heq := recvExact_eq body.length sock'
  rw [hstream] at heq
  have hread : recvExact body.length sock' = (some body, (recvExact body.length sock').2) := Prod.ext (by simpa using heq.1) rfl
  have hrecv : recvFrame sock = (.ok body, (recvExact body.length sock').2) := by
    simp only [recvFrame, hheader, unpackLength_packLength hlt, if_neg (Nat.not_lt.2 hbody)]
    rw [hread]
  rw [hrecv]
  exact ⟨rfl, by simpa using heq.2⟩

/-- **A longer announced length is refused.** -/
theorem recvFrame_long {n : Nat} (hlong : maxFrameBytes < n) (hlt : n < 2 ^ 32) (h : sock.stream = packLength n ++ rest) :
    (recvFrame sock).1 = refuse .malformedFrame "frame exceeds protocol cap" := by
  obtain ⟨sock', hheader, -⟩ := recvExact_header h
  simp only [recvFrame, hheader, unpackLength_packLength hlt, if_pos hlong]

end Frames

end MilpbookLM.Execution
