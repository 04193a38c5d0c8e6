import Mathlib.Data.List.DropRight
import OxideSwarm.Core.Task

/-!
# Capturing a task's output stream

`StreamCapture` of `worker/src/runner.rs` keeps the first `max / 2` bytes of a stream and a ring of
the last `max - max / 2`, whatever the chunks the pipe hands over; a stream that does not fit gets a
notice between the two.  The flag itself does not travel: `stdout_was_truncated`
(`master/src/mapreduce.rs`) and `stream_was_worker_truncated` (`cli/src/mcp.rs`) look for the notice
in the bytes they are given.

    capture max chunks = ⟨first max / 2, last max - max / 2, max < length⟩        (capture_captured)
    a truncated capture is recognised by the master, for every limit   (truncated_capture_detected)
-/

namespace OxideSwarm

/-! ## The capture -/

/-- `TRUNCATION_NOTICE` (`runner.rs:348`). -/
def truncationNotice : Bytes := asciiBytes "\n[rusty_grid: output truncated after exceeding size limit]\n"

/-- What has been read of one output stream so far (`runner.rs:358`). -/
structure StreamCapture where
  head : Bytes
  tail : Bytes
  truncated : Bool
deriving DecidableEq, Repr

namespace StreamCapture

/-- `StreamCapture::default()`. -/
def empty : StreamCapture := ⟨[], [], false⟩

def push (c : StreamCapture) (chunk : Bytes) (maxBytes : Nat) : StreamCapture :=
  if chunk = [] then c
  else
    let headCap := maxBytes / 2
    let tailCap := maxBytes - headCap
    let toHead := min chunk.length (headCap - c.head.length)
    let head := c.head ++ chunk.take toHead
    let rest := chunk.drop toHead
    if rest = [] then { c with head }
    else if tailCap = 0 then { c with head, truncated := true }
    else if tailCap ≤ rest.length then
      { head
        tail := rest.drop (rest.length - tailCap)
        truncated := c.truncated || decide (tailCap < c.tail.length + rest.length) }
    else
      let overflow := c.tail.length + rest.length - tailCap
      { head
        tail := c.tail.drop overflow ++ rest
        truncated := c.truncated || decide (0 < overflow) }

def finish (c : StreamCapture) : Bytes × Bool :=
  (c.head ++ (if c.truncated then truncationNotice else []) ++ c.tail, c.truncated)

/-- What `read_into_capture` has pushed after these reads of the pipe.  A reader that is abandoned
has seen only the first of the chunks the task wrote. -/
def capture (maxBytes : Nat) (chunks : List Bytes) : StreamCapture :=
  chunks.foldl (fun c chunk => c.push chunk maxBytes) empty

end StreamCapture

def readBoundedStream (chunks : List Bytes) (maxBytes : Nat) : Bytes × Bool :=
  (StreamCapture.capture maxBytes chunks).finish

/-! ## What a capture holds of the stream -/

theorem rtake_append_left {α : Type*} (u r : List α) (n : Nat) (h : n ≤ r.length) :
    (u ++ r).rtake n = r.drop (r.length - n) := by
  have hcut : (u ++ r).length - n = u.length + (r.length - n) := by
    rw [List.length_append]; omega
  rw [List.rtake, hcut, List.drop_append]
  have hu : u.drop (u.length + (r.length - n)) = [] := List.drop_eq_nil_of_le (by omega)
  rw [hu, List.nil_append]
  congr 1
  omega

theorem rtake_append_right {α : Type*} (u r : List α) (n : Nat) (h : r.length < n) :
    (u ++ r).rtake n = (u.rtake n).drop ((u.rtake n).length + r.length - n) ++ r := by
  have hcut : (u ++ r).length - n = u.length + r.length - n := by rw [List.length_append]
  have hr : r.drop (u.length + r.length - n - u.length) = r := by
    rw [show u.length + r.length - n - u.length = 0 by omega, List.drop_zero]
  rw [List.rtake, hcut, List.drop_append, hr, List.rtake, List.drop_drop, List.length_drop]
  congr 2
  omega

variable {maxBytes : Nat}

namespace StreamCapture

/-- `c` is what is left of the stream `s`: its first and its last bytes, and whether any is lost. -/
structure Captured (maxBytes : Nat) (s : Bytes) (c : StreamCapture) : Prop where
  head : c.head = s.take (maxBytes / 2)
  tail : c.tail = (s.drop (maxBytes / 2)).rtake (maxBytes - maxBytes / 2)
  truncated : c.truncated = decide (maxBytes < s.length)

theorem captured_empty (maxBytes : Nat) : Captured maxBytes [] empty := by
  refine ⟨?_, ?_, ?_⟩ <;> simp [empty]

variable {c : StreamCapture} {s : Bytes}

theorem Captured.tail_length (h : Captured maxBytes s c) :
    c.tail.length = min (s.length - maxBytes / 2) (maxBytes - maxBytes / 2) := by
  rw [h.tail, List.rtake, List.length_drop, List.length_drop]
  omega

theorem Captured.push (h : Captured maxBytes s c)
    (chunk : Bytes) : Captured maxBytes (s ++ chunk) (c.push chunk maxBytes) := by
  have htail := h.tail_length
  unfold StreamCapture.push
  by_cases hempty : chunk = []
  · rw [if_pos hempty, hempty, List.append_nil]
    exact h
  rw [if_neg hempty]
  dsimp only
  -- the chunk splits where the stream itself splits, after `max / 2` bytes
  have hcut : min chunk.length (maxBytes / 2 - c.head.length) = min chunk.length (maxBytes / 2 - s.length) := by
    rw [h.head, List.length_take]
    omega
  have hhead : c.head ++ chunk.take (min chunk.length (maxBytes / 2 - s.length)) =
      (s ++ chunk).take (maxBytes / 2) := by
    have htaken : (chunk.take (maxBytes / 2 - s.length)).length ≤ chunk.length := by
      rw [List.length_take]
      omega
    rw [List.take_append, h.head, ← List.take_take, List.take_of_length_le htaken]
  have hrest : (s ++ chunk).drop (maxBytes / 2) =
      s.drop (maxBytes / 2) ++ chunk.drop (min chunk.length (maxBytes / 2 - s.length)) := by
    rw [List.drop_append]
    congr 1
    rcases Nat.le_total chunk.length (maxBytes / 2 - s.length) with hle | hle
    · rw [Nat.min_eq_left hle, List.drop_length, List.drop_eq_nil_of_le hle]
    · rw [Nat.min_eq_right hle]
  have hlength : (chunk.drop (min chunk.length (maxBytes / 2 - s.length))).length =
      chunk.length - (maxBytes / 2 - s.length) := by
    rw [List.length_drop]
    omega
  rw [hcut]
  generalize chunk.drop (min chunk.length (maxBytes / 2 - s.length)) = rest at hrest hlength
  have htotal : (s ++ chunk).length = s.length + chunk.length := List.length_append
  split
  next hnil =>
    rw [hnil, List.length_nil] at hlength
    refine ⟨hhead, ?_, ?_⟩
    · rw [hrest, hnil, List.append_nil]
      exact h.tail
    · rw [h.truncated, htotal]
      exact decide_eq_decide.2 (by omega)
  next hnil =>
    have hpos : 0 < rest.length := List.length_pos_iff.2 hnil
    split
    next hzero =>
      refine ⟨hhead, ?_, ?_⟩
      · rw [hzero, List.rtake_zero, h.tail, hzero, List.rtake_zero]
      · rw [htotal]
        exact (decide_eq_true (by omega)).symm
    next hzero =>
      split
      next hfull =>
        refine ⟨hhead, ?_, ?_⟩
        · rw [hrest, rtake_append_left _ _ _ hfull]
        · rw [h.truncated, htotal, htail, ← Bool.decide_or]
          exact decide_eq_decide.2 (by omega)
      next hroom =>
        refine ⟨hhead, ?_, ?_⟩
        · rw [hrest, rtake_append_right _ _ _ (by omega), ← h.tail]
        · rw [h.truncated, htotal, htail, ← Bool.decide_or]
          exact decide_eq_decide.2 (by omega)

/-- **However the stream is cut into chunks, the capture is that of the whole stream.** -/
theorem capture_captured (maxBytes : Nat) (chunks : List Bytes) :
    Captured maxBytes chunks.flatten (capture maxBytes chunks) := by
  suffices hall : ∀ (c : StreamCapture) (s : Bytes), Captured maxBytes s c →
      Captured maxBytes (s ++ chunks.flatten) (chunks.foldl (fun c chunk => c.push chunk maxBytes) c) by
    exact hall empty [] (captured_empty maxBytes)
  induction chunks with
  | nil =>
    intro c s h
    rw [List.flatten_nil, List.append_nil]
    exact h
  | cons chunk chunks ih =>
    intro c s h
    rw [List.flatten_cons, ← List.append_assoc]
    exact ih (c.push chunk maxBytes) (s ++ chunk) (h.push chunk)

theorem Captured.bounded (h : Captured maxBytes s c) : c.head.length + c.tail.length ≤ maxBytes := by
  have hhead : c.head.length ≤ maxBytes / 2 := by
    rw [h.head]
    exact List.length_take_le ..
  have htail := h.tail_length
  omega

theorem Captured.finish (h : Captured maxBytes s c) : c.finish = if s.length ≤ maxBytes then (s, false)
      else (s.take (maxBytes / 2) ++ truncationNotice ++ s.drop (s.length - (maxBytes - maxBytes / 2)), true) := by
  unfold StreamCapture.finish
  by_cases hfits : s.length ≤ maxBytes
  · rw [if_pos hfits]
    -- the tail starts where the head ends
    have hwhole : c.tail = s.drop (maxBytes / 2) := by
      have hshort : (s.drop (maxBytes / 2)).length ≤ maxBytes - maxBytes / 2 := by
        rw [List.length_drop]
        omega
      rw [h.tail, List.rtake, Nat.sub_eq_zero_of_le hshort, List.drop_zero]
    have hnot : c.truncated = false := by
      rw [h.truncated]
      exact decide_eq_false (by omega)
    rw [hnot, hwhole, h.head, if_neg Bool.false_ne_true, List.append_nil, List.take_append_drop]
  rw [if_neg hfits]
  have hlost : c.truncated = true := by
    rw [h.truncated]
    exact decide_eq_true (by omega)
  have hsuffix : c.tail = s.drop (s.length - (maxBytes - maxBytes / 2)) := by
    rw [h.tail, List.rtake, List.drop_drop, List.length_drop]
    congr 1
    omega
  rw [hlost, hsuffix, h.head, if_pos rfl]

/-- A truncated capture is full on both sides of the notice. -/
theorem Captured.full (h : Captured maxBytes s c) (ht : c.truncated = true) :
    c.head.length = maxBytes / 2 ∧ c.tail.length = maxBytes - maxBytes / 2 := by
  have hlong : maxBytes < s.length := by
    rw [h.truncated] at ht
    exact of_decide_eq_true ht
  refine ⟨?_, ?_⟩
  · rw [h.head, List.length_take]
    omega
  · rw [h.tail_length]
    omega

end StreamCapture

/-- The bytes handed on for a stream that did not fit: the notice between two full halves. -/
theorem readBoundedStream_truncated {chunks : List Bytes}
    (h : (StreamCapture.capture maxBytes chunks).truncated = true) :
    ∃ head tail, head.length = maxBytes / 2 ∧ tail.length = maxBytes - maxBytes / 2 ∧
      (readBoundedStream chunks maxBytes).1 = head ++ truncationNotice ++ tail := by
  obtain ⟨hhead, htail⟩ := (StreamCapture.capture_captured maxBytes chunks).full h
  refine ⟨_, _, hhead, htail, ?_⟩
  unfold readBoundedStream StreamCapture.finish
  rw [h]
  rfl

/-- **What is read of a stream.**  However it arrives, a stream that fits the limit is returned as it is, and
of a longer one the first half of the limit and the last bytes up to it, with the notice in between.  After
any of the reads no more than the limit is held. -/
theorem bounded_stream_read (chunks : List Bytes) (maxBytes : Nat) : readBoundedStream chunks maxBytes =
      (if chunks.flatten.length ≤ maxBytes then (chunks.flatten, false)
        else (chunks.flatten.take (maxBytes / 2) ++ truncationNotice ++
          chunks.flatten.drop (chunks.flatten.length - (maxBytes - maxBytes / 2)), true)) ∧ ∀ read, read <+: chunks →
      (StreamCapture.capture maxBytes read).head.length + (StreamCapture.capture maxBytes read).tail.length ≤
        maxBytes :=
  ⟨(StreamCapture.capture_captured maxBytes chunks).finish,
    fun read _ => (StreamCapture.capture_captured maxBytes read).bounded⟩

/-! ## The detectors -/

/-- `slice.windows(n)`. -/
def windows (n : Nat) (l : Bytes) : List Bytes :=
  (List.range (l.length + 1 - n)).map fun i => (l.drop i).take n

/-- `slice.get(from..from + n)`. -/
def slice (l : Bytes) (start n : Nat) : Option Bytes :=
  if start + n ≤ l.length then some ((l.drop start).take n) else none

/-- `OUTPUT_TRUNCATED_MARKER` (`mapreduce.rs:31`). -/
def outputTruncatedMarker : Bytes := asciiBytes "[rusty_grid: output truncated after exceeding size limit]"

/-- `stdout_was_truncated` (`mapreduce.rs:35`). -/
def stdoutWasTruncated (result : TaskResult) : Bool :=
  let out := result.stdout
  let marker := outputTruncatedMarker
  let tail := out.drop (out.length - (marker.length + 8))
  if (windows marker.length tail).any (· == marker) then true
  else
    let noticeLen := marker.length + 2
    if noticeLen ≤ out.length then
      let headCap := (out.length - noticeLen) / 2
      (slice out headCap noticeLen).any fun s =>
        s.head? == some 10 && (s.drop 1).take marker.length == marker &&
          s[1 + marker.length]? == some 10
    else false

/-- `WORKER_TRUNCATION_NOTICE` (`mcp.rs:1396`). -/
def workerTruncationNotice : Bytes := asciiBytes "\n[rusty_grid: output truncated after exceeding size limit]\n"

/-- `stream_was_worker_truncated` (`mcp.rs:1403`). -/
def streamWasWorkerTruncated (bytes : Bytes) : Bool :=
  let noticeLen := workerTruncationNotice.length
  if bytes.length ≤ noticeLen then false
  else
    let headCap := (bytes.length - noticeLen) / 2
    decide (0 < headCap) && (slice bytes headCap noticeLen).any (· == workerTruncationNotice)

theorem slice_middle (head middle tail : Bytes) (n k : Nat) (hn : n = head.length) (hk : k = middle.length) :
    slice (head ++ middle ++ tail) n k = some middle := by
  subst hn hk
  unfold slice
  have hle : head.length + middle.length ≤ (head ++ middle ++ tail).length := by
    simp only [List.length_append]
    omega
  rw [if_pos hle, List.append_assoc, List.drop_left, List.take_left]

theorem truncationNotice_length : truncationNotice.length = outputTruncatedMarker.length + 2 := by decide

/-- **The master sees every truncation**: whatever the task writes, however it arrives and whatever
the limit, 0 and 1 included, a capture that lost bytes is recognised by its bytes alone. -/
theorem truncated_capture_detected (chunks : List Bytes) (maxBytes : Nat) (result : TaskResult)
    (hstdout : result.stdout = (readBoundedStream chunks maxBytes).1)
    (htruncated : (readBoundedStream chunks maxBytes).2 = true) : stdoutWasTruncated result = true := by
  obtain ⟨head, tail, hhead, htail, hout⟩ := readBoundedStream_truncated htruncated
  have hlen : result.stdout.length = maxBytes + (outputTruncatedMarker.length + 2) := by
    rw [hstdout, hout]
    simp only [List.length_append, truncationNotice_length]
    omega
  have hslice : slice result.stdout ((result.stdout.length - (outputTruncatedMarker.length + 2)) / 2)
      (outputTruncatedMarker.length + 2) = some truncationNotice := by
    rw [hstdout, hout]
    refine slice_middle head truncationNotice tail _ _ ?_ truncationNotice_length.symm
    rw [← hout, ← hstdout, hlen]
    omega
  unfold stdoutWasTruncated
  dsimp only
  split
  · rfl
  · rw [if_pos (by omega), hslice]
    decide

theorem truncated_capture_detected_tiny :
    stdoutWasTruncated (TaskResult.failure 0 ⟨0⟩ 0 (readBoundedStream [[104, 105], [33]] 1).1 [] 0 none) = true :=
  truncated_capture_detected [[104, 105], [33]] 1 _ rfl (by decide)

end OxideSwarm
