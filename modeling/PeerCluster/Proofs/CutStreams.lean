import PeerCluster.Proofs.FrameCodec

/-!
# Frames survive a stream that is cut

**Writing.** A frame that may not be sent is refused and leaves no trace, so what has been written is
the bytes of the other frames, one frame after the other (`writeAll_eq`).

**Reading.** A reader that has taken frames off the front of a stream stands before what is left of it
(`framesOnto_of_contents`). Before a frame that is cut, it finds that the stream has ended if not even
the length is there, and otherwise that the stream has ended too early (`front_of_cut`).

**Theorem (`written_frames_survive_cuts`).** However many bytes of what was written arrive, and in
whatever pieces, the reader finds the frames that lie wholly within them, and then the end.
-/

namespace PeerCluster

namespace Frame

instance (f : Frame) : Decidable f.Fits :=
  inferInstanceAs (Decidable (f.wireSize ≤ maxSize))

/-- The frames that lie wholly within the first `n` bytes of frames that follow each other. -/
def within (n : Nat) (fs : List Frame) : List Frame :=
  (fs.zipIdx.filter fun p => (bytesOf (fs.take (p.2 + 1))).length ≤ n).map Prod.fst

theorem length_bytes (f : Frame) : f.bytes.length = lengthWidth + f.wireSize := by
  rw [bytes_eq, List.length_append, BigEndian.length_bytes, length_afterLength]

@[simp] theorem within_nil (n : Nat) : within n [] = [] :=
  rfl

/-- A frame that is not complete hides all frames behind it. -/
theorem within_cons_of_lt {n : Nat} {f : Frame} (fs : List Frame) (h : n < f.bytes.length) :
    within n (f :: fs) = [] := by
  rw [within, List.map_eq_nil_iff, List.filter_eq_nil_iff]
  intro p _
  rw [List.take_succ_cons, bytesOf_cons, List.length_append, decide_eq_true_eq]
  omega

theorem within_cons_of_le {n : Nat} {f : Frame} (fs : List Frame) (h : f.bytes.length ≤ n) :
    within n (f :: fs) = f :: within (n - f.bytes.length) fs := by
  have hfirst : (bytesOf ((f :: fs).take (0 + 1))).length ≤ n := by
    simpa [bytesOf_cons] using h
  have hrest : ∀ i, (bytesOf ((f :: fs).take (i + 1 + 1))).length ≤ n ↔
      (bytesOf (fs.take (i + 1))).length ≤ n - f.bytes.length := by
    intro i
    rw [List.take_succ_cons, bytesOf_cons, List.length_append]
    omega
  rw [within, List.zipIdx_cons, List.filter_cons, if_pos (decide_eq_true hfirst), List.map_cons,
    List.zipIdx_succ, List.filter_map, List.map_map, within]
  simp only [Function.comp_def, hrest]

/-- The first bytes of frames are the frames that lie wholly within them and the beginning of at most
one more. -/
theorem take_bytesOf (fs : List Frame) {n : Nat} (h : n ≤ (bytesOf fs).length) :
    (bytesOf (within n fs)).length ≤ n ∧
      ((bytesOf fs).take n = bytesOf (within n fs) ∨
        ∃ f ∈ fs, n - (bytesOf (within n fs)).length < f.bytes.length ∧
          (bytesOf fs).take n =
            bytesOf (within n fs) ++ f.bytes.take (n - (bytesOf (within n fs)).length)) := by
  induction fs generalizing n with
  | nil => exact ⟨Nat.zero_le n, .inl List.take_nil⟩
  | cons f fs ih =>
    rw [bytesOf_cons, List.length_append] at h
    by_cases hlt : n < f.bytes.length
    · rw [within_cons_of_lt fs hlt]
      refine ⟨Nat.zero_le n, .inr ⟨f, List.mem_cons_self .., hlt, ?_⟩⟩
      rw [bytesOf_cons, List.take_append_of_le_length (by omega)]
      rfl
    · have hle : f.bytes.length ≤ n := Nat.le_of_not_lt hlt
      obtain ⟨hshort, hsplit⟩ := ih (n := n - f.bytes.length) (by omega)
      rw [within_cons_of_le fs hle, bytesOf_cons, bytesOf_cons, List.length_append,
        List.take_append, List.take_of_length_le hle, ← Nat.sub_sub]
      refine ⟨by omega, ?_⟩
      rcases hsplit with heq | ⟨g, hg, hcut, heq⟩
      · exact .inl (by rw [heq])
      · exact .inr ⟨g, List.mem_cons_of_mem f hg, hcut, by rw [heq, List.append_assoc]⟩

end Frame

namespace FrameStream

open PeerCluster.Frame

/-! ## Reading -/

theorem framesOnto_of_frame {s rest : FrameStream} {f : Frame} (h : s.front = .frame f rest)
    (read : List Frame) : framesOnto read s = framesOnto (f :: read) rest := by
  rw [framesOnto]
  split
  · rename_i hfront
    obtain ⟨rfl, rfl⟩ := Front.frame.inj (h.symm.trans hfront)
    rfl
  · rename_i hfront
    cases h.symm.trans hfront
  · rename_i hfront
    cases h.symm.trans hfront

theorem framesOnto_of_ended {s : FrameStream} (h : s.front = .ended) (read : List Frame) :
    framesOnto read s = (read.reverse, none) := by
  rw [framesOnto]
  split <;> rename_i hfront <;> cases h.symm.trans hfront
  rfl

theorem framesOnto_of_failed {s : FrameStream} {e : DeliveryError} (h : s.front = .failed e)
    (read : List Frame) : framesOnto read s = (read.reverse, some e) := by
  rw [framesOnto]
  split <;> rename_i hfront <;> cases h.symm.trans hfront
  rfl

/-- A reader takes the frames at the front of a stream and stands before what follows them. -/
theorem framesOnto_of_contents {s : FrameStream} {fs : List Frame} {more : List UInt8}
    (hfs : ∀ f ∈ fs, f.Fits) (h : s.contents = bytesOf fs ++ more) (read : List Frame) :
    ∃ rest, rest.contents = more ∧ framesOnto read s = framesOnto (fs.reverse ++ read) rest := by
  induction fs generalizing s read with
  | nil => exact ⟨s, h, rfl⟩
  | cons f fs ih =>
    rw [bytesOf_cons, List.append_assoc] at h
    obtain ⟨after, hfront, hafter⟩ := front_of_contents (hfs f (List.mem_cons_self ..)) h
    obtain ⟨rest, hrest, hframes⟩ :=
      ih (fun g hg => hfs g (List.mem_cons_of_mem f hg)) hafter (f :: read)
    refine ⟨rest, hrest, ?_⟩
    rw [framesOnto_of_frame hfront, hframes, List.reverse_cons, List.append_assoc]
    rfl

/-- What a reader makes of a stream that ends so many bytes behind the latest whole frame. -/
def endBehind (left : Nat) : Option DeliveryError :=
  if left < lengthWidth then none else some (.io .earlyEnd)

theorem take?_eq_none_iff {s : FrameStream} {n : Nat} :
    s.take? n = none ↔ s.contents.length < n := by
  have hspec := take?_spec s n
  constructor
  · intro h
    rw [h] at hspec
    exact hspec
  · intro h
    split at hspec
    · omega
    · assumption

/-- A frame that is cut is not found: the stream has ended quietly if the cut is in the length, and
too early otherwise. -/
theorem front_of_cut {s : FrameStream} {f : Frame} {n : Nat} (hfits : f.Fits)
    (hn : n < f.bytes.length) (h : s.contents = f.bytes.take n) :
    s.front = if n < lengthWidth then .ended else .failed (.io .earlyEnd) := by
  have hlength : s.contents.length = n := by
    rw [h, List.length_take]
    omega
  split
  · rename_i hshort
    have hnone : s.take? lengthWidth = none := take?_eq_none_iff.2 (by omega)
    simp only [front, hnone]
  · rename_i hlong
    -- The length is there, so the reader waits for all the bytes that it announces.
    have hsplit : s.contents = BigEndian.bytes lengthWidth f.wireSize ++
        (f.header ++ f.body.data.toList).take (n - lengthWidth) := by
      rw [h, bytes_eq, List.take_append, BigEndian.length_bytes,
        List.take_of_length_le (by rw [BigEndian.length_bytes]; omega)]
    obtain ⟨got, after, htake, hgot, hafter⟩ := take?_of_contents hsplit
    rw [BigEndian.length_bytes] at htake
    have hcheck : checkSize f.wireSize = .ok () := checkSize_eq_ok_iff.2 hfits
    have hnone : after.take? f.wireSize = none := by
      rw [take?_eq_none_iff, hafter, List.length_take, length_afterLength]
      rw [length_bytes] at hn
      omega
    simp only [front, htake, hgot, value_length hfits, hcheck, hnone]

/-- While something of a frame is missing, what has arrived does not tell. -/
theorem arrived?_of_short {bs : ByteArray} {f : Frame} {more : List UInt8} (hfits : f.Fits)
    (h : bs.data.toList <+: f.bytes ++ more) (hshort : ¬ f.bytes <+: bs.data.toList) :
    arrived? bs false = none := by
  have hlt : bs.data.toList.length < f.bytes.length :=
    Nat.lt_of_not_le fun hle => hshort (List.prefix_of_prefix_length_le ⟨more, rfl⟩ h hle)
  have hcut : contents ⟨[bs]⟩ = f.bytes.take bs.data.toList.length := by
    rw [contents_singleton]
    exact List.prefix_iff_eq_take.1
      (List.prefix_of_prefix_length_le h ⟨more, rfl⟩ (Nat.le_of_lt hlt))
  rw [arrived?, front_of_cut hfits hlt hcut]
  by_cases hlength : bs.data.toList.length < lengthWidth
  · rw [if_pos hlength]
    rfl
  · rw [if_neg hlength]
    rfl

theorem framesOnto_of_cut {s : FrameStream} {f : Frame} {n : Nat} (hfits : f.Fits)
    (hn : n < f.bytes.length) (h : s.contents = f.bytes.take n) (read : List Frame) :
    framesOnto read s = (read.reverse, endBehind n) := by
  have hfront := front_of_cut hfits hn h
  rw [endBehind]
  split at hfront
  · rename_i hshort
    rw [framesOnto_of_ended hfront, if_pos hshort]
  · rename_i hlong
    rw [framesOnto_of_failed hfront, if_neg hlong]

theorem framesOnto_of_nil {s : FrameStream} (h : s.contents = []) (read : List Frame) :
    framesOnto read s = (read.reverse, none) := by
  have hnone : s.take? lengthWidth = none := by
    rw [take?_eq_none_iff, h]
    decide
  exact framesOnto_of_ended (by simp only [front, hnone]) read

/-- A reader of the first bytes of frames finds those that lie wholly within them. -/
theorem frames_of_take {s : FrameStream} {fs : List Frame} {n : Nat} (hfs : ∀ f ∈ fs, f.Fits)
    (hn : n ≤ (bytesOf fs).length) (h : s.contents = (bytesOf fs).take n) :
    s.frames = (within n fs, endBehind (n - (bytesOf (within n fs)).length)) := by
  have hwithin : ∀ f ∈ within n fs, f.Fits := by
    intro f hf
    obtain ⟨p, hp, rfl⟩ := List.mem_map.1 hf
    exact hfs _ (List.fst_mem_of_mem_zipIdx (List.mem_filter.1 hp).1)
  obtain ⟨hle, hsplit⟩ := take_bytesOf fs hn
  rw [frames]
  rcases hsplit with hwhole | ⟨f, hf, hcut, hpart⟩
  · have hleft : n - (bytesOf (within n fs)).length = 0 := by
      have hlength := congrArg List.length hwhole
      rw [List.length_take] at hlength
      omega
    rw [hwhole, ← List.append_nil (bytesOf _)] at h
    obtain ⟨rest, hrest, hframes⟩ := framesOnto_of_contents hwithin h []
    rw [hframes, framesOnto_of_nil hrest, List.append_nil, List.reverse_reverse, hleft]
    rfl
  · rw [hpart] at h
    obtain ⟨rest, hrest, hframes⟩ := framesOnto_of_contents hwithin h []
    rw [hframes, framesOnto_of_cut (hfs f hf) hcut hrest, List.append_nil, List.reverse_reverse]

/-! ## Writing -/

/-- What becomes of a frame that is written to somebody who listens. -/
def writeResult (f : Frame) : Except DeliveryError Unit :=
  if f.Fits then .ok () else .error (.wire (.tooLarge f.wireSize maxSize))

theorem write_eq {k : Sink} (f : Frame) (h : k.listening = true) :
    k.write f = (writeResult f,
      if f.Fits then { k with received := k.received ++ f.encode } else k) := by
  by_cases hfits : f.Fits
  · have hcheck : checkSize f.wireSize = .ok () := checkSize_eq_ok_iff.2 hfits
    simp [Sink.write, writeResult, hcheck, h, hfits]
  · have hcheck : checkSize f.wireSize = .error (.tooLarge f.wireSize maxSize) :=
      if_pos (Nat.lt_of_not_le hfits)
    simp [Sink.write, writeResult, hcheck, hfits]

/-- Exactly the frames that may be sent are written, one after the other. -/
theorem writeAll_eq {k : Sink} (fs : List Frame) (h : k.listening = true) :
    (k.writeAll fs).1 = fs.map writeResult ∧
      (k.writeAll fs).2.received.data.toList =
        k.received.data.toList ++ bytesOf (fs.filter fun f => f.Fits) := by
  induction fs generalizing k with
  | nil => exact ⟨rfl, (List.append_nil _).symm⟩
  | cons f fs ih =>
    have hlistening : (k.write f).2.listening = true := by
      rw [write_eq f h]
      dsimp only
      split <;> exact h
    obtain ⟨hresults, hreceived⟩ := ih hlistening
    have hwrite := write_eq f h
    constructor
    · show (k.write f).1 :: ((k.write f).2.writeAll fs).1 = _
      rw [hresults, hwrite, List.map_cons]
    · show ((k.write f).2.writeAll fs).2.received.data.toList = _
      rw [hreceived, hwrite]
      dsimp only
      by_cases hfits : f.Fits
      · rw [List.filter_cons, if_pos (decide_eq_true hfits), if_pos hfits, bytesOf_cons, Frame.bytes,
          ← List.append_assoc, ByteArray.toList_data_append]
      · rw [List.filter_cons, if_neg hfits, if_neg (by simpa using hfits)]

/-! ## Frames survive -/

/-- **Theorem.** Of the frames that are written, exactly those that may be sent succeed, and the bytes
written are theirs. However many of these bytes arrive, and in whatever pieces, the frames that lie
wholly within them are read, in order and unchanged; then the stream has ended quietly if fewer bytes
are left over than a length takes, and too early otherwise. -/
theorem written_frames_survive_cuts (fs : List Frame) :
    let results := (Sink.writeAll {} fs).1
    let written := (Sink.writeAll {} fs).2.received.data.toList
    let accepted := fs.filter fun f => f.wireSize ≤ maxSize
    (results = fs.map fun f =>
      if f.wireSize ≤ maxSize then .ok () else .error (.wire (.tooLarge f.wireSize maxSize))) ∧
    written = bytesOf accepted ∧
    ∀ (n : Nat) (pieces : List ByteArray), n ≤ written.length →
      contentsOf pieces = written.take n →
      frames ⟨pieces⟩ = (within n accepted,
        if n - (bytesOf (within n accepted)).length < 4 then none else some (.io .earlyEnd)) := by
  intro results written accepted
  obtain ⟨hresults, hwritten⟩ := writeAll_eq (k := {}) fs rfl
  have hbytes : written = bytesOf accepted := hwritten
  refine ⟨hresults, hbytes, fun n pieces hn hpieces => ?_⟩
  rw [hbytes] at hn hpieces
  have hfits : ∀ f ∈ accepted, f.Fits := fun f hf => of_decide_eq_true (List.mem_filter.1 hf).2
  exact frames_of_take (s := ⟨pieces⟩) hfits hn hpieces

/-- Of three frames one is too large, and the stream is cut in the last one. -/
theorem written_frames_survive_cuts_of_one_refused :
    let first := Frame.message 1 "one".toUTF8 true
    let fs := [first, .message 2 ⟨Array.replicate maxSize 0⟩ false, .ack 3]
    let written := (Sink.writeAll {} fs).2.received.data.toList
    written.length = 31 ∧
      frames ⟨[(written.take 3).toByteArray, ((written.take 25).drop 3).toByteArray]⟩ =
        ([first], some (.io .earlyEnd)) := by
  have hlarge : ¬ (Frame.message 2 ⟨Array.replicate maxSize 0⟩ false).wireSize ≤ maxSize := by
    have hsize : ∀ a : Array UInt8,
        (Frame.message 2 ⟨a⟩ false).wireSize = headerSize + a.size := fun _ => rfl
    rw [hsize, Array.size_replicate]
    decide
  -- From here on the large frame is only known not to fit, so that nothing computes its body.
  generalize Frame.message 2 ⟨Array.replicate maxSize 0⟩ false = large at hlarge ⊢
  intro first fs
  obtain ⟨-, hbytes, hread⟩ := written_frames_survive_cuts fs
  generalize (Sink.writeAll {} fs).2.received.data.toList = written at hbytes hread ⊢
  have hpieces : contentsOf [(written.take 3).toByteArray,
      ((written.take 25).drop 3).toByteArray] = written.take 25 := by
    have hthree : written.take 3 = (written.take 25).take 3 := by rw [List.take_take]; rfl
    simp only [contentsOf, List.flatMap_cons, List.flatMap_nil, List.append_nil,
      List.toList_data_toByteArray]
    rw [hthree, List.take_append_drop]
  have haccepted : (fs.filter fun f => f.wireSize ≤ maxSize) = [first, .ack 3] := by
    have hfirst : first.wireSize ≤ maxSize := by decide
    have hack : (Frame.ack 3).wireSize ≤ maxSize := by decide
    rw [List.filter_cons, if_pos (decide_eq_true hfirst), List.filter_cons,
      if_neg (fun h => hlarge (of_decide_eq_true h)), List.filter_cons,
      if_pos (decide_eq_true hack), List.filter_nil]
  have hfirst : first.bytes.length = 17 := by
    rw [Frame.length_bytes]
    decide
  have hack : (Frame.ack 3).bytes.length = 14 := by
    rw [Frame.length_bytes]
    decide
  rw [haccepted] at hbytes hread
  have hlength : written.length = 31 := by
    rw [hbytes, bytesOf_cons, bytesOf_cons, bytesOf_nil, List.length_append, List.length_append,
      hfirst, hack]
    rfl
  have hwithin : within 25 [first, .ack 3] = [first] := by
    rw [within_cons_of_le _ (by omega), within_cons_of_lt _ (by omega)]
  have hframes := hread 25 _ (by omega) hpieces
  rw [hwithin, bytesOf_cons, bytesOf_nil, List.append_nil, hfirst] at hframes
  exact ⟨hlength, hframes⟩

end FrameStream

end PeerCluster
