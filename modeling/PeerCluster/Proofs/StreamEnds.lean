import PeerCluster.Proofs.ServedStreams

/-!
# Reading a stream to its end

**The end** (`endOf`). Bytes that begin with no frame are too few for a length, announce too much, end
before what they announce, announce less than a header, or name no kind. Which of these is found
depends on the bytes alone (`front_of_no_frame`).

**Reading** (`frames_of_spells`). A reader takes exactly the frames that a stream spells out and then
finds the end of what is left.

**Theorem (`frames_are_what_was_consumed`).** So the frames that are read are the bytes that have been
used up, nothing is skipped, and more bytes behind a stream change nothing about them.
-/

namespace PeerCluster

open PeerCluster.Frame

/-! ## Bytes that are no frame -/

namespace Frame

theorem decode_of_short {bs : ByteArray} (h : bs.size < headerSize) :
    decode bs = .error (.truncated bs.size) := by
  rw [decode, if_pos h]
  rfl

/-- Whether bytes that are enough for a header and not too many are a frame is settled by the first of
them. -/
theorem decode_of_long {bs : ByteArray} (h : headerSize ≤ bs.size) (hmax : bs.size ≤ maxSize) :
    ∃ code, bs.data.toList[0]? = some code ∧
      ((∃ f, decode bs = .ok f) ∨
        Kind.ofCode? code = none ∧ decode bs = .error (.unknownKind code)) := by
  have hcheck : checkSize bs.size = .ok () := checkSize_eq_ok_iff.2 hmax
  have hlength : bs.data.toList.length = bs.size := by simp
  have htake : (bs.extract 0 headerSize).data.toList = bs.data.toList.take headerSize :=
    FrameStream.toList_extract bs 0 headerSize
  match hlist : bs.data.toList with
  | [] | [_] =>
    rw [hlist] at hlength
    simp only [List.length_nil, List.length_cons, headerSize] at hlength h
    omega
  | code :: flags :: rest =>
    have hfields : (bs.extract 0 headerSize).data.toList = code :: flags :: rest.take 8 := by
      rw [htake, hlist]
      rfl
    refine ⟨code, rfl, ?_⟩
    simp only [decode, if_neg (Nat.not_lt_of_le h), hcheck, hfields]
    cases Kind.ofCode? code with
    | some kind => exact .inl ⟨_, rfl⟩
    | none => exact .inr ⟨rfl, rfl⟩

end Frame

namespace FrameStream

/-- What ends the reading of bytes that begin with no frame. -/
def endOf (bs : List UInt8) : Option DeliveryError :=
  let size := BigEndian.value (bs.take lengthWidth)
  if bs.length < lengthWidth then none
  else if maxSize < size then some (.wire (.tooLarge size maxSize))
  else if bs.length < lengthWidth + size then some (.io .earlyEnd)
  else if size < headerSize then some (.wire (.truncated size))
  else bs[lengthWidth]?.map fun code => .wire (.unknownKind code)

variable {s s' : FrameStream} {fs : List Frame} {bs rest : List UInt8}

theorem endOf_of_long (h : lengthWidth ≤ bs.length) :
    endOf bs =
      let size := BigEndian.value (bs.take lengthWidth)
      if maxSize < size then some (.wire (.tooLarge size maxSize))
      else if bs.length < lengthWidth + size then some (.io .earlyEnd)
      else if size < headerSize then some (.wire (.truncated size))
      else bs[lengthWidth]?.map fun code => .wire (.unknownKind code) := by
  rw [endOf, if_neg (Nat.not_lt_of_le h)]

/-- The checks exclude each other, so an end tells which of them failed. -/
theorem endOf_eq_iff {size : Nat} (hsize : BigEndian.value (bs.take lengthWidth) = size)
    (h : lengthWidth ≤ bs.length) :
    (endOf bs = some (.wire (.tooLarge size maxSize)) ↔ maxSize < size) ∧
    (endOf bs = some (.io .earlyEnd) ↔ size ≤ maxSize ∧ bs.length < lengthWidth + size) ∧
    (endOf bs = some (.wire (.truncated size)) ↔
      lengthWidth + size ≤ bs.length ∧ size < headerSize) := by
  have hheaders : headerSize ≤ maxSize := by decide
  rw [endOf_of_long h]
  simp only [hsize]
  by_cases hlarge : maxSize < size
  · simp [hlarge]
    omega
  by_cases hshort : bs.length < lengthWidth + size
  · simp [hlarge, hshort]
    omega
  by_cases hheader : size < headerSize
  · simp [hlarge, hshort, hheader]
    omega
  · simp [hlarge, hshort, hheader]

theorem endOf_of_whole {size : Nat} (hsize : BigEndian.value (bs.take lengthWidth) = size)
    (hmax : size ≤ maxSize) (hlong : lengthWidth + size ≤ bs.length) (hheader : headerSize ≤ size) :
    ∃ code, bs[lengthWidth]? = some code ∧ endOf bs = some (.wire (.unknownKind code)) := by
  have hlt : lengthWidth < bs.length := by
    have : 0 < headerSize := by decide
    omega
  have hcode : bs[lengthWidth]? = some bs[lengthWidth] := List.getElem?_eq_getElem hlt
  refine ⟨_, hcode, ?_⟩
  rw [endOf_of_long (Nat.le_of_lt hlt), hcode]
  simp [hsize, Nat.not_lt_of_le hmax, Nat.not_lt_of_le hlong, Nat.not_lt_of_le hheader]

theorem endOf_eq_none_iff : endOf bs = none ↔ bs.length < lengthWidth := by
  constructor
  · intro hnone
    by_contra hlong
    have hlong : lengthWidth ≤ bs.length := Nat.le_of_not_lt hlong
    obtain ⟨hlarge, hearly, hshort⟩ := endOf_eq_iff rfl hlong
    have hwhole := @endOf_of_whole bs _ rfl
    grind
  · intro hshort
    rw [endOf, if_pos hshort]

/-- What a reader finds before bytes that begin with no frame. If they name a kind, it is none. -/
theorem front_of_no_frame
    (h : ∀ (f : Frame) (more : List UInt8), f.Fits → s.contents ≠ f.bytes ++ more) :
    s.front = (endOf s.contents).elim .ended .failed ∧
      ∀ code, endOf s.contents = some (.wire (.unknownKind code)) → Kind.ofCode? code = none := by
  have hspec := take?_spec s lengthWidth
  split at hspec
  · rename_i length after htake
    obtain ⟨hle, hlength, hafter⟩ := hspec
    have hsize : s.contents.length = lengthWidth + after.contents.length := by
      rw [hafter, List.length_drop]
      omega
    have hnot := front_ne_frame h
    simp only [front, endOf, htake, hlength, if_neg (Nat.not_lt_of_le hle)] at hnot ⊢
    generalize BigEndian.value (s.contents.take lengthWidth) = size at hnot ⊢
    by_cases hlarge : maxSize < size
    · simp [checkSize, hlarge]
    have hmax : size ≤ maxSize := Nat.le_of_not_lt hlarge
    have hcheck : checkSize size = .ok () := checkSize_eq_ok_iff.2 hmax
    simp only [hcheck, if_neg hlarge] at hnot ⊢
    have hspec' := take?_spec after size
    split at hspec'
    · rename_i got behind htake'
      obtain ⟨hle', hgot, -⟩ := hspec'
      have hgotSize : got.size = size := by
        rw [← ByteArray.size_data, ← Array.length_toList, hgot, List.length_take]
        omega
      simp only [htake', if_neg (show ¬s.contents.length < lengthWidth + size by omega)] at hnot ⊢
      by_cases hshort : size < headerSize
      · rw [decode_of_short (hgotSize ▸ hshort), if_pos hshort, hgotSize]
        exact ⟨rfl, by simp⟩
      have hheader : headerSize ≤ got.size := by omega
      obtain ⟨code, hcode, hdecode⟩ := decode_of_long hheader (by omega)
      have hkind : s.contents[lengthWidth]? = some code := by
        rw [hgot, hafter, List.getElem?_take, List.getElem?_drop] at hcode
        split at hcode
        · exact hcode
        · cases hcode
      rcases hdecode with ⟨f, hdecode⟩ | ⟨hnone, hdecode⟩
      · rw [hdecode] at hnot
        exact absurd rfl (hnot f behind)
      · rw [hdecode, if_neg hshort, hkind]
        refine ⟨rfl, fun code' heq => ?_⟩
        cases heq
        exact hnone
    · rename_i htake'
      simp only [htake', if_pos (show s.contents.length < lengthWidth + size by omega)]
      exact ⟨rfl, by simp⟩
  · rename_i htake
    simp only [front, endOf, htake, if_pos hspec]
    exact ⟨rfl, by simp⟩

/-! ## The whole stream -/

/-- A reader takes exactly the frames that a stream spells out, and what is left says how it ends. -/
theorem frames_of_spells (h : s.Spells fs rest) :
    s.frames = (fs, endOf rest) ∧
      ∀ code, endOf rest = some (.wire (.unknownKind code)) → Kind.ofCode? code = none := by
  obtain ⟨behind, hbehind, hframes⟩ := framesOnto_of_contents h.fits h.contents []
  obtain ⟨hfront, hkind⟩ := front_of_no_frame (s := behind) (hbehind ▸ h.stops)
  rw [hbehind] at hfront hkind
  refine ⟨?_, hkind⟩
  rw [frames, hframes, List.append_nil]
  cases hend : endOf rest with
  | none =>
    rw [hend] at hfront
    rw [framesOnto_of_ended hfront, List.reverse_reverse]
  | some e =>
    rw [hend] at hfront
    rw [framesOnto_of_failed hfront, List.reverse_reverse]

/-- A stream that goes on where another one ends spells out the same frames first. -/
theorem Spells.prefix_of_contents {fs' : List Frame} {rest' : List UInt8} (h : s.Spells fs rest)
    (h' : s'.Spells fs' rest') (hlonger : s.contents <+: s'.contents) : fs <+: fs' := by
  obtain ⟨more, hmore⟩ := hlonger
  obtain ⟨behind, after, hafter, hfits, hstops⟩ := exists_frames (rest ++ more)
  have hall : s'.Spells (fs ++ behind) after := by
    refine ⟨?_, fun f hf => (List.mem_append.1 hf).elim (h.fits f) (hfits f), hstops⟩
    rw [← hmore, h.contents, List.append_assoc, hafter, bytesOf_append, List.append_assoc]
  rw [(h'.unique hall).1]
  exact List.prefix_append fs behind

/-- **Theorem.** The frames that are read of a stream and what is left behind them are the bytes of the
stream, and what is left begins with no further frame. It ends quietly if not even a length is left.
Otherwise the length that is left is too large, or more than the bytes behind it, or too small for a
header, or a byte for the kind follows that names none. More bytes change nothing about the frames that
have been read. -/
theorem frames_are_what_was_consumed (s : FrameStream) :
    ∃ rest, s.Spells s.frames.1 rest ∧
      let len := BigEndian.value (rest.take 4)
      (s.frames.2 = none ↔ rest.length < 4) ∧
      (4 ≤ rest.length →
        (s.frames.2 = some (.wire (.tooLarge len maxSize)) ↔ maxSize < len) ∧
        (s.frames.2 = some (.io .earlyEnd) ↔ len ≤ maxSize ∧ rest.length < 4 + len) ∧
        (s.frames.2 = some (.wire (.truncated len)) ↔ 4 + len ≤ rest.length ∧ len < 10) ∧
        (len ≤ maxSize → 4 + len ≤ rest.length → 10 ≤ len →
          ∃ code, rest[4]? = some code ∧ Kind.ofCode? code = none ∧
            s.frames.2 = some (.wire (.unknownKind code)))) ∧
      ∀ s' : FrameStream, s.contents <+: s'.contents → s.frames.1 <+: s'.frames.1 := by
  obtain ⟨fs, rest, hspells⟩ := s.exists_spells
  obtain ⟨hframes, hkind⟩ := frames_of_spells hspells
  rw [hframes]
  refine ⟨rest, hspells, endOf_eq_none_iff, fun hlong => ?_, fun s' hlonger => ?_⟩
  · obtain ⟨hlarge, hearly, hshort⟩ := endOf_eq_iff rfl hlong
    refine ⟨hlarge, hearly, hshort, fun hmax hwhole hheader => ?_⟩
    obtain ⟨code, hcode, hend⟩ := endOf_of_whole rfl hmax hwhole hheader
    exact ⟨code, hcode, hkind code hend, hend⟩
  obtain ⟨fs', rest', hspells'⟩ := s'.exists_spells
  rw [(frames_of_spells hspells').1]
  exact hspells.prefix_of_contents hspells' hlonger

end FrameStream

end PeerCluster
