import PeerCluster.FrameStream
import PeerCluster.Proofs.Reading

/-!
# Reading a frame undoes writing it

A frame on the wire is its length, its header and its body, and it is read back from exactly these
bytes (`decode_eq_ok_iff`). A stream is the bytes of its pieces, one after the other: where the
pieces are cut does not matter (`take?_spec`), so a reader finds a frame at the front of a stream
exactly if the stream begins with the bytes of the frame (`front_of_contents`,
`contents_of_front`).

No frame is the beginning of another one (`bytes_append_inj`). A reader of a stream of frames
therefore takes the frames that were written, in order, and this stays true while only a part of
the stream has arrived (`arrived?_of_prefix`).
-/

namespace PeerCluster

open Reading

/-! ## One frame -/

namespace Frame

/-- Whether a frame may be sent. -/
def Fits (f : Frame) : Prop :=
  f.wireSize ≤ maxSize

/-- The bytes of a frame, with its length, as a list. -/
def bytes (f : Frame) : List UInt8 :=
  f.encode.data.toList

def bytesOf (fs : List Frame) : List UInt8 :=
  fs.flatMap bytes

@[simp] theorem bytesOf_nil : bytesOf [] = [] :=
  rfl

@[simp] theorem bytesOf_cons (f : Frame) (fs : List Frame) :
    bytesOf (f :: fs) = f.bytes ++ bytesOf fs :=
  rfl

@[simp] theorem bytesOf_append (fs gs : List Frame) :
    bytesOf (fs ++ gs) = bytesOf fs ++ bytesOf gs :=
  List.flatMap_append

theorem bytes_eq (f : Frame) :
    f.bytes = BigEndian.bytes lengthWidth f.wireSize ++ (f.header ++ f.body.data.toList) := by
  rw [bytes, encode, ByteArray.toList_data_append, List.toList_data_toByteArray,
    List.append_assoc]

@[simp] theorem length_header (f : Frame) : f.header.length = headerSize := by
  simp [header, headerSize]

theorem length_afterLength (f : Frame) :
    (f.header ++ f.body.data.toList).length = f.wireSize := by
  rw [List.length_append, length_header, wireSize]
  simp

theorem bytes_ne_nil (f : Frame) : f.bytes ≠ [] := by
  intro h
  have hlen := congrArg List.length h
  rw [bytes_eq, List.length_append, BigEndian.length_bytes] at hlen
  simp [lengthWidth] at hlen

theorem checkSize_eq_ok_iff {size : Nat} {u : Unit} : checkSize size = .ok u ↔ size ≤ maxSize := by
  rw [checkSize]
  split
  · simp only [reduceCtorEq, false_iff]
    omega
  · simp only [true_iff]
    omega

theorem value_length {f : Frame} (h : f.Fits) :
    BigEndian.value (BigEndian.bytes lengthWidth f.wireSize) = f.wireSize := by
  refine BigEndian.value_bytes ?_
  have hmax : maxSize < Nat.pow 256 lengthWidth := by decide
  exact Nat.lt_of_le_of_lt h hmax

theorem value_id (f : Frame) :
    (BigEndian.value (BigEndian.bytes 8 f.id.toNat)).toUInt64 = f.id := by
  have hid : f.id.toNat < Nat.pow 256 8 := f.id.toNat_lt
  rw [BigEndian.value_bytes hid]
  exact UInt64.ofNat_toNat

/-- The header that ten bytes hold. -/
theorem header_of_value {kind : Kind} {code flags : UInt8} {id : List UInt8} {body : ByteArray}
    (hcode : Kind.ofCode? code = some kind) (hid : id.length = 8) :
    header ⟨kind, flags, (BigEndian.value id).toUInt64, body⟩ = code :: flags :: id := by
  have hkind : kind.code = code := by
    have hfound := List.find?_some hcode
    exact eq_of_beq hfound
  have hlt := BigEndian.value_lt id
  rw [hid] at hlt
  have hback : (BigEndian.value id).toUInt64.toNat = BigEndian.value id :=
    Nat.mod_eq_of_lt hlt
  rw [header, hkind, hback, ← hid, BigEndian.bytes_value]

/-- Bytes are decoded to a frame exactly if they are its header and its body, and it may be sent. -/
theorem decode_eq_ok_iff {bs : ByteArray} {f : Frame} :
    decode bs = .ok f ↔ f.Fits ∧ bs.data.toList = f.header ++ f.body.data.toList := by
  simp only [decode, check_eq_ok_iff, bind_eq_ok_iff, checkSize_eq_ok_iff]
  constructor
  · intro h
    obtain ⟨hlong, -, hsize, h⟩ := h
    have hten : (bs.extract 0 headerSize).data.toList.length = headerSize := by
      rw [Array.length_toList, ByteArray.size_data, ByteArray.size_extract]
      omega
    split at h
    · rename_i code flags id hlist
      split at h
      · rename_i kind hcode
        obtain rfl := pure_eq_ok_iff.1 h
        have hid : id.length = 8 := by
          rw [hlist] at hten
          simpa [headerSize] using hten
        refine ⟨?_, ?_⟩
        · show headerSize + (bs.extract headerSize bs.size).size ≤ maxSize
          rw [ByteArray.size_extract, Nat.min_self]
          omega
        · rw [header_of_value hcode hid, ← hlist, ← ByteArray.toList_data_append,
            ByteArray.extract_append_extract]
          simp
      · exact absurd h throw_ne_ok
    · exact absurd h throw_ne_ok
  · intro hall
    rcases hall with ⟨hfit, hbs⟩
    have hbytes : bs = f.header.toByteArray ++ f.body := by
      ext1
      rw [← Array.toList_inj, hbs, ByteArray.toList_data_append, List.toList_data_toByteArray]
    have hsize : bs.size = f.wireSize := by
      rw [← length_afterLength, ← hbs]
      simp
    have hhead : (bs.extract 0 headerSize).data.toList = f.header := by
      rw [hbytes, ByteArray.extract_append_eq_left (by simp), List.toList_data_toByteArray]
    have hbody : bs.extract headerSize bs.size = f.body := by
      rw [hbytes, ByteArray.extract_append_eq_right (by simp) (by simp)]
    refine ⟨?_, (), ?_, ?_⟩
    · rw [hsize, wireSize]
      omega
    · rw [hsize]
      exact hfit
    · rw [hhead, hbody]
      simp only [header, Kind.ofCode?_code, value_id]
      rfl

end Frame

/-! ## Streams -/

namespace FrameStream

def contentsOf (pieces : List ByteArray) : List UInt8 :=
  pieces.flatMap fun p => p.data.toList

/-- The bytes that a stream will deliver, as a list. -/
def contents (s : FrameStream) : List UInt8 :=
  contentsOf s.pieces

@[simp] theorem contents_singleton (bs : ByteArray) :
    (FrameStream.mk [bs]).contents = bs.data.toList := by
  simp [contents, contentsOf]

theorem toList_extract (bs : ByteArray) (start stop : Nat) :
    (bs.extract start stop).data.toList = (bs.data.toList.drop start).take (stop - start) := by
  rw [ByteArray.data_extract, Array.toList_extract, List.extract_eq_take_drop]

/-- Taking bytes off the front of pieces is taking them off the front of their contents. -/
theorem takeOnto_spec (taken : ByteArray) (n : Nat) (pieces : List ByteArray) :
    match takeOnto taken n pieces with
    | some (got, rest) =>
      n ≤ (contentsOf pieces).length ∧
        got.data.toList = taken.data.toList ++ (contentsOf pieces).take n ∧
        contentsOf rest = (contentsOf pieces).drop n
    | none => (contentsOf pieces).length < n := by
  fun_induction takeOnto taken n pieces with
  | case1 taken => simp [contentsOf]
  | case2 taken n hn =>
    show 0 < n
    omega
  | case3 taken n p pieces hshort ih =>
    have hcons : contentsOf (p :: pieces) = p.data.toList ++ contentsOf pieces := rfl
    have hlen : p.data.toList.length = p.size := by simp
    have htake : p.data.toList.take n = p.data.toList := List.take_of_length_le (by omega)
    have hdrop : p.data.toList.drop n = [] := List.drop_of_length_le (by omega)
    rw [hcons, List.take_append, List.drop_append, htake, hdrop, List.length_append, hlen]
    split at ih
    · obtain ⟨hle, hgot, hrest⟩ := ih
      refine ⟨by omega, ?_, ?_⟩
      · rw [hgot, ByteArray.toList_data_append, List.append_assoc]
      · rw [hrest, List.nil_append]
    · show _ < n
      omega
  | case4 taken n p pieces hlong =>
    have hcons : contentsOf (p :: pieces) = p.data.toList ++ contentsOf pieces := rfl
    have hlen : p.data.toList.length = p.size := by simp
    have hle : n ≤ p.data.toList.length := by omega
    have hrest : contentsOf (p.extract n p.size :: pieces) =
        p.data.toList.drop n ++ contentsOf pieces := by
      show (p.extract n p.size).data.toList ++ contentsOf pieces = _
      rw [toList_extract, List.take_of_length_le (by rw [List.length_drop]; omega)]
    show _ ∧ _ ∧ _
    rw [hcons, hrest, List.length_append, List.take_append_of_le_length hle,
      List.drop_append_of_le_length hle, ByteArray.toList_data_append, toList_extract]
    exact ⟨by omega, rfl, rfl⟩

/-- Where the pieces of a stream are cut does not matter. -/
theorem take?_spec (s : FrameStream) (n : Nat) :
    match s.take? n with
    | some (got, rest) =>
      n ≤ s.contents.length ∧ got.data.toList = s.contents.take n ∧
        rest.contents = s.contents.drop n
    | none => s.contents.length < n := by
  have h := takeOnto_spec .empty n s.pieces
  rw [take?]
  cases hfound : takeOnto .empty n s.pieces with
  | none =>
    rw [hfound] at h
    exact h
  | some found =>
    rw [hfound] at h
    exact h

/-- Bytes can be taken off a stream that begins with them. -/
theorem take?_of_contents {s : FrameStream} {bs more : List UInt8} (h : s.contents = bs ++ more) :
    ∃ got rest, s.take? bs.length = some (got, rest) ∧ got.data.toList = bs ∧
      rest.contents = more := by
  have hspec := take?_spec s bs.length
  split at hspec
  · rename_i got rest htake
    obtain ⟨-, hgot, hrest⟩ := hspec
    refine ⟨got, rest, htake, ?_, ?_⟩
    · rw [hgot, h, List.take_left]
    · rw [hrest, h, List.drop_left]
  · rw [h, List.length_append] at hspec
    omega

/-- A reader finds a frame at the front of a stream that begins with its bytes. -/
theorem front_of_contents {s : FrameStream} {f : Frame} {more : List UInt8} (hfit : f.Fits)
    (h : s.contents = f.bytes ++ more) :
    ∃ rest, s.front = .frame f rest ∧ rest.contents = more := by
  rw [Frame.bytes_eq, List.append_assoc] at h
  obtain ⟨length, after, htake, hlength, hafter⟩ := take?_of_contents h
  rw [BigEndian.length_bytes] at htake
  obtain ⟨got, rest, htake', hgot, hrest⟩ := take?_of_contents hafter
  rw [Frame.length_afterLength] at htake'
  have hdecode : Frame.decode got = .ok f := Frame.decode_eq_ok_iff.2 ⟨hfit, hgot⟩
  have hcheck : Frame.checkSize f.wireSize = .ok () := Frame.checkSize_eq_ok_iff.2 hfit
  refine ⟨rest, ?_, hrest⟩
  simp only [front, htake, hlength, Frame.value_length hfit, hcheck, htake', hdecode]

/-- A frame that a reader finds may be sent, and the stream begins with its bytes. -/
theorem contents_of_front {s rest : FrameStream} {f : Frame} (h : s.front = .frame f rest) :
    f.Fits ∧ s.contents = f.bytes ++ rest.contents := by
  rw [front] at h
  have hspec := take?_spec s Frame.lengthWidth
  split at h
  · cases h
  · rename_i length after htake
    rw [htake] at hspec
    obtain ⟨hle, hlength, hafter⟩ := hspec
    dsimp only at h
    split at h
    · cases h
    · have hspec' := take?_spec after (BigEndian.value length.data.toList)
      split at h
      · cases h
      · rename_i got rest' htake'
        rw [htake'] at hspec'
        obtain ⟨hle', hgot, hrest⟩ := hspec'
        split at h
        · rename_i g hdecode
          obtain ⟨rfl, rfl⟩ := Front.frame.inj h
          obtain ⟨hfit, hbytes⟩ := Frame.decode_eq_ok_iff.1 hdecode
          refine ⟨hfit, ?_⟩
          have hwidth : length.data.toList.length = Frame.lengthWidth := by
            rw [hlength, List.length_take]
            omega
          have hsize : BigEndian.value length.data.toList = g.wireSize := by
            rw [← Frame.length_afterLength, ← hbytes, hgot, List.length_take]
            omega
          rw [Frame.bytes_eq, ← hsize, ← hwidth, BigEndian.bytes_value, ← hbytes, hgot, hrest,
            List.append_assoc, List.take_append_drop, hafter, hlength, List.take_append_drop]
        · cases h

end FrameStream

/-! ## Streams of frames -/

namespace Frame

/-- No frame is the beginning of another one. -/
theorem bytes_append_inj {f g : Frame} {bs bs' : List UInt8} (hf : f.Fits) (hg : g.Fits)
    (h : f.bytes ++ bs = g.bytes ++ bs') : f = g ∧ bs = bs' := by
  let s : FrameStream := ⟨[(f.bytes ++ bs).toByteArray]⟩
  have hs : s.contents = f.bytes ++ bs := by simp [s]
  obtain ⟨rest, hfront, hrest⟩ := FrameStream.front_of_contents hf hs
  obtain ⟨rest', hfront', hrest'⟩ := FrameStream.front_of_contents hg (hs.trans h)
  obtain ⟨hfg, rfl⟩ := FrameStream.Front.frame.inj (hfront.symm.trans hfront')
  exact ⟨hfg, hrest.symm.trans hrest'⟩

/-- The first frame in bytes that frames begin with is the first of these frames. -/
theorem eq_cons_of_bytesOf {f : Frame} {bs more : List UInt8} {fs : List Frame} (hf : f.Fits)
    (hfs : ∀ g ∈ fs, g.Fits) (h : (f.bytes ++ bs) ++ more = bytesOf fs) :
    ∃ fs', fs = f :: fs' ∧ bs ++ more = bytesOf fs' := by
  rw [List.append_assoc] at h
  cases fs with
  | nil => exact absurd (List.append_eq_nil_iff.1 h).1 f.bytes_ne_nil
  | cons g fs =>
    obtain ⟨rfl, hrest⟩ := bytes_append_inj hf (hfs g (List.mem_cons_self ..)) h
    exact ⟨fs, rfl, hrest⟩

end Frame

namespace FrameStream

theorem arrived?_eq_frame_iff {bs : ByteArray} {ended : Bool} {f : Frame} {rest : FrameStream} :
    arrived? bs ended = some (.frame f rest) ↔ front ⟨[bs]⟩ = .frame f rest := by
  rw [arrived?]
  split
  · rename_i h
    rw [h, Option.some.injEq]
  · rename_i h
    simp [h]
  · rename_i found hframe _
    constructor
    · intro h
      split at h
      · exact absurd (Option.some.inj h) (hframe f rest)
      · cases h
    · intro h
      exact absurd h (hframe f rest)

/-- While frames are arriving, what is found next is the first of them that has not been taken. -/
theorem arrived?_of_prefix {bs : ByteArray} {more : List UInt8} {fs : List Frame} {ended : Bool}
    {f : Frame} {rest : FrameStream} (hfs : ∀ g ∈ fs, g.Fits)
    (hbs : bs.data.toList ++ more = Frame.bytesOf fs)
    (h : arrived? bs ended = some (.frame f rest)) :
    ∃ fs', fs = f :: fs' ∧ rest.contents ++ more = Frame.bytesOf fs' := by
  obtain ⟨hfit, hcontents⟩ := contents_of_front (arrived?_eq_frame_iff.1 h)
  rw [contents_singleton] at hcontents
  rw [hcontents] at hbs
  exact Frame.eq_cons_of_bytesOf hfit hfs hbs

theorem arrived?_of_bytes {bs : ByteArray} {f : Frame} {more : List UInt8} (hfit : f.Fits)
    (h : bs.data.toList = f.bytes ++ more) :
    ∃ rest, arrived? bs false = some (.frame f rest) ∧ rest.contents = more := by
  obtain ⟨rest, hfront, hrest⟩ :=
    front_of_contents (s := ⟨[bs]⟩) hfit (by rw [contents_singleton, h])
  exact ⟨rest, arrived?_eq_frame_iff.2 hfront, hrest⟩

end FrameStream

end PeerCluster
