import PeerCluster.Heartbeat.Packet
import PeerCluster.Proofs.Reading

/-!
# Reading a heartbeat undoes writing it

Every field reader takes exactly the bytes that the field writer produces, and nothing else: for
each field, *reading gives `x` and leaves `rest`* is equivalent to *the bytes are those of `x`,
followed by `rest`, and `x` fits its words*. The layout is a fixed sequence of fields, so the same
holds of a whole body (`takeBody_eq_ok_iff`) and of a datagram.

**Theorem (`decode_eq_ok_iff_encode_eq_ok`).** Under any limit, a datagram is decoded to a heartbeat
exactly if it is the datagram that the heartbeat is encoded to.

The length words have 64 bits, and so has the limit. A heartbeat that the limit admits is therefore
shorter than any length word can tell, which is why no bound on its texts has to be assumed.
-/

namespace PeerCluster.Heartbeat

open Reading

/-! ## Fields -/

theorem takeBytes_eq_ok_iff {short : BodyError} {n : Nat} {bs taken rest : List UInt8} :
    takeBytes short n bs = .ok (taken, rest) ↔ taken.length = n ∧ bs = taken ++ rest := by
  rw [takeBytes]
  split
  · rename_i hshort
    simp only [reduceCtorEq, false_iff, not_and]
    rintro rfl rfl
    rw [List.length_append] at hshort
    omega
  · rename_i hlong
    simp only [Except.ok.injEq, Prod.mk.injEq]
    constructor
    · intro h
      rcases h with ⟨rfl, rfl⟩
      exact ⟨by rw [List.length_take]; omega, (List.take_append_drop n bs).symm⟩
    · intro h
      rcases h with ⟨rfl, rfl⟩
      simp

theorem takeWord_eq_ok_iff {width n : Nat} {bs rest : List UInt8} :
    takeWord width bs = .ok (n, rest) ↔
      n < Nat.pow 256 width ∧ bs = BigEndian.bytes width n ++ rest := by
  simp only [takeWord, bind_eq_ok_iff, Prod.exists, takeBytes_eq_ok_iff, pure_eq_ok_iff,
    Prod.mk.injEq]
  constructor
  · intro h
    rcases h with ⟨word, _, ⟨hlen, rfl⟩, hvalue, rfl⟩
    obtain ⟨hn, rfl⟩ := (BigEndian.value_eq_iff hlen).1 hvalue
    exact ⟨hn, rfl⟩
  · intro h
    rcases h with ⟨hn, rfl⟩
    exact ⟨_, _, ⟨BigEndian.length_bytes width n, rfl⟩, BigEndian.value_bytes hn, rfl⟩

theorem takeCommand_eq_ok_iff {c : Command} {bs rest : List UInt8} :
    takeCommand bs = .ok (c, rest) ↔ bs = BigEndian.bytes 4 c.code ++ rest := by
  simp only [takeCommand, bind_eq_ok_iff, Prod.exists, takeWord_eq_ok_iff]
  constructor
  · intro hall
    rcases hall with ⟨code, after, ⟨-, rfl⟩, h⟩
    split at h
    · rename_i command hcode
      rw [pure_eq_ok_iff, Prod.mk.injEq] at h
      obtain ⟨rfl, rfl⟩ := h
      rw [Command.code_of_ofCode? hcode]
    · exact absurd h throw_ne_ok
  · intro heq
    subst heq
    refine ⟨c.code, rest, ⟨by cases c <;> decide, rfl⟩, ?_⟩
    rw [Command.ofCode?_code]
    rfl

theorem takeBlock_eq_ok_iff {content bs rest : List UInt8} :
    takeBlock bs = .ok (content, rest) ↔
      content.length < Nat.pow 256 8 ∧ bs = block content ++ rest := by
  simp only [takeBlock, bind_eq_ok_iff, Prod.exists, takeWord_eq_ok_iff, takeBytes_eq_ok_iff,
    block, List.append_assoc]
  constructor
  · intro h
    rcases h with ⟨length, after, ⟨hlength, rfl⟩, rfl, rfl⟩
    exact ⟨hlength, rfl⟩
  · intro h
    rcases h with ⟨hlength, rfl⟩
    exact ⟨_, _, ⟨hlength, rfl⟩, rfl, rfl⟩

theorem takeText_eq_ok_iff {text : String} {bs rest : List UInt8} :
    takeText bs = .ok (text, rest) ↔
      (Utf8.encode text).length < Nat.pow 256 8 ∧ bs = block (Utf8.encode text) ++ rest := by
  simp only [takeText, bind_eq_ok_iff, Prod.exists, takeWord_eq_ok_iff, takeBytes_eq_ok_iff,
    block, List.append_assoc]
  constructor
  · intro hall
    rcases hall with ⟨length, after, ⟨hlength, rfl⟩, content, rest', ⟨rfl, rfl⟩, h⟩
    split at h
    · rename_i text' htext
      rw [pure_eq_ok_iff, Prod.mk.injEq] at h
      obtain ⟨rfl, rfl⟩ := h
      rw [Utf8.decode_eq_ok_iff] at htext
      exact htext ▸ ⟨hlength, rfl⟩
    · exact absurd h throw_ne_ok
  · intro hall
    rcases hall with ⟨hlength, rfl⟩
    refine ⟨_, _, ⟨hlength, rfl⟩, _, _, ⟨rfl, rfl⟩, ?_⟩
    rw [Utf8.decode_eq_ok_iff.2 rfl]
    rfl

/-! ## The body -/

/-- The lengths of a heartbeat's texts fit their words. -/
structure Packet.Fits (p : Packet) : Prop where
  host : (Utf8.encode p.member.host).length < Nat.pow 256 8
  domain : p.member.domain.length < Nat.pow 256 8
  payload : p.member.payload.length < Nat.pow 256 8

theorem takeBody_body {p : Packet} (h : p.Fits) (rest : List UInt8) :
    takeBody (p.body ++ rest) = .ok (p, rest) := by
  obtain ⟨command, member⟩ := p
  simp only [takeBody, Packet.body, List.append_assoc, bind_eq_ok_iff, Prod.exists,
    takeCommand_eq_ok_iff, takeBytes_eq_ok_iff, takeText_eq_ok_iff, takeBlock_eq_ok_iff,
    takeWord_eq_ok_iff]
  refine ⟨_, _, rfl, _, _, ⟨member.id.length_bytes, rfl⟩, _, _, ⟨h.host, rfl⟩,
    _, _, ⟨member.port.toNat_lt, rfl⟩, _, _, ⟨h.domain, rfl⟩, _, _, ⟨h.payload, rfl⟩,
    _, _, ⟨member.sequence.toNat_lt, rfl⟩, _, _, ⟨member.aliveMs.toNat_lt, rfl⟩, ?_⟩
  simp [pure_eq_ok_iff]

theorem eq_body_of_takeBody {p : Packet} {bs rest : List UInt8}
    (h : takeBody bs = .ok (p, rest)) : p.Fits ∧ bs = p.body ++ rest := by
  simp only [takeBody, bind_eq_ok_iff, Prod.exists, takeCommand_eq_ok_iff, takeBytes_eq_ok_iff,
    takeText_eq_ok_iff, takeBlock_eq_ok_iff, takeWord_eq_ok_iff, pure_eq_ok_iff,
    Prod.mk.injEq] at h
  obtain ⟨command, _, rfl, id, _, ⟨hid, rfl⟩, host, _, ⟨hhost, rfl⟩, port, _, ⟨hport, rfl⟩,
    domain, _, ⟨hdomain, rfl⟩, payload, _, ⟨hpayload, rfl⟩, sequence, _, ⟨hsequence, rfl⟩,
    aliveMs, _, ⟨halive, rfl⟩, rfl, rfl⟩ := h
  refine ⟨⟨hhost, hdomain, hpayload⟩, ?_⟩
  have hport' : port.toUInt16.toNat = port := by simpa using Nat.mod_eq_of_lt hport
  have hsequence' : sequence.toUInt64.toNat = sequence := by
    simpa using Nat.mod_eq_of_lt hsequence
  have halive' : aliveMs.toUInt64.toNat = aliveMs := by simpa using Nat.mod_eq_of_lt halive
  simp only [Packet.body, MemberId.bytes_ofBytes hid, hport', hsequence', halive',
    List.append_assoc]

/-- A body is read exactly where it has been written. -/
theorem takeBody_eq_ok_iff {p : Packet} {bs rest : List UInt8} :
    takeBody bs = .ok (p, rest) ↔ p.Fits ∧ bs = p.body ++ rest := by
  constructor
  · exact eq_body_of_takeBody
  · intro h
    rcases h with ⟨hfits, rfl⟩
    exact takeBody_body hfits rest

/-! ## Datagrams -/

namespace Packet

theorem fits_of_length_bytes_lt {p : Packet} (h : p.bytes.length < UInt64.size) : p.Fits := by
  have hsize : UInt64.size = Nat.pow 256 8 := rfl
  simp only [bytes, body, block, magic, List.length_append, List.length_cons] at h
  exact ⟨by omega, by omega, by omega⟩

theorem encode_eq_ok_iff {p : Packet} {d : List UInt8} {maxSize : Nat} :
    p.encode maxSize = .ok d ↔ d = p.bytes ∧ d.length ≤ maxSize := by
  simp only [encode]
  split
  · rename_i hlarge
    simp only [reduceCtorEq, false_iff, not_and]
    intro heq
    subst heq
    omega
  · rename_i hsmall
    simp only [Except.ok.injEq]
    constructor
    · intro heq
      subst heq
      exact ⟨rfl, by omega⟩
    · intro h
      rcases h with ⟨rfl, -⟩
      rfl

/-- The checks on the header leave exactly the bytes that begin with it. -/
theorem eq_header_append_iff {d rest : List UInt8} :
    d = magic ++ version :: rest ↔ headerSize ≤ d.length ∧ d.take magic.length = magic ∧
      d[magic.length]?.getD 0 = version ∧ d.drop headerSize = rest := by
  constructor
  · intro heq
    subst heq
    exact ⟨by simp [headerSize, magic], rfl, rfl, rfl⟩
  · intro h
    rcases h with ⟨hlen, hmagic, hversion, hrest⟩
    match d, hlen with
    | a :: b :: c :: e :: v :: rest', _ =>
      simp only [magic, List.length_cons, List.length_nil, List.take_succ_cons, List.take_zero,
        List.cons.injEq] at hmagic
      obtain ⟨rfl, rfl, rfl, rfl, -⟩ := hmagic
      obtain rfl : v = version := hversion
      obtain rfl : rest' = rest := hrest
      rfl

theorem decode_eq_ok_iff {d : List UInt8} {p : Packet} {maxSize : Nat} :
    decode d maxSize = .ok p ↔ d.length ≤ maxSize ∧ p.Fits ∧ d = p.bytes := by
  have hbody : takeBody (d.drop headerSize) = .ok (p, []) ↔
      p.Fits ∧ d.drop headerSize = p.body := by
    rw [takeBody_eq_ok_iff, List.append_nil]
  rw [bytes, eq_header_append_iff]
  simp only [decode, check_eq_ok_iff]
  constructor
  · intro hall
    rcases hall with ⟨hsize, hlen, hmagic, hversion, h⟩
    have hread : takeBody (d.drop headerSize) = .ok (p, []) := by
      split at h
      · exact absurd h throw_ne_ok
      · rename_i hread
        rw [hread, pure_eq_ok_iff.1 h]
      · exact absurd h throw_ne_ok
    obtain ⟨hfits, hrest⟩ := hbody.1 hread
    exact ⟨Nat.le_of_not_lt hsize, hfits, Nat.le_of_not_lt hlen, Decidable.not_not.1 hmagic,
      Decidable.not_not.1 hversion, hrest⟩
  · intro hall
    rcases hall with ⟨hsize, hfits, hlen, hmagic, hversion, hrest⟩
    refine ⟨Nat.not_lt.2 hsize, Nat.not_lt.2 hlen, Decidable.not_not.2 hmagic,
      Decidable.not_not.2 hversion, ?_⟩
    rw [hbody.2 ⟨hfits, hrest⟩]
    rfl

/-- **Reading undoes writing, and writing undoes reading.** Under any limit, a datagram is decoded
to a heartbeat exactly if the heartbeat is encoded to it, and that datagram is the one written form
of the heartbeat, provided that the limit admits it. -/
theorem decode_eq_ok_iff_encode_eq_ok (d : List UInt8) (p : Packet) (maxSize : UInt64) :
    (decode d maxSize.toNat = .ok p ↔ p.encode maxSize.toNat = .ok d) ∧
      (p.encode maxSize.toNat = .ok d ↔ d = p.bytes ∧ d.length ≤ maxSize.toNat) := by
  refine ⟨?_, encode_eq_ok_iff⟩
  rw [decode_eq_ok_iff, encode_eq_ok_iff]
  constructor
  · intro h
    rcases h with ⟨hsize, -, hd⟩
    exact ⟨hd, hsize⟩
  · intro h
    rcases h with ⟨rfl, hsize⟩
    exact ⟨hsize, fits_of_length_bytes_lt (Nat.lt_of_le_of_lt hsize maxSize.toNat_lt), rfl⟩

end Packet

end PeerCluster.Heartbeat
