import PeerCluster.Proofs.HeartbeatCodec

/-!
# Heartbeats that are cut or padded

A heartbeat says by itself where it ends: each field has a fixed width or stands behind its length. So a
reader that is given less than what was written misses bytes, whichever field the cut falls into, and
one that is given more has bytes left over.

**Readers** (`Takes`). A reader takes what was written and leaves the rest, and of anything less it says
that bytes are missing. One reader behind another takes what the one and then the other takes
(`Takes.behind`): a cut falls either into the first part or into the second. A body is read by eight
readers in a row (`takes_body`).

**Theorem (`only_the_whole_is_read`).** A datagram that is cut in its header is too short, one that is
cut behind it misses bytes, and one that is padded has bytes too many. Of all datagrams that begin as a
heartbeat does, or as which it begins, only the heartbeat itself is read, and as itself.
-/

namespace PeerCluster.Heartbeat

variable {α β : Type}

/-! ## Readers that miss what is cut off -/

/-- The bytes end too soon: inside a word, a list of bytes or a text. -/
def BodyError.IsShort (e : BodyError) : Prop :=
  e = .shortBytes ∨ e = .shortText

/-- A reader that takes what was written, and that misses whatever is cut off. -/
structure Takes (read : List UInt8 → Except BodyError (α × List UInt8)) (written : List UInt8)
    (a : α) : Prop where
  whole : ∀ rest, read (written ++ rest) = .ok (a, rest)
  cut : ∀ cut lost, written = cut ++ lost → lost ≠ [] → ∃ e, e.IsShort ∧ read cut = .error e

variable {read : List UInt8 → Except BodyError (α × List UInt8)} {written written' : List UInt8}
  {a : α} {b : β}

/-- A reader that takes nothing misses nothing. -/
theorem takes_nil (h : ∀ rest, read rest = .ok (a, rest)) : Takes read [] a where
  whole := h
  cut _ _ hcut hlost := absurd (List.append_eq_nil_iff.1 hcut.symm).2 hlost

/-- One reader takes what was written first, and another one what was written behind it. -/
theorem Takes.behind {next : α × List UInt8 → Except BodyError (β × List UInt8)}
    (h : Takes read written a) (h' : Takes (fun rest => next (a, rest)) written' b) :
    Takes (fun bs => read bs >>= next) (written ++ written') b where
  whole rest := by
    rw [List.append_assoc, h.whole]
    exact h'.whole rest
  cut cut lost hcut hlost := by
    have hsecond (front : List UInt8) (heq : cut = written ++ front)
        (hfront : written' = front ++ lost) :
        ∃ e, e.IsShort ∧ (read cut >>= next) = .error e := by
      obtain ⟨e, hshort, he⟩ := h'.cut front lost hfront hlost
      exact ⟨e, hshort, by rw [heq, h.whole]; exact he⟩
    rcases List.append_eq_append_iff.1 hcut with ⟨front, heq, hfront⟩ | ⟨missing, heq, hmissing⟩
    · exact hsecond front heq hfront
    · by_cases hnone : missing = []
      · subst hnone
        rw [List.append_nil] at heq
        exact hsecond [] (by rw [heq, List.append_nil]) hmissing.symm
      · obtain ⟨e, hshort, he⟩ := h.cut cut missing heq hnone
        exact ⟨e, hshort, by rw [he]; rfl⟩

/-- What a reader takes may be turned into something else. -/
theorem Takes.giving {next : α × List UInt8 → Except BodyError (β × List UInt8)}
    (h : Takes read written a) (hnext : ∀ rest, next (a, rest) = .ok (b, rest)) :
    Takes (fun bs => read bs >>= next) written b := by
  have hboth := h.behind (takes_nil hnext)
  rwa [List.append_nil] at hboth

/-! ## Fields -/

theorem takes_bytes {short : BodyError} (hshort : short.IsShort) {n : Nat} (h : written.length = n) :
    Takes (takeBytes short n) written written where
  whole rest := takeBytes_eq_ok_iff.2 ⟨h, rfl⟩
  cut cut lost hcut hlost := by
    have hlong : 0 < lost.length := List.length_pos_iff.2 hlost
    have hless : cut.length < n := by
      rw [← h, hcut, List.length_append]
      omega
    exact ⟨short, hshort, by rw [takeBytes, if_pos hless]⟩

theorem takes_word {width n : Nat} (h : n < Nat.pow 256 width) :
    Takes (takeWord width) (BigEndian.bytes width n) n := by
  refine (takes_bytes (.inl rfl) (BigEndian.length_bytes width n)).giving fun rest => ?_
  dsimp only
  rw [BigEndian.value_bytes h]
  rfl

theorem takes_command (c : Command) : Takes takeCommand (BigEndian.bytes 4 c.code) c := by
  have hword : Takes (takeWord 4) (BigEndian.bytes 4 c.code) c.code :=
    takes_word (by cases c <;> decide)
  refine hword.giving fun rest => ?_
  dsimp only
  rw [Command.ofCode?_code]
  rfl

theorem takes_block {content : List UInt8} (h : content.length < Nat.pow 256 8) :
    Takes takeBlock (block content) content :=
  (takes_word h).behind (takes_bytes (.inl rfl) rfl)

theorem takes_text {text : String} (h : (Utf8.encode text).length < Nat.pow 256 8) :
    Takes takeText (block (Utf8.encode text)) text := by
  refine (takes_word h).behind ?_
  refine (takes_bytes (.inr rfl) rfl).giving fun rest => ?_
  dsimp only
  rw [Utf8.decode_eq_ok_iff.2 rfl]
  rfl

/-! ## The body -/

/-- A body is read field by field. -/
theorem takes_body {p : Packet} (h : p.Fits) : Takes takeBody p.body p := by
  obtain ⟨command, member⟩ := p
  simp only [Packet.body, List.append_assoc]
  refine (takes_command command).behind ?_
  refine (takes_bytes (.inl rfl) member.id.length_bytes).behind ?_
  refine (takes_text h.host).behind ?_
  refine (takes_word member.port.toNat_lt).behind ?_
  refine (takes_block h.domain).behind ?_
  refine (takes_block h.payload).behind ?_
  refine (takes_word member.sequence.toNat_lt).behind ?_
  refine (takes_word member.aliveMs.toNat_lt).giving fun rest => ?_
  simp [pure, Except.pure]

/-! ## Datagrams -/

namespace Packet

variable {p : Packet} {d : List UInt8} {limit : Nat}

/-- A datagram that is shorter than a header is refused for that. -/
theorem decode_of_short (hlimit : d.length ≤ limit) (h : d.length < headerSize) :
    decode d limit = .error (.truncated d.length) := by
  rw [decode, if_neg (Nat.not_lt.2 hlimit), if_pos h]
  rfl

/-- Behind a header that is in order, the body decides. -/
theorem decode_header (rest : List UInt8) (hd : d = magic ++ version :: rest)
    (hlimit : d.length ≤ limit) :
    decode d limit = match takeBody rest with
      | .error e => .error (.body e)
      | .ok (p, []) => .ok p
      | .ok (_, _ :: _) => .error (.body .trailingBytes) := by
  obtain ⟨hlen, hmagic, hversion, hrest⟩ := eq_header_append_iff.1 hd
  rw [decode, if_neg (Nat.not_lt.2 hlimit), if_neg (Nat.not_lt.2 hlen),
    if_neg (not_not_intro hmagic)]
  dsimp only
  rw [if_neg (not_not_intro hversion), hrest]
  rcases takeBody rest with e | ⟨p, more⟩
  · rfl
  · cases more <;> rfl

/-- What is cut off behind the header is missing in the body. -/
theorem decode_of_cut {cut lost : List UInt8} (h : p.Fits) (hd : cut ++ lost = p.bytes)
    (hlost : lost ≠ []) (hlimit : cut.length ≤ limit) (hlen : headerSize ≤ cut.length) :
    ∃ e : BodyError, e.IsShort ∧ decode cut limit = .error (.body e) := by
  have hheader : (magic ++ [version]) ++ p.body = p.bytes := List.append_assoc ..
  obtain ⟨front, rfl⟩ : (magic ++ [version]) <+: cut :=
    List.prefix_of_prefix_length_le ⟨p.body, hheader⟩ ⟨lost, hd⟩ hlen
  rw [← hheader, List.append_assoc] at hd
  obtain ⟨e, hshort, he⟩ := (takes_body h).cut front lost (List.append_cancel_left hd).symm hlost
  refine ⟨e, hshort, ?_⟩
  rw [decode_header front (List.append_assoc ..) hlimit, he]

/-- What follows the body is left over. -/
theorem decode_of_padded {more : List UInt8} (h : p.Fits) (hmore : more ≠ [])
    (hlimit : (p.bytes ++ more).length ≤ limit) :
    decode (p.bytes ++ more) limit = .error (.body .trailingBytes) := by
  rw [decode_header (p.body ++ more) (List.append_assoc ..) hlimit, takeBody_body h]
  cases more with
  | nil => exact absurd rfl hmore
  | cons b more => rfl

/-- **A heartbeat is read as a whole or not at all.** A datagram that is cut in its header is too short,
one that is cut behind it misses bytes, and one that is padded has bytes too many. Of all datagrams that
begin as a heartbeat does, or as which it begins, only the heartbeat itself is read, and as itself. -/
theorem only_the_whole_is_read {full : UInt64} (h : p.encode full.toNat = .ok d) (limit : Nat) :
    (∀ cut, cut <+: d → cut ≠ d → cut.length ≤ limit →
      (cut.length < headerSize → decode cut limit = .error (.truncated cut.length)) ∧
      (headerSize ≤ cut.length → ∃ e : BodyError, e.IsShort ∧ decode cut limit = .error (.body e))) ∧
    (∀ more, more ≠ [] → (d ++ more).length ≤ limit →
      decode (d ++ more) limit = .error (.body .trailingBytes)) ∧
    ∀ bs q, bs <+: d ∨ d <+: bs → decode bs limit = .ok q → bs = d ∧ q = p := by
  obtain ⟨rfl, hfull⟩ := encode_eq_ok_iff.1 h
  have hfits : p.Fits := fits_of_length_bytes_lt (Nat.lt_of_le_of_lt hfull full.toNat_lt)
  have hcut : ∀ cut, cut <+: p.bytes → cut ≠ p.bytes → cut.length ≤ limit →
      headerSize ≤ cut.length → ∃ e : BodyError, e.IsShort ∧ decode cut limit = .error (.body e) := by
    intro cut hcut hne hlimit hlen
    obtain ⟨lost, hlost⟩ := hcut
    refine decode_of_cut hfits hlost (fun hnil => hne ?_) hlimit hlen
    rw [← hlost, hnil, List.append_nil]
  refine ⟨fun cut hprefix hne hlimit => ⟨decode_of_short hlimit, hcut cut hprefix hne hlimit⟩,
    fun more hmore hlimit => decode_of_padded hfits hmore hlimit, ?_⟩
  intro bs q hbegins hread
  obtain ⟨hlimit, -, -⟩ := decode_eq_ok_iff.1 hread
  have hwhole : bs = p.bytes := by
    refine Decidable.byContradiction fun hne => ?_
    rcases hbegins with hprefix | ⟨more, rfl⟩
    · by_cases hlen : bs.length < headerSize
      · rw [decode_of_short hlimit hlen] at hread
        cases hread
      · obtain ⟨e, -, he⟩ := hcut bs hprefix hne hlimit (Nat.le_of_not_lt hlen)
        rw [he] at hread
        cases hread
    · have hmore : more ≠ [] := fun hnil => hne (by rw [hnil, List.append_nil])
      rw [decode_of_padded hfits hmore hlimit] at hread
      cases hread
  rw [hwhole] at hread hlimit
  have hself := decode_eq_ok_iff.2 ⟨hlimit, hfits, rfl⟩
  exact ⟨hwhole, Except.ok.inj (hread.symm.trans hself)⟩

/-- A heartbeat is cut inside the one letter of its host, and padded by one byte. -/
theorem only_the_whole_is_read_of_short_host :
    let p : Packet := ⟨.alive, { id := ⟨5⟩, host := "é", port := 4000 }⟩
    p.encode 8192 = .ok p.bytes ∧
      (∃ e : BodyError, e.IsShort ∧ decode (p.bytes.take 34) 8192 = .error (.body e)) ∧
      decode (p.bytes ++ [0]) 8192 = .error (.body .trailingBytes) ∧
      ∀ q, decode (p.bytes.take 34) 8192 ≠ .ok q := by
  intro p
  have hlen : p.bytes.length = 69 := by decide +kernel
  have hfull : p.encode (8192 : UInt64).toNat = .ok p.bytes :=
    encode_eq_ok_iff.2 ⟨rfl, by rw [hlen]; decide⟩
  obtain ⟨hcut, hpadded, honly⟩ := only_the_whole_is_read hfull 8192
  have hshorter : (p.bytes.take 34).length = 34 := by rw [List.length_take, hlen]; rfl
  have hne : p.bytes.take 34 ≠ p.bytes := by
    intro heq
    rw [heq, hlen] at hshorter
    cases hshorter
  refine ⟨hfull, (hcut _ (List.take_prefix ..) hne (by omega)).2 (by rw [hshorter]; decide),
    hpadded [0] (by decide) (by rw [List.length_append, hlen]; decide), fun q hq => ?_⟩
  exact hne (honly _ q (.inl (List.take_prefix ..)) hq).1

end Packet

end PeerCluster.Heartbeat
