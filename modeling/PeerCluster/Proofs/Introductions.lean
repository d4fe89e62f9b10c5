import PeerCluster.Proofs.CutStreams
import PeerCluster.Proofs.HandshakeCodec

/-!
# A caller is known for who it is

A connection opens with a frame that says who is calling, and everything that follows is taken to come
from that member.

**Theorem (`introduction_survives`).** The record of a caller is read back from its text, whatever
characters its texts are made of, and a record of another type never is. So whoever reads the first frame
of a connection, in whatever pieces it arrives, finds the id, the host and the port of the member that
wrote it.
-/

namespace PeerCluster

open FrameStream (Sink)

/-- What reaches the other end when the frame of a caller may be sent. -/
theorem FrameStream.write_of_fits {k : Sink} {f : Frame} (hfits : f.Fits)
    (h : k.listening = true) :
    k.write f = (.ok (), { k with received := k.received ++ f.encode }) := by
  rw [write_eq f h, writeResult, if_pos hfits, if_pos hfits]

/-- The frame of a member is taken for one of that member. -/
theorem Frame.handshake_ofMember (m : Member) :
    (Frame.ofHandshake (.ofMember m)).handshake = .ok (.ofMember m) := by
  have htype : (Handshake.ofMember m).type = Handshake.typeName := rfl
  rw [handshake_ofHandshake, if_pos htype]

/-- **Theorem.** The record of a caller is read back from its text if it is of the type of handshakes, and
nothing is read otherwise. The frame of a member that may be sent is written whole, and whoever reads a
stream that begins with it, cut anywhere and followed by anything, finds the id, the host and the port of
that member. -/
theorem introduction_survives :
    (∀ h : Handshake, Handshake.ofBytes? (Utf8.encode h.text) =
      if h.type = "handshake" then some h else none) ∧
    ∀ m : Member, Frame.checkSize (Frame.ofHandshake (.ofMember m)).wireSize = .ok () →
      ∃ written : ByteArray,
        (∀ k : Sink, k.listening = true → k.write (.ofHandshake (.ofMember m)) =
          (.ok (), { k with received := k.received ++ written })) ∧
        ∀ (s : FrameStream) (more : List UInt8), s.contents = written.data.toList ++ more →
          ∃ f rest h, s.front = .frame f rest ∧ rest.contents = more ∧ f.handshake = .ok h ∧
            h.toMember = { id := m.id, host := m.host, port := m.port } := by
  refine ⟨Handshake.ofBytes?_text, fun m hcheck => ?_⟩
  have hfits : (Frame.ofHandshake (.ofMember m)).Fits := Frame.checkSize_eq_ok_iff.1 hcheck
  refine ⟨(Frame.ofHandshake (.ofMember m)).encode, fun k hk => FrameStream.write_of_fits hfits hk,
    fun s more hs => ?_⟩
  obtain ⟨rest, hfront, hrest⟩ := FrameStream.front_of_contents hfits hs
  exact ⟨_, rest, _, hfront, hrest, Frame.handshake_ofMember m, rfl⟩

/-- A host that would end its own string, if it could. -/
theorem introduction_survives_of_quotes :
    let m : Member :=
      { id := ⟨0xab⟩, host := "\",\"port\":1,\\\n\x01é😀", port := 4000, sequence := 7 }
    Frame.checkSize (Frame.ofHandshake (.ofMember m)).wireSize = .ok () ∧
      ∃ f rest h, (FrameStream.mk [(Frame.ofHandshake (.ofMember m)).encode]).front = .frame f rest ∧
        f.handshake = .ok h ∧ h.toMember = { m with sequence := 0 } := by
  intro m
  have hquote : ∀ s, Json.quote s =
      s.toList.foldl (fun out c => out ++ Json.escapeChar c) "\"" ++ "\"" := by
    intro s
    rw [Json.quote, String.foldl_eq_foldl_toList]
  have hcheck : Frame.checkSize (Frame.ofHandshake (.ofMember m)).wireSize = .ok () := by
    simp only [Frame.ofHandshake, Frame.wireSize, Handshake.ofMember, Handshake.text, m,
      Handshake.toJson, Handshake.of, Json.record, Json.render, Json.renderOnto, Json.renderFields,
      List.map, hquote]
    decide +kernel
  obtain ⟨written, hwrite, hread⟩ := introduction_survives.2 m hcheck
  have hwritten : written = (Frame.ofHandshake (.ofMember m)).encode := by
    have h := (hwrite {} rfl).symm.trans
      (FrameStream.write_of_fits (Frame.checkSize_eq_ok_iff.1 hcheck) rfl)
    have hreceived := congrArg (fun r => r.2.received) h
    simpa using hreceived
  obtain ⟨f, rest, h, hfront, -, hhandshake, hmember⟩ :=
    hread ⟨[written]⟩ [] (by simp [FrameStream.contents, FrameStream.contentsOf])
  exact ⟨hcheck, f, rest, h, hwritten ▸ hfront, hhandshake, hmember⟩

end PeerCluster
