import PeerCluster.Frame
import PeerCluster.Proofs.JsonRoundTrip

/-!
# A handshake says who is calling

The text of a handshake is read back as the handshake, whatever its host is called
(`ofBytes?_text`). So the member that the other end of a connection takes for the caller is the
member that the caller says it is (`handshake_ofHandshake`).
-/

namespace PeerCluster

namespace Handshake

theorem given?_toJson (h : Handshake) :
    Json.given? ["type", "version", "memberId", "host", "port"] h.toJson =
      some [("type", .text h.type), ("version", .natural h.version.toNat),
        ("memberId", .text h.memberId.render), ("host", .text h.host),
        ("port", .natural h.port.toNat)] := by
  rw [toJson]
  -- The digits of the id must not be computed here.
  generalize h.memberId.render = id
  rfl

theorem ofJson?_toJson (h : Handshake) : ofJson? h.toJson = some h := by
  have hversion : Json.word32? (.natural h.version.toNat) = some h.version := by
    have hlt : h.version.toNat < UInt32.size := h.version.toNat_lt
    rw [Json.word32?, Json.below?, if_pos hlt]
    simp
  have hport : Json.word16? (.natural h.port.toNat) = some h.port := by
    have hlt : h.port.toNat < UInt16.size := h.port.toNat_lt
    rw [Json.word16?, Json.below?, if_pos hlt]
    simp
  have hid : Json.named? MemberId.ofText? (.text h.memberId.render) = some h.memberId := by
    simp only [Json.named?, Json.text?, Option.bind_eq_bind, Option.bind_some, MemberId.ofText?,
      MemberId.ofText_render, Except.toOption]
  rw [ofJson?, given?_toJson]
  simp [Json.Given.required, List.lookup_cons, Json.text?, hid, hversion, hport]

/-- The text of a record is read back, and is a handshake if the record is of that type. -/
theorem ofBytes?_text (h : Handshake) :
    ofBytes? (Utf8.encode h.text) = if h.type = typeName then some h else none := by
  rw [ofBytes?, text, Json.parse?_render, Option.bind_eq_bind, Option.bind_some, ofJson?_toJson,
    Option.bind_eq_bind, Option.bind_some]
  by_cases htype : h.type = typeName
  · have hguard : (guard (h.type = typeName) : Option Unit) = some () := if_pos htype
    rw [if_pos htype, hguard]
    rfl
  · have hguard : (guard (h.type = typeName) : Option Unit) = none := if_neg htype
    rw [if_neg htype, hguard]
    rfl

end Handshake

/-- The frame that opens a connection says who is calling. -/
theorem Frame.handshake_ofHandshake (h : Handshake) :
    (Frame.ofHandshake h).handshake =
      if h.type = Handshake.typeName then .ok h else .error .invalidHandshake := by
  have hkind : (ofHandshake h).kind = .handshake := rfl
  have hbody : (ofHandshake h).body.data.toList = Utf8.encode h.text :=
    (Utf8.toList_eq _).symm
  rw [handshake, if_pos hkind, hbody, Handshake.ofBytes?_text]
  by_cases htype : h.type = Handshake.typeName
  · rw [if_pos htype, if_pos htype]
  · rw [if_neg htype, if_neg htype]

end PeerCluster
