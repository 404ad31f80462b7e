import RaftMonitor.LogCabinWire
import RaftMonitor.Monitor

namespace RaftMonitor.LogCabin
open OngaroRAFT

/-- The decoder's offsets 12, 14 and 17 are the offsets 0, 2 and 5 of the message behind the
frame header. Only a frame with a seventh message byte is decoded at all. -/
theorem classify_outbound (id : UInt64) (b0 b1 b2 b3 b4 b5 : UInt8) (body : List UInt8)
    (hbody : body ≠ []) :
    classify .logcabin (outbound id (b0 :: b1 :: b2 :: b3 :: b4 :: b5 :: body)) =
      if b0 = 1 then requestType b2.toNat b5.toNat else .reply := by
  have hpos : 0 < body.length := List.length_pos_iff.mpr hbody
  have hlen : (outbound id (b0 :: b1 :: b2 :: b3 :: b4 :: b5 :: body)).length > 18 := by
    rw [outbound_length]
    simp only [List.length_cons]
    omega
  simp only [classify, hlen, ↓reduceDIte]
  exact packetType_of_getElem? _ (outbound_getElem? id _ 0) (outbound_getElem? id _ 2)
    (outbound_getElem? id _ 5)

theorem classify_short {bytes : List UInt8} (h : bytes.length ≤ 18) :
    classify .logcabin bytes = .invalid := by
  simp [classify, Nat.not_lt.mpr h]

theorem requestType_rpc (rpc : Rpc) :
    requestType (UInt8.ofNat rpc.service.toNat).toNat (UInt8.ofNat rpc.opCode.toNat).toNat =
      rpc.packetType := by
  rcases rpc with op | op <;> cases op <;> rfl

theorem Rpc.packetType_ne_invalid (rpc : Rpc) : rpc.packetType ≠ .invalid := by
  rcases rpc with op | op <;> cases op <;> simp [Rpc.packetType]

theorem classify_request_frame (r : Request) (h : r.body ≠ []) :
    classify .logcabin r.frame = r.rpc.packetType := by
  rw [Request.frame, Request.message_eq]
  exact (classify_outbound _ _ _ _ _ _ _ _ h).trans (requestType_rpc r.rpc)

theorem classify_request_frame_nil (r : Request) (h : r.body = []) :
    classify .logcabin r.frame = .invalid :=
  classify_short (by rw [Request.frame_length, h]; simp)

/-- A request that fills a segment is decoded to its own procedure exactly when it carries a
body: the shortest frame has 18 bytes, and the guard asks for more than 18. -/
theorem request_decoded_iff (p : Packet) (r : Request) :
    classify .logcabin { p with rawLayer := some r.frame }.bytes = r.rpc.packetType ↔
      r.body ≠ [] := by
  change classify .logcabin r.frame = r.rpc.packetType ↔ r.body ≠ []
  constructor
  · intro h hnil
    rw [classify_request_frame_nil r hnil] at h
    exact r.rpc.packetType_ne_invalid h.symm
  · exact classify_request_frame r

/-- An `OpenSession` request has an empty protocol buffer. -/
theorem openSession_not_decoded :
    classify .logcabin (Request.frame ⟨1, .client .openSession, 1, []⟩) ≠ .openSession := by
  decide

theorem exists_six_bytes {message : List UInt8} (h : 6 < message.length) :
    ∃ b0 b1 b2 b3 b4 b5 body, message = b0 :: b1 :: b2 :: b3 :: b4 :: b5 :: body ∧ body ≠ [] := by
  match message, h with
  | b0 :: b1 :: b2 :: b3 :: b4 :: b5 :: b6 :: body, _ =>
    exact ⟨b0, b1, b2, b3, b4, b5, b6 :: body, rfl, List.cons_ne_nil _ _⟩

/-- The decoder takes a long frame for a reply exactly when its first message byte, the
status of a response, is not 1. -/
theorem classify_eq_reply_iff {id : UInt64} {message : List UInt8} (h : 6 < message.length) :
    classify .logcabin (outbound id message) = .reply ↔ message.head? ≠ some 1 := by
  obtain ⟨b0, b1, b2, b3, b4, b5, body, rfl, hbody⟩ := exists_six_bytes h
  rw [classify_outbound _ _ _ _ _ _ _ _ hbody]
  split_ifs with hb
  · simpa [hb] using requestType_ne_reply _ _
  · simpa using hb

/-- Handling the packet counts no election and keeps the leader. -/
def Unaffected (m : Monitor) (p : Packet) : Prop :=
  (m.callback p).numElections = m.numElections ∧ (m.callback p).currentLeader = m.currentLeader

theorem unaffected_of_reply {m : Monitor} {p : Packet}
    (h : classify m.implementation p.bytes = .reply) : Unaffected m p := by
  unfold Unaffected
  rw [Monitor.callback_numElections, Monitor.callback_currentLeader, h]
  simp

theorem classify_eq_packetType {bytes : List UInt8} (h : 18 < bytes.length) :
    classify .logcabin bytes = packetType bytes (by omega) := by
  simp [classify, h]

/-- A response that is long enough to be decoded is taken for a reply, and leaves elections
and leader alone, exactly when it is not a service-specific error: the status byte of these
is 1, which the decoder reads as the version of a request. -/
theorem response_is_reply_iff (m : Monitor) (hm : m.implementation = .logcabin) (p : Packet)
    (r : Response) (hlen : 18 < r.frame.length) :
    (packetType r.frame (by omega) = .reply ∧
        Unaffected m { p with rawLayer := some r.frame }) ↔
      ∀ e, r.reply ≠ .serviceSpecificError e := by
  have hmsg : 6 < r.reply.message.length := by
    rw [Response.frame, outbound_length] at hlen
    omega
  have hiff : packetType r.frame (by omega) = .reply ↔ r.reply.message.head? ≠ some 1 := by
    rw [← classify_eq_packetType hlen]
    exact classify_eq_reply_iff hmsg
  constructor
  · rintro ⟨h, -⟩ e he
    rw [hiff, he] at h
    exact h rfl
  · intro h
    have hr : packetType r.frame (by omega) = .reply := by
      rw [hiff]
      cases hk : r.reply with
      | ok body => simp [Reply.message]
      | serviceSpecificError e => exact absurd hk (h e)
      -- a rejection is one byte long, too short to be decoded
      | rejected status => simp [hk, Reply.message] at hmsg
    refine ⟨hr, unaffected_of_reply ?_⟩
    rw [hm]
    exact (classify_eq_packetType hlen).trans hr

theorem ok_response_is_reply :
    18 < (Response.frame ⟨7, .ok [8, 1, 16, 1, 24, 1]⟩).length ∧
      packetType (Response.frame ⟨7, .ok [8, 1, 16, 1, 24, 1]⟩) (by decide) = .reply ∧
      Unaffected (Monitor.new .logcabin) ⟨⟨"192.168.2.1".toList, by decide⟩, "192.168.2.2".toList,
        61023, 40000, some (Response.frame ⟨7, .ok [8, 1, 16, 1, 24, 1]⟩)⟩ :=
  ⟨by decide, (response_is_reply_iff (Monitor.new .logcabin) rfl
    ⟨⟨"192.168.2.1".toList, by decide⟩, "192.168.2.2".toList, 61023, 40000, none⟩
    ⟨7, .ok [8, 1, 16, 1, 24, 1]⟩ (by decide)).mpr (by simp)⟩

/-- A follower's answer with the address of the leader as its hint. -/
theorem notLeader_response_not_reply :
    ¬∀ (r : Response) (h : 18 < r.frame.length), packetType r.frame (by omega) = .reply := by
  intro hall
  have h := hall ⟨7, .serviceSpecificError
    ⟨.notLeader, some ("192.168.2.2:61023".toList.map fun c => UInt8.ofNat c.toNat)⟩⟩ (by decide)
  revert h
  decide

end RaftMonitor.LogCabin
