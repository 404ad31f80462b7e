import RaftMonitor.FrameDecoding

namespace RaftMonitor.LogCabin
open OngaroRAFT WireBytes

/-- Long enough to be decoded, and with the version of a request at offset 12. -/
def LooksLikeRequest (s : List UInt8) : Prop := 18 < s.length ∧ s[12]? = some 1

def LooksLikeRequestVote (s : List UInt8) : Prop :=
  LooksLikeRequest s ∧ s[14]? = some 2 ∧ s[17]? = some 1

def LooksLikeTree (s : List UInt8) : Prop :=
  LooksLikeRequest s ∧ s[14]? = some 1 ∧ (s[17]? = some 4 ∨ s[17]? = some 5)

instance (s : List UInt8) : Decidable (LooksLikeRequest s) :=
  inferInstanceAs (Decidable (_ ∧ _))

instance (s : List UInt8) : Decidable (LooksLikeRequestVote s) :=
  inferInstanceAs (Decidable (_ ∧ _))

theorem classify_of_length {s : List UInt8} (h : 18 < s.length) :
    ∃ version service opCode : UInt8, s[12]? = some version ∧ s[14]? = some service ∧
      s[17]? = some opCode ∧ classify .logcabin s =
        if version = 1 then requestType service.toNat opCode.toNat else .reply := by
  have h12 : s[12]? = some s[12] := List.getElem?_eq_getElem _
  have h14 : s[14]? = some s[14] := List.getElem?_eq_getElem _
  have h17 : s[17]? = some s[17] := List.getElem?_eq_getElem _
  refine ⟨_, _, _, h12, h14, h17, ?_⟩
  rw [classify_eq_packetType h]
  exact packetType_of_getElem? _ h12 h14 h17

theorem classify_eq_requestVote_iff {s : List UInt8} :
    classify .logcabin s = .requestVote ↔ LooksLikeRequestVote s := by
  unfold LooksLikeRequestVote LooksLikeRequest
  by_cases h : 18 < s.length
  · obtain ⟨v, sv, op, h12, h14, h17, hc⟩ := classify_of_length h
    rw [hc, h12, h14, h17]
    split_ifs with hv
    · rw [requestType_eq_requestVote_iff]
      simp [h, hv, ← UInt8.toNat_inj]
    · simp [hv]
  · rw [classify_short (by omega)]
    simp [h]

theorem classify_eq_tree_iff {s : List UInt8} :
    (classify .logcabin s = .readOnlyTree ∨ classify .logcabin s = .readWriteTree) ↔
      LooksLikeTree s := by
  unfold LooksLikeTree LooksLikeRequest
  by_cases h : 18 < s.length
  · obtain ⟨v, sv, op, h12, h14, h17, hc⟩ := classify_of_length h
    rw [hc, h12, h14, h17]
    split_ifs with hv
    · rw [requestType_eq_tree_iff]
      simp [h, hv, ← UInt8.toNat_inj]
    · simp [hv]
  · rw [classify_short (by omega)]
    simp [h]

/-- A complete frame of one direction of a connection, within the limit of the sender. -/
inductive Frame
  | request (r : Request) (h : r.message.length ≤ maxMessageLength)
  | okResponse (messageId : UInt64) (body : List UInt8)
    (h : (Reply.message (.ok body)).length ≤ maxMessageLength)

namespace Frame

def bytes : Frame → List UInt8
  | request r _ => r.frame
  | okResponse messageId body _ => Response.frame ⟨messageId, .ok body⟩

def IsRequestVote : Frame → Prop
  | request r _ => r.rpc = .raft .requestVote
  | okResponse .. => False

def IsTree : Frame → Prop
  | request r _ => r.rpc = .client .readOnlyTree ∨ r.rpc = .client .readWriteTree
  | okResponse .. => False

instance : (f : Frame) → Decidable f.IsRequestVote
  | request r _ => inferInstanceAs (Decidable (r.rpc = .raft .requestVote))
  | okResponse .. => inferInstanceAs (Decidable False)

end Frame

def IsCut (segments : List (List UInt8)) (bytes : List UInt8) : Prop :=
  (∀ s ∈ segments, s ≠ []) ∧ segments.flatten = bytes

/-- The packets of one direction of a connection: addresses and ports are those of `p`. -/
def segmentPackets (p : Packet) (segments : List (List UInt8)) : List Packet :=
  segments.map fun s => { p with rawLayer := some s }

/-- Every vote request begins a segment that is long enough to be decoded, and no segment that
begins inside a frame looks like a vote or tree request. What else the segments hold, and how
many frames share one of them, does not matter. -/
structure WellCut (fs : List Frame) (segments : List (List UInt8)) : Prop where
  votes_begin : ∀ o f, blockAt Frame.bytes fs o = some f → f.IsRequestVote →
    ∃ s, blockAt id segments o = some s ∧ 18 < s.length
  quiet_inside : ∀ o s, blockAt Frame.bytes fs o = none → blockAt id segments o = some s →
    ¬LooksLikeRequestVote s ∧ ¬LooksLikeTree s

/-- The vote requests that do not begin a segment that is long enough. -/
def missedVotes (fs : List Frame) (segments : List (List UInt8)) : ℕ :=
  (List.range segments.flatten.length).countP fun o =>
    (blockAt Frame.bytes fs o).any (fun f => f.IsRequestVote) &&
      !(blockAt id segments o).any fun s => 18 < s.length

/-- The segments that begin inside a frame and look like a vote request. -/
def falseVotes (fs : List Frame) (segments : List (List UInt8)) : ℕ :=
  (List.range segments.flatten.length).countP fun o =>
    (blockAt id segments o).any (fun s => LooksLikeRequestVote s) &&
      !(blockAt Frame.bytes fs o).isSome

theorem Frame.bytes_ne_nil (f : Frame) : f.bytes ≠ [] := by
  rw [← List.length_pos_iff]
  cases f with
  | request r h => simp [Frame.bytes, Request.frame, outbound_length]
  | okResponse id body h => simp [Frame.bytes, Response.frame, outbound_length]

/-- A long segment that begins where a frame begins is decoded like the frame, whichever of the
two is longer: a request to its procedure, a response to a reply. -/
theorem classify_begin (f : Frame) {s stream : List UInt8} (hs : s <+: stream)
    (hf : f.bytes <+: stream) (hlen : 18 < s.length) :
    match f with
    | .request r _ => classify .logcabin s = r.rpc.packetType
    | .okResponse .. => classify .logcabin s = .reply := by
  have hbyte : ∀ k b, k < 18 → f.bytes[k]? = some b → s[k]? = some b := by
    intro k b hk hb
    obtain ⟨rest, rfl⟩ := hs
    obtain ⟨rest', hrest⟩ := hf
    have hlt := (List.getElem?_eq_some_iff.mp hb).1
    rw [← List.getElem?_append_left hlt, hrest, List.getElem?_append_left (by omega)] at hb
    exact hb
  rw [classify_eq_packetType hlen]
  cases f with
  | request r hr =>
    have hmessage := Request.message_eq r
    refine (packetType_of_getElem? _ (hbyte 12 1 (by omega) ?_)
      (hbyte 14 (UInt8.ofNat r.rpc.service.toNat) (by omega) ?_)
      (hbyte 17 (UInt8.ofNat r.rpc.opCode.toNat) (by omega) ?_)).trans (requestType_rpc r.rpc)
    · rw [Frame.bytes, Request.frame, hmessage]
      exact outbound_getElem? _ _ 0
    · rw [Frame.bytes, Request.frame, hmessage]
      exact outbound_getElem? _ _ 2
    · rw [Frame.bytes, Request.frame, hmessage]
      exact outbound_getElem? _ _ 5
  | okResponse messageId body hr =>
    have h12 : s[12]? = some 0 := hbyte 12 0 (by omega) (outbound_getElem? _ _ 0)
    exact packetType_of_getElem? _ h12 (List.getElem?_eq_getElem (by omega))
      (List.getElem?_eq_getElem (by omega))

theorem looksLikeRequestVote_begin {f : Frame} {s stream : List UInt8} (hs : s <+: stream)
    (hf : f.bytes <+: stream) : LooksLikeRequestVote s ↔ f.IsRequestVote ∧ 18 < s.length := by
  by_cases hlen : 18 < s.length
  · have hc := classify_begin f hs hf hlen
    rw [← classify_eq_requestVote_iff]
    cases f with
    | request r hr =>
      simp only at hc
      rw [hc]
      rcases hrpc : r.rpc with op | op <;> cases op <;>
        simp [Rpc.packetType, Frame.IsRequestVote, hrpc, hlen]
    | okResponse id body hr =>
      simp only at hc
      simp [hc, Frame.IsRequestVote]
  · -- a short segment is not decoded at all
    simp [LooksLikeRequestVote, LooksLikeRequest, hlen]

theorem isTree_of_begin {f : Frame} {s stream : List UInt8} (hs : s <+: stream)
    (hf : f.bytes <+: stream) (ht : LooksLikeTree s) : f.IsTree := by
  have hc := classify_begin f hs hf ht.1.1
  rw [← classify_eq_tree_iff] at ht
  cases f with
  | request r hr =>
    simp only at hc
    rw [hc] at ht
    rcases hrpc : r.rpc with op | op <;> cases op <;>
      simp_all [Rpc.packetType, Frame.IsTree]
  | okResponse id body hr =>
    simp only at hc
    simp [hc] at ht

theorem callbacks_segments_numElections {m : Monitor} (hm : m.implementation = .logcabin)
    (p : Packet) (segments : List (List UInt8)) :
    (m.callbacks (segmentPackets p segments)).numElections =
      m.numElections + Int32.ofNat (segments.countP fun s => LooksLikeRequestVote s) := by
  rw [Monitor.callbacks_numElections, segmentPackets, List.countP_map, hm]
  congr 3
  funext s
  simp only [Function.comp, Packet.bytes, Option.getD_some, classify_eq_requestVote_iff]

theorem callbacks_segments_currentLeader {m : Monitor} (hm : m.implementation = .logcabin)
    (p : Packet) (segments : List (List UInt8))
    (h : (m.callbacks (segmentPackets p segments)).currentLeader ≠ m.currentLeader) :
    ∃ s ∈ segments, LooksLikeTree s := by
  by_contra! hno
  apply h
  apply Monitor.callbacks_currentLeader
  intro q hq
  obtain ⟨s, hs, rfl⟩ := List.mem_map.mp hq
  have hc := mt classify_eq_tree_iff.mp (hno s hs)
  rw [hm]
  exact not_or.mp hc

variable {fs : List Frame} {segments : List (List UInt8)}

theorem IsCut.isPrefix (hcut : IsCut segments (fs.flatMap Frame.bytes)) {o : ℕ} {f : Frame}
    {s : List UInt8} (hf : blockAt Frame.bytes fs o = some f)
    (hs : blockAt id segments o = some s) :
    s <+: (fs.flatMap Frame.bytes).drop o ∧ f.bytes <+: (fs.flatMap Frame.bytes).drop o := by
  have hpre := isPrefix_of_blockAt hs
  rw [List.flatMap_id, hcut.2] at hpre
  exact ⟨hpre, isPrefix_of_blockAt hf⟩

/-- At an offset where a frame begins, a segment that looks like a vote request begins there if
and only if the frame is one and the segment is long enough. -/
theorem IsCut.vote_begins_iff (hcut : IsCut segments (fs.flatMap Frame.bytes)) (o : ℕ) :
    ((blockAt id segments o).any (fun s => LooksLikeRequestVote s) &&
        (blockAt Frame.bytes fs o).isSome) =
      ((blockAt Frame.bytes fs o).any (fun f => f.IsRequestVote) &&
        (blockAt id segments o).any fun s => 18 < s.length) := by
  cases hf : blockAt Frame.bytes fs o with
  | none => simp
  | some f =>
    cases hs : blockAt id segments o with
    | none => simp
    | some s =>
      obtain ⟨hpre, hpre'⟩ := hcut.isPrefix hf hs
      simp [looksLikeRequestVote_begin hpre hpre']

/-- The segments that look like vote requests are the vote requests without those that are missed,
and the false ones. -/
theorem IsCut.votes_balance (hcut : IsCut segments (fs.flatMap Frame.bytes)) :
    segments.countP (fun s => LooksLikeRequestVote s) + missedVotes fs segments =
      fs.countP (fun f => f.IsRequestVote) + falseVotes fs segments := by
  have hsegments := countP_blockAt id _ hcut.1 fun s => decide (LooksLikeRequestVote s)
  have hframes := countP_blockAt Frame.bytes fs (fun f _ => f.bytes_ne_nil)
    fun f => decide f.IsRequestVote
  rw [List.flatMap_id] at hsegments
  rw [← hcut.2] at hframes
  rw [← hsegments, ← hframes,
    List.countP_eq_countP_filter_add _ _ fun o => (blockAt Frame.bytes fs o).isSome,
    List.countP_eq_countP_filter_add _ (fun o => (blockAt Frame.bytes fs o).any _)
      fun o => (blockAt id segments o).any fun s => 18 < s.length]
  simp only [List.countP_filter, hcut.vote_begins_iff]
  unfold missedVotes falseVotes
  omega

theorem WellCut.missedVotes_eq_zero (h : WellCut fs segments) : missedVotes fs segments = 0 := by
  unfold missedVotes
  rw [List.countP_eq_zero]
  intro o _ hmissed
  cases hf : blockAt Frame.bytes fs o with
  | none => simp [hf] at hmissed
  | some f =>
    simp only [hf, Option.any_some, Bool.and_eq_true, decide_eq_true_eq] at hmissed
    obtain ⟨s, hs, hlen⟩ := h.votes_begin o f hf hmissed.1
    simp [hs, hlen] at hmissed

theorem WellCut.falseVotes_eq_zero (h : WellCut fs segments) : falseVotes fs segments = 0 := by
  unfold falseVotes
  rw [List.countP_eq_zero]
  intro o _ hfalse
  cases hs : blockAt id segments o with
  | none => simp [hs] at hfalse
  | some s =>
    simp only [hs, Option.any_some, Bool.and_eq_true, decide_eq_true_eq, Bool.not_eq_true',
      Option.isSome_eq_false_iff, Option.isNone_iff_eq_none] at hfalse
    exact (h.quiet_inside o s hfalse.2 hs).1 hfalse.1

theorem ofNat_eq_ofNat_iff {a b : ℕ} : Int32.ofNat a = Int32.ofNat b ↔ a ≡ b [MOD 2 ^ 32] := by
  rw [← Int32.toBitVec_inj, ← BitVec.toNat_inj]
  simp [Nat.ModEq]

/-- The monitor decodes segments, not messages. However a stream of frames is cut, the elections
grow by the number of vote requests if and only if as many of them are missed as other segments
are taken for one (the counter is an `int`), and the leader moves only if there is a tree request
or a segment that begins inside a frame looks like one. -/
theorem stream_accounting (m : Monitor) (hm : m.implementation = .logcabin) (p : Packet)
    (fs : List Frame) (segments : List (List UInt8))
    (hcut : IsCut segments (fs.flatMap Frame.bytes)) :
    ((m.callbacks (segmentPackets p segments)).numElections =
        m.numElections + Int32.ofNat (fs.countP fun f => f.IsRequestVote) ↔
      missedVotes fs segments ≡ falseVotes fs segments [MOD 2 ^ 32]) ∧
    ((m.callbacks (segmentPackets p segments)).currentLeader ≠ m.currentLeader →
      (∃ f ∈ fs, f.IsTree) ∨ ∃ o s, blockAt Frame.bytes fs o = none ∧
        blockAt id segments o = some s ∧ LooksLikeTree s) ∧
    (WellCut fs segments →
      (m.callbacks (segmentPackets p segments)).numElections =
        m.numElections + Int32.ofNat (fs.countP fun f => f.IsRequestVote) ∧
      ((m.callbacks (segmentPackets p segments)).currentLeader ≠ m.currentLeader →
        ∃ f ∈ fs, f.IsTree)) := by
  have hvotes : (m.callbacks (segmentPackets p segments)).numElections =
      m.numElections + Int32.ofNat (fs.countP fun f => f.IsRequestVote) ↔
        missedVotes fs segments ≡ falseVotes fs segments [MOD 2 ^ 32] := by
    have hbalance := hcut.votes_balance
    rw [callbacks_segments_numElections hm, Int32.add_right_inj, ofNat_eq_ofNat_iff]
    unfold Nat.ModEq
    omega
  have hleader : (m.callbacks (segmentPackets p segments)).currentLeader ≠ m.currentLeader →
      (∃ f ∈ fs, f.IsTree) ∨ ∃ o s, blockAt Frame.bytes fs o = none ∧
        blockAt id segments o = some s ∧ LooksLikeTree s := by
    intro hne
    obtain ⟨s, hmem, ht⟩ := callbacks_segments_currentLeader hm p segments hne
    obtain ⟨o, hs⟩ := exists_blockAt id hcut.1 hmem
    cases hf : blockAt Frame.bytes fs o with
    | none => exact .inr ⟨o, s, hf, hs, ht⟩
    | some f =>
      obtain ⟨hpre, hpre'⟩ := hcut.isPrefix hf hs
      exact .inl ⟨f, mem_of_blockAt hf, isTree_of_begin hpre hpre' ht⟩
  refine ⟨hvotes, hleader, fun hwell => ⟨hvotes.mpr ?_, fun hne => ?_⟩⟩
  · rw [hwell.missedVotes_eq_zero, hwell.falseVotes_eq_zero]
  · refine (hleader hne).resolve_right ?_
    rintro ⟨o, s, hf, hs, ht⟩
    exact (hwell.quiet_inside o s hf hs).2 ht

def sampleVote : Frame :=
  .request ⟨5, .raft .requestVote, 0, [8, 1, 16, 2, 24, 1, 32, 3, 40, 2]⟩ (by decide)

def sampleHeartbeat : Frame :=
  .request ⟨6, .raft .appendEntries, 0, [8, 1, 16, 2, 24, 2]⟩ (by decide)

/-- Two vote requests that the sender batches into one segment count as one election. -/
theorem batched_votes_miscounted :
    ¬∀ (m : Monitor) (p : Packet) (fs : List Frame) (segments : List (List UInt8)),
      m.implementation = .logcabin → IsCut segments (fs.flatMap Frame.bytes) →
      (m.callbacks (segmentPackets p segments)).numElections =
          m.numElections + Int32.ofNat (fs.countP fun f => f.IsRequestVote) ∧
        ((m.callbacks (segmentPackets p segments)).currentLeader ≠ m.currentLeader →
          ∃ f ∈ fs, f.IsTree) := by
  intro hall
  have h := (hall (Monitor.new .logcabin)
    ⟨⟨"192.168.2.1".toList, by decide⟩, "192.168.2.2".toList, 40000, 61023, none⟩
    [sampleVote, sampleVote] [sampleVote.bytes ++ sampleVote.bytes] rfl
    ⟨by decide, by decide⟩).1
  revert h
  decide

/-- A vote request and a heartbeat in one segment, and the heartbeat's last bytes in another. -/
theorem vote_with_heartbeat_counted :
    ((Monitor.new .logcabin).callbacks (segmentPackets
      ⟨⟨"192.168.2.1".toList, by decide⟩, "192.168.2.2".toList, 40000, 61023, none⟩
      [sampleVote.bytes ++ sampleHeartbeat.bytes.take 20,
        sampleHeartbeat.bytes.drop 20])).numElections = 1 :=
  ((stream_accounting (Monitor.new .logcabin) rfl
    ⟨⟨"192.168.2.1".toList, by decide⟩, "192.168.2.2".toList, 40000, 61023, none⟩
    [sampleVote, sampleHeartbeat] [sampleVote.bytes ++ sampleHeartbeat.bytes.take 20,
      sampleHeartbeat.bytes.drop 20] ⟨by decide, by decide⟩).1.mpr (by decide)).trans (by decide)

end RaftMonitor.LogCabin
