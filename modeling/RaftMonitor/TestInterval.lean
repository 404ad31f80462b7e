import RaftMonitor.Monitor

namespace RaftMonitor.Monitor
open Std StdMap

/-- What happens to the monitor, in the order in which it happens. The log file of every
test can be opened. -/
inductive Event
  | startTest (c : TestCall)
  | packet (p : Packet)
  | stopTest (c : TestCall)

def apply (m : Monitor) : Event → Monitor
  | .startTest c => (m.startTest c true).1
  | .packet p => m.callback p
  | .stopTest c => (m.stopTest c).1

def runEvents (m : Monitor) (es : List Event) : Monitor := es.foldl apply m

/-- Starts and stops alternate; the flag says whether a test is running. -/
def Alternates : Bool → List Event → Prop
  | _, [] => True
  | running, .packet _ :: es => Alternates running es
  | false, .startTest _ :: es => Alternates true es
  | true, .stopTest _ :: es => Alternates false es
  | true, .startTest _ :: _ => False
  | false, .stopTest _ :: _ => False

/-- The packets handled since the last `stopTest`, or since the monitor came up. -/
def sinceStop (es : List Event) : List Packet :=
  es.foldl (fun ps e => match e with
    | .startTest _ => ps
    | .packet p => ps ++ [p]
    | .stopTest _ => []) []

def sinceStart (es : List Event) : List Packet :=
  es.foldl (fun ps e => match e with
    | .startTest _ => []
    | .packet p => ps ++ [p]
    | .stopTest _ => ps) []

theorem sinceStop_startTest (es : List Event) (c : TestCall) :
    sinceStop (es ++ [.startTest c]) = sinceStop es := List.foldl_concat _ _ _ _

theorem sinceStop_packet (es : List Event) (p : Packet) :
    sinceStop (es ++ [.packet p]) = sinceStop es ++ [p] := List.foldl_concat _ _ _ _

theorem sinceStop_stopTest (es : List Event) (c : TestCall) :
    sinceStop (es ++ [.stopTest c]) = [] := List.foldl_concat _ _ _ _

theorem sinceStart_startTest (es : List Event) (c : TestCall) :
    sinceStart (es ++ [.startTest c]) = [] := List.foldl_concat _ _ _ _

theorem sinceStart_packet (es : List Event) (p : Packet) :
    sinceStart (es ++ [.packet p]) = sinceStart es ++ [p] := List.foldl_concat _ _ _ _

theorem sinceStart_stopTest (es : List Event) (c : TestCall) :
    sinceStart (es ++ [.stopTest c]) = sinceStart es := List.foldl_concat _ _ _ _

/-- The lines of the text say of every pair of ports how many of the packets have it, once, and
nothing of the pairs that none has; and they say how many packets are classified as vote
requests. -/
structure Covers (implementation : RaftImplementation) (text : Text) (ps : List Packet) : Prop where
  packets : ∀ pair n, packetsLine pair n ∈ getlines '\n' text ↔
    n = (ps.map Packet.ports).count pair ∧ n ≠ 0
  elections : ∀ n, electionsLine n ∈ getlines '\n' text ↔
    n = ps.countP fun p => classify implementation p.bytes = .requestVote
  once : (getlines '\n' text).Nodup
  others : ∀ line ∈ getlines '\n' text,
    (∃ pair n, line = packetsLine pair n) ∨ ∃ n, line = electionsLine n

theorem packetsLine_inj {pair pair' : ℕ × ℕ} {n n' : ℤ} :
    packetsLine pair n = packetsLine pair' n' ↔ pair = pair' ∧ n = n' := by
  constructor
  · intro h
    have hcolon : ∀ z, ':' ∉ stdToString z := notMem_stdToString rfl (by decide)
    unfold packetsLine at h
    simp only [List.append_assoc] at h
    obtain ⟨hsrc, hrest⟩ := append_cons_inj (minus_notMem_toDigits _) (minus_notMem_toDigits _)
      (List.append_cancel_left h)
    obtain ⟨hdst, hn⟩ := append_cons_inj (hcolon _) (hcolon _) (List.cons.inj hrest).2
    exact ⟨Prod.ext (toDigits_injective hsrc) (toDigits_injective hdst), stdToString_injective hn⟩
  · rintro ⟨rfl, rfl⟩
    rfl

theorem packetsLine_ne_electionsLine (pair : ℕ × ℕ) (n k : ℤ) :
    packetsLine pair n ≠ electionsLine k := by
  unfold packetsLine electionsLine
  simp

theorem newline_notMem_packetsLine (pair : ℕ × ℕ) (n : ℤ) : '\n' ∉ packetsLine pair n := by
  have hnum : ∀ z, '\n' ∉ stdToString z := notMem_stdToString rfl (by decide)
  unfold packetsLine
  simp [hnum, -stdToString_natCast]

theorem newline_notMem_electionsLine (n : ℤ) : '\n' ∉ electionsLine n := by
  have hnum : ∀ z, '\n' ∉ stdToString z := notMem_stdToString rfl (by decide)
  unfold electionsLine
  simp [hnum]

def Report.lines (r : Report) : List Text :=
  r.packets.map (fun e => packetsLine e.1 e.2.toInt) ++ [electionsLine r.elections.toInt]

theorem getlines_report (r : Report) : getlines '\n' r.text = r.lines := by
  have htext : r.text = r.lines.flatMap fun line => line ++ ['\n'] := by
    simp [Report.text, Report.lines, List.flatMap_map]
  rw [htext]
  apply getlines_flatMap
  intro line hline
  rcases List.mem_append.mp hline with hmem | hmem
  · obtain ⟨e, -, rfl⟩ := List.mem_map.mp hmem
    exact newline_notMem_packetsLine _ _
  · rw [List.mem_singleton.mp hmem]
    exact newline_notMem_electionsLine _

theorem packetsLine_mem_lines {r : Report} {pair : ℕ × ℕ} {n : ℤ} :
    packetsLine pair n ∈ r.lines ↔ ∃ k, (pair, k) ∈ r.packets ∧ k.toInt = n := by
  simp only [Report.lines, List.mem_append, List.mem_singleton, packetsLine_ne_electionsLine,
    or_false, List.mem_map, packetsLine_inj, Prod.exists]
  constructor
  · rintro ⟨src, dst, k, hk, hpair, rfl⟩
    exact ⟨k, hpair ▸ hk, rfl⟩
  · rintro ⟨k, hk, rfl⟩
    exact ⟨pair.1, pair.2, k, hk, rfl, rfl⟩

theorem electionsLine_mem_lines {r : Report} {n : ℤ} :
    electionsLine n ∈ r.lines ↔ n = r.elections.toInt := by
  constructor
  · intro h
    rcases List.mem_append.mp h with hmem | hmem
    · obtain ⟨e, -, he⟩ := List.mem_map.mp hmem
      exact absurd he (packetsLine_ne_electionsLine _ _ _)
    · exact stdToString_injective (List.append_cancel_left (List.mem_singleton.mp hmem))
  · rintro rfl
    simp [Report.lines]

theorem nodup_lines {r : Report} (h : (r.packets.map Prod.fst).Nodup) : r.lines.Nodup := by
  have hpackets : (r.packets.map fun e => packetsLine e.1 e.2.toInt).Nodup := by
    rw [List.Nodup, List.pairwise_map] at h ⊢
    exact h.imp fun hne heq => hne (packetsLine_inj.mp heq).1
  unfold Report.lines
  rw [List.nodup_append]
  refine ⟨hpackets, List.nodup_singleton _, ?_⟩
  intro line hline other hother
  obtain ⟨e, -, rfl⟩ := List.mem_map.mp hline
  rw [List.mem_singleton.mp hother]
  exact packetsLine_ne_electionsLine _ _ _

theorem startTest_fields (m : Monitor) (c : TestCall) :
    (m.startTest c true).1.implementation = m.implementation ∧
    (m.startTest c true).1.counts = m.counts ∧
    (m.startTest c true).1.numElections = 0 := by
  have hopen : (m.outFile.openApp (c.testname ++ ".log".toList) true).isOpen = true := by
    unfold OutFile.openApp OutFile.isOpen
    split <;> simp_all
  simp only [startTest, hopen, if_true]
  split_ifs <;> exact ⟨rfl, rfl, rfl⟩

theorem stopTest_fields (m : Monitor) (c : TestCall) :
    (m.stopTest c).1.implementation = m.implementation ∧
    (m.stopTest c).1.counts = ∅ ∧
    (m.stopTest c).1.numElections = m.numElections := by
  dsimp only [stopTest]
  split_ifs <;> exact ⟨rfl, rfl, rfl⟩

@[simp] theorem runEvents_append (m : Monitor) (es fs : List Event) :
    m.runEvents (es ++ fs) = (m.runEvents es).runEvents fs := List.foldl_append

theorem runEvents_concat (m : Monitor) (es : List Event) (e : Event) :
    m.runEvents (es ++ [e]) = (m.runEvents es).apply e := runEvents_append m es [e]

theorem runEvents_implementation (m : Monitor) (es : List Event) :
    (m.runEvents es).implementation = m.implementation := by
  induction es using List.reverseRecOn with
  | nil => rfl
  | append_singleton es e ih =>
    rw [runEvents_concat]
    cases e with
    | startTest c => exact (startTest_fields _ c).1.trans ih
    | packet p => exact (callback_implementation _ p).trans ih
    | stopTest c => exact (stopTest_fields _ c).1.trans ih

/-- The packet counts are reset by `stopTest` only, so they run on from there. -/
theorem runEvents_counts (implementation : RaftImplementation) (es : List Event) :
    ((new implementation).runEvents es).counts =
      ((sinceStop es).map Packet.ports).foldl increment ∅ := by
  induction es using List.reverseRecOn with
  | nil => rfl
  | append_singleton es e ih =>
    rw [runEvents_concat]
    cases e with
    | startTest c =>
      rw [sinceStop_startTest]
      exact (startTest_fields _ c).2.1.trans ih
    | packet p =>
      rw [sinceStop_packet, List.map_append, List.foldl_append, ← ih]
      exact callback_counts _ p
    | stopTest c =>
      rw [sinceStop_stopTest]
      exact (stopTest_fields _ c).2.1

theorem runEvents_numElections (implementation : RaftImplementation) (es : List Event) :
    ((new implementation).runEvents es).numElections = Int32.ofNat
      ((sinceStart es).countP fun p => classify implementation p.bytes = .requestVote) := by
  induction es using List.reverseRecOn with
  | nil => rfl
  | append_singleton es e ih =>
    rw [runEvents_concat]
    cases e with
    | startTest c =>
      rw [sinceStart_startTest]
      exact (startTest_fields _ c).2.2
    | packet p =>
      have himpl : ((new implementation).runEvents es).implementation = implementation :=
        runEvents_implementation (new implementation) es
      change (callback _ p).numElections = _
      rw [callback_numElections, himpl, ih, sinceStart_packet, List.countP_append,
        List.countP_singleton, Int32.ofNat_add]
      simp only [decide_eq_true_eq]
      split_ifs <;> rfl
    | stopTest c =>
      rw [sinceStart_stopTest]
      exact (stopTest_fields _ c).2.2.trans ih

theorem sinceStop_test (pre : List Event) (c : TestCall) (mid : List Packet) :
    sinceStop (pre ++ .startTest c :: mid.map .packet) = sinceStop pre ++ mid := by
  induction mid using List.reverseRecOn with
  | nil => exact (sinceStop_startTest pre c).trans (List.append_nil _).symm
  | append_singleton mid p ih =>
    rw [List.map_append, ← List.cons_append, ← List.append_assoc, List.map_singleton,
      sinceStop_packet, ih, List.append_assoc]

theorem sinceStart_test (pre : List Event) (c : TestCall) (mid : List Packet) :
    sinceStart (pre ++ .startTest c :: mid.map .packet) = mid := by
  induction mid using List.reverseRecOn with
  | nil => exact sinceStart_startTest pre c
  | append_singleton mid p ih =>
    rw [List.map_append, ← List.cons_append, ← List.append_assoc, List.map_singleton,
      sinceStart_packet, ih]

theorem mem_report_iff (implementation : RaftImplementation) (es : List Event) (pair : ℕ × ℕ)
    (n : Int32) :
    (pair, n) ∈ ((new implementation).runEvents es).report.packets ↔
      n = Int32.ofNat (((sinceStop es).map Packet.ports).count pair) ∧
        ((sinceStop es).map Packet.ports).count pair ≠ 0 := by
  unfold report
  rw [ExtTreeMap.mem_toList_iff_getElem?_eq_some, runEvents_counts, getElem?_foldl_increment]
  split_ifs with h
  · rw [h]
    simp
  · have hd : (∅ : ExtTreeMap (ℕ × ℕ) Int32 pairCmp).getD pair 0 = 0 := ExtTreeMap.getD_empty
    rw [hd, Int32.zero_add, Option.some.injEq]
    constructor
    · rintro rfl
      exact ⟨rfl, h⟩
    · exact fun hn => hn.1.symm

theorem report_printed_once (m : Monitor) : (m.report.packets.map Prod.fst).Nodup := by
  unfold report
  rw [ExtTreeMap.map_fst_toList_eq_keys]
  exact ExtTreeMap.nodup_keys

/-- Two lists of packets with the same counts, the one ending in the other, are equal. -/
theorem gap_eq_nil_iff (gap mid : List Packet) :
    (∀ pair, ((gap ++ mid).map Packet.ports).count pair = (mid.map Packet.ports).count pair) ↔
      gap = [] := by
  constructor
  · intro h
    by_contra hne
    obtain ⟨q, gap, rfl⟩ := List.exists_cons_of_ne_nil hne
    have hq := h q.ports
    have hpos : 0 < ((q :: gap).map Packet.ports).count q.ports :=
      List.count_pos_iff.mpr (List.mem_map_of_mem List.mem_cons_self)
    rw [List.map_append, List.count_append] at hq
    omega
  · rintro rfl pair
    rfl

/-- The log stream is attached to the test's log file and takes text. -/
def Attached (m : Monitor) (file : Text) : Prop :=
  m.outFile.name = some file ∧ m.outFile.good = true

theorem startTest_attached {m : Monitor} (h : m.outFile.name = none) (c : TestCall) :
    (m.startTest c true).1.Attached (c.testname ++ ".log".toList) := by
  have hf : m.outFile.openApp (c.testname ++ ".log".toList) true =
      { m.outFile with name := some (c.testname ++ ".log".toList), good := true } := by
    simp [OutFile.openApp, h]
  simp only [startTest, hf, OutFile.isOpen, Option.isSome_some, if_true]
  split_ifs <;> exact ⟨rfl, rfl⟩

theorem callback_attached {m : Monitor} {file : Text} (h : m.Attached file) (p : Packet) :
    (m.callback p).Attached file := by
  obtain ⟨c, f, heq, hname, hgood⟩ := callback_eq m p
  have hopen : m.outFile.isOpen = true := by simp [OutFile.isOpen, h.1]
  rw [heq]
  exact ⟨hname.trans h.1, (hgood hopen).trans h.2⟩

theorem callbacks_attached {m : Monitor} {file : Text} (h : m.Attached file) (ps : List Packet) :
    (m.callbacks ps).Attached file := by
  unfold callbacks
  induction ps generalizing m with
  | nil => exact h
  | cons p ps ih => exact ih (callback_attached h p)

theorem stopTest_written {m : Monitor} {file : Text} (h : m.Attached file) (c : TestCall) :
    (m.stopTest c).1.outFile.written =
      m.outFile.written ++ [(file, m.report.text ++ ending c)] := by
  obtain ⟨hname, hgood⟩ := h
  dsimp only [stopTest]
  split_ifs <;> simp [clearBlock, OutFile.write, OutFile.close, hname, hgood, report]

theorem stopTest_detached (m : Monitor) (c : TestCall) :
    (m.stopTest c).1.outFile.name = none := by
  have hclose : ∀ f : OutFile, f.close.name = none := by
    intro f
    unfold OutFile.close
    split
    · rfl
    · assumption
  exact hclose _

/-- In a run in which starts and stops alternate every `startTest` finds the stream closed. -/
theorem detached_before_start {m : Monitor} {running : Bool}
    (h : running = false → m.outFile.name = none) {pre post : List Event} {c : TestCall}
    (halt : Alternates running (pre ++ .startTest c :: post)) :
    (m.runEvents pre).outFile.name = none := by
  -- while no test runs the stream is closed; a start is only possible then
  induction pre generalizing m running with
  | nil =>
    cases running with
    | false => exact h rfl
    | true => exact halt.elim
  | cons e pre ih =>
    cases e with
    | startTest d =>
      cases running with
      | false => exact ih (fun hf => absurd hf (by simp)) halt
      | true => exact halt.elim
    | packet p =>
      have hrest : Alternates running (pre ++ .startTest c :: post) := halt
      apply ih _ hrest
      obtain ⟨_, _, heq, hname, -⟩ := callback_eq m p
      intro hr
      change (m.callback p).outFile.name = none
      rw [heq]
      exact hname.trans (h hr)
    | stopTest d =>
      cases running with
      | false => exact halt.elim
      | true => exact ih (fun _ => stopTest_detached m d) halt

theorem packetsLine_mem_report (implementation : RaftImplementation) (es : List Event)
    (hbound : (sinceStop es).length < 2 ^ 31) (pair : ℕ × ℕ) (n : ℤ) :
    packetsLine pair n ∈ getlines '\n' ((new implementation).runEvents es).report.text ↔
      n = ((sinceStop es).map Packet.ports).count pair ∧ n ≠ 0 := by
  have hcount : ((sinceStop es).map Packet.ports).count pair < 2 ^ 31 := by
    refine List.count_le_length.trans_lt ?_
    rwa [List.length_map]
  rw [getlines_report, packetsLine_mem_lines]
  simp only [mem_report_iff]
  constructor
  · rintro ⟨k, ⟨rfl, hpos⟩, rfl⟩
    rw [Int32.toInt_ofNat_of_lt hcount]
    exact ⟨rfl, by omega⟩
  · rintro ⟨rfl, hpos⟩
    exact ⟨_, ⟨rfl, by omega⟩, Int32.toInt_ofNat_of_lt hcount⟩

theorem electionsLine_mem_report (implementation : RaftImplementation) (es : List Event)
    (hbound : (sinceStart es).length < 2 ^ 31) (n : ℤ) :
    electionsLine n ∈ getlines '\n' ((new implementation).runEvents es).report.text ↔
      n = (sinceStart es).countP fun p => classify implementation p.bytes = .requestVote := by
  rw [getlines_report, electionsLine_mem_lines]
  change n = ((new implementation).runEvents es).numElections.toInt ↔ _
  rw [runEvents_numElections, Int32.toInt_ofNat_of_lt (List.countP_le_length.trans_lt hbound)]

/-- Every test of every run, as long as no counter overflows: `stopTest` appends its report to the
test's log file, and the printed lines cover exactly the packets handled since `startTest` if and
only if none was handled between the previous `stopTest` and this `startTest`. The line about
elections is always right; the packet counts are cleared at the end of a test only. -/
theorem report_covers_iff (implementation : RaftImplementation) (pre post : List Event)
    (c d : TestCall) (mid : List Packet)
    (halt : Alternates false
      (pre ++ .startTest c :: (mid.map .packet ++ .stopTest d :: post)))
    (hbound : (sinceStop pre).length + mid.length < 2 ^ 31) :
    let m := (new implementation).runEvents (pre ++ .startTest c :: mid.map .packet)
    (m.stopTest d).1.outFile.written =
        m.outFile.written ++ [(c.testname ++ ".log".toList, m.report.text ++ ending d)] ∧
      (∀ n, electionsLine n ∈ getlines '\n' m.report.text ↔
        n = mid.countP fun p => classify implementation p.bytes = .requestVote) ∧
      (Covers implementation m.report.text mid ↔ sinceStop pre = []) := by
  intro m
  have hm : m = (((new implementation).runEvents pre).startTest c true).1.callbacks mid := by
    change (new implementation).runEvents (pre ++ .startTest c :: mid.map .packet) = _
    rw [runEvents_append, callbacks]
    exact List.foldl_map
  have hatt : m.Attached (c.testname ++ ".log".toList) := by
    rw [hm]
    apply callbacks_attached
    apply startTest_attached
    exact detached_before_start (fun _ => rfl) halt
  have hstop := sinceStop_test pre c mid
  have hstart := sinceStart_test pre c mid
  have hpackets := packetsLine_mem_report implementation (pre ++ .startTest c :: mid.map .packet)
    (by rw [hstop, List.length_append]; exact hbound)
  have helections := electionsLine_mem_report implementation
    (pre ++ .startTest c :: mid.map .packet) (by rw [hstart]; omega)
  rw [hstart] at helections
  rw [hstop] at hpackets
  refine ⟨stopTest_written hatt d, helections, ?_⟩
  rw [← gap_eq_nil_iff _ mid]
  constructor
  · intro hcov pair
    have hboth := fun n => (hcov.packets pair n).symm.trans (hpackets pair n)
    by_contra hne
    rcases Nat.eq_zero_or_pos ((mid.map Packet.ports).count pair) with h0 | hpos
    · have hline := (hboth _).mpr ⟨rfl, by omega⟩
      omega
    · have hline := (hboth _).mp ⟨rfl, by omega⟩
      omega
  · intro hcount
    refine ⟨fun pair n => ?_, helections, ?_, ?_⟩
    · rw [← hcount pair]
      exact hpackets pair n
    · rw [getlines_report]
      exact nodup_lines (report_printed_once m)
    · rw [getlines_report]
      intro line hline
      rcases List.mem_append.mp hline with hmem | hmem
      · obtain ⟨e, -, rfl⟩ := List.mem_map.mp hmem
        exact .inl ⟨_, _, rfl⟩
      · exact .inr ⟨_, List.mem_singleton.mp hmem⟩

def samplePacket : Packet :=
  ⟨⟨"192.168.2.1".toList, by decide⟩, "192.168.2.2".toList, 40000, 61023, none⟩

def sampleCall : TestCall :=
  ⟨"basic".toList, 0, "0".toList, [], "01-01-2015 12:00:00".toList⟩

theorem quiet_run_covers :
    Alternates false [.startTest sampleCall, .packet samplePacket, .stopTest sampleCall] ∧
      Covers .logcabin ((new .logcabin).runEvents
        [.startTest sampleCall, .packet samplePacket]).report.text [samplePacket] :=
  ⟨trivial, (report_covers_iff .logcabin [] [] sampleCall sampleCall [samplePacket]
    trivial (by decide)).2.2.mpr rfl⟩

/-- A packet handled before the first test shows up in the report of that test. -/
theorem stray_packet_reported :
    ¬∀ (implementation : RaftImplementation) (pre post : List Event) (c d : TestCall)
      (mid : List Packet),
      Alternates false (pre ++ .startTest c :: (mid.map .packet ++ .stopTest d :: post)) →
      (sinceStop pre).length + mid.length < 2 ^ 31 →
      Covers implementation ((new implementation).runEvents
        (pre ++ .startTest c :: mid.map .packet)).report.text mid := by
  intro hall
  have hcov := hall .logcabin [.packet samplePacket] [] sampleCall sampleCall [] trivial (by decide)
  have hline : packetsLine (40000, 61023) 1 ∈ getlines '\n' ((new .logcabin).runEvents
      [.packet samplePacket, .startTest sampleCall]).report.text := by decide +kernel
  have hcount := ((hcov.packets (40000, 61023) 1).mp hline).1
  simp at hcount

end RaftMonitor.Monitor
