import RaftMonitor.ClusterConfig
import RaftMonitor.Monitor

namespace RaftMonitor
open ClusterConfig

theorem strtok_getHost (i : ℤ) :
    strtok '.' (LogCabin.getHost i) =
      ["192".toList, "168".toList, "2".toList, stdToString i] := by
  have htext : LogCabin.getHost i =
      "192".toList ++ '.' :: ("168".toList ++ '.' :: ("2".toList ++ '.' :: stdToString i)) := rfl
  have hdot : '.' ∉ stdToString i := notMem_stdToString rfl (by decide) i
  rw [htext, strtok_append_cons (by decide) (by decide), strtok_append_cons (by decide) (by decide),
    strtok_append_cons (by decide) (by decide), strtok_of_notMem hdot (stdToString_ne_nil i)]

/-- All etcd nodes have the address that LogCabin gives to the first node. -/
theorem etcd_getHost (i : ℤ) : Etcd.getHost i = LogCabin.getHost 1 := by
  have haddress : Etcd.getAddress = LogCabin.getHost 1 := by decide
  exact haddress

def hostAddress (impl : RaftImplementation) (i : ℤ) : Address where
  text := getHost impl i
  fields_ne_nil := by
    cases impl with
    | logcabin => rw [getHost, strtok_getHost]; exact List.cons_ne_nil _ _
    | etcd => rw [getHost, etcd_getHost, strtok_getHost]; exact List.cons_ne_nil _ _

theorem getLastIP_of_text {ip : Address} {i : ℤ} (hpos : 0 ≤ i) (hint : i < 2 ^ 31)
    (h : ip.text = LogCabin.getHost i) : getLastIP ip = i := by
  obtain ⟨k, rfl⟩ := Int.eq_ofNat_of_zero_le hpos
  obtain ⟨text, hne⟩ := ip
  dsimp only at h
  subst h
  have hlast : (strtok '.' (LogCabin.getHost k)).getLast hne = Nat.toDigits 10 k := by
    simp only [strtok_getHost]
    rfl
  unfold getLastIP
  rw [hlast]
  exact atoi_toDigits (by omega)

theorem getHost_injective : Function.Injective LogCabin.getHost := by
  intro i j h
  exact stdToString_injective (List.append_cancel_left h)

def Packet.SentBy (p : Packet) (impl : RaftImplementation) (i : ℤ) : Prop :=
  p.sourceIP.text = getHost impl i

/-- Some rule of the monitor's kind applies to the packet, which may then be dropped. -/
def Monitor.MayDrop (m : Monitor) (p : Packet) : Prop :=
  ∃ probability, .drop p.sourceIP.text probability ∈ m.rules

theorem Monitor.mayDrop_startBlock (m : Monitor) (source fraction : Text) (p : Packet) :
    (m.startBlock source fraction).MayDrop p ↔ m.MayDrop p ∨ source = p.sourceIP.text := by
  simp [Monitor.MayDrop, Monitor.startBlock, exists_or, eq_comm]

theorem Monitor.callbacks_concat_currentLeader (m : Monitor) (ps : List Packet) {p : Packet}
    (h : classify m.implementation p.bytes = .readOnlyTree ∨
      classify m.implementation p.bytes = .readWriteTree) :
    (m.callbacks (ps ++ [p])).currentLeader = getLastIP p.sourceIP := by
  have hcons : m.callbacks (ps ++ [p]) = (m.callbacks ps).callback p := by
    simp [Monitor.callbacks]
  rw [hcons, callback_currentLeader, callbacks_implementation, if_pos h]

/-- The monitor tells the nodes from 1 to `n` apart by their addresses. -/
structure Attributes (impl : RaftImplementation) (n : ℤ) : Prop where
  lastIP : ∀ i, 1 ≤ i → i ≤ n → getLastIP (hostAddress impl i) = i
  injective : ∀ i j, 1 ≤ i → i ≤ n → 1 ≤ j → j ≤ n → getHost impl i = getHost impl j → i = j
  /-- A block rule for a node adds its packets, and no others, to those that may be dropped. -/
  block : ∀ (m : Monitor) (fraction : Text) (i j : ℤ) (p : Packet),
    1 ≤ i → i ≤ n → 1 ≤ j → j ≤ n → p.SentBy impl j →
      ((m.startBlock (getHost impl i) fraction).MayDrop p ↔ m.MayDrop p ∨ j = i)
  /-- After each packet of the nodes that is taken for a tree request, its sender is the leader. -/
  leader : ∀ (m : Monitor) (ps : List Packet) (p : Packet) (i : ℤ), m.implementation = impl →
    (∀ q ∈ ps, ∃ j, 1 ≤ j ∧ j ≤ n ∧ q.SentBy impl j) → 1 ≤ i → i ≤ n → p.SentBy impl i →
      (classify impl p.bytes = .readOnlyTree ∨ classify impl p.bytes = .readWriteTree) →
        (m.callbacks (ps ++ [p])).currentLeader = i

theorem attributes_of_getHost {impl : RaftImplementation} {n : ℤ} (hint : n < 2 ^ 31)
    (h : ∀ i, 1 ≤ i → i ≤ n → getHost impl i = LogCabin.getHost i) : Attributes impl n where
  lastIP i hi hin := getLastIP_of_text (by omega) (by omega) (h i hi hin)
  injective i j hi hin hj hjn heq := by
    rw [h i hi hin, h j hj hjn] at heq
    exact getHost_injective heq
  block m fraction i j p hi hin hj hjn hp := by
    rw [Monitor.mayDrop_startBlock, hp, h i hi hin, h j hj hjn, getHost_injective.eq_iff, eq_comm]
  leader m ps p i hm _ hi hin hp htype := by
    rw [Monitor.callbacks_concat_currentLeader m ps (hm ▸ htype)]
    exact getLastIP_of_text (by omega) (by omega) (hp.trans (h i hi hin))

/-- The nodes of a LogCabin cluster are told apart. Those of an etcd cluster all have one
address, so they are only when there is one node. -/
theorem attributes_iff (impl : RaftImplementation) (n : ℤ) (hn : 1 ≤ n) (hint : n < 2 ^ 31) :
    Attributes impl n ↔ impl = .logcabin ∨ n = 1 := by
  constructor
  · intro h
    cases impl with
    | logcabin => exact Or.inl rfl
    | etcd =>
      -- the last node has the address of the first
      right
      exact h.injective n 1 hn le_rfl le_rfl hn rfl
  · rintro (rfl | rfl)
    · exact attributes_of_getHost hint fun i _ _ => rfl
    · apply attributes_of_getHost hint
      intro i hi hin
      obtain rfl : i = 1 := by omega
      cases impl with
      | logcabin => rfl
      | etcd => exact etcd_getHost 1

theorem logcabin_attributes_five : Attributes .logcabin 5 :=
  (attributes_iff .logcabin 5 (by decide) (by decide)).mpr (Or.inl rfl)

/-- The second of two etcd nodes is taken for the first. -/
theorem etcd_node_two_misattributed :
    getLastIP (hostAddress .etcd 2) = 1 ∧ ¬ Attributes .etcd 2 := by
  have htwo : getLastIP (hostAddress .etcd 2) = 1 :=
    getLastIP_of_text (by decide) (by decide) (etcd_getHost 2)
  refine ⟨htwo, fun h => ?_⟩
  have hlast := h.lastIP 2 (by decide) (by decide)
  omega

end RaftMonitor
