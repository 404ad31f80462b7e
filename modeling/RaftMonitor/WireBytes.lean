import Mathlib

namespace RaftMonitor.WireBytes

/-- The `w` bytes of a fixed-width number in network order, most significant first. -/
def bigEndian : ℕ → ℕ → List UInt8
  | 0, _ => []
  | w + 1, n => UInt8.ofNat (n / 256 ^ w) :: bigEndian w n

@[simp] theorem bigEndian_length (w n : ℕ) : (bigEndian w n).length = w := by
  induction w with
  | zero => rfl
  | succ w ih => simp [bigEndian, ih]

theorem bigEndian_two (n : ℕ) : bigEndian 2 n = [UInt8.ofNat (n / 256), UInt8.ofNat n] := by
  simp [bigEndian]

def ofBigEndian (bytes : List UInt8) : ℕ := bytes.foldl (fun n b => n * 256 + b.toNat) 0

theorem ofBigEndian_append_singleton (bytes : List UInt8) (b : UInt8) :
    ofBigEndian (bytes ++ [b]) = ofBigEndian bytes * 256 + b.toNat := by
  simp [ofBigEndian]

theorem ofBigEndian_lt (bytes : List UInt8) : ofBigEndian bytes < 256 ^ bytes.length := by
  induction bytes using List.reverseRecOn with
  | nil => simp [ofBigEndian]
  | append_singleton bytes b ih =>
    have hb := b.toNat_lt
    rw [ofBigEndian_append_singleton, List.length_append, List.length_singleton, pow_succ]
    omega

theorem bigEndian_succ_right (w n : ℕ) :
    bigEndian (w + 1) n = bigEndian w (n / 256) ++ [UInt8.ofNat n] := by
  induction w with
  | zero => simp [bigEndian]
  | succ w ih =>
    rw [bigEndian, ih, bigEndian, Nat.div_div_eq_div_mul, pow_succ, mul_comm (256 ^ w)]
    rfl

theorem bigEndian_ofBigEndian (bytes : List UInt8) :
    bigEndian bytes.length (ofBigEndian bytes) = bytes := by
  induction bytes using List.reverseRecOn with
  | nil => rfl
  | append_singleton bytes b ih =>
    have hb := b.toNat_lt
    have hdiv : (ofBigEndian bytes * 256 + b.toNat) / 256 = ofBigEndian bytes := by omega
    have hmod : UInt8.ofNat (ofBigEndian bytes * 256 + b.toNat) = b := by
      apply UInt8.toNat_inj.mp
      rw [UInt8.toNat_ofNat']
      omega
    rw [ofBigEndian_append_singleton, List.length_append, List.length_singleton,
      bigEndian_succ_right, hdiv, hmod, ih]

theorem ofBigEndian_bigEndian {w n : ℕ} (h : n < 256 ^ w) : ofBigEndian (bigEndian w n) = n := by
  induction w generalizing n with
  | zero => simp at h; simp [bigEndian, ofBigEndian, h]
  | succ w ih =>
    rw [pow_succ] at h
    rw [bigEndian_succ_right, ofBigEndian_append_singleton, ih (by omega), UInt8.toNat_ofNat']
    omega

/-- A base-128 varint of at most `fuel` bytes: seven bits a byte, least significant first,
the top bit set on all bytes but the last. -/
def varintBytes : ℕ → ℕ → List UInt8
  | 0, _ => []
  | fuel + 1, n =>
    if n < 128 then [UInt8.ofNat n]
    else UInt8.ofNat (n % 128 + 128) :: varintBytes fuel (n / 128)

theorem length_varintBytes_le (fuel n : ℕ) : (varintBytes fuel n).length ≤ fuel := by
  induction fuel generalizing n with
  | zero => simp [varintBytes]
  | succ fuel ih =>
    unfold varintBytes
    split_ifs
    · simp
    · rw [List.length_cons]
      exact Nat.succ_le_succ (ih _)

/-- The varint of a 32-bit number takes at most five bytes. -/
def varint32 (n : ℕ) : List UInt8 := varintBytes 5 n

section Frames
variable {α β : Type*}

/-- Frames of values that meet `p` are not empty, and a stream that begins with the frame of
one of them begins with the frame of no other. -/
structure SelfDelimiting (p : α → Prop) (frame : α → List β) : Prop where
  ne_nil : ∀ x, p x → frame x ≠ []
  unique : ∀ x y s t, p x → p y → frame x ++ s = frame y ++ t → x = y

/-- If a stream of frames begins with other frames, those are the first of its own. -/
theorem SelfDelimiting.flatMap_append {p : α → Prop} {frame : α → List β}
    (h : SelfDelimiting p frame) {xs ys : List α} {rest : List β} (hxs : ∀ x ∈ xs, p x)
    (hys : ∀ y ∈ ys, p y) (heq : xs.flatMap frame ++ rest = ys.flatMap frame) :
    ∃ zs, ys = xs ++ zs ∧ rest = zs.flatMap frame := by
  induction xs generalizing ys with
  | nil => exact ⟨ys, rfl, heq⟩
  | cons x xs ih =>
    have hx := hxs x List.mem_cons_self
    cases ys with
    | nil =>
      have hnil := congrArg List.length heq
      have hpos := List.length_pos_iff.mpr (h.ne_nil x hx)
      simp only [List.flatMap_cons, List.flatMap_nil, List.length_append, List.length_nil] at hnil
      omega
    | cons y ys =>
      rw [List.flatMap_cons, List.flatMap_cons, List.append_assoc] at heq
      have hxy := h.unique x y _ _ hx (hys y List.mem_cons_self) heq
      subst hxy
      obtain ⟨zs, hzs, hrest⟩ := ih (fun z hz => hxs z (List.mem_cons_of_mem x hz))
        (fun z hz => hys z (List.mem_cons_of_mem x hz)) (List.append_cancel_left heq)
      exact ⟨zs, congrArg (x :: ·) hzs, hrest⟩

/-- Skips the first bytes of a vector of buffers; a buffer that is skipped is left empty. -/
def skip : ℕ → List (List β) → List (List β)
  | _, [] => []
  | k, b :: bs => if k < b.length then b.drop k :: bs else [] :: skip (k - b.length) bs

theorem flatten_skip (k : ℕ) (bs : List (List β)) : (skip k bs).flatten = bs.flatten.drop k := by
  induction bs generalizing k with
  | nil => simp [skip]
  | cons b bs ih =>
    rw [skip]
    split_ifs with h
    · rw [List.flatten_cons, List.flatten_cons, List.drop_append_of_le_length (by omega)]
    · have hb : b.drop k = [] := List.drop_eq_nil_of_le (by omega)
      rw [List.flatten_cons, List.nil_append, ih, List.flatten_cons, List.drop_append, hb,
        List.nil_append]

/-- The block that begins at an offset of a stream of blocks. -/
def blockAt (bytes : α → List β) : List α → ℕ → Option α
  | [], _ => none
  | x :: xs, o =>
    if o = 0 then some x
    else if o < (bytes x).length then none
    else blockAt bytes xs (o - (bytes x).length)

variable {bytes : α → List β} {xs : List α}

theorem mem_of_blockAt {o : ℕ} {x : α} (h : blockAt bytes xs o = some x) : x ∈ xs := by
  induction xs generalizing o with
  | nil => cases h
  | cons y xs ih =>
    unfold blockAt at h
    split_ifs at h with h0 hlt
    · rw [Option.some.inj h]
      exact List.mem_cons_self
    · exact List.mem_cons_of_mem y (ih h)

theorem isPrefix_of_blockAt {o : ℕ} {x : α} (h : blockAt bytes xs o = some x) :
    bytes x <+: (xs.flatMap bytes).drop o := by
  induction xs generalizing o with
  | nil => cases h
  | cons y xs ih =>
    unfold blockAt at h
    rw [List.flatMap_cons]
    split_ifs at h with h0 hlt
    · rw [h0, List.drop_zero, ← Option.some.inj h]
      exact List.prefix_append _ _
    · have hdrop : (bytes y).drop o = [] := List.drop_eq_nil_of_le (Nat.le_of_not_lt hlt)
      rw [List.drop_append, hdrop, List.nil_append]
      exact ih h

theorem exists_blockAt (bytes : α → List β) (hne : ∀ x ∈ xs, bytes x ≠ []) {x : α}
    (hx : x ∈ xs) : ∃ o, blockAt bytes xs o = some x := by
  induction xs with
  | nil => cases hx
  | cons y xs ih =>
    rcases List.mem_cons.mp hx with rfl | hmem
    · exact ⟨0, rfl⟩
    · obtain ⟨o, ho⟩ := ih (fun z hz => hne z (List.mem_cons_of_mem y hz)) hmem
      have hpos := List.length_pos_iff.mpr (hne y List.mem_cons_self)
      refine ⟨(bytes y).length + o, ?_⟩
      unfold blockAt
      rw [if_neg (by omega), if_neg (by omega), Nat.add_sub_cancel_left]
      exact ho

/-- Blocks that are not empty begin at different offsets, so they can be counted there. -/
theorem countP_blockAt (bytes : α → List β) (xs : List α) (hne : ∀ x ∈ xs, bytes x ≠ [])
    (p : α → Bool) :
    (List.range (xs.flatMap bytes).length).countP (fun o => (blockAt bytes xs o).any p) =
      xs.countP p := by
  induction xs with
  | nil => rfl
  | cons x xs ih =>
    obtain ⟨k, hk⟩ : ∃ k, (bytes x).length = k + 1 :=
      Nat.exists_eq_succ_of_ne_zero (by simpa using hne x List.mem_cons_self)
    have hinside :
        (List.range k).countP (fun o => (blockAt bytes (x :: xs) (o + 1)).any p) = 0 := by
      rw [List.countP_eq_zero]
      intro o ho
      have hlt : o + 1 < (bytes x).length := by
        have := List.mem_range.mp ho
        omega
      simp [blockAt, hlt]
    have hbehind : ∀ o, blockAt bytes (x :: xs) (k + 1 + o) = blockAt bytes xs o := by
      intro o
      unfold blockAt
      rw [if_neg (by omega), if_neg (by omega), hk, Nat.add_sub_cancel_left]
      cases xs <;> rfl
    rw [List.flatMap_cons, List.length_append, hk, List.range_add, List.countP_append,
      List.countP_map, List.range_succ_eq_map, List.countP_cons, List.countP_map,
      List.countP_cons, Function.comp_def, Function.comp_def, hinside]
    simp only [hbehind]
    rw [ih fun y hy => hne y (List.mem_cons_of_mem x hy)]
    simp [blockAt, Nat.add_comm]

end Frames

end RaftMonitor.WireBytes
