import RaftMonitor.Text

namespace RaftMonitor

/-- `t.find(needle, pos)`. As argument and as result `none` is `npos`, the largest `size_t`,
which is larger than every position in a string. -/
def findFrom (needle t : Text) : Option ℕ → Option ℕ
  | none => none
  | some pos => if pos ≤ t.length then (find needle (t.drop pos)).map (pos + ·) else none

/-- `p + 1`, which is 0 for `npos`. -/
def posSucc : Option ℕ → ℕ
  | none => 0
  | some p => p + 1

/-- `(q - p) - 1` in the arithmetic of `size_t`; `none` is a number that no length reaches. -/
def posBetween : Option ℕ → Option ℕ → Option ℕ
  | some p, some q => if p < q then some (q - p - 1) else none
  | none, some q => some q
  | _, none => none

theorem findFrom_char {d : Char} {b : Text} (hd : d ∉ b) (a t : Text) :
    findFrom [d] (a ++ (b ++ d :: t)) (some a.length) = some (a.length + b.length) := by
  simp [findFrom, find_singleton_append hd]

theorem split_of_find {needle t : Text} {p : ℕ} (h : find needle t = some p) :
    ∃ a b, t = a ++ (needle ++ b) ∧ a.length = p := by
  induction t generalizing p with
  | nil =>
    rw [find] at h
    split_ifs at h with hneedle
    exact ⟨[], [], by simpa using hneedle, by simpa using h⟩
  | cons c t ih =>
    rw [find] at h
    split_ifs at h with hprefix
    · obtain ⟨b, hb⟩ := List.isPrefixOf_iff_prefix.mp hprefix
      exact ⟨[], b, hb.symm, by simpa using h⟩
    · obtain ⟨q, hq, rfl⟩ := Option.map_eq_some_iff.mp h
      obtain ⟨a, b, rfl, rfl⟩ := ih hq
      exact ⟨c :: a, b, rfl, rfl⟩

theorem le_of_find {needle a b : Text} {p : ℕ} (h : find needle (a ++ (needle ++ b)) = some p) :
    p ≤ a.length := by
  induction a generalizing p with
  | nil =>
    have hzero : find needle (needle ++ b) = some 0 := by
      cases hneedle : needle ++ b with
      | nil => simp [find, (List.append_eq_nil_iff.mp hneedle).1]
      | cons c t =>
        rw [find, if_pos]
        rw [← hneedle, List.isPrefixOf_iff_prefix]
        exact List.prefix_append needle b
    rw [List.nil_append, hzero] at h
    exact (Option.some.inj h).ge
  | cons c a ih =>
    rw [List.cons_append, find] at h
    rw [List.length_cons]
    split_ifs at h with hprefix
    · have hp := Option.some.inj h
      omega
    · obtain ⟨q, hq, rfl⟩ := Option.map_eq_some_iff.mp h
      have hle := ih hq
      omega

theorem suffix_of_find {needle a b a' b' : Text}
    (h : find needle (a ++ (needle ++ b)) = some a.length)
    (heq : a ++ (needle ++ b) = a' ++ (needle ++ b')) : b' <:+ b := by
  have hle : a.length ≤ a'.length := le_of_find (heq ▸ h)
  have hb : (a ++ (needle ++ b)).drop (a.length + needle.length) = b := by
    rw [← List.append_assoc, ← List.length_append, List.drop_left]
  have hb' : (a ++ (needle ++ b)).drop (a'.length + needle.length) = b' := by
    rw [heq, ← List.append_assoc, ← List.length_append, List.drop_left]
  have hsuffix := List.drop_suffix_drop_left (a ++ (needle ++ b))
    (Nat.add_le_add_right hle needle.length)
  rwa [hb, hb'] at hsuffix

theorem find_append_of_some {needle a : Text} {p : ℕ} (h : find needle a = some p) (t : Text) :
    find needle (a ++ t) = some p := by
  induction a generalizing p with
  | nil =>
    have hneedle : needle = [] := by
      by_contra hne
      simp [find, hne] at h
    have hp : p = 0 := by
      rw [hneedle] at h
      simpa [find, eq_comm] using h
    rw [hneedle, hp]
    cases t <;> rfl
  | cons c a ih =>
    rw [find] at h
    rw [List.cons_append, find]
    split_ifs at h with hprefix
    · rw [if_pos, h]
      rw [List.isPrefixOf_iff_prefix] at hprefix ⊢
      exact hprefix.trans (List.prefix_append (c :: a) t)
    · obtain ⟨q, hq, rfl⟩ := Option.map_eq_some_iff.mp h
      rw [if_neg, ih hq, Option.map_some]
      -- the needle fits into `a`, so it cannot reach into the second part
      intro hlong
      apply hprefix
      have hfits : needle.length ≤ a.length :=
        (find_isSome_iff.mp (Option.isSome_iff_exists.mpr ⟨q, hq⟩)).length_le
      rw [List.isPrefixOf_iff_prefix] at hlong ⊢
      apply List.prefix_of_prefix_length_le hlong (List.prefix_append (c :: a) t)
      rw [List.length_cons]
      omega

theorem find_append_cons {needle a : Text} {c : Char} (hne : needle ≠ []) (hc : c ∉ needle)
    (h : find needle a = none) (t : Text) :
    find needle (a ++ c :: t) = (find needle t).map (· + (a.length + 1)) := by
  induction a with
  | nil =>
    rw [List.nil_append, find, if_neg]
    · rfl
    · intro hprefix
      obtain ⟨d, needle, rfl⟩ := List.exists_cons_of_ne_nil hne
      simp_all
  | cons d a ih =>
    rw [find] at h
    split_ifs at h with hprefix
    rw [List.cons_append, find, if_neg, ih (Option.map_eq_none_iff.mp h), Option.map_map]
    · rfl
    · intro hlong
      rw [List.isPrefixOf_iff_prefix] at hlong
      by_cases hfits : needle.length ≤ (d :: a).length
      · apply hprefix
        rw [List.isPrefixOf_iff_prefix]
        exact List.prefix_of_prefix_length_le hlong (List.prefix_append (d :: a) (c :: t)) hfits
      · have hpart : (d :: a) ++ [c] <+: needle := by
          apply List.prefix_of_prefix_length_le _ hlong
          · rw [List.length_append, List.length_singleton]
            omega
          · exact ⟨t, by simp⟩
        exact hc (hpart.subset (by simp))

/-- How a call can fail: with an exception, or by leaving a buffer. -/
inductive Fault
  | outOfRange
  | undefined
  deriving DecidableEq, Repr

def copy (t : Text) (buf : List Char) (n : Option ℕ) (pos : ℕ) : Except Fault (List Char) :=
  if t.length < pos then .error .outOfRange
  else
    let rest := t.drop pos
    let chars := rest.take (n.getD rest.length)
    if buf.length < chars.length then .error .undefined
    else .ok (chars ++ buf.drop chars.length)

def upToZero (memory : List Char) : Text := memory.takeWhile (· ≠ '\x00')

def cString (buf : List Char) : Except Fault Text :=
  if '\x00' ∈ buf then .ok (upToZero buf) else .error .undefined

theorem upToZero_append {a : Text} (h : '\x00' ∉ a) (b : List Char) :
    upToZero (a ++ b) = a ++ upToZero b := by
  apply List.takeWhile_append_of_pos
  intro c hc
  apply decide_eq_true
  rintro rfl
  exact h hc

theorem upToZero_replicate (k : ℕ) : upToZero (List.replicate k '\x00') = [] := by
  simp [upToZero]

def initialised (x : Char) (size : ℕ) : List Char := x :: List.replicate (size - 1) '\x00'

theorem cString_initialised {x : Char} {size : ℕ} {v : Text} (hx : x ≠ '\x00')
    (hzero : '\x00' ∉ v) (hlen : v.length + 1 ≤ size) (hsize : 2 ≤ size) :
    cString (v ++ (initialised x size).drop v.length) = .ok (if v = [] then [x] else v) := by
  cases v with
  | nil =>
    have hroom : size - 1 ≠ 0 := by omega
    have hdigit : upToZero ([x] ++ List.replicate (size - 1) '\x00') = [x] := by
      rw [upToZero_append (by simpa using hx.symm), upToZero_replicate, List.append_nil]
    rw [List.nil_append, List.length_nil, List.drop_zero, if_pos rfl, cString, if_pos]
    · exact congrArg _ hdigit
    · simp [initialised, hroom]
  | cons c v =>
    rw [List.length_cons] at hlen
    have hroom : size - 1 - v.length ≠ 0 := by omega
    have hdrop : (initialised x size).drop (c :: v).length =
        List.replicate (size - 1 - v.length) '\x00' := by simp [initialised]
    rw [hdrop, cString, if_pos (by simp [hroom]), upToZero_append hzero, upToZero_replicate]
    simp

/-- One call of `fgets`: what it reads, and the rest of the stream. -/
def fgets (size : ℕ) (t : Text) : Text × Text :=
  t.splitAt (min (size - 1) ((t.takeWhile (· ≠ '\n')).length + 1))

/-- All that successive calls read, of which there are at most as many as characters. -/
def fgetsAll (size : ℕ) : ℕ → Text → List Text
  | 0, _ => []
  | _ + 1, [] => []
  | fuel + 1, c :: t => (fgets size (c :: t)).1 :: fgetsAll size fuel (fgets size (c :: t)).2

/-- A line is cut neither before a newline nor before the buffer is full. -/
theorem prefix_fgets {size : ℕ} {a t : Text} (hline : '\n' ∉ a) (hsize : a.length < size) :
    a <+: (fgets size (a ++ t)).1 := by
  have hkeep : (a ++ t).takeWhile (· ≠ '\n') = a ++ t.takeWhile (· ≠ '\n') := by
    apply List.takeWhile_append_of_pos
    intro c hc
    apply decide_eq_true
    rintro rfl
    exact hline hc
  rw [fgets, List.splitAt_eq, hkeep, List.length_append]
  apply List.prefix_take_iff.mpr
  refine ⟨List.prefix_append a t, ?_⟩
  omega

theorem flatten_fgetsAll {size fuel : ℕ} {t : Text} (hsize : 2 ≤ size) (hfuel : t.length ≤ fuel) :
    (fgetsAll size fuel t).flatten = t := by
  induction fuel generalizing t with
  | zero =>
    have hnil : t = [] := List.eq_nil_of_length_eq_zero (Nat.le_zero.mp hfuel)
    rw [hnil]
    rfl
  | succ fuel ih =>
    cases t with
    | nil => rfl
    | cons c t =>
      rw [fgetsAll, List.flatten_cons, ih]
      · rw [fgets, List.splitAt_eq]
        exact List.take_append_drop _ _
      · rw [fgets, List.splitAt_eq, List.length_drop]
        omega

theorem flatten_upToZero {lines : List Text} {a t : Text} (hzero : '\x00' ∉ a)
    (h : lines.flatten = a ++ t) : ∃ t', (lines.map upToZero).flatten = a ++ t' := by
  induction lines generalizing a with
  | nil =>
    have ha : a = [] := (List.append_eq_nil_iff.mp h.symm).1
    exact ⟨[], by simp [ha]⟩
  | cons l lines ih =>
    rw [List.flatten_cons] at h
    rcases List.append_eq_append_iff.mp h with ⟨b, rfl, hrest⟩ | ⟨b, rfl, hrest⟩
    · -- the line ends before `a` does
      rw [List.mem_append, not_or] at hzero
      obtain ⟨t', ht'⟩ := ih hzero.2 hrest
      refine ⟨t', ?_⟩
      have hl := upToZero_append hzero.1 []
      rw [List.append_nil] at hl
      rw [List.map_cons, List.flatten_cons, ht', hl]
      simp [upToZero]
    · refine ⟨upToZero b ++ (lines.map upToZero).flatten, ?_⟩
      rw [List.map_cons, List.flatten_cons, upToZero_append hzero, List.append_assoc]

end RaftMonitor
