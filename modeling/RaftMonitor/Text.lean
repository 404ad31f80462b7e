import Mathlib

namespace RaftMonitor

/-- A `std::string`: the characters it holds, without a terminator. One `Char` stands for one
`char`, that is one byte, of the string. -/
abbrev Text := List Char

/-- The value a number keeps when it is stored in an `int` of 32 bits. -/
def toInt32 (z : ℤ) : ℤ := z.bmod (2 ^ 32)

theorem toInt32_of_range {z : ℤ} (hl : -2 ^ 31 ≤ z) (hu : z < 2 ^ 31) : toInt32 z = z := by
  unfold toInt32
  rw [Int.bmod_eq_of_le (by norm_num; exact hl) (by norm_num; exact hu)]

def stdToString : ℤ → Text
  | .ofNat n => Nat.toDigits 10 n
  | .negSucc n => '-' :: Nat.toDigits 10 (n + 1)

@[simp] theorem stdToString_natCast (n : ℕ) : stdToString (n : ℤ) = Nat.toDigits 10 n := rfl

theorem toDigits_injective : Function.Injective (Nat.toDigits 10) := by
  intro m n h
  have hv := congrArg (fun t => Nat.ofDigitChars 10 t 0) h
  simpa using hv

theorem isDigit_of_mem_toDigits {c : Char} {n : ℕ} (h : c ∈ Nat.toDigits 10 n) : c.isDigit :=
  Nat.isDigit_of_mem_toDigits (by decide) (by decide) h

theorem minus_notMem_toDigits (n : ℕ) : '-' ∉ Nat.toDigits 10 n := by
  intro h
  exact absurd (isDigit_of_mem_toDigits h) (by decide)

theorem stdToString_injective : Function.Injective stdToString := by
  intro a b h
  cases a with
  | ofNat m =>
    cases b with
    | ofNat n => exact congrArg Int.ofNat (toDigits_injective h)
    | negSucc n =>
      have hm : '-' ∈ Nat.toDigits 10 m := by
        rw [show Nat.toDigits 10 m = _ from h]
        exact List.mem_cons_self
      exact absurd hm (minus_notMem_toDigits m)
  | negSucc m =>
    cases b with
    | ofNat n =>
      have hn : '-' ∈ Nat.toDigits 10 n := by
        rw [show Nat.toDigits 10 n = _ from h.symm]
        exact List.mem_cons_self
      exact absurd hn (minus_notMem_toDigits n)
    | negSucc n =>
      have hd := toDigits_injective (List.cons.inj h).2
      rw [show m = n by omega]

theorem stdToString_ne_nil (z : ℤ) : stdToString z ≠ [] := by
  cases z with
  | ofNat n => exact Nat.toDigits_ne_nil
  | negSucc n => exact List.cons_ne_nil _ _

theorem notMem_stdToString {c : Char} (hd : c.isDigit = false) (hm : c ≠ '-') (z : ℤ) :
    c ∉ stdToString z := by
  intro h
  cases z with
  | ofNat n => simpa [hd] using isDigit_of_mem_toDigits h
  | negSucc n =>
    rcases List.mem_cons.mp h with hc | hc
    · exact hm hc
    · simpa [hd] using isDigit_of_mem_toDigits hc

theorem mem_stdToString {c : Char} {z : ℤ} (h : c ∈ stdToString z) : c.isDigit ∨ c = '-' := by
  by_contra hc
  rw [not_or] at hc
  exact notMem_stdToString (Bool.eq_false_iff.mpr hc.1) hc.2 z h

def isspace (c : Char) : Bool := c ∈ [' ', '\n', '\t', '\x0b', '\x0d', '\x0c']

/-- The value of `strtol` before it is cut to a machine word: white space, one sign, digits. -/
def strtolValue (t : Text) : ℤ :=
  match t.dropWhile isspace with
  | '-' :: r => -(Nat.ofDigitChars 10 (r.takeWhile Char.isDigit) 0 : ℤ)
  | '+' :: r => (Nat.ofDigitChars 10 (r.takeWhile Char.isDigit) 0 : ℤ)
  | r => (Nat.ofDigitChars 10 (r.takeWhile Char.isDigit) 0 : ℤ)

/-- `atol`, which is `strtol`: out of range values saturate. -/
def atol (t : Text) : ℤ := max (-2 ^ 63) (min (strtolValue t) (2 ^ 63 - 1))

def atoi (t : Text) : ℤ := toInt32 (atol t)

theorem isspace_of_isDigit {c : Char} (h : c.isDigit) : isspace c = false := by
  have hall : ∀ d ∈ [' ', '\n', '\t', '\x0b', '\x0d', '\x0c'], d.isDigit = false := by simp
  refine decide_eq_false fun hm => ?_
  simp [hall c hm] at h

theorem strtolValue_toDigits (n : ℕ) : strtolValue (Nat.toDigits 10 n) = n := by
  have hd : ∀ c ∈ Nat.toDigits 10 n, c.isDigit := fun c hc => isDigit_of_mem_toDigits hc
  have hne : Nat.toDigits 10 n ≠ [] := Nat.toDigits_ne_nil
  have hval := Nat.ofDigitChars_ten_toDigits (n := n)
  generalize Nat.toDigits 10 n = t at hd hne hval
  obtain ⟨c, r, rfl⟩ := List.exists_cons_of_ne_nil hne
  have hc : c.isDigit := hd c List.mem_cons_self
  have htake : (c :: r).takeWhile Char.isDigit = c :: r := List.takeWhile_eq_self_iff.mpr hd
  unfold strtolValue
  rw [List.dropWhile_cons_of_neg (by simp [isspace_of_isDigit hc])]
  split
  · simp_all
  · simp_all
  · rw [htake, hval]

theorem atol_toDigits {n : ℕ} (h : n < 2 ^ 63) : atol (Nat.toDigits 10 n) = n := by
  unfold atol
  rw [strtolValue_toDigits, min_eq_left (by omega), max_eq_right (by omega)]

theorem atoi_toDigits {n : ℕ} (h : n < 2 ^ 31) : atoi (Nat.toDigits 10 n) = n := by
  unfold atoi
  rw [atol_toDigits (by omega)]
  exact toInt32_of_range (by omega) (by omega)

def CInt := { z : ℤ // -2 ^ 31 ≤ z ∧ z < 2 ^ 31 }
  deriving DecidableEq, Repr

inductive ConversionError
  | invalidArgument
  | outOfRange
  deriving DecidableEq, Repr

def hasNumber (t : Text) : Bool :=
  match t.dropWhile isspace with
  | '-' :: r => r.head?.any Char.isDigit
  | '+' :: r => r.head?.any Char.isDigit
  | r => r.head?.any Char.isDigit

/-- `std::stoi`, which also refuses what `strtol` would cut. -/
def stoi (t : Text) : Except ConversionError CInt :=
  if hasNumber t then
    if h : -2 ^ 31 ≤ strtolValue t ∧ strtolValue t < 2 ^ 31 then .ok ⟨strtolValue t, h⟩
    else .error .outOfRange
  else .error .invalidArgument

theorem strtolValue_stdToString (z : ℤ) : strtolValue (stdToString z) = z := by
  cases z with
  | ofNat n => exact strtolValue_toDigits n
  | negSucc n =>
    have hd : ∀ c ∈ Nat.toDigits 10 (n + 1), c.isDigit := fun c hc => isDigit_of_mem_toDigits hc
    have htake : (Nat.toDigits 10 (n + 1)).takeWhile Char.isDigit = Nat.toDigits 10 (n + 1) :=
      List.takeWhile_eq_self_iff.mpr hd
    have hminus : isspace '-' = false := by decide
    unfold strtolValue stdToString
    rw [List.dropWhile_cons_of_neg (by simp [hminus])]
    change -(Nat.ofDigitChars 10 ((Nat.toDigits 10 (n + 1)).takeWhile Char.isDigit) 0 : ℤ) = _
    rw [htake, Nat.ofDigitChars_ten_toDigits]
    omega

theorem toDigits_eq_cons (n : ℕ) : ∃ c r, Nat.toDigits 10 n = c :: r ∧ c.isDigit := by
  obtain ⟨c, r, heq⟩ := List.exists_cons_of_ne_nil (Nat.toDigits_ne_nil (n := n) (b := 10))
  refine ⟨c, r, heq, isDigit_of_mem_toDigits (n := n) ?_⟩
  rw [heq]
  exact List.mem_cons_self

theorem hasNumber_stdToString (z : ℤ) : hasNumber (stdToString z) = true := by
  cases z with
  | ofNat n =>
    obtain ⟨c, r, heq, hc⟩ := toDigits_eq_cons n
    have htext : stdToString (.ofNat n) = c :: r := heq
    unfold hasNumber
    rw [htext, List.dropWhile_cons_of_neg (by simp [isspace_of_isDigit hc])]
    split
    · simp_all
    · simp_all
    · exact hc
  | negSucc n =>
    obtain ⟨c, r, heq, hc⟩ := toDigits_eq_cons (n + 1)
    have hminus : isspace '-' = false := by decide
    unfold hasNumber stdToString
    rw [List.dropWhile_cons_of_neg (by simp [hminus]), heq]
    exact hc

theorem stoi_stdToString (z : CInt) : stoi (stdToString z.1) = .ok z := by
  have hrange : -2 ^ 31 ≤ strtolValue (stdToString z.1) ∧
      strtolValue (stdToString z.1) < 2 ^ 31 := by
    rw [strtolValue_stdToString]
    exact z.2
  unfold stoi
  rw [if_pos (hasNumber_stdToString z.1), dif_pos hrange]
  exact congrArg Except.ok (Subtype.ext (strtolValue_stdToString z.1))

/-- All the tokens that successive calls of `strtok` with one delimiter return. -/
def strtok (d : Char) (t : Text) : List Text := (t.splitOn d).filter fun p => !p.isEmpty

theorem strtok_append_cons {d : Char} {a : Text} (ha : d ∉ a) (hne : a ≠ []) (t : Text) :
    strtok d (a ++ d :: t) = a :: strtok d t := by
  unfold strtok
  rw [List.splitOn_append_cons_self_of_not_mem ha, List.filter_cons_of_pos (by simpa using hne)]

theorem notMem_of_mem_splitOn {d : Char} {t w : Text} (h : w ∈ t.splitOn d) : d ∉ w := by
  unfold List.splitOn at h
  induction t generalizing w with
  | nil =>
    rw [List.splitOnP_nil, List.mem_singleton] at h
    exact h ▸ List.not_mem_nil
  | cons c t ih =>
    rw [List.splitOnP_cons_eq_if_modifyHead] at h
    split_ifs at h with hc
    · rcases List.mem_cons.mp h with rfl | h
      · exact List.not_mem_nil
      · exact ih h
    · cases hs : t.splitOnP (· == d) with
      | nil => simp [hs] at h
      | cons v vs =>
        rw [hs] at h ih
        rcases List.mem_cons.mp h with rfl | h
        · have hv := ih List.mem_cons_self
          simp only [beq_iff_eq] at hc
          exact fun hd => (List.mem_cons.mp hd).elim (fun hd => hc hd.symm) hv
        · exact ih (List.mem_cons_of_mem _ h)

theorem strtok_of_notMem {d : Char} {a : Text} (ha : d ∉ a) (hne : a ≠ []) :
    strtok d a = [a] := by
  unfold strtok
  rw [List.splitOn_eq_singleton ha]
  simpa using hne

theorem strtok_words {d : Char} {w : Text} {ws : List Text} (hd : ∀ v ∈ w :: ws, d ∉ v)
    (hne : ∀ v ∈ w :: ws, v ≠ []) :
    strtok d (w ++ (ws.map fun v => [d] ++ v).flatten) = w :: ws := by
  have hw := hd w (List.mem_cons_self ..)
  have hw' := hne w (List.mem_cons_self ..)
  induction ws generalizing w with
  | nil => simpa using strtok_of_notMem hw hw'
  | cons v ws ih =>
    have hv := List.mem_cons_of_mem w (List.mem_cons_self (a := v) (l := ws))
    rw [List.map_cons, List.flatten_cons, List.append_assoc, List.singleton_append,
      strtok_append_cons hw hw']
    congr 1
    exact ih (fun u hu => hd u (List.mem_cons_of_mem w hu))
      (fun u hu => hne u (List.mem_cons_of_mem w hu)) (hd v hv) (hne v hv)

/-- `std::string::find` from position 0; `none` is `npos`. -/
def find (needle : Text) : Text → Option ℕ
  | [] => if needle.isEmpty then some 0 else none
  | c :: t => if needle.isPrefixOf (c :: t) then some 0 else (find needle t).map (· + 1)

theorem find_singleton_append {d : Char} {a : Text} (ha : d ∉ a) (t : Text) :
    find [d] (a ++ d :: t) = some a.length := by
  induction a with
  | nil => simp [find]
  | cons c a ih =>
    rw [List.mem_cons, not_or] at ha
    obtain ⟨hc, ha⟩ := ha
    simp [find, hc, ih ha]

theorem append_cons_inj {d : Char} {a a' t t' : Text} (ha : d ∉ a) (ha' : d ∉ a')
    (h : a ++ d :: t = a' ++ d :: t') : a = a' ∧ t = t' := by
  have hfind := find_singleton_append ha t
  rw [h, find_singleton_append ha' t'] at hfind
  obtain ⟨hleft, hright⟩ := List.append_inj h (Option.some.inj hfind).symm
  exact ⟨hleft, (List.cons.inj hright).2⟩

theorem find_singleton_of_notMem {d : Char} {t : Text} (h : d ∉ t) : find [d] t = none := by
  induction t with
  | nil => rfl
  | cons c t ih =>
    rw [List.mem_cons, not_or] at h
    obtain ⟨hc, ht⟩ := h
    simp [find, hc, ih ht]

theorem find_isSome_iff {needle t : Text} : (find needle t).isSome ↔ needle <:+: t := by
  induction t with
  | nil => simp [find]
  | cons c t ih =>
    rw [List.infix_cons_iff, ← ih, find]
    split_ifs with hp
    · simp [List.isPrefixOf_iff_prefix.mp hp]
    · rw [Option.isSome_map, ← List.isPrefixOf_iff_prefix]
      simp [hp]

/-- A chain of searches: the first pattern that occurs in the text decides. -/
def firstMatch {τ : Type*} (default : τ) : List (Text × τ) → Text → τ
  | [], _ => default
  | (pattern, x) :: rules, t =>
    if (find pattern t).isSome then x else firstMatch default rules t

/-- Rules that stand for something else come to a result only if none of them applies. -/
theorem firstMatch_append_eq_iff {τ : Type*} {default x : τ} {before after : List (Text × τ)}
    {t : Text} (hx : x ∉ before.map Prod.snd) :
    firstMatch default (before ++ after) t = x ↔
      (∀ r ∈ before, ¬ r.1 <:+: t) ∧ firstMatch default after t = x := by
  induction before with
  | nil => simp
  | cons r before ih =>
    rw [List.map_cons, List.mem_cons, not_or] at hx
    rw [List.cons_append, firstMatch, List.forall_mem_cons, and_assoc, ← ih hx.2]
    split_ifs with hr
    · have hoccurs : r.1 <:+: t := find_isSome_iff.mp hr
      simp [hoccurs, Ne.symm hx.1]
    · have hoccurs : ¬ r.1 <:+: t := mt find_isSome_iff.mpr hr
      simp [hoccurs]

theorem firstMatch_cons_of_occurs {τ : Type*} {pattern t : Text} (h : pattern <:+: t)
    (default x : τ) (rules : List (Text × τ)) :
    firstMatch default ((pattern, x) :: rules) t = x := if_pos (find_isSome_iff.mpr h)

theorem firstMatch_cons_of_absent {τ : Type*} {pattern t : Text} (h : ¬ pattern <:+: t)
    (default x : τ) (rules : List (Text × τ)) :
    firstMatch default ((pattern, x) :: rules) t = firstMatch default rules t :=
  if_neg (mt find_isSome_iff.mp h)

/-- The items `std::getline` yields one after the other until it fails. A text that
ends in the delimiter has no further, empty item. -/
def getlines (d : Char) (t : Text) : List Text :=
  let ps := t.splitOn d
  if ps.getLast? = some [] then ps.dropLast else ps

theorem getlines_intercalate {d : Char} {ps : List Text} (hne : ps ≠ [])
    (hd : ∀ p ∈ ps, d ∉ p) (hlast : ps.getLast? ≠ some []) :
    getlines d ([d].intercalate ps) = ps := by
  unfold getlines
  rw [List.splitOn_intercalate d hd hne]
  exact if_neg hlast

theorem getlines_flatMap {d : Char} {ps : List Text} (hd : ∀ p ∈ ps, d ∉ p) :
    getlines d (ps.flatMap fun p => p ++ [d]) = ps := by
  have hs : (ps.flatMap fun p => p ++ [d]).splitOn d = ps ++ [[]] := by
    induction ps with
    | nil => simp
    | cons p ps ih =>
      rw [List.flatMap_cons, List.append_assoc, List.singleton_append,
        List.splitOn_append_cons_self_of_not_mem (hd p List.mem_cons_self),
        ih fun q hq => hd q (List.mem_cons_of_mem p hq), List.cons_append]
  simp [getlines, hs]

/-- The body of a loop that puts the separator before every item but the first; the flag says
whether the next item is the first. -/
def joinStep (sep : Text) (acc : Text × Bool) (item : Text) : Text × Bool :=
  ((if acc.2 then acc.1 else acc.1 ++ sep) ++ item, false)

theorem foldl_joinStep_false (sep t : Text) (items : List Text) :
    (items.foldl (joinStep sep) (t, false)).1 = t ++ items.flatMap fun item => sep ++ item := by
  induction items generalizing t with
  | nil => simp
  | cons item items ih => simp [joinStep, ih]

theorem intercalate_cons_eq (sep item : Text) (items : List Text) :
    sep.intercalate (item :: items) = item ++ items.flatMap fun item => sep ++ item := by
  induction items generalizing item with
  | nil => simp [List.intercalate]
  | cons next items ih => rw [List.intercalate_cons_cons, ih]; simp

theorem mem_intercalate {sep : Text} {items : List Text} {c : Char}
    (h : c ∈ sep.intercalate items) : c ∈ sep ∨ ∃ item ∈ items, c ∈ item := by
  cases items with
  | nil => simp [List.intercalate] at h
  | cons item items =>
    rw [intercalate_cons_eq, List.mem_append, List.mem_flatMap] at h
    rcases h with h | ⟨next, hnext, h⟩
    · exact Or.inr ⟨item, List.mem_cons_self .., h⟩
    · exact (List.mem_append.mp h).imp_right fun h => ⟨next, List.mem_cons_of_mem _ hnext, h⟩

theorem foldl_joinStep (sep : Text) (items : List Text) :
    (items.foldl (joinStep sep) ([], true)).1 = sep.intercalate items := by
  cases items with
  | nil => rfl
  | cons item items =>
    rw [List.foldl_cons, intercalate_cons_eq]
    exact foldl_joinStep_false sep item items

end RaftMonitor
