import RaftMonitor.CStrings
import RaftMonitor.ClusterConfig

namespace RaftMonitor.Etcd

def getRequestURL (path leaderUrl : Text) : Text := leaderUrl ++ "/v2/keys".toList ++ path

/-- `createClient` sets `cur_leader` to the public address of the first node. -/
def curLeader (c : ClusterConfig) : Text := pubAddr 1 c.clusterPort

/-- `extractFirstValue`. The buffer holds the digit 0 and zeros before the copy. -/
def extractFirstValue (output : Text) : Except Fault Text := do
  let loc := find "value".toList output
  let cloc := findFrom ":".toList output loc
  let q1loc := findFrom "\"".toList output cloc
  let q2loc := findFrom "\"".toList output (some (posSucc q1loc))
  let valbuf ← copy output (initialised '0' 512) (posBetween q1loc q2loc) (posSucc q1loc)
  cString valbuf

/-- What a shell command prints; and what the array `atype` and the memory behind it hold when
a line is handled, given by the line's number. -/
structure Shell where
  popen : Text → Text
  stack : ℕ → Text

structure Answer where
  res : Text
  atypeGood : Bool

/-- `ats`: up to `n` characters behind the first colon are copied into `atype`, which is read as
a string although nothing puts a zero behind them. -/
def readAction (ln : Text) (n : ℕ) (stack : Text) : Text :=
  let chars := (ln.drop (posSucc (find ":".toList ln))).take n
  upToZero (chars ++ stack.drop chars.length)

/-- The body of the loops; `readFile` and `writeFile` differ in the action they look for and in
the number of characters they copy. -/
def readLine (action : Text) (n : ℕ) (stack : ℕ → Text) (r : Answer) (line : Text × ℕ) : Answer :=
  let ln := upToZero line.1
  let r := { r with res := r.res ++ ln }
  if !r.atypeGood && (find "action".toList ln).isSome then
    { r with atypeGood := (find action (readAction ln n (stack line.2))).isSome }
  else r

def request (sh : Shell) (cmd action : Text) (n : ℕ) : Answer :=
  let output := sh.popen cmd
  (fgetsAll 512 output.length output).zipIdx.foldl (readLine action n sh.stack) ⟨[], false⟩

def writeCommand (curLeader path contents : Text) : Text :=
  "curl -L http://".toList ++ getRequestURL path curLeader ++ " -XPUT -d value=".toList ++ contents

def readCommand (curLeader path : Text) : Text :=
  "curl -L http://".toList ++ getRequestURL path curLeader

def writeFile (sh : Shell) (curLeader path contents : Text) : Except Fault (Bool × List Text) :=
  let cmd := writeCommand curLeader path contents
  let r := request sh cmd "\"set\"".toList 5
  let console := ["writing: ".toList ++ cmd,
    "agood: ".toList ++ if r.atypeGood then ['1'] else ['0']]
  if r.atypeGood then do
    let val ← extractFirstValue r.res
    return (val = contents, console ++ ["Val: ".toList ++ val])
  else return (false, console)

def readFile (sh : Shell) (curLeader path : Text) : Except Fault (Text × List Text) :=
  let cmd := readCommand curLeader path
  let r := request sh cmd "\"get\"".toList 32
  let console := ["reading: ".toList ++ cmd]
  if r.atypeGood then do
    let val ← extractFirstValue r.res
    return (val, console)
  else return ([], console)

theorem extractFirstValue_eq {output a b c v t : Text}
    (hsplit : output = a ++ (b ++ ':' :: (c ++ '"' :: (v ++ '"' :: t))))
    (hvalue : find "value".toList output = some a.length) (hb : ':' ∉ b) (hc : '"' ∉ c)
    (hv : '"' ∉ v) (hzero : '\x00' ∉ v) (hlen : v.length ≤ 511) :
    extractFirstValue output = .ok (if v = [] then ['0'] else v) := by
  have hcloc : findFrom ":".toList output (some a.length) = some (a.length + b.length) := by
    rw [hsplit]
    exact findFrom_char hb a _
  have hq1loc : findFrom "\"".toList output (some (a.length + b.length)) =
      some (a.length + b.length + (c.length + 1)) := by
    have hnot : '"' ∉ ':' :: c := by simp [hc]
    have hout : output = (a ++ b) ++ (':' :: c ++ '"' :: (v ++ '"' :: t)) := by simp [hsplit]
    rw [hout, ← List.length_append]
    exact findFrom_char hnot (a ++ b) _
  -- all that precedes the value
  have hbefore : a.length + b.length + (c.length + 1) + 1 =
      (a ++ (b ++ ':' :: (c ++ ['"']))).length := by
    simp
    omega
  have hout : output = (a ++ (b ++ ':' :: (c ++ ['"']))) ++ (v ++ '"' :: t) := by simp [hsplit]
  have hq2loc : findFrom "\"".toList output (some (a.length + b.length + (c.length + 1) + 1)) =
      some (a.length + b.length + (c.length + 1) + 1 + v.length) := by
    rw [hbefore, hout]
    exact findFrom_char hv _ t
  have hcopy : copy output (initialised '0' 512) (some v.length)
      (a.length + b.length + (c.length + 1) + 1) =
        .ok (v ++ (initialised '0' 512).drop v.length) := by
    have hroom : ¬ (initialised '0' 512).length < v.length := by
      simp only [initialised, List.length_cons, List.length_replicate]
      omega
    rw [hbefore, hout, copy, if_neg (by simp), List.drop_left]
    simp [hroom]
  have hcount : posBetween (some (a.length + b.length + (c.length + 1)))
      (some (a.length + b.length + (c.length + 1) + 1 + v.length)) = some v.length := by
    rw [posBetween, if_pos (by omega)]
    congr 1
    omega
  have hsteps : extractFirstValue output = (copy output (initialised '0' 512) (some v.length)
      (a.length + b.length + (c.length + 1) + 1)).bind cString := by
    dsimp only [extractFirstValue]
    rw [hvalue, hcloc, hq1loc, posSucc, hq2loc, hcount]
    rfl
  rw [hsteps, hcopy]
  exact cString_initialised (by decide) hzero (by omega) (by decide)

inductive Action
  | set
  | get
  deriving DecidableEq, Repr

def Action.text : Action → Text
  | .set => "set".toList
  | .get => "get".toList

def Unescaped (t : Text) : Prop := ∀ c ∈ t, c ≠ '"' ∧ c ≠ '\\' ∧ 32 ≤ c.toNat

theorem Unescaped.notMem {t : Text} (h : Unescaped t) {c : Char} (hc : c = '"' ∨ c.toNat < 32) :
    c ∉ t := by
  intro hmem
  have hplain := h c hmem
  rcases hc with hc | hc
  · exact hplain.1 hc
  · omega

def replyHead (action : Action) : Text :=
  "\x7b\"action\":\"".toList ++ action.text ++ "\",\"node\":\x7b\"key\":".toList

/-- A reply to a request for a key, up to the end of the value and with any remainder. -/
def reply (action : Action) (k v t : Text) : Text :=
  replyHead action ++ '"' :: (k ++ '"' :: (",\"value\":\"".toList ++ (v ++ '"' :: t)))

def Misleading (k : Text) : Prop := ∃ a b, k = a ++ ("value".toList ++ b) ∧ ':' ∈ b

/-- The value can be told from a reply: it is not empty; and a misleading key makes the client
take the comma behind the key for the value. -/
def Readable (k v : Text) : Prop := v ≠ [] ∧ (Misleading k → v = [','])

/-- The verdict of `writeFile` on a reply is right: the value can be told, or the contents are
neither the value nor what is taken for it. -/
def Judged (k v contents : Text) : Prop :=
  Readable k v ∨
    contents ≠ v ∧ (Misleading k → contents ≠ [',']) ∧ (¬ Misleading k → contents ≠ ['0'])

theorem find_value_reply (action : Action) (k v t : Text) :
    find "value".toList (reply action k v t) =
      (find "value".toList (k ++ '"' :: (",\"value\":\"".toList ++ (v ++ '"' :: t)))).map
        (· + ((replyHead action).length + 1)) := by
  apply find_append_cons
  · decide
  · decide
  · cases action <;> decide

theorem extractFirstValue_of_misleading {k : Text} (hk : Unescaped k) (h : Misleading k)
    (action : Action) (v t : Text) : extractFirstValue (reply action k v t) = .ok [','] := by
  obtain ⟨a', b', hk', hcolon⟩ := h
  have hsome : (find "value".toList k).isSome := by
    apply find_isSome_iff.mpr
    exact ⟨a', b', by rw [hk', List.append_assoc]⟩
  obtain ⟨p, hp⟩ := Option.isSome_iff_exists.mp hsome
  obtain ⟨a, b, rfl, rfl⟩ := split_of_find hp
  have hb : ':' ∈ b := (suffix_of_find hp hk').subset hcolon
  obtain ⟨b₁, b₂, rfl, hb₁⟩ := List.eq_append_cons_of_mem hb
  have hquote : '"' ∉ b₂ := by
    intro hmem
    have hnot : '"' ∉ a ++ ("value".toList ++ (b₁ ++ ':' :: b₂)) := hk.notMem (Or.inl rfl)
    apply hnot
    simp [hmem]
  apply extractFirstValue_eq (a := replyHead action ++ '"' :: a) (b := "value".toList ++ b₁)
    (c := b₂) (v := [',']) (t := "value\":\"".toList ++ (v ++ '"' :: t)) _ _ _ hquote
  · decide
  · decide
  · decide
  · simp [reply]
  · rw [find_value_reply, find_append_of_some hp]
    simp
    omega
  · simp [hb₁]

theorem extractFirstValue_of_clear {k v : Text} (h : ¬ Misleading k) (hv : Unescaped v)
    (hlen : v.length ≤ 511) (action : Action) (t : Text) :
    extractFirstValue (reply action k v t) = .ok (if v = [] then ['0'] else v) := by
  have hquote : '"' ∉ v := hv.notMem (Or.inl rfl)
  have hzero : '\x00' ∉ v := hv.notMem (Or.inr (by decide))
  cases hp : find "value".toList k with
  | none =>
    -- the word behind the key is the first one
    apply extractFirstValue_eq (a := replyHead action ++ '"' :: (k ++ '"' :: ",\"".toList))
      (b := "value\"".toList) (c := []) (t := t) _ _ (by decide) (by decide) hquote hzero hlen
    · simp [reply]
    · rw [find_value_reply, find_append_cons (by decide) (by decide) hp]
      have htail : find "value".toList (",\"value\":\"".toList ++ (v ++ '"' :: t)) = some 2 := by
        simp [find]
      rw [htail]
      simp
      omega
  | some p =>
    obtain ⟨a, b, rfl, rfl⟩ := split_of_find hp
    have hb : ':' ∉ b := fun hmem => h ⟨a, b, rfl, hmem⟩
    apply extractFirstValue_eq (a := replyHead action ++ '"' :: a)
      (b := "value".toList ++ (b ++ "\",\"value\"".toList)) (c := []) (t := t) _ _ _ (by decide)
      hquote hzero hlen
    · simp [reply]
    · rw [find_value_reply, find_append_of_some hp]
      simp
      omega
    · simp [hb]

theorem exists_extracted {k v : Text} (hk : Unescaped k) (hv : Unescaped v)
    (hlen : v.length ≤ 511) :
    ∃ x, (∀ action t, extractFirstValue (reply action k v t) = .ok x) ∧ (x = v ↔ Readable k v) ∧
      ∀ contents, (x = contents ↔ v = contents) ↔ Judged k v contents := by
  by_cases h : Misleading k
  · have hread : [','] = v ↔ Readable k v := by
      constructor
      · rintro rfl
        exact ⟨by simp, fun _ => rfl⟩
      · exact fun hread => (hread.2 h).symm
    refine ⟨[','], fun action t => extractFirstValue_of_misleading hk h action v t, hread, ?_⟩
    intro contents
    rw [Judged, ← hread]
    grind
  · have hread : (if v = [] then ['0'] else v) = v ↔ Readable k v := by
      constructor
      · intro hx
        refine ⟨?_, fun hmis => absurd hmis h⟩
        rintro rfl
        simp at hx
      · exact fun hread => if_neg hread.1
    refine ⟨if v = [] then ['0'] else v, extractFirstValue_of_clear h hv hlen, hread, ?_⟩
    intro contents
    rw [Judged, ← hread]
    grind

section Lines

variable {action : Text} {n : ℕ} {stack : ℕ → Text}

theorem readLine_res (r : Answer) (line : Text × ℕ) :
    (readLine action n stack r line).res = r.res ++ upToZero line.1 := by
  dsimp only [readLine]
  split_ifs <;> rfl

theorem foldl_readLine_res (lines : List (Text × ℕ)) (r : Answer) :
    (lines.foldl (readLine action n stack) r).res =
      r.res ++ ((lines.map Prod.fst).map upToZero).flatten := by
  induction lines generalizing r with
  | nil => simp
  | cons line lines ih =>
    rw [List.foldl_cons, ih, readLine_res, List.map_cons, List.map_cons, List.flatten_cons,
      List.append_assoc]

theorem foldl_readLine_good (lines : List (Text × ℕ)) {r : Answer} (h : r.atypeGood = true) :
    (lines.foldl (readLine action n stack) r).atypeGood = true := by
  induction lines generalizing r with
  | nil => exact h
  | cons line lines ih =>
    apply ih
    simp [readLine, h]

def actionHead (action : Text) : Text := "\x7b\"action\":".toList ++ action

theorem readLine_good {line : Text × ℕ} (hline : actionHead action <+: line.1)
    (hzero : '\x00' ∉ action) (hn : action.length ≤ n) (r : Answer) :
    (readLine action n stack r line).atypeGood = true := by
  obtain ⟨rest, hrest⟩ := hline
  have hhead : actionHead action = "\x7b\"action\"".toList ++ ':' :: action := rfl
  have hnot : '\x00' ∉ actionHead action := by
    intro hmem
    rcases List.mem_append.mp hmem with hmem | hmem
    · revert hmem
      decide
    · exact hzero hmem
  have hln : upToZero line.1 = "\x7b\"action\"".toList ++ ':' :: (action ++ upToZero rest) := by
    rw [← hrest, upToZero_append hnot, hhead, List.append_assoc, List.cons_append]
  have hword : (find "action".toList (upToZero line.1)).isSome := by
    apply find_isSome_iff.mpr
    rw [hln]
    exact ⟨"\x7b\"".toList, "\"".toList ++ ':' :: (action ++ upToZero rest), by simp⟩
  have hseen : (find action (readAction (upToZero line.1) n (stack line.2))).isSome := by
    apply find_isSome_iff.mpr
    have hcolon : find ":".toList (upToZero line.1) = some 9 := by
      rw [hln]
      exact find_singleton_append (by decide) _
    have hdrop : (upToZero line.1).drop 10 = action ++ upToZero rest := by
      rw [hln]
      rfl
    dsimp only [readAction]
    rw [hcolon, posSucc, hdrop, List.take_append, List.take_of_length_le hn, List.append_assoc,
      upToZero_append hzero]
    exact (List.prefix_append action _).isInfix
  dsimp only [readLine]
  split_ifs with hlook
  · exact hseen
  · rw [hword, Bool.and_true, Bool.not_eq_true', Bool.not_eq_false] at hlook
    exact hlook

end Lines

/-- All of a reply up to a zero in its remainder arrives, and its action is seen. -/
theorem request_of_reply {sh : Shell} {cmd action a t : Text} {n : ℕ}
    (hreply : sh.popen cmd = actionHead action ++ a ++ t) (hzero : '\x00' ∉ actionHead action ++ a)
    (hline : '\n' ∉ actionHead action) (hlen : (actionHead action).length < 512)
    (hn : action.length ≤ n) :
    (request sh cmd action n).atypeGood = true ∧
      ∃ t', (request sh cmd action n).res = actionHead action ++ a ++ t' := by
  dsimp only [request]
  rw [hreply]
  constructor
  · have hfirst : ∃ lines, fgetsAll 512 (actionHead action ++ a ++ t).length
        (actionHead action ++ a ++ t) = (fgets 512 (actionHead action ++ (a ++ t))).1 :: lines := by
      rw [List.append_assoc]
      exact ⟨_, rfl⟩
    obtain ⟨lines, hlines⟩ := hfirst
    rw [hlines, List.zipIdx_cons, List.foldl_cons]
    apply foldl_readLine_good
    apply readLine_good (prefix_fgets hline hlen) _ hn
    intro hmem
    exact hzero (List.mem_append_left _ (List.mem_append_right _ hmem))
  · have hsize : 2 ≤ 512 := by decide
    obtain ⟨t', ht'⟩ := flatten_upToZero hzero (flatten_fgetsAll hsize le_rfl)
    refine ⟨t', ?_⟩
    rw [foldl_readLine_res, List.zipIdx_map_fst, ht', List.nil_append]

def Action.quoted (action : Action) : Text := '"' :: (action.text ++ ['"'])

def replyBody (k v : Text) : Text :=
  ",\"node\":\x7b\"key\":\"".toList ++ (k ++ ("\",\"value\":\"".toList ++ (v ++ ['"'])))

theorem reply_eq (action : Action) (k v t : Text) :
    reply action k v t = actionHead action.quoted ++ replyBody k v ++ t := by
  unfold reply replyHead actionHead replyBody Action.quoted
  cases action <;> simp [Action.text]

theorem zero_notMem_reply {k v : Text} (hk : Unescaped k) (hv : Unescaped v) (action : Action) :
    '\x00' ∉ actionHead action.quoted ++ replyBody k v := by
  have hzk : '\x00' ∉ k := hk.notMem (Or.inr (by decide))
  have hzv : '\x00' ∉ v := hv.notMem (Or.inr (by decide))
  unfold actionHead replyBody Action.quoted
  cases action <;> simp [Action.text, hzk, hzv]

theorem request_reply {sh : Shell} {cmd k v t : Text} {action : Action} {n : ℕ}
    (h : sh.popen cmd = reply action k v t) (hk : Unescaped k) (hv : Unescaped v) (hn : 5 ≤ n) :
    (request sh cmd action.quoted n).atypeGood = true ∧
      ∃ t', (request sh cmd action.quoted n).res = reply action k v t' := by
  have hquoted : action.quoted.length = 5 := by cases action <;> rfl
  have hline : '\n' ∉ actionHead action.quoted := by cases action <;> decide
  have hlength : (actionHead action.quoted).length < 512 := by
    unfold actionHead
    rw [List.length_append, hquoted]
    decide
  rw [reply_eq] at h
  obtain ⟨hgood, t', hres⟩ := request_of_reply h (zero_notMem_reply hk hv action) hline hlength
    (hquoted.le.trans hn)
  exact ⟨hgood, t', hres.trans (reply_eq action k v t').symm⟩

theorem readFile_of_reply {sh : Shell} {curLeader path k v t x : Text}
    (h : sh.popen (readCommand curLeader path) = reply .get k v t) (hk : Unescaped k)
    (hv : Unescaped v) (hx : ∀ t, extractFirstValue (reply .get k v t) = .ok x) :
    (readFile sh curLeader path).map Prod.fst = .ok x := by
  obtain ⟨hgood, t', hres⟩ := request_reply (n := 32) h hk hv (by decide)
  have hget : Action.get.quoted = "\"get\"".toList := rfl
  rw [hget] at hgood hres
  dsimp only [readFile]
  rw [if_pos hgood, hres, hx]
  rfl

theorem writeFile_of_reply {sh : Shell} {curLeader path contents k v t x : Text}
    (h : sh.popen (writeCommand curLeader path contents) = reply .set k v t) (hk : Unescaped k)
    (hv : Unescaped v) (hx : ∀ t, extractFirstValue (reply .set k v t) = .ok x) :
    (writeFile sh curLeader path contents).map Prod.fst = .ok (decide (x = contents)) := by
  obtain ⟨hgood, t', hres⟩ := request_reply (n := 5) h hk hv le_rfl
  have hset : Action.set.quoted = "\"set\"".toList := rfl
  rw [hset] at hgood hres
  dsimp only [writeFile]
  rw [if_pos hgood, hres, hx]
  rfl

/-- Values are read back from replies, also by `readFile`, if and only if they are not empty and
the key does not mislead. The verdict of `writeFile` is wrong only where the contents are the
value or are what is taken for it. -/
theorem value_read_back_iff (k v t : Text) (hk : Unescaped k) (hv : Unescaped v)
    (hlen : v.length ≤ 511) :
    (∀ action, extractFirstValue (reply action k v t) = .ok v ↔ Readable k v) ∧
    (∀ sh curLeader path, sh.popen (readCommand curLeader path) = reply .get k v t →
      ((readFile sh curLeader path).map Prod.fst = .ok v ↔ Readable k v)) ∧
    ∀ sh curLeader path contents,
      sh.popen (writeCommand curLeader path contents) = reply .set k v t →
        ((writeFile sh curLeader path contents).map Prod.fst = .ok (decide (v = contents)) ↔
          Judged k v contents) := by
  obtain ⟨x, hx, hread, hjudged⟩ := exists_extracted hk hv hlen
  refine ⟨?_, ?_, ?_⟩
  · intro action
    rw [hx, Except.ok.injEq, hread]
  · intro sh curLeader path h
    rw [readFile_of_reply h hk hv (hx .get), Except.ok.injEq, hread]
  · intro sh curLeader path contents h
    rw [writeFile_of_reply h hk hv (hx .set), Except.ok.injEq, decide_eq_decide, hjudged]

theorem not_misleading_of_absent {k : Text} (h : ¬ "value".toList <:+: k) : ¬ Misleading k := by
  rintro ⟨a, b, rfl, -⟩
  exact h ⟨a, b, by simp⟩

def sampleShell : Shell where
  popen cmd :=
    if cmd = readCommand "192.168.2.1:4001".toList "/testfile1".toList then
      reply .get "/testfile1".toList "7".toList "\x7d\x7d".toList
    else reply .set "/testfile1".toList "7".toList "\x7d\x7d".toList
  stack _ := []

theorem testfile_read_back :
    extractFirstValue (reply .get "/testfile1".toList "7".toList "\x7d\x7d".toList) =
        .ok "7".toList ∧
      (readFile sampleShell "192.168.2.1:4001".toList "/testfile1".toList).map Prod.fst =
        .ok "7".toList ∧
      (writeFile sampleShell "192.168.2.1:4001".toList "/testfile1".toList "7".toList).map
        Prod.fst = .ok true ∧
      (writeFile sampleShell "192.168.2.1:4001".toList "/testfile1".toList "8".toList).map
        Prod.fst = .ok false := by
  have hread : Readable "/testfile1".toList "7".toList :=
    ⟨by decide, fun h => absurd h (not_misleading_of_absent (by decide))⟩
  obtain ⟨hextract, hreadFile, hwriteFile⟩ := value_read_back_iff "/testfile1".toList
    "7".toList "\x7d\x7d".toList (by simp [Unescaped]) (by simp [Unescaped]) (by decide)
  refine ⟨(hextract .get).mpr hread, (hreadFile _ _ _ rfl).mpr hread, ?_, ?_⟩
  · exact (hwriteFile _ _ _ _ rfl).mpr (Or.inl hread)
  · exact (hwriteFile _ _ _ _ rfl).mpr (Or.inl hread)

/-- An empty value reads as the digit 0, and behind a misleading key every value as a comma. -/
theorem values_misread :
    Unescaped "/value:1".toList ∧
    extractFirstValue (reply .get "/testfile1".toList [] "\x7d\x7d".toList) = .ok "0".toList ∧
    extractFirstValue (reply .get "/value:1".toList "7".toList "\x7d\x7d".toList) =
      .ok ",".toList := by
  have hplain : Unescaped "/value:1".toList := by simp [Unescaped]
  refine ⟨hplain, ?_, ?_⟩
  · apply extractFirstValue_of_clear (v := []) (not_misleading_of_absent (by decide)) _ (by decide)
    simp [Unescaped]
  · exact extractFirstValue_of_misleading hplain ⟨"/".toList, ":1".toList, rfl, by decide⟩ _ _ _

end RaftMonitor.Etcd
