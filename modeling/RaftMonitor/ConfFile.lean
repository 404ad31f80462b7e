import RaftMonitor.ClusterConfig

namespace RaftMonitor.LogCabin
open Std ClusterConfig ProcessTable

/-- The set `whitespace` of the reader is that of `isspace`. -/
def ltrim (s : Text) : Text := s.dropWhile isspace

def rtrim (s : Text) : Text := s.rdropWhile isspace

def trim (s : Text) : Text := rtrim (ltrim s)

/-- An input stream: the lines that are left, or `none` once a `getline` has failed. -/
abbrev IStream := Option (List Text)

def getline : IStream → Text × IStream
  | some (line :: lines) => (line, some lines)
  | _ => ([], none)

structure Config where
  delimiter : Text
  comment : Text
  contents : ExtTreeMap Text Text

def Config.new : Config := ⟨"=".toList, "#".toList, ∅⟩

namespace Config

def strip (cf : Config) (line : Text) : Text :=
  match find cf.comment line with
  | some commentPos => trim (line.take commentPos)
  | none => trim line

def readLine (cf : Config) (is : IStream) : Text × IStream :=
  let (line, is) := getline is
  (cf.strip line, is)

/-- The inner loop of `operator>>`, on a stream that has not failed: the value with its
continuation lines, the line that was read ahead, and the stream. -/
def readValue (cf : Config) (value : Text) : List Text → Text × Text × IStream
  | [] => (value, [], none)
  | l :: lines =>
    let line := cf.strip l
    if line.isEmpty then (value, [], some lines)
    else if (find cf.delimiter line).isSome then (value, line, some lines)
    else cf.readValue (value ++ "\n".toList ++ line) lines

/-- What the outer loop of `operator>>` does with a line: an entry is stored, together with
its continuation lines, and any other line is skipped. -/
def storeLine (cf : Config) (line : Text) (is : IStream) : Config × Text × IStream :=
  match find cf.delimiter line with
  | none => (cf, [], is)
  | some delimPos =>
    let key := rtrim (line.take delimPos)
    let value := ltrim (line.drop (delimPos + cf.delimiter.length))
    let (value, nextLine, is) := match is with
      | some lines => cf.readValue value lines
      | none => (value, [], none)
    -- overwrites if the key is repeated
    ({ cf with contents := cf.contents.insert key value }, nextLine, is)

/-- One pass of the outer loop; a line that was read ahead is used first. -/
def readEntry (cf : Config) (nextLine : Text) (is : IStream) : Config × Text × IStream :=
  if nextLine.isEmpty then
    let (line, is) := cf.readLine is
    cf.storeLine line is
  else cf.storeLine nextLine is

/-- How much is left to read: two for the end of the stream and for each of its lines, and
one for a line that was read ahead. -/
def weight (nextLine : Text) (is : IStream) : ℕ :=
  (match is with | some lines => 2 * (lines.length + 1) | none => 0) +
    if nextLine.isEmpty then 0 else 1

theorem weight_le (nextLine : Text) (lines : List Text) :
    weight nextLine (some lines) ≤ 2 * lines.length + 3 := by
  dsimp only [weight]
  split_ifs <;> omega

theorem readValue_weight (cf : Config) (value : Text) (lines : List Text) :
    weight (cf.readValue value lines).2.1 (cf.readValue value lines).2.2 ≤
      2 * lines.length + 1 := by
  induction lines generalizing value with
  | nil => simp [readValue, weight]
  | cons l lines ih =>
    dsimp only [readValue]
    split_ifs
    · have h := weight_le [] lines
      simp only [List.length_cons]
      omega
    · have h := weight_le (cf.strip l) lines
      simp only [List.length_cons]
      omega
    · have h := ih (value ++ "\n".toList ++ cf.strip l)
      simp only [List.length_cons]
      omega

theorem storeLine_weight (cf : Config) (line : Text) (is : IStream) :
    weight (cf.storeLine line is).2.1 (cf.storeLine line is).2.2 ≤ weight [] is := by
  dsimp only [storeLine]
  cases find cf.delimiter line with
  | none => rfl
  | some delimPos =>
    cases is with
    | none => rfl
    | some lines =>
      have h := cf.readValue_weight (ltrim (line.drop (delimPos + cf.delimiter.length))) lines
      have hnil : 2 * lines.length + 1 ≤ weight [] (some lines) := by simp [weight]
      exact h.trans hnil

theorem readEntry_weight (cf : Config) {nextLine : Text} {is : IStream}
    (h : is.isSome ∨ nextLine.isEmpty = false) :
    weight (cf.readEntry nextLine is).2.1 (cf.readEntry nextLine is).2.2 < weight nextLine is := by
  unfold readEntry
  split_ifs with hnext
  · have hstore := cf.storeLine_weight (cf.readLine is).1 (cf.readLine is).2
    have hget : weight [] (cf.readLine is).2 < weight nextLine is := by
      match is with
      | none => simp [hnext] at h
      | some [] => simp [readLine, getline, weight]
      | some (l :: lines) => simp [readLine, getline, weight, hnext]
    exact hstore.trans_lt hget
  · have hstore := cf.storeLine_weight nextLine is
    have hnil : weight nextLine is = weight [] is + 1 := by simp [weight, hnext]
    omega

def readStream (cf : Config) (nextLine : Text) (is : IStream) : Config :=
  if _h : is.isSome ∨ nextLine.isEmpty = false then
    readStream (cf.readEntry nextLine is).1 (cf.readEntry nextLine is).2.1
      (cf.readEntry nextLine is).2.2
  else cf
termination_by weight nextLine is
decreasing_by exact cf.readEntry_weight _h

theorem readStream_of_more (cf : Config) {nextLine : Text} {is : IStream}
    (h : is.isSome ∨ nextLine.isEmpty = false) :
    cf.readStream nextLine is = readStream (cf.readEntry nextLine is).1
      (cf.readEntry nextLine is).2.1 (cf.readEntry nextLine is).2.2 := by
  rw [readStream, dif_pos h]

theorem readStream_end (cf : Config) : cf.readStream [] none = cf := by
  rw [readStream, dif_neg (by simp)]

def readFile (cf : Config) (text : Text) : Config :=
  cf.readStream [] (some (getlines '\n' text))

def read (cf : Config) (key value : Text) : Text := cf.contents.getD key value

end Config

/-- No delimiter, no comment, no line break and no white space at either end. -/
structure Plain (t : Text) : Prop where
  delimiter : '=' ∉ t
  comment : '#' ∉ t
  newline : '\n' ∉ t
  left : ltrim t = t
  right : rtrim t = t

instance (t : Text) : Decidable (Plain t) :=
  decidable_of_iff ('=' ∉ t ∧ '#' ∉ t ∧ '\n' ∉ t ∧ ltrim t = t ∧ rtrim t = t)
    ⟨fun ⟨hd, hc, hn, hl, hr⟩ => ⟨hd, hc, hn, hl, hr⟩,
      fun ⟨hd, hc, hn, hl, hr⟩ => ⟨hd, hc, hn, hl, hr⟩⟩

def entryLine (e : Text × Text) : Text := e.1 ++ " = ".toList ++ e.2

structure PlainEntry (e : Text × Text) : Prop where
  key : Plain e.1
  key_ne_nil : e.1 ≠ []
  value : Plain e.2

theorem ltrim_append {a : Text} (ha : ltrim a = a) (hne : a ≠ []) (b : Text) :
    ltrim (a ++ b) = a ++ b := by
  unfold ltrim at ha ⊢
  rw [List.dropWhile_append, ha, if_neg (by simpa using hne)]

theorem rtrim_append {b : Text} (hb : rtrim b = b) (hne : b ≠ []) (a : Text) :
    rtrim (a ++ b) = a ++ b := by
  unfold rtrim at hb ⊢
  apply List.rdropWhile_eq_self_iff.mpr
  intro hl
  rw [List.getLast_append_of_ne_nil hl hne]
  exact List.rdropWhile_eq_self_iff.mp hb hne

theorem PlainEntry.strip {e : Text × Text} (h : PlainEntry e) {cf : Config}
    (hc : cf.comment = ['#']) :
    ∃ rest, cf.strip (entryLine e) = (e.1 ++ [' ']) ++ '=' :: rest ∧ ltrim rest = e.2 := by
  obtain ⟨key, value⟩ := e
  have hline : entryLine (key, value) = (key ++ [' ']) ++ ('=' :: ' ' :: value) := by
    simp [entryLine]
  have hfind : find cf.comment (entryLine (key, value)) = none := by
    rw [hc]
    apply find_singleton_of_notMem
    simp [entryLine, h.key.comment, h.value.comment]
  have hleft : ltrim (entryLine (key, value)) = entryLine (key, value) := by
    rw [hline, List.append_assoc]
    exact ltrim_append h.key.left h.key_ne_nil _
  dsimp only [Config.strip]
  rw [hfind]
  dsimp only [trim]
  rw [hleft]
  by_cases hv : value = []
  · refine ⟨[], ?_, by simp [hv, ltrim]⟩
    have hend : entryLine (key, value) = (key ++ " =".toList) ++ [' '] := by simp [entryLine, hv]
    rw [hend, rtrim, List.rdropWhile_concat_pos _ _ _ (by decide)]
    have hsplit : key ++ " =".toList = (key ++ [' ']) ++ ['='] := by simp
    rw [hsplit]
    exact List.rdropWhile_concat_neg _ _ _ (by decide)
  · refine ⟨' ' :: value, ?_, ?_⟩
    · rw [hline]
      have hassoc : (key ++ [' ']) ++ ('=' :: ' ' :: value) = (key ++ " = ".toList) ++ value := by
        simp
      rw [hassoc]
      exact rtrim_append h.value.right hv _
    · have hdrop : ltrim (' ' :: value) = ltrim value := by
        unfold ltrim
        exact List.dropWhile_cons_of_pos (by decide)
      rw [hdrop]
      exact h.value.left

structure Config.Default (cf : Config) : Prop where
  delimiter : cf.delimiter = ['=']
  comment : cf.comment = ['#']

def Config.set (cf : Config) (e : Text × Text) : Config :=
  { cf with contents := cf.contents.insert e.1 e.2 }

variable {cf : Config} {e : Text × Text}

theorem strip_ne_nil (hcf : cf.Default) (h : PlainEntry e) :
    (cf.strip (entryLine e)).isEmpty = false := by
  obtain ⟨rest, hrest, -⟩ := h.strip hcf.comment
  rw [hrest]
  simp

theorem find_strip (hcf : cf.Default) (h : PlainEntry e) :
    find cf.delimiter (cf.strip (entryLine e)) = some (e.1 ++ [' ']).length := by
  obtain ⟨rest, hrest, -⟩ := h.strip hcf.comment
  rw [hrest, hcf.delimiter]
  apply find_singleton_append
  simp [h.key.delimiter]

/-- What is read ahead, and what stays in the stream, when entries follow. -/
def readAhead (cf : Config) : List (Text × Text) → Text × IStream
  | [] => ([], none)
  | d :: es => (cf.strip (entryLine d), some (es.map entryLine))

theorem readValue_entries (hcf : cf.Default) (value : Text) {es : List (Text × Text)}
    (hes : ∀ d ∈ es, PlainEntry d) :
    cf.readValue value (es.map entryLine) = (value, readAhead cf es) := by
  cases es with
  | nil => rfl
  | cons d es =>
    have hd := hes d (List.mem_cons_self ..)
    rw [List.map_cons, Config.readValue, if_neg (Bool.eq_false_iff.mp (strip_ne_nil hcf hd)),
      if_pos (by rw [find_strip hcf hd]; rfl)]
    rfl

theorem storeLine_entry (hcf : cf.Default) (h : PlainEntry e) {es : List (Text × Text)}
    (hes : ∀ d ∈ es, PlainEntry d) :
    cf.storeLine (cf.strip (entryLine e)) (some (es.map entryLine)) =
      (cf.set e, readAhead cf es) := by
  obtain ⟨rest, hrest, hvalue⟩ := h.strip hcf.comment
  have hkey : rtrim (e.1 ++ [' ']) = e.1 := by
    rw [rtrim, List.rdropWhile_concat_pos _ _ _ (by decide)]
    exact h.key.right
  have htake : (cf.strip (entryLine e)).take (e.1 ++ [' ']).length = e.1 ++ [' '] := by
    rw [hrest]
    exact List.take_left
  have hdrop : (cf.strip (entryLine e)).drop ((e.1 ++ [' ']).length + cf.delimiter.length) =
      rest := by
    rw [hrest, hcf.delimiter, ← List.drop_drop, List.drop_left]
    rfl
  unfold Config.storeLine
  rw [find_strip hcf h]
  dsimp only
  rw [htake, hdrop, hkey, hvalue, readValue_entries hcf e.2 hes]
  rfl

theorem readStream_entries (hcf : cf.Default) (h : PlainEntry e) {es : List (Text × Text)}
    (hes : ∀ d ∈ es, PlainEntry d) :
    cf.readStream (cf.strip (entryLine e)) (some (es.map entryLine)) =
      (e :: es).foldl Config.set cf := by
  -- the invariant of the outer loop: one entry was read ahead, the others are in the stream
  induction es generalizing cf e with
  | nil =>
    rw [Config.readStream_of_more _ (Or.inl rfl), Config.readEntry,
      if_neg (Bool.eq_false_iff.mp (strip_ne_nil hcf h)), storeLine_entry hcf h hes]
    exact Config.readStream_end _
  | cons d es ih =>
    rw [Config.readStream_of_more _ (Or.inl rfl), Config.readEntry,
      if_neg (Bool.eq_false_iff.mp (strip_ne_nil hcf h)), storeLine_entry hcf h hes]
    have hset : (cf.set e).Default := ⟨hcf.delimiter, hcf.comment⟩
    exact ih hset (hes d (List.mem_cons_self ..)) fun d' hd' => hes d' (List.mem_cons_of_mem _ hd')

theorem readFile_entries {es : List (Text × Text)} (hne : es ≠ [])
    (hes : ∀ d ∈ es, PlainEntry d) :
    Config.new.readFile ((es.map entryLine).flatMap fun line => line ++ ['\n']) =
      es.foldl Config.set Config.new := by
  obtain ⟨e, es, rfl⟩ := List.exists_cons_of_ne_nil hne
  have he := hes e (List.mem_cons_self ..)
  have hlines : getlines '\n' (((e :: es).map entryLine).flatMap fun line => line ++ ['\n']) =
      (e :: es).map entryLine := by
    apply getlines_flatMap
    intro line hline
    obtain ⟨d, hd, rfl⟩ := List.mem_map.mp hline
    have hd := hes d hd
    simp [entryLine, hd.key.newline, hd.value.newline]
  have hcf : Config.new.Default := ⟨rfl, rfl⟩
  have hmore : ∀ nextLine lines, Config.new.readStream nextLine (some lines) =
      Config.readStream (Config.new.readEntry nextLine (some lines)).1
        (Config.new.readEntry nextLine (some lines)).2.1
        (Config.new.readEntry nextLine (some lines)).2.2 :=
    fun nextLine lines => Config.readStream_of_more _ (Or.inl rfl)
  -- the first pass reads the first line itself, as if it had been read ahead
  have hfirst : Config.new.readEntry [] (some ((e :: es).map entryLine)) =
      Config.new.readEntry (Config.new.strip (entryLine e)) (some (es.map entryLine)) := by
    rw [Config.readEntry, Config.readEntry, if_pos List.isEmpty_nil,
      if_neg (Bool.eq_false_iff.mp (strip_ne_nil hcf he))]
    rfl
  rw [Config.readFile, hlines, hmore, hfirst, ← hmore]
  exact readStream_entries hcf he fun d hd => hes d (List.mem_cons_of_mem _ hd)

def split (subject : Text) (delimiter : Char) : List Text := getlines delimiter subject

/-- The options of the server, of those in the long form with a separate argument. -/
structure ServerOptions where
  configFilename : Text
  serverId : ℕ
  bootstrap : Bool

/-- Other arguments print the usage and end the server. -/
def ServerOptions.parse (o : ServerOptions) : List Text → Option ServerOptions
  | [] => some o
  | [arg] => if arg = "--bootstrap".toList then some { o with bootstrap := true } else none
  | arg :: optarg :: args =>
    if arg = "--bootstrap".toList then parse { o with bootstrap := true } (optarg :: args)
    else if arg = "--config".toList then parse { o with configFilename := optarg } args
    else if arg = "--id".toList then
      parse { o with serverId := (atol optarg % 2 ^ 64).toNat } args
    else none

def ServerOptions.default : ServerOptions := ⟨"logcabin.conf".toList, 1, false⟩

/-- The loop of `Globals::init` over the listen addresses; `bind` says which of them can be
bound to. The result is the id and the address of the server, or `none` when it panics. -/
def bindServer (bind : Text → Bool) (serverId : ℕ) : ℕ → List Text → Option (ℕ × Text)
  | _, [] => none
  | i, address :: addresses =>
    if serverId ≠ 0 ∧ serverId ≠ i + 1 then bindServer bind serverId (i + 1) addresses
    else if bind address then some (i + 1, address)
    else bindServer bind serverId (i + 1) addresses

def Globals.init (config : Config) (bind : Text → Bool) (serverId : ℕ) : Option (ℕ × Text) :=
  bindServer bind serverId 0 (split (config.read "servers".toList []) ';')

def words (cmdStr : Text) : List Text := strtok ' ' cmdStr

/-- The servers among the arguments of `Reconfigure`. It ends when there are none; options are
never passed to it here. -/
def Reconfigure.servers : List Text → Option (List Text)
  | [] => none
  | _ :: args =>
    if args.isEmpty || args.any fun arg => arg.head? = some '-' then none else some args

def Reconfigure.configuration (servers : List Text) : List (ℕ × Text) :=
  servers.zipIdx.map fun s => (s.2 + 1, s.1)

theorem bindServer_of_le {bind : Text → Bool} {serverId i : ℕ} (hpos : serverId ≠ 0)
    (h : serverId ≤ i) (addresses : List Text) :
    bindServer bind serverId i addresses = none := by
  induction addresses generalizing i with
  | nil => rfl
  | cons address addresses ih =>
    rw [bindServer, if_pos ⟨hpos, by omega⟩]
    exact ih (by omega)

theorem bindServer_eq (bind : Text → Bool) (i k : ℕ) (addresses : List Text) :
    bindServer bind (i + k + 1) i addresses =
      addresses[k]?.bind fun a => if bind a then some (i + k + 1, a) else none := by
  induction addresses generalizing i k with
  | nil => rfl
  | cons address addresses ih =>
    cases k with
    | zero =>
      -- when the address cannot be bound to, all later ones are skipped
      rw [bindServer, if_neg (by omega), bindServer_of_le (by omega) (by omega)]
      simp
    | succ k =>
      have hnext : i + (k + 1) + 1 = (i + 1) + k + 1 := by omega
      rw [bindServer, if_pos (by omega), hnext, ih]
      simp

theorem mem_configuration {servers : List Text} {k : ℕ} {address : Text} :
    (k + 1, address) ∈ Reconfigure.configuration servers ↔ servers[k]? = some address := by
  unfold Reconfigure.configuration
  rw [← List.mem_zipIdx_iff_getElem? (x := (address, k)), List.mem_map]
  constructor
  · rintro ⟨⟨a, j⟩, hmem, heq⟩
    obtain ⟨hj, rfl⟩ := Prod.mk.inj heq
    rwa [← Nat.succ_injective hj]
  · intro hmem
    exact ⟨(address, k), hmem, rfl⟩

variable (c : ClusterConfig)

theorem mem_getHostPort {d : Char} {i : ℤ} (h : d ∈ getHostPort c i) :
    d.isDigit ∨ d ∈ ['.', ':', '-'] := by
  have hnet : ∀ d ∈ "192.168.2.".toList, d.isDigit ∨ d ∈ ['.', ':', '-'] := by simp
  have hint : ∀ z, ∀ d ∈ stdToString z, d.isDigit ∨ d ∈ ['.', ':', '-'] := by
    intro z d hd
    exact (mem_stdToString hd).imp_right fun heq => by simp [heq]
  have hcolon : ∀ d ∈ ":".toList, d.isDigit ∨ d ∈ ['.', ':', '-'] := by simp
  rcases List.mem_append.mp h with h | h
  · rcases List.mem_append.mp h with h | h
    · rcases List.mem_append.mp h with h | h
      · exact hnet d h
      · exact hint i d h
    · exact hcolon d h
  · exact hint c.clusterPort d h

theorem notMem_getHostPort {d : Char} (hd : d.isDigit = false) (hs : d ∉ ['.', ':', '-']) (i : ℤ) :
    d ∉ getHostPort c i := by
  intro h
  rcases mem_getHostPort c h with h | h
  · simp [hd] at h
  · exact hs h

theorem getHostPort_ne_nil (i : ℤ) : getHostPort c i ≠ [] :=
  List.append_ne_nil_of_right_ne_nil _ (stdToString_ne_nil c.clusterPort)

def addresses (c : ClusterConfig) : List Text := c.nodeIds.map (getHostPort c)

theorem plain_of_chars {t : Text} (h : ∀ d ∈ t, d.isDigit ∨ d ∈ ['.', ':', '-', ';']) :
    Plain t := by
  have hspace : ∀ d ∈ t, isspace d = false := by
    intro d hd
    rcases h d hd with hdigit | hmem
    · exact isspace_of_isDigit hdigit
    · have hall : ∀ d ∈ ['.', ':', '-', ';'], isspace d = false := by simp [isspace]
      exact hall d hmem
  have hnot : ∀ d, d.isDigit = false → d ∉ ['.', ':', '-', ';'] → d ∉ t := by
    intro d hdigit hmem hd
    rcases h d hd with hd | hd
    · simp [hdigit] at hd
    · exact hmem hd
  refine ⟨hnot '=' rfl (by simp), hnot '#' rfl (by simp), hnot '\n' rfl (by simp), ?_, ?_⟩
  · apply List.dropWhile_eq_self_iff.mpr
    intro hl
    exact Bool.eq_false_iff.mp (hspace _ (List.getElem_mem hl))
  · apply List.rdropWhile_eq_self_iff.mpr
    intro hl
    exact Bool.eq_false_iff.mp (hspace _ (List.getLast_mem hl))

def settings (c : ClusterConfig) (storageDir : Text) : List (Text × Text) :=
  [("storageModule".toList, "filesystem".toList), ("storagePath".toList, storageDir),
    ("servers".toList, [';'].intercalate (addresses c))]

theorem confText_eq (storageDir : Text) :
    confText c storageDir =
      ((settings c storageDir).map entryLine).flatMap fun line => line ++ ['\n'] := by
  have hjoin := foldl_joinStep ";".toList (addresses c)
  unfold addresses at hjoin
  unfold confText
  rw [hjoin]
  simp [settings, entryLine, addresses]

theorem plainEntry_settings {storageDir : Text} (hdir : Plain storageDir) :
    ∀ e ∈ settings c storageDir, PlainEntry e := by
  have hservers : Plain ([';'].intercalate (addresses c)) := by
    apply plain_of_chars
    intro d hd
    rcases mem_intercalate hd with hd | ⟨address, haddress, hd⟩
    · right
      simpa using Or.inr (Or.inr (Or.inr (List.mem_singleton.mp hd)))
    · obtain ⟨i, -, rfl⟩ := List.mem_map.mp haddress
      apply (mem_getHostPort c hd).imp_right
      intro hmem
      simp only [List.mem_cons, List.not_mem_nil, or_false] at hmem ⊢
      tauto
  intro e he
  simp only [settings, List.mem_cons, List.not_mem_nil, or_false] at he
  rcases he with rfl | rfl | rfl
  · exact ⟨(by decide : Plain "storageModule".toList), List.cons_ne_nil _ _,
      (by decide : Plain "filesystem".toList)⟩
  · exact ⟨(by decide : Plain "storagePath".toList), List.cons_ne_nil _ _, hdir⟩
  · exact ⟨(by decide : Plain "servers".toList), List.cons_ne_nil _ _, hservers⟩

theorem readFile_confText {storageDir : Text} (hdir : Plain storageDir) :
    (Config.new.readFile (confText c storageDir)).contents =
      ((∅ : ExtTreeMap Text Text).insert "storageModule".toList "filesystem".toList
        |>.insert "storagePath".toList storageDir
        |>.insert "servers".toList ([';'].intercalate (addresses c))) := by
  rw [confText_eq, readFile_entries (by simp [settings]) (plainEntry_settings c hdir)]
  rfl

theorem getElem?_nodeIds (k : ℕ) (hk : (k : ℤ) < c.numNodes) :
    c.nodeIds[k]? = some (k + 1 : ℤ) := by
  have hlt : k < (c.numNodes + 1 - firstNodeId).toNat := by unfold firstNodeId; omega
  unfold nodeIds Int.range
  rw [List.getElem?_map, List.getElem?_range hlt]
  simp [firstNodeId, add_comm]

theorem length_addresses (hn : 0 ≤ c.numNodes) : ((addresses c).length : ℤ) = c.numNodes := by
  simp [addresses, nodeIds, Int.range, firstNodeId, hn]

theorem addresses_ne_nil (hn : 1 ≤ c.numNodes) : addresses c ≠ [] := by
  apply List.ne_nil_of_length_pos
  have h := length_addresses c (by omega)
  omega

theorem split_addresses (hn : 1 ≤ c.numNodes) :
    split ([';'].intercalate (addresses c)) ';' = addresses c := by
  apply getlines_intercalate (addresses_ne_nil c hn)
  · intro p hp
    obtain ⟨i, -, rfl⟩ := List.mem_map.mp hp
    exact notMem_getHostPort c rfl (by simp) i
  · intro hlast
    obtain ⟨i, -, hi⟩ := List.mem_map.mp (List.mem_of_getLast? hlast)
    exact getHostPort_ne_nil c i hi

theorem words_reconfigure :
    words (reconfigure c) =
      (RaftEnv.rootDir ++ "/logcabin/build/Examples/Reconfigure".toList) :: addresses c := by
  have happend : reconfigure c =
      (RaftEnv.rootDir ++ "/logcabin/build/Examples/Reconfigure".toList) ++
      ((addresses c).map fun address => [' '] ++ address).flatten := by
    unfold reconfigure addresses
    rw [List.foldl_append_eq_append, List.map_map]
    rfl
  rw [words, happend]
  apply strtok_words
  · intro w hw
    rcases List.mem_cons.mp hw with rfl | hw
    · decide
    · obtain ⟨i, -, rfl⟩ := List.mem_map.mp hw
      exact notMem_getHostPort c rfl (by simp) i
  · intro w hw
    rcases List.mem_cons.mp hw with rfl | hw
    · decide
    · obtain ⟨i, -, rfl⟩ := List.mem_map.mp hw
      exact getHostPort_ne_nil c i

theorem servers_reconfigure (hn : 1 ≤ c.numNodes) :
    Reconfigure.servers (words (reconfigure c)) = some (addresses c) := by
  have hdash : ∀ address ∈ addresses c, address.head? ≠ some '-' := by
    intro address haddress
    obtain ⟨i, -, rfl⟩ := List.mem_map.mp haddress
    intro hhead
    exact absurd (Option.some.inj hhead) (by decide)
  rw [words_reconfigure, Reconfigure.servers, if_neg]
  simp only [Bool.or_eq_true, List.isEmpty_iff, List.any_eq_true, decide_eq_true_eq, not_or,
    not_exists, not_and]
  exact ⟨addresses_ne_nil c hn, hdash⟩

theorem parse_nodeCommand {k : ℕ} (hk : k < 2 ^ 63) :
    ServerOptions.default.parse (nodeCommand c k).args.tail = some ⟨c.confFile, k, false⟩ := by
  have hid : (atol (stdToString k) % 2 ^ 64).toNat = k := by
    rw [stdToString_natCast, atol_toDigits hk]
    omega
  have hparse : ServerOptions.default.parse (nodeCommand c k).args.tail =
      some ⟨c.confFile, (atol (stdToString k) % 2 ^ 64).toNat, false⟩ := rfl
  rw [hparse, hid]

def listenAddresses (text : Text) : List Text :=
  split ((Config.new.readFile text).read "servers".toList []) ';'

/-- What the servers find in a configuration file for the nodes of `c`. -/
structure ReadsBack (c : ClusterConfig) (storageDir text : Text) : Prop where
  storageModule : (Config.new.readFile text).contents["storageModule".toList]? =
    some "filesystem".toList
  storagePath : (Config.new.readFile text).contents["storagePath".toList]? = some storageDir
  length : ((listenAddresses text).length : ℤ) = c.numNodes
  address : ∀ k : ℕ, (k : ℤ) < c.numNodes →
    (listenAddresses text)[k]? = some (getHostPort c (k + 1))

theorem listenAddresses_confText (hn : 1 ≤ c.numNodes) {storageDir : Text}
    (hdir : Plain storageDir) : listenAddresses (confText c storageDir) = addresses c := by
  rw [listenAddresses, Config.read, readFile_confText c hdir, ExtTreeMap.getD_insert_self,
    split_addresses c hn]

theorem readsBack_confText (hn : 1 ≤ c.numNodes) {storageDir : Text} (hdir : Plain storageDir) :
    ReadsBack c storageDir (confText c storageDir) where
  storageModule := by
    rw [readFile_confText c hdir, ExtTreeMap.getElem?_insert, if_neg (by decide),
      ExtTreeMap.getElem?_insert, if_neg (by decide), ExtTreeMap.getElem?_insert_self]
  storagePath := by
    rw [readFile_confText c hdir, ExtTreeMap.getElem?_insert, if_neg (by decide),
      ExtTreeMap.getElem?_insert_self]
  length := by rw [listenAddresses_confText c hn hdir, length_addresses c (by omega)]
  address := by
    intro k hk
    rw [listenAddresses_confText c hn hdir, addresses, List.getElem?_map, getElem?_nodeIds c k hk]
    rfl

/-- A node started with the command for an id binds to the address that the file has at this
place, and the same place decides the address that `Reconfigure` gives to this id. -/
theorem ReadsBack.bound {c : ClusterConfig} {storageDir text : Text}
    (h : ReadsBack c storageDir text) (bind : Text → Bool) {k : ℕ} (hk : (k : ℤ) < c.numNodes) :
    Globals.init (Config.new.readFile text) bind (k + 1) =
        (if bind (getHostPort c (k + 1)) then some (k + 1, getHostPort c (k + 1)) else none) ∧
      ∀ address, (k + 1, address) ∈ Reconfigure.configuration (listenAddresses text) ↔
        address = getHostPort c (k + 1) := by
  have haddress := h.address k hk
  constructor
  · have hbind := bindServer_eq bind 0 k (listenAddresses text)
    rw [haddress, zero_add] at hbind
    exact hbind
  · intro address
    rw [mem_configuration, haddress, Option.some_inj, eq_comm]

theorem nodeCommand_congr {c c' : ClusterConfig} (h : SameSettings c c') :
    nodeCommand c' = nodeCommand c := by
  funext i
  rw [nodeCommand, h.confFile, nodeCommand]

theorem reconfigure_congr {c c' : ClusterConfig} (h : SameSettings c c') :
    reconfigure c' = reconfigure c := by
  unfold reconfigure nodeIds getHostPort
  rw [h.numNodes, h.clusterPort]

theorem launchCluster_eq {os : Os} {nNodes port : ℤ} {opens : Bool}
    (hlive : (launchCluster os c nNodes port opens).exited = false) :
    let prepared := (prepare (c.reset nNodes port) true).1
    let launched := launchNodes (launchNode os)
      "error: Failed to launch cluster; exiting".toList prepared.nodeIds prepared
    1 ≤ nNodes ∧ launched.exited = false ∧
      launchCluster os c nNodes port opens = launched.executeCommand (reconfigure launched) := by
  intro prepared launched
  revert hlive
  unfold launchCluster
  dsimp only
  split_ifs with hnodes hok hexited
  · nofun
  · intro hlive
    exact absurd hexited (Bool.eq_false_iff.mp hlive)
  · intro _
    rw [prepare_ok] at hok
    subst hok
    exact ⟨Int.not_lt.mp hnodes, Bool.eq_false_iff.mpr hexited, rfl⟩
  · nofun

/-- The file, the command that was executed last and the commands of the nodes are all made from
the arguments of `launchCluster`. -/
theorem launchCluster_returns {os : Os} {nNodes port : ℤ} {opens : Bool}
    (hlive : (launchCluster os c nNodes port opens).exited = false) :
    let final := launchCluster os c nNodes port opens
    1 ≤ nNodes ∧ final.conf = confText (c.reset nNodes port) storageDir ∧
      final.commands.getLast? = some (reconfigure (c.reset nNodes port)) ∧
      requested final.processes.events =
        requested c.processes.events ++ (c.reset nNodes port).nodeIds.map (nodeCommand final) := by
  intro final
  obtain ⟨hn, hlaunched, heq⟩ := launchCluster_eq c hlive
  obtain ⟨hsame, started, -, hrequested, hall⟩ := launchNodes_requested os nodeCommand_congr
    "error: failed to launch subprocess".toList "error: Failed to launch cluster; exiting".toList
    (prepare (c.reset nNodes port) true).1.nodeIds (prepare (c.reset nNodes port) true).1
  refine ⟨hn, ?_, ?_, ?_⟩
  · exact (congrArg conf heq).trans hsame.conf
  · refine (congrArg (fun c => c.commands.getLast?) heq).trans ?_
    refine List.getLast?_concat.trans (congrArg some ?_)
    have hcommand : reconfigure (prepare (c.reset nNodes port) true).1 =
        reconfigure (c.reset nNodes port) := rfl
    exact (reconfigure_congr hsame).trans hcommand
  · refine (congrArg (fun c => requested c.processes.events) heq).trans (hrequested.trans ?_)
    have hlaunch := nodeCommand_congr hsame
    have hcommand : nodeCommand final = nodeCommand (prepare (c.reset nNodes port) true).1 :=
      (congrArg nodeCommand heq).trans hlaunch
    rw [hall hlaunched, hcommand]
    rfl

/-- The servers read back what `writeConfFile` wrote, whatever the directory is. When
`launchCluster` returns, its last command gives to `Reconfigure` the same addresses in the same
order, and it has started the nodes with the ids from 1 on; so the address at which the server
with some id listens is the one that the new configuration has for this id. The number of nodes
is an `int`. -/
theorem conf_round_trip (os : Os) (c : ClusterConfig) (nNodes port : ℤ) (hint : nNodes < 2 ^ 31)
    (opens : Bool) (storageDir : Text) (hdir : Plain storageDir) (bind : Text → Bool) :
    let final := launchCluster os c nNodes port opens
    (∀ c' : ClusterConfig, 1 ≤ c'.numNodes →
      ReadsBack c' storageDir (writeConfFile c' storageDir true).1.conf) ∧
    (final.exited = false →
      ReadsBack (c.reset nNodes port) LogCabin.storageDir final.conf ∧
      (∃ command, final.commands.getLast? = some command ∧
        Reconfigure.servers (words command) = some (listenAddresses final.conf)) ∧
      ∃ started, requested final.processes.events = requested c.processes.events ++ started ∧
        (started.length : ℤ) = nNodes ∧
        ∀ (k : ℕ) command, started[k]? = some command →
          ∃ options, ServerOptions.default.parse command.args.tail = some options ∧
            options.configFilename = final.confFile ∧ options.serverId = k + 1 ∧
            ∃ address, getHostPort (c.reset nNodes port) (k + 1) = address ∧
              Globals.init (Config.new.readFile final.conf) bind options.serverId =
                (if bind address then some (k + 1, address) else none) ∧
              ∀ a, (k + 1, a) ∈ Reconfigure.configuration (listenAddresses final.conf) ↔
                a = address) := by
  intro final
  refine ⟨fun c' hn => readsBack_confText c' hn hdir, ?_⟩
  intro hlive
  obtain ⟨hn, hconf, hlast, hrequested⟩ := launchCluster_returns c hlive
  have hback : ReadsBack (c.reset nNodes port) LogCabin.storageDir final.conf := by
    rw [hconf]
    exact readsBack_confText _ hn (by decide)
  refine ⟨hback, ⟨_, hlast, ?_⟩, _, hrequested, ?_, ?_⟩
  · rw [hconf, listenAddresses_confText _ hn (by decide), servers_reconfigure _ hn]
  · have hlength := length_addresses (c.reset nNodes port) (Int.le_of_lt hn)
    rwa [addresses, List.length_map, ← List.length_map (nodeCommand final)] at hlength
  · intro k command hcommand
    rw [List.getElem?_map] at hcommand
    obtain ⟨id, hid, rfl⟩ := Option.map_eq_some_iff.mp hcommand
    have hk : (k : ℤ) < nNodes := by
      have hlt := (List.getElem?_eq_some_iff.mp hid).1
      have hlength := length_addresses (c.reset nNodes port) (Int.le_of_lt hn)
      rw [addresses, List.length_map] at hlength
      exact (Int.ofNat_lt.mpr hlt).trans_eq hlength
    rw [getElem?_nodeIds (c.reset nNodes port) k hk] at hid
    refine ⟨⟨final.confFile, k + 1, false⟩, ?_, rfl, rfl, _, rfl, hback.bound bind hk⟩
    have hparse := parse_nodeCommand final (k := k + 1) (by omega)
    rw [← Option.some.inj hid]
    exact hparse

/-- Two nodes, on the port that the driver uses, and an operating system that never fails. -/
def twoNodes : ClusterConfig :=
  launchCluster ⟨fun k => 100 + k, fun _ => true⟩ (ClusterConfig.new 0 0) 2 61023 true

/-- The second node binds to the second of the addresses that `Reconfigure` was given. -/
theorem twoNodes_round_trip :
    twoNodes.exited = false ∧
      ReadsBack twoNodes "/tmp/raft".toList
        (writeConfFile twoNodes "/tmp/raft".toList true).1.conf ∧
      (∃ command, twoNodes.commands.getLast? = some command ∧
        Reconfigure.servers (words command) =
          some ["192.168.2.1:61023".toList, "192.168.2.2:61023".toList]) ∧
      ∃ command options, (requested twoNodes.processes.events)[1]? = some command ∧
        ServerOptions.default.parse command.args.tail = some options ∧ options.serverId = 2 ∧
        Globals.init (Config.new.readFile twoNodes.conf) (fun _ => true) options.serverId =
          some (2, "192.168.2.2:61023".toList) := by
  obtain ⟨hwritten, hlaunched⟩ := conf_round_trip ⟨fun k => 100 + k, fun _ => true⟩
    (ClusterConfig.new 0 0) 2 61023 (by decide) true "/tmp/raft".toList (by decide) fun _ => true
  obtain ⟨-, ⟨command, hlast, hservers⟩, started, hstarted, -, hnode⟩ := hlaunched rfl
  have hlisten : listenAddresses twoNodes.conf =
      ["192.168.2.1:61023".toList, "192.168.2.2:61023".toList] :=
    listenAddresses_confText ((ClusterConfig.new 0 0).reset 2 61023) (by decide) (by decide)
  have hrequested : requested twoNodes.processes.events = started := hstarted
  refine ⟨rfl, hwritten twoNodes (by decide), ⟨command, hlast, hservers.trans ?_⟩, ?_⟩
  · exact congrArg some hlisten
  · obtain ⟨options, hparse, -, hid, address, rfl, hbind, -⟩ :=
      hnode 1 _ (by rw [← hrequested]; rfl)
    exact ⟨_, options, rfl, hparse, hid, hbind⟩

end RaftMonitor.LogCabin
