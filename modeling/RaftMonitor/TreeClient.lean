import RaftMonitor.FileSystem

namespace RaftMonitor.LogCabin

namespace ClientImpl

/-- `split`: the components of a path are put behind those that are there. -/
def split (path : Text) (components : List Text) : List Text :=
  Path.finish (path.foldl Path.next (components, []))

/-- Whether a path has to be taken relative to the working directory. -/
def isRelative (path : Text) : Bool := path ≠ [] && path.head? ≠ some '/'

def cannotUseRelative (path workingDirectory : Text) : Result :=
  ⟨.invalidArgument, "Can't use relative path '".toList ++ cStr path ++
    "' from working directory '".toList ++ cStr workingDirectory ++
    "' (working directory should be an absolute path)".toList⟩

def aboveRoot (path workingDirectory : Text) : Result :=
  ⟨.invalidArgument, "Path '".toList ++ cStr path ++ "' from working directory '".toList ++
    cStr workingDirectory ++ "' attempts to look up directory above root ('/')".toList⟩

/-- The loop over the components that irons out "." and "..": those before the index `i`, and
those from there on. -/
def iron (failure : Result) : List Text → List Text → Except Result (List Text)
  | before, [] => .ok before
  | before, component :: components =>
    if component = "..".toList then
      if before ≠ [] then iron failure before.dropLast components else .error failure
    else if component = ".".toList then iron failure before components
    else iron failure (before ++ [component]) components

def join (components : List Text) : Text :=
  if components = [] then ['/'] else components.flatMap ('/' :: ·)

def canonicalize (path workingDirectory : Text) : Result × Text :=
  if isRelative path ∧ workingDirectory.head? ≠ some '/' then
    (cannotUseRelative path workingDirectory, [])
  else
    let components := if isRelative path then split workingDirectory [] else []
    match iron (aboveRoot path workingDirectory) [] (split path components) with
    | .error result => (result, [])
    | .ok components => (.ok, join components)

/-- `setCondition`: a condition with an empty path is none. -/
def setCondition (condition : Text × Text) : Option TreeCondition :=
  if condition.1 ≠ [] then some ⟨condition.1, condition.2⟩ else none

/-- What is left of a response: its status and error, unless it is fine. -/
def treeResult (status : Status) (error : Option Text) : Result :=
  if status ≠ .ok then ⟨status, error.getD []⟩ else .ok

/-- The operations that write. They differ in the request that they make for the canonical path.
The leader of the cluster serves it on the tree; `none` is a `PANIC` there. -/
def readWrite (t : Tree) (path workingDirectory : Text) (condition : Text × Text)
    (request : Text → ReadWriteTree) : Option (Tree × Result) :=
  let (result, realPath) := canonicalize path workingDirectory
  if result.status ≠ .ok then some (t, result)
  else (t.readWriteTreeRPC { request realPath with condition := setCondition condition }).map
    fun r => (r.1, treeResult r.2.status r.2.error)

def makeDirectory (t : Tree) (path workingDirectory : Text) (condition : Text × Text) :
    Option (Tree × Result) :=
  readWrite t path workingDirectory condition fun realPath =>
    ⟨none, some realPath, none, none, none⟩

def removeDirectory (t : Tree) (path workingDirectory : Text) (condition : Text × Text) :
    Option (Tree × Result) :=
  readWrite t path workingDirectory condition fun realPath =>
    ⟨none, none, some realPath, none, none⟩

def write (t : Tree) (path workingDirectory contents : Text) (condition : Text × Text) :
    Option (Tree × Result) :=
  readWrite t path workingDirectory condition fun realPath =>
    ⟨none, none, none, some (realPath, contents), none⟩

def removeFile (t : Tree) (path workingDirectory : Text) (condition : Text × Text) :
    Option (Tree × Result) :=
  readWrite t path workingDirectory condition fun realPath =>
    ⟨none, none, none, none, some realPath⟩

def read (t : Tree) (path workingDirectory : Text) (condition : Text × Text) :
    Option (Result × Text) :=
  let (result, realPath) := canonicalize path workingDirectory
  if result.status ≠ .ok then some (result, [])
  else (t.readOnlyTreeRPC ⟨setCondition condition, none, some realPath⟩).map fun r =>
    (treeResult r.status r.error, if r.status ≠ .ok then [] else r.contents.getD [])

def listDirectory (t : Tree) (path workingDirectory : Text) (condition : Text × Text) :
    Option (Result × List Text) :=
  let (result, realPath) := canonicalize path workingDirectory
  if result.status ≠ .ok then some (result, [])
  else (t.readOnlyTreeRPC ⟨setCondition condition, some realPath, none⟩).map fun r =>
    (treeResult r.status r.error, if r.status ≠ .ok then [] else r.children)

end ClientImpl

structure TreeDetails where
  workingDirectory : Text
  condition : Text × Text

namespace TreeDetails

def new : TreeDetails := ⟨['/'], ([], [])⟩

def setCondition (d : TreeDetails) (path value : Text) : TreeDetails × Result :=
  let (result, _) := ClientImpl.canonicalize path d.workingDirectory
  if result.status ≠ .ok then
    ({ d with condition :=
        ("invalid from prior call to setCondition('".toList ++ cStr path ++
          "') relative to '".toList ++ cStr d.workingDirectory ++ "'".toList, value) }, result)
  else ({ d with condition := (path, value) }, .ok)

/-- `Tree::setWorkingDirectory`, which makes the directory. -/
def setWorkingDirectory (d : TreeDetails) (t : Tree) (path : Text) :
    Option (Tree × TreeDetails × Result) :=
  let (result, realPath) := ClientImpl.canonicalize path d.workingDirectory
  if result.status ≠ .ok then
    some (t, { d with workingDirectory :=
      "invalid from prior call to setWorkingDirectory('".toList ++ cStr path ++
        "') relative to '".toList ++ cStr d.workingDirectory ++ "'".toList }, result)
  else (ClientImpl.makeDirectory t realPath [] d.condition).map fun r =>
    (r.1, { d with workingDirectory := realPath }, r.2)

def write (d : TreeDetails) (t : Tree) (path contents : Text) : Option (Tree × Result) :=
  ClientImpl.write t path d.workingDirectory contents d.condition

def read (d : TreeDetails) (t : Tree) (path : Text) : Option (Result × Text) :=
  ClientImpl.read t path d.workingDirectory d.condition

end TreeDetails

namespace ClientImpl

def Canonical (name : Text) : Prop :=
  Directory.ValidName name ∧ name ≠ ".".toList ∧ name ≠ "..".toList

theorem split_eq (path : Text) (components : List Text) :
    split path components = components ++ (path.splitOn '/').filter (· ≠ []) := by
  unfold split
  rw [Path.finish_foldl, Path.modifyHead_nil_append]

theorem valid_split (path : Text) {components : List Text}
    (h : ∀ name ∈ components, Directory.ValidName name) {name : Text}
    (hname : name ∈ split path components) : Directory.ValidName name := by
  rw [split_eq] at hname
  rcases List.mem_append.mp hname with hname | hname
  · exact h name hname
  · rw [List.mem_filter] at hname
    exact ⟨by simpa using hname.2, notMem_of_mem_splitOn hname.1⟩

theorem iron_canonical {failure : Result} {before components names : List Text}
    (hbefore : ∀ name ∈ before, Canonical name)
    (hcomponents : ∀ name ∈ components, Directory.ValidName name)
    (h : iron failure before components = .ok names) : ∀ name ∈ names, Canonical name := by
  induction components generalizing before with
  | nil =>
    cases h
    exact hbefore
  | cons component components ih =>
    have hrest : ∀ name ∈ components, Directory.ValidName name := fun name hname =>
      hcomponents name (List.mem_cons_of_mem _ hname)
    unfold iron at h
    split_ifs at h with hup hroot hdot
    · exact ih (fun name hname => hbefore name (List.dropLast_subset _ hname)) hrest h
    · exact ih hbefore hrest h
    · refine ih (fun name hname => ?_) hrest h
      rcases List.mem_append.mp hname with hname | hname
      · exact hbefore name hname
      · rw [List.mem_singleton.mp hname]
        exact ⟨hcomponents component List.mem_cons_self, hdot, hup⟩

theorem iron_of_canonical (failure : Result) (before : List Text) {components : List Text}
    (h : ∀ name ∈ components, Canonical name) :
    iron failure before components = .ok (before ++ components) := by
  induction components generalizing before with
  | nil => simp [iron]
  | cons component components ih =>
    have hcomponent := h component List.mem_cons_self
    unfold iron
    rw [if_neg hcomponent.2.2, if_neg hcomponent.2.1,
      ih _ fun name hname => h name (List.mem_cons_of_mem _ hname), List.append_assoc]
    rfl

theorem components_join {names : List Text} (h : ∀ name ∈ names, Directory.ValidName name) :
    components (join names) = some names := by
  unfold join
  by_cases hnil : names = []
  · subst hnil
    rfl
  · have hhead : (names.flatMap ('/' :: ·)).head? = some '/' := by
      cases names with
      | nil => exact absurd rfl hnil
      | cons name names => rfl
    have hjoin : names.flatMap ('/' :: ·) = ['/'].intercalate ([] :: names) := by
      cases names with
      | nil => exact absurd rfl hnil
      | cons name names =>
        clear h hnil hhead
        induction names generalizing name with
        | nil => simp [List.intercalate]
        | cons next names ih =>
          rw [List.flatMap_cons, ih next]
          simp [List.intercalate]
    have hsplit : (names.flatMap ('/' :: ·)).splitOn '/' = [] :: names := by
      rw [hjoin]
      refine List.splitOn_intercalate '/' ?_ (List.cons_ne_nil _ _)
      intro name hname
      rcases List.mem_cons.mp hname with rfl | hname
      · simp
      · exact (h name hname).2
    unfold components
    rw [if_neg hnil, if_pos hhead, hsplit]
    have hfilter : names.filter (· ≠ []) = names := by
      apply List.filter_eq_self.mpr
      intro name hname
      simpa using (h name hname).1
    simpa using hfilter

theorem split_append (workingDirectory path : Text) (components : List Text) :
    split (workingDirectory ++ '/' :: path) components =
      split path (split workingDirectory components) := by
  have hnext : ∀ st, Path.next st '/' = (Path.finish st, []) := by
    rintro ⟨names, word⟩
    by_cases hword : word = [] <;> simp [Path.next, Path.finish, hword]
  unfold split
  rw [List.foldl_append, List.foldl_cons, hnext]

theorem iron_error {failure result : Result} {before components : List Text}
    (h : iron failure before components = .error result) : result = failure := by
  induction components generalizing before with
  | nil => cases h
  | cons component components ih =>
    unfold iron at h
    split_ifs at h
    · exact ih h
    · cases h
      rfl
    · exact ih h
    · exact ih h

/-- Whether a path leads above the root does not depend on the text of the error. -/
theorem iron_congr (failure failure' : Result) {before components names : List Text}
    (h : iron failure before components = .ok names) :
    iron failure' before components = .ok names := by
  induction components generalizing before with
  | nil => exact h
  | cons component components ih =>
    unfold iron at h ⊢
    split_ifs at h ⊢
    · exact ih h
    · exact ih h
    · exact ih h

def start (path workingDirectory : Text) : List Text :=
  split path (if isRelative path then split workingDirectory [] else [])

theorem canonicalize_ok_iff (path workingDirectory : Text) :
    (canonicalize path workingDirectory).1.status = .ok ↔
      (isRelative path = true → workingDirectory.head? = some '/') ∧
        ∃ names, iron (aboveRoot path workingDirectory) [] (start path workingDirectory) =
          .ok names := by
  unfold canonicalize
  by_cases hbad : isRelative path ∧ workingDirectory.head? ≠ some '/'
  · rw [if_pos hbad]
    exact ⟨nofun, fun h => absurd (h.1 hbad.1) hbad.2⟩
  · rw [if_neg hbad]
    have hroot : isRelative path = true → workingDirectory.head? = some '/' := fun h =>
      by_contra fun hf => hbad ⟨h, hf⟩
    change (match iron (aboveRoot path workingDirectory) [] (start path workingDirectory) with
      | .error result => (result, []) | .ok components => (.ok, join components)).1.status = _ ↔ _
    cases hiron : iron (aboveRoot path workingDirectory) [] (start path workingDirectory) with
    | error result =>
      rw [iron_error hiron]
      exact ⟨nofun, fun h => nomatch h.2⟩
    | ok names => exact ⟨fun _ => ⟨hroot, names, rfl⟩, fun _ => rfl⟩

theorem canonicalize_of_iron {path workingDirectory : Text} {names : List Text}
    (hroot : isRelative path = true → workingDirectory.head? = some '/')
    (hiron : iron (aboveRoot path workingDirectory) [] (start path workingDirectory) = .ok names) :
    canonicalize path workingDirectory = (.ok, join names) := by
  unfold canonicalize
  rw [if_neg fun h => h.2 (hroot h.1)]
  change (match iron (aboveRoot path workingDirectory) [] (start path workingDirectory) with
    | .error result => (result, []) | .ok components => (.ok, join components)) = _
  rw [hiron]

theorem isRelative_join (names : List Text) : isRelative (join names) = false := by
  cases names <;> rfl

theorem canonicalize_join {names : List Text} (h : ∀ name ∈ names, Canonical name)
    (workingDirectory : Text) : canonicalize (join names) workingDirectory = (.ok, join names) := by
  have hrelative := isRelative_join names
  have hstart : start (join names) workingDirectory = names := by
    have hsplit := components_join fun name hname => (h name hname).1
    unfold components at hsplit
    split_ifs at hsplit
    unfold start
    rw [hrelative, if_neg Bool.false_ne_true, split_eq, List.nil_append]
    exact Option.some.inj hsplit
  apply canonicalize_of_iron
  · simp [hrelative]
  · rw [hstart, iron_of_canonical _ _ h, List.nil_append]

theorem exists_names {path workingDirectory : Text}
    (h : (canonicalize path workingDirectory).1.status = .ok) :
    ∃ names, iron (aboveRoot path workingDirectory) [] (start path workingDirectory) = .ok names ∧
      (∀ name ∈ names, Canonical name) ∧
        canonicalize path workingDirectory = (.ok, join names) := by
  obtain ⟨hroot, names, hiron⟩ := (canonicalize_ok_iff path workingDirectory).mp h
  refine ⟨names, hiron, ?_, canonicalize_of_iron hroot hiron⟩
  refine iron_canonical (by simp) (fun name hname => valid_split path ?_ hname) hiron
  split_ifs
  · exact fun name hname => valid_split workingDirectory (by simp) hname
  · simp

/-- A path that is accepted is turned into an absolute one that has no empty component, no "."
and no "..", and that stays as it is from whichever working directory it is used. A relative path
means what it means behind its working directory. -/
theorem canonicalize_sound (path workingDirectory realPath : Text)
    (h : canonicalize path workingDirectory = (.ok, realPath)) :
    (∃ names, components realPath = some names ∧ ∀ name ∈ names, Canonical name) ∧
      (∀ other, canonicalize realPath other = (.ok, realPath)) ∧
      (isRelative path = true →
        ∀ other, canonicalize (workingDirectory ++ '/' :: path) other = (.ok, realPath)) := by
  have hok : (canonicalize path workingDirectory).1.status = .ok := by
    rw [h]
    rfl
  have hroot := ((canonicalize_ok_iff path workingDirectory).mp hok).1
  obtain ⟨names, hiron, hnames, hjoin⟩ := exists_names hok
  obtain rfl : join names = realPath := congrArg Prod.snd (hjoin.symm.trans h)
  refine ⟨⟨names, components_join fun name hname => (hnames name hname).1, hnames⟩,
    canonicalize_join hnames, fun hrelative other => ?_⟩
  have habsolute : isRelative (workingDirectory ++ '/' :: path) = false := by
    have hhead := hroot hrelative
    cases workingDirectory with
    | nil => rfl
    | cons c workingDirectory =>
      cases hhead
      rfl
  apply canonicalize_of_iron
  · simp [habsolute]
  · refine iron_congr (aboveRoot path workingDirectory) _ ?_
    unfold start at hiron ⊢
    rw [habsolute, if_neg Bool.false_ne_true, split_append]
    rwa [hrelative, if_pos rfl] at hiron

theorem sample_canonicalize :
    canonicalize "./b//../c/.".toList "/a".toList = (.ok, "/a/c".toList) ∧
      canonicalize "/a/./b//../c/.".toList "x".toList = (.ok, "/a/c".toList) :=
  ⟨by decide, (canonicalize_sound "./b//../c/.".toList "/a".toList "/a/c".toList
    (by decide)).2.2 rfl "x".toList⟩

theorem readWrite_of_canonicalize {path workingDirectory realPath : Text}
    (h : canonicalize path workingDirectory = (.ok, realPath)) (t : Tree) (condition : Text × Text)
    (request : Text → ReadWriteTree) :
    readWrite t path workingDirectory condition request =
      (t.readWriteTreeRPC { request realPath with condition := setCondition condition }).map
        fun r => (r.1, treeResult r.2.status r.2.error) := by
  unfold readWrite
  rw [h]
  rfl

theorem read_of_canonicalize {path workingDirectory realPath : Text}
    (h : canonicalize path workingDirectory = (.ok, realPath)) (t : Tree)
    (condition : Text × Text) :
    read t path workingDirectory condition =
      (t.readOnlyTreeRPC ⟨setCondition condition, none, some realPath⟩).map fun r =>
        (treeResult r.status r.error, if r.status ≠ .ok then [] else r.contents.getD []) := by
  unfold read
  rw [h]
  rfl

theorem listDirectory_of_canonicalize {path workingDirectory realPath : Text}
    (h : canonicalize path workingDirectory = (.ok, realPath)) (t : Tree)
    (condition : Text × Text) :
    listDirectory t path workingDirectory condition =
      (t.readOnlyTreeRPC ⟨setCondition condition, some realPath, none⟩).map fun r =>
        (treeResult r.status r.error, if r.status ≠ .ok then [] else r.children) := by
  unfold listDirectory
  rw [h]
  rfl

theorem canonicalize_status {path workingDirectory : Text}
    (h : (canonicalize path workingDirectory).1.status ≠ .ok) :
    (canonicalize path workingDirectory).1.status = .invalidArgument := by
  unfold canonicalize at h ⊢
  by_cases hbad : isRelative path ∧ workingDirectory.head? ≠ some '/'
  · rw [if_pos hbad]
    rfl
  · rw [if_neg hbad] at h ⊢
    dsimp only at h ⊢
    split at h
    · rename_i result hiron
      rw [iron_error hiron]
      rfl
    · exact absurd rfl h

theorem checkCondition_of_relative (t : Tree) {path : Text} (h : path.head? ≠ some '/')
    (contents : Text) : (t.checkCondition path contents).status = .conditionNotMet := by
  have hinvalid : (Path.new path).result.status = .invalidArgument :=
    Path.new_of_components_none (by unfold components; rw [if_neg h])
  have hread : (t.read path).1.status ≠ .ok := by
    unfold Tree.read
    rw [if_pos (by rw [hinvalid]; simp), hinvalid]
    simp
  unfold Tree.checkCondition
  dsimp only
  rw [if_pos hread]

theorem readWriteTreeRPC_of_relative (t : Tree) (request : ReadWriteTree) {c : TreeCondition}
    (hrequest : request.condition = some c) (h : c.path.head? ≠ some '/') :
    ∃ error, t.readWriteTreeRPC request = some (t, ⟨.conditionNotMet, error⟩) := by
  have hstatus : (t.condition request.condition).status = .conditionNotMet := by
    rw [hrequest]
    exact checkCondition_of_relative t h c.contents
  refine ⟨Tree.errorOf (t.condition request.condition), ?_⟩
  unfold Tree.readWriteTreeRPC
  dsimp only
  rw [if_pos (by rw [hstatus]; simp), Option.map_some]
  dsimp only
  rw [hstatus]

theorem readOnlyTreeRPC_of_relative (t : Tree) (request : ReadOnlyTree) {c : TreeCondition}
    (hrequest : request.condition = some c) (h : c.path.head? ≠ some '/') :
    ∃ error, t.readOnlyTreeRPC request = some ⟨.conditionNotMet, error, [], none⟩ := by
  have hstatus : (t.condition request.condition).status = .conditionNotMet := by
    rw [hrequest]
    exact checkCondition_of_relative t h c.contents
  refine ⟨Tree.errorOf (t.condition request.condition), ?_⟩
  unfold Tree.readOnlyTreeRPC
  dsimp only
  rw [if_pos (by rw [hstatus]; simp), hstatus]

def refusal (path workingDirectory : Text) : Status :=
  if (canonicalize path workingDirectory).1.status = .ok then .conditionNotMet
  else .invalidArgument

variable {condition : Text × Text} {c : TreeCondition}

theorem readWrite_of_relative (hc : setCondition condition = some c)
    (hhead : c.path.head? ≠ some '/') (t : Tree) (path workingDirectory : Text)
    (request : Text → ReadWriteTree) :
    ∃ result, readWrite t path workingDirectory condition request = some (t, result) ∧
      result.status = refusal path workingDirectory := by
  by_cases hpath : (canonicalize path workingDirectory).1.status = .ok
  · obtain ⟨names, -, -, hreal⟩ := exists_names hpath
    obtain ⟨error, hrpc⟩ := readWriteTreeRPC_of_relative t
      { request (join names) with condition := setCondition condition } hc hhead
    refine ⟨⟨.conditionNotMet, error.getD []⟩, ?_, (if_pos hpath).symm⟩
    rw [readWrite_of_canonicalize hreal, hrpc]
    rfl
  · refine ⟨(canonicalize path workingDirectory).1, if_pos hpath, ?_⟩
    rw [refusal, if_neg hpath, canonicalize_status hpath]

theorem read_of_relative (hc : setCondition condition = some c) (hhead : c.path.head? ≠ some '/')
    (t : Tree) (path workingDirectory : Text) :
    ∃ result, read t path workingDirectory condition = some (result, []) ∧
      result.status = refusal path workingDirectory := by
  by_cases hpath : (canonicalize path workingDirectory).1.status = .ok
  · obtain ⟨names, -, -, hreal⟩ := exists_names hpath
    obtain ⟨error, hrpc⟩ := readOnlyTreeRPC_of_relative t
      ⟨setCondition condition, none, some (join names)⟩ hc hhead
    refine ⟨⟨.conditionNotMet, error.getD []⟩, ?_, (if_pos hpath).symm⟩
    rw [read_of_canonicalize hreal, hrpc]
    rfl
  · refine ⟨(canonicalize path workingDirectory).1, if_pos hpath, ?_⟩
    rw [refusal, if_neg hpath, canonicalize_status hpath]

theorem listDirectory_of_relative (hc : setCondition condition = some c)
    (hhead : c.path.head? ≠ some '/') (t : Tree) (path workingDirectory : Text) :
    ∃ result, listDirectory t path workingDirectory condition = some (result, []) ∧
      result.status = refusal path workingDirectory := by
  by_cases hpath : (canonicalize path workingDirectory).1.status = .ok
  · obtain ⟨names, -, -, hreal⟩ := exists_names hpath
    obtain ⟨error, hrpc⟩ := readOnlyTreeRPC_of_relative t
      ⟨setCondition condition, some (join names), none⟩ hc hhead
    refine ⟨⟨.conditionNotMet, error.getD []⟩, ?_, (if_pos hpath).symm⟩
    rw [listDirectory_of_canonicalize hreal, hrpc]
    rfl
  · refine ⟨(canonicalize path workingDirectory).1, if_pos hpath, ?_⟩
    rw [refusal, if_neg hpath, canonicalize_status hpath]

end ClientImpl

namespace TreeDetails
open ClientImpl

/-- The condition that is set for a relative path is relative as well, accepted or not. -/
theorem setCondition_relative (d : TreeDetails) {path : Text} (h : isRelative path = true)
    (value : Text) :
    ∃ c, ClientImpl.setCondition (d.setCondition path value).1.condition = some c ∧
      c.path.head? ≠ some '/' := by
  have hpath : path ≠ [] ∧ path.head? ≠ some '/' := by simpa [isRelative] using h
  unfold TreeDetails.setCondition
  dsimp only
  split_ifs
  · exact ⟨_, rfl, by simp⟩
  · exact ⟨⟨path, value⟩, if_pos hpath.1, hpath.2⟩

/-- `setCondition` stores the path as it was given, not the canonical one. So once a condition has
been set for a relative path, accepted or not, every operation on this `Client::Tree` fails and
leaves the tree as it is, whether the file has the value or not: with an invalid argument if its
own path is not accepted, and otherwise because the condition is not met. A new working directory
does not help: setting it fails too, and keeps the condition. -/
theorem relative_condition_never_met (d : TreeDetails) (path value : Text)
    (hrelative : isRelative path = true) (details : TreeDetails)
    (hcondition : details.condition = (d.setCondition path value).1.condition) (t : Tree)
    (p : Text) :
    (∀ request, ∃ result,
      readWrite t p details.workingDirectory details.condition request = some (t, result) ∧
        result.status = refusal p details.workingDirectory) ∧
    (∃ result, ClientImpl.read t p details.workingDirectory details.condition =
      some (result, []) ∧ result.status = refusal p details.workingDirectory) ∧
    (∃ result, listDirectory t p details.workingDirectory details.condition =
      some (result, []) ∧ result.status = refusal p details.workingDirectory) ∧
    ∃ result workingDirectory, details.setWorkingDirectory t p =
      some (t, ⟨workingDirectory, details.condition⟩, result) ∧
        result.status = refusal p details.workingDirectory := by
  obtain ⟨c, hc, hhead⟩ := d.setCondition_relative hrelative value
  rw [← hcondition] at hc
  refine ⟨readWrite_of_relative hc hhead t p _, read_of_relative hc hhead t p _,
    listDirectory_of_relative hc hhead t p _, ?_⟩
  unfold TreeDetails.setWorkingDirectory
  dsimp only
  by_cases hp : (canonicalize p details.workingDirectory).1.status = .ok
  · obtain ⟨names, -, hnames, hreal⟩ := exists_names hp
    -- the canonical path is accepted again, so the condition is looked at
    obtain ⟨result, hmake, hresult⟩ := readWrite_of_relative hc hhead t (join names) []
      fun realPath => ⟨none, some realPath, none, none, none⟩
    refine ⟨result, join names, ?_, ?_⟩
    · rw [if_neg (not_not.mpr hp), hreal, makeDirectory, hmake]
      rfl
    · rw [hresult, refusal, refusal, if_pos hp, canonicalize_join hnames]
      rfl
  · refine ⟨(canonicalize p details.workingDirectory).1, _, if_pos hp, ?_⟩
    rw [refusal, if_neg hp, canonicalize_status hp]

/-- The file has the value that the condition asks for, and the condition was accepted. From
another directory, too, a write is refused, and a path above the root is an invalid argument. -/
theorem sample_relative_condition :
    Tree.sampleTree.read "/a/f".toList = (.ok, "1".toList) ∧
      (TreeDetails.setCondition ⟨"/a".toList, ([], [])⟩ "f".toList "1".toList).2 = .ok ∧
      (∃ result, ClientImpl.write Tree.sampleTree "f".toList "/a".toList "2".toList
        ("f".toList, "1".toList) = some (Tree.sampleTree, result) ∧
          result.status = .conditionNotMet) ∧
      ∃ result, ClientImpl.write Tree.sampleTree "..".toList "/".toList "2".toList
        ("f".toList, "1".toList) = some (Tree.sampleTree, result) ∧
          result.status = .invalidArgument :=
  ⟨by decide, by decide,
    (relative_condition_never_met ⟨"/a".toList, ([], [])⟩ "f".toList "1".toList rfl
      ⟨"/a".toList, ("f".toList, "1".toList)⟩ (by decide) Tree.sampleTree "f".toList).1 _,
    (relative_condition_never_met ⟨"/a".toList, ([], [])⟩ "f".toList "1".toList rfl
      ⟨"/".toList, ("f".toList, "1".toList)⟩ (by decide) Tree.sampleTree "..".toList).1 _⟩

end TreeDetails

end RaftMonitor.LogCabin
