import RaftMonitor.Runs
import RaftMonitor.Tree

namespace RaftMonitor.LogCabin

inductive Entry
  | directory
  | file (contents : Text)
  deriving DecidableEq

/-- What there is at each path, given by its components; the root has none. -/
abbrev FileSystem := List Text → Option Entry

/-- The components of a path in text form, if it is absolute. -/
def components (symbolic : Text) : Option (List Text) :=
  if symbolic.head? = some '/' then some ((symbolic.splitOn '/').filter (· ≠ [])) else none

namespace FileSystem

def new : FileSystem := fun p => if p = [] then some .directory else none

/-- What is in the way of the directory `p`: the first of its ancestors, or `p` itself, that is
missing or a file. -/
def way (fs : FileSystem) (p : List Text) : Status :=
  match p.inits.find? fun q => fs q ≠ some .directory with
  | none => .ok
  | some q => if fs q = none then .lookupError else .typeError

def makeDirectory (fs : FileSystem) (p : List Text) : FileSystem × Status :=
  if fs.way p = .typeError then (fs, .typeError)
  else (fun q => if q <+: p then some .directory else fs q, .ok)

/-- Everything below `p` is removed, and `p` itself unless it is the root. -/
def removeDirectory (fs : FileSystem) (p : List Text) : FileSystem × Status :=
  match fs.way p with
  | .ok => (fun q => if p <+: q ∧ q ≠ [] then none else fs q, .ok)
  | .lookupError => (fs, .ok)
  | status => (fs, status)

def write (fs : FileSystem) (p : List Text) (contents : Text) : FileSystem × Status :=
  match fs.way p.dropLast with
  | .ok =>
    if fs p = some .directory then (fs, .typeError)
    else (Function.update fs p (some (.file contents)), .ok)
  | status => (fs, status)

def removeFile (fs : FileSystem) (p : List Text) : FileSystem × Status :=
  match fs.way p.dropLast with
  | .ok =>
    if fs p = some .directory then (fs, .typeError) else (Function.update fs p none, .ok)
  | .lookupError => (fs, .ok)
  | status => (fs, status)

def read (fs : FileSystem) (p : List Text) : Status × Text :=
  match fs.way p.dropLast with
  | .ok => match fs p with
    | some (.file contents) => (.ok, contents)
    | some .directory => (.typeError, [])
    | none => (.lookupError, [])
  | status => (status, [])

def onPath (fs : FileSystem) (symbolic : Text) (op : List Text → FileSystem × Status) :
    FileSystem × Status :=
  match components symbolic with
  | some p => op p
  | none => (fs, .invalidArgument)

def readPath (fs : FileSystem) (symbolic : Text) : Status × Text :=
  match components symbolic with
  | some p => fs.read p
  | none => (.invalidArgument, [])

/-- A condition holds if its file can be read and has the contents that it asks for. -/
def Meets (fs : FileSystem) : Option TreeCondition → Prop
  | none => True
  | some c => fs.readPath c.path = (.ok, c.contents)

instance (fs : FileSystem) : ∀ c : Option TreeCondition, Decidable (fs.Meets c)
  | none => isTrue trivial
  | some c => inferInstanceAs (Decidable (fs.readPath c.path = (.ok, c.contents)))

def readWrite (fs : FileSystem) (request : ReadWriteTree) : Option (FileSystem × Status) :=
  if ¬fs.Meets request.condition then some (fs, .conditionNotMet)
  else if let some path := request.makeDirectory then some (fs.onPath path fs.makeDirectory)
  else if let some path := request.removeDirectory then some (fs.onPath path fs.removeDirectory)
  else if let some (path, contents) := request.write then
    some (fs.onPath path fun p => fs.write p contents)
  else if let some path := request.removeFile then some (fs.onPath path fs.removeFile)
  else none

/-- What is in the way of a directory that is given by its path in text form. -/
def wayPath (fs : FileSystem) (symbolic : Text) : Status :=
  match components symbolic with
  | some p => fs.way p
  | none => .invalidArgument

def readOnly (fs : FileSystem) (request : ReadOnlyTree) : Option (Status × Option Text) :=
  if ¬fs.Meets request.condition then some (.conditionNotMet, none)
  else if let some path := request.listDirectory then some (fs.wayPath path, none)
  else if let some path := request.read then
    some ((fs.readPath path).1, some (fs.readPath path).2)
  else none

def serve (fs : FileSystem) :
    ReadOnlyTree ⊕ ReadWriteTree → Option (FileSystem × Status × Option Text)
  | .inl request => (fs.readOnly request).map fun r => (fs, r)
  | .inr request => (fs.readWrite request).map fun r => (r.1, r.2, none)

theorem way_cons {fs : FileSystem} (h : fs [] = some .directory) (name : Text)
    (names : List Text) : fs.way (name :: names) = way (fun q => fs (name :: q)) names := by
  unfold way
  rw [List.inits, List.find?_cons_of_neg (by simp [h]), List.find?_map]
  change (match (names.inits.find? fun q => decide (fs (name :: q) ≠ some .directory)).map
    (name :: ·) with | none => _ | some q => _) = _
  cases names.inits.find? fun q => decide (fs (name :: q) ≠ some .directory) <;> rfl

theorem way_concat (fs : FileSystem) (p : List Text) (name : Text) :
    fs.way (p ++ [name]) =
      if fs.way p ≠ .ok then fs.way p
      else match fs (p ++ [name]) with
        | some .directory => .ok
        | some (.file _) => .typeError
        | none => .lookupError := by
  unfold way
  rw [List.inits_append, List.find?_append]
  cases hfind : p.inits.find? fun q => decide (fs q ≠ some .directory) with
  | some q => by_cases hq : fs q = none <;> simp [hq]
  | none =>
    cases hlast : fs (p ++ [name]) with
    | none => simp [List.inits, hlast]
    | some e => cases e <;> simp [List.inits, hlast]

theorem way_of_root_ne {fs : FileSystem} (h : fs [] ≠ some .directory) (names : List Text) :
    fs.way names = if fs [] = none then .lookupError else .typeError := by
  unfold way
  cases names <;> simp [List.inits, h]

end FileSystem

namespace Directory

def walk : Directory → List Text → Option Directory
  | d, [] => some d
  | d, name :: names => (d.lookupDirectory name).bind (·.walk names)

def entry : Directory → FileSystem
  | _, [] => some .directory
  | d, name :: names => match d.lookupDirectory name with
    | some child => child.entry names
    | none => if names = [] then (d.lookupFile name).map .file else none

/-- A name that the asserts of `Directory` let pass. No component of a path has a slash. -/
def ValidName (name : Text) : Prop := name ≠ [] ∧ '/' ∉ name

/-- Both maps are in the order of their names, all names are valid, and none is in both maps; and
so it is in all directories below. -/
inductive Ok : Directory → Prop
  | intro {d : Directory} (directories : SortedMap.Sorted d.directories)
    (files : SortedMap.Sorted d.files)
    (names : ∀ name, (d.lookupDirectory name).isSome ∨ (d.lookupFile name).isSome →
      ValidName name)
    (apart : ∀ name child, d.lookupDirectory name = some child → d.lookupFile name = none)
    (children : ∀ name child, d.lookupDirectory name = some child → child.Ok) : d.Ok

variable {d e c : Directory} {name : Text} {names : List Text}

theorem lookupDirectory_putDirectory (d : Directory) (name : Text) (child : Directory) (a : Text) :
    (d.putDirectory name child).lookupDirectory a =
      if a = name then some child else d.lookupDirectory a :=
  SortedMap.find_insert d.directories name child a

theorem lookupFile_putFile (d : Directory) (name contents a : Text) :
    (d.putFile name contents).lookupFile a = if a = name then some contents else d.lookupFile a :=
  SortedMap.find_insert d.files name contents a

theorem lookupDirectory_removeDirectory (d : Directory) (name a : Text) :
    (d.removeDirectory name).lookupDirectory a =
      if a = name then none else d.lookupDirectory a :=
  SortedMap.find_erase d.directories name a

theorem lookupFile_removeFile (d : Directory) (name a : Text) :
    (d.removeFile name).lookupFile a = if a = name then none else d.lookupFile a :=
  SortedMap.find_erase d.files name a

theorem Ok.apart (h : d.Ok) (hc : d.lookupDirectory name = some c) :
    d.lookupFile name = none := by
  cases h with
  | intro _ _ _ apart _ => exact apart name c hc

theorem Ok.child (h : d.Ok) (hc : d.lookupDirectory name = some c) : c.Ok := by
  cases h with
  | intro _ _ _ _ children => exact children name c hc

theorem ok_new : new.Ok :=
  .intro .nil .nil (fun _ h => by simp [new, lookupDirectory, lookupFile, directories, files,
    SortedMap.find] at h) nofun nofun

theorem Ok.putDirectory (h : d.Ok) (hc : c.Ok) (hname : ValidName name)
    (hfile : d.lookupFile name = none) : (d.putDirectory name c).Ok := by
  cases h with
  | intro sortedDirs sortedFiles valid apart children =>
    refine .intro (sortedDirs.insert name c) sortedFiles ?_ ?_ ?_
    · intro a ha
      rw [lookupDirectory_putDirectory] at ha
      split_ifs at ha with heq
      · exact heq ▸ hname
      · exact valid a ha
    · intro a c ha
      rw [lookupDirectory_putDirectory] at ha
      split_ifs at ha with heq
      · exact heq ▸ hfile
      · exact apart a c ha
    · intro a c ha
      rw [lookupDirectory_putDirectory] at ha
      split_ifs at ha with heq
      · exact Option.some.inj ha ▸ hc
      · exact children a c ha

theorem Ok.putFile (h : d.Ok) (hname : ValidName name) (hdir : d.lookupDirectory name = none)
    (contents : Text) : (d.putFile name contents).Ok := by
  cases h with
  | intro sortedDirs sortedFiles valid apart children =>
    refine .intro sortedDirs (sortedFiles.insert name contents) ?_ ?_ children
    · intro a ha
      rw [lookupFile_putFile] at ha
      by_cases heq : a = name
      · exact heq ▸ hname
      · rw [if_neg heq] at ha
        exact valid a ha
    · intro a c ha
      rw [lookupFile_putFile, if_neg]
      · exact apart a c ha
      · rintro rfl
        simp [show d.lookupDirectory a = some c from ha] at hdir

theorem Ok.removeDirectory (h : d.Ok) (name : Text) : (d.removeDirectory name).Ok := by
  cases h with
  | intro sortedDirs sortedFiles valid apart children =>
    have hsub : ∀ a c, (d.removeDirectory name).lookupDirectory a = some c →
        d.lookupDirectory a = some c := by
      intro a c ha
      rw [lookupDirectory_removeDirectory] at ha
      split_ifs at ha
      exact ha
    refine .intro (sortedDirs.erase name) sortedFiles ?_ ?_ ?_
    · intro a ha
      apply valid a
      refine ha.imp (fun ha => ?_) id
      obtain ⟨c, hc⟩ := Option.isSome_iff_exists.mp ha
      simp [hsub a c hc]
    · exact fun a c ha => apart a c (hsub a c ha)
    · exact fun a c ha => children a c (hsub a c ha)

theorem Ok.removeFile (h : d.Ok) (name : Text) : (d.removeFile name).Ok := by
  cases h with
  | intro sortedDirs sortedFiles valid apart children =>
    refine .intro sortedDirs (sortedFiles.erase name) ?_ ?_ children
    · intro a ha
      rw [lookupFile_removeFile] at ha
      apply valid a
      refine ha.imp id fun ha => ?_
      split_ifs at ha
      · cases ha
      · exact ha
    · intro a c ha
      rw [lookupFile_removeFile]
      split_ifs
      · rfl
      · exact apart a c ha

theorem Ok.valid (h : d.Ok) (hname : (d.lookupDirectory name).isSome ∨ (d.lookupFile name).isSome) :
    ValidName name := by
  cases h with
  | intro _ _ valid _ _ => exact valid name hname

theorem Ok.walk (h : d.Ok) (he : d.walk names = some e) : e.Ok := by
  induction names generalizing d with
  | nil => exact Option.some.inj he ▸ h
  | cons name names ih =>
    obtain ⟨child, hchild, he⟩ := Option.bind_eq_some_iff.mp he
    exact ih (h.child hchild) he

theorem Ok.assign (h : d.Ok) (he : e.Ok) (names : List Text) : (d.assign names e).Ok := by
  induction names generalizing d with
  | nil => exact he
  | cons name names ih =>
    unfold Directory.assign
    split
    · rename_i child hchild
      exact h.putDirectory (ih (h.child hchild)) (h.valid (by simp [hchild])) (h.apart hchild)
    · exact h

theorem entry_append (h : d.walk names = some e) (q : List Text) :
    d.entry (names ++ q) = e.entry q := by
  induction names generalizing d with
  | nil => exact Option.some.inj h ▸ rfl
  | cons name names ih =>
    obtain ⟨child, hchild, he⟩ := Option.bind_eq_some_iff.mp h
    rw [List.cons_append, entry, hchild]
    exact ih he

theorem walk_append (h : d.walk names = some e) (q : List Text) :
    d.walk (names ++ q) = e.walk q := by
  induction names generalizing d with
  | nil => exact Option.some.inj h ▸ rfl
  | cons name names ih =>
    obtain ⟨child, hchild, he⟩ := Option.bind_eq_some_iff.mp h
    rw [List.cons_append, walk, hchild]
    exact ih he

/-- An assignment changes what is below the directory that is assigned to, and nothing else. -/
theorem entry_assign (h : d.walk names = some e) (e' : Directory) (q : List Text) :
    (d.assign names e').entry q =
      if names <+: q then e'.entry (q.drop names.length) else d.entry q := by
  induction names generalizing d q with
  | nil => simp [assign]
  | cons name names ih =>
    obtain ⟨child, hchild, he⟩ := Option.bind_eq_some_iff.mp h
    rw [assign, hchild]
    cases q with
    | nil => simp [entry]
    | cons a q =>
      dsimp only
      rw [entry, lookupDirectory_putDirectory]
      by_cases ha : a = name
      · subst ha
        rw [if_pos rfl]
        dsimp only
        rw [ih he, entry, hchild]
        simp
      · rw [if_neg ha, if_neg (fun hp => ha (List.cons_prefix_cons.mp hp).1.symm)]
        rfl

theorem entry_singleton (d : Directory) (name : Text) :
    d.entry [name] = match d.lookupDirectory name with
      | some _ => some .directory
      | none => (d.lookupFile name).map .file := by
  rw [entry]
  cases d.lookupDirectory name <;> rfl

theorem entry_putDirectory (d : Directory) (name : Text) (c : Directory) (a : Text)
    (r : List Text) :
    (d.putDirectory name c).entry (a :: r) = if a = name then c.entry r else d.entry (a :: r) := by
  rw [entry, lookupDirectory_putDirectory]
  by_cases ha : a = name
  · rw [if_pos ha, if_pos ha]
  · rw [if_neg ha, if_neg ha]
    rfl

theorem entry_putFile (hdir : d.lookupDirectory name = none) (contents : Text) (r : List Text) :
    (d.putFile name contents).entry r =
      if r = [name] then some (.file contents) else d.entry r := by
  cases r with
  | nil => rfl
  | cons a r =>
    have hlookup : (d.putFile name contents).lookupDirectory a = d.lookupDirectory a := rfl
    rw [entry, entry, hlookup, lookupFile_putFile]
    by_cases ha : a = name
    · subst ha
      rw [hdir]
      cases r <;> simp
    · simp [ha]

theorem entry_removeFile (hdir : d.lookupDirectory name = none) (r : List Text) :
    (d.removeFile name).entry r = if r = [name] then none else d.entry r := by
  cases r with
  | nil => rfl
  | cons a r =>
    have hlookup : (d.removeFile name).lookupDirectory a = d.lookupDirectory a := rfl
    rw [entry, entry, hlookup, lookupFile_removeFile]
    by_cases ha : a = name
    · subst ha
      rw [hdir]
      cases r <;> simp
    · simp [ha]

theorem entry_removeDirectory (hfile : d.lookupFile name = none) (r : List Text) :
    (d.removeDirectory name).entry r = if [name] <+: r then none else d.entry r := by
  cases r with
  | nil => rfl
  | cons a r =>
    have hlookup : (d.removeDirectory name).lookupFile a = d.lookupFile a := rfl
    rw [entry, entry, hlookup, lookupDirectory_removeDirectory]
    by_cases ha : a = name
    · subst ha
      simp [hfile]
    · have hother : ¬[name] <+: a :: r := fun h => ha (List.cons_prefix_cons.mp h).1.symm
      simp [ha, hother]

theorem Ok.getChildren (h : d.Ok) : d.getChildren.Nodup ∧ ∀ child, child ∈ d.getChildren ↔
    (∃ name, child = name ++ ['/'] ∧ d.entry [name] = some .directory) ∨
      ∃ contents, d.entry [child] = some (.file contents) := by
  cases h with
  | intro sortedDirs sortedFiles valid apart _ =>
    have hdirs : d.directories.map (fun e => e.1 ++ ['/']) =
        (d.directories.map Prod.fst).map (· ++ ['/']) := by simp
    have hdirectory : ∀ name, d.entry [name] = some .directory ↔
        ∃ c, d.lookupDirectory name = some c := by
      intro name
      rw [entry_singleton]
      cases d.lookupDirectory name with
      | some c => simp
      | none => cases d.lookupFile name <;> simp
    have hfile : ∀ name contents, d.entry [name] = some (.file contents) ↔
        d.lookupFile name = some contents := by
      intro name contents
      rw [entry_singleton]
      cases hc : d.lookupDirectory name with
      | some c => simp [apart name c hc]
      | none => cases d.lookupFile name <;> simp
    unfold Directory.getChildren
    rw [hdirs]
    constructor
    · refine List.nodup_append'.mpr ⟨sortedDirs.nodup_keys.map (fun _ _ h => ?_),
        sortedFiles.nodup_keys, ?_⟩
      · exact List.append_cancel_right h
      · intro x hx hx'
        obtain ⟨name, -, rfl⟩ := List.mem_map.mp hx
        obtain ⟨v, hv⟩ := sortedFiles.mem_keys.mp hx'
        have hvalid := valid (name ++ ['/']) (.inr (by simp [lookupFile, hv]))
        exact hvalid.2 (by simp)
    · intro child
      rw [List.mem_append, List.mem_map]
      simp only [sortedDirs.mem_keys, sortedFiles.mem_keys, hdirectory, hfile]
      constructor
      · rintro (⟨name, hname, rfl⟩ | hchild)
        · exact .inl ⟨name, rfl, hname⟩
        · exact .inr hchild
      · rintro (⟨name, rfl, hname⟩ | hchild)
        · exact .inl ⟨name, hname, rfl⟩
        · exact .inr hchild

theorem entry_new (q : List Text) : new.entry q = FileSystem.new q := by
  cases q <;> simp [entry, new, FileSystem.new, lookupDirectory, lookupFile, directories, files,
    SortedMap.find]

end Directory

namespace Path

theorem modifyHead_nil_append (words : List Text) : words.modifyHead ([] ++ ·) = words := by
  cases words <;> rfl

theorem finish_foldl (symbolic : Text) (names : List Text) (word : Text) :
    finish (symbolic.foldl next (names, word)) =
      names ++ ((symbolic.splitOn '/').modifyHead (word ++ ·)).filter (· ≠ []) := by
  unfold List.splitOn
  induction symbolic generalizing names word with
  | nil =>
    by_cases hw : word = [] <;> simp [finish, hw]
  | cons c symbolic ih =>
    rw [List.foldl_cons, List.splitOnP_cons_eq_if_modifyHead]
    by_cases hc : c = '/'
    · subst hc
      by_cases hw : word = []
      · subst hw
        have hnext : next (names, []) '/' = (names, []) := rfl
        rw [hnext, ih, modifyHead_nil_append]
        simp
      · have hnext : next (names, word) '/' = (names ++ [word], []) := by simp [next, hw]
        rw [hnext, ih, modifyHead_nil_append]
        simp [hw]
    · have hnext : next (names, word) c = (names, word ++ [c]) := by simp [next, hc]
      rw [hnext, ih]
      simp [hc, List.modifyHead_modifyHead, Function.comp_def]

theorem new_of_components {symbolic : Text} {p : List Text} (h : components symbolic = some p) :
    (Path.new symbolic).result = .ok ∧
      (Path.new symbolic).parents ++ [(Path.new symbolic).target] = "root".toList :: p := by
  unfold components at h
  split_ifs at h with hhead
  have hslash : ['/'] <+: symbolic := by
    cases symbolic with
    | nil => cases hhead
    | cons c symbolic => simp_all
  have hfinish := finish_foldl symbolic ["root".toList] []
  rw [modifyHead_nil_append, Option.some.inj h, List.singleton_append] at hfinish
  unfold Path.new
  rw [if_neg (not_not.mpr hslash)]
  refine ⟨rfl, ?_⟩
  change (finish _).dropLast ++ [(finish _).getLastD []] = _
  rw [hfinish, List.getLastD_cons, ← List.getLast_eq_getLastD]
  exact List.dropLast_append_getLast (List.cons_ne_nil _ _)

theorem new_of_components_none {symbolic : Text} (h : components symbolic = none) :
    (Path.new symbolic).result.status = .invalidArgument := by
  unfold components at h
  split_ifs at h with hhead
  have hslash : ¬['/'] <+: symbolic := by
    rintro ⟨rest, rfl⟩
    exact hhead rfl
  unfold Path.new
  rw [if_pos hslash]

theorem valid_of_components {symbolic : Text} {p : List Text} (h : components symbolic = some p)
    {name : Text} (hname : name ∈ "root".toList :: p) : Directory.ValidName name := by
  rcases List.mem_cons.mp hname with rfl | hname
  · exact ⟨by simp, by decide⟩
  · unfold components at h
    split_ifs at h
    rw [← Option.some.inj h, List.mem_filter] at hname
    exact ⟨by simpa using hname.2, notMem_of_mem_splitOn hname.1⟩

end Path

namespace Tree
open FileSystem

theorem normalLookup_spec (path : Path) (i : ℕ) (d : Directory) (names : List Text) :
    match normalLookup path i d names with
    | .ok e => d.walk names = some e ∧ way d.entry names = .ok
    | .error result => result.status = way d.entry names ∧ way d.entry names ≠ .ok := by
  induction names generalizing i d with
  | nil => exact ⟨rfl, rfl⟩
  | cons name names ih =>
    rw [way_cons rfl]
    unfold normalLookup
    cases hchild : d.lookupDirectory name with
    | some child =>
      have hentry : (fun q => d.entry (name :: q)) = child.entry := by
        funext q
        rw [Directory.entry, hchild]
      rw [hentry]
      simpa [Directory.walk, hchild] using ih (i + 1) child
    | none =>
      have hentry : d.entry [name] = (d.lookupFile name).map .file := by
        rw [Directory.entry, hchild]
        rfl
      rw [way_of_root_ne (by rw [hentry]; cases d.lookupFile name <;> simp), hentry]
      cases d.lookupFile name <;> simp [Path.parentMissing, Path.parentIsFile]

structure Ok (t : Tree) : Prop where
  superRoot : t.superRoot.Ok
  root : (t.superRoot.lookupDirectory "root".toList).isSome

def view (t : Tree) : FileSystem := fun q => t.superRoot.entry ("root".toList :: q)

theorem view_nil {t : Tree} (h : t.Ok) : t.view [] = some .directory := by
  obtain ⟨root, hroot⟩ := Option.isSome_iff_exists.mp h.root
  unfold view
  rw [Directory.entry, hroot]
  rfl

theorem way_superRoot {t : Tree} (p : List Text) :
    way t.superRoot.entry ("root".toList :: p) = way t.view p := way_cons rfl _ _

/-- Of an operation on the tree and one on the file system: they have the same effect and the
same status, and if they fail the tree is as before. -/
structure Simulates (t : Tree) (r : Tree × Result) (a : FileSystem × Status) : Prop where
  ok : r.1.Ok
  view : r.1.view = a.1
  status : r.2.status = a.2
  unchanged : r.2.status ≠ .ok → r.1 = t

section Operations

variable {t : Tree} {p : List Text} {parents : List Text} {target : Text} {e e' : Directory}

theorem way_parents (h : t.Ok) (hp : parents ++ [target] = "root".toList :: p) :
    way t.superRoot.entry parents = way t.view p.dropLast := by
  rcases List.eq_nil_or_concat p with rfl | ⟨q, name, rfl⟩
  · have hnil : parents = [] := by
      have := congrArg List.length hp
      simp at this
      exact this
    rw [hnil]
    simp [way, view_nil h, Directory.entry]
  · rw [List.concat_eq_append, ← List.cons_append] at hp
    rw [(List.append_inj' hp rfl).1, List.concat_eq_append, List.dropLast_concat, way_superRoot]

theorem view_append (hp : parents ++ [target] = "root".toList :: p)
    (he : t.superRoot.walk parents = some e) (r : List Text) :
    t.view (p ++ r) = e.entry (target :: r) := by
  unfold view
  rw [← List.cons_append, ← hp, List.append_assoc, Directory.entry_append he]
  rfl

theorem view_eq_entry (hp : parents ++ [target] = "root".toList :: p)
    (he : t.superRoot.walk parents = some e) : t.view p = e.entry [target] := by
  rw [← view_append hp he, List.append_nil]

theorem view_assign (hp : parents ++ [target] = "root".toList :: p)
    (he : t.superRoot.walk parents = some e)
    (hsame : ∀ r, ¬[target] <+: r → e'.entry r = e.entry r) (q : List Text) :
    (Tree.mk (t.superRoot.assign parents e')).view q =
      if p <+: q then e'.entry (target :: q.drop p.length) else t.view q := by
  unfold view
  rw [Directory.entry_assign he]
  by_cases hparents : parents <+: "root".toList :: q
  · rw [if_pos hparents]
    obtain ⟨r, hr⟩ := hparents
    rw [← hr, List.drop_left]
    by_cases htarget : [target] <+: r
    · obtain ⟨r', rfl⟩ := htarget
      rw [← List.append_assoc, hp, List.cons_append] at hr
      rw [← (List.cons.inj hr).2, if_pos (List.prefix_append _ _), List.drop_left]
      rfl
    · rw [hsame r htarget, if_neg, Directory.entry_append he]
      rintro ⟨r', rfl⟩
      rw [← List.cons_append, ← hp, List.append_assoc] at hr
      exact htarget ⟨r', (List.append_cancel_left hr).symm⟩
  · rw [if_neg hparents, if_neg]
    rintro ⟨r', rfl⟩
    exact hparents ⟨target :: r', by rw [← List.cons_append, ← hp]; simp⟩

theorem view_assign_update (hp : parents ++ [target] = "root".toList :: p)
    (he : t.superRoot.walk parents = some e) {x : Option Entry}
    (hentry : ∀ r, e'.entry r = if r = [target] then x else e.entry r) :
    (Tree.mk (t.superRoot.assign parents e')).view = Function.update t.view p x := by
  funext q
  rw [view_assign hp he fun r hr => by
    rw [hentry, if_neg]
    rintro rfl
    exact hr List.prefix_rfl]
  by_cases hq : p <+: q
  · obtain ⟨r, rfl⟩ := hq
    rw [if_pos (List.prefix_append _ _), List.drop_left, hentry]
    cases r with
    | nil => simp
    | cons name r =>
      rw [if_neg (by simp), Function.update_of_ne (by simp), view_append hp he]
  · rw [if_neg hq, Function.update_of_ne]
    rintro rfl
    exact hq List.prefix_rfl

theorem ok_assign (h : t.Ok) (he' : e'.Ok) (hroot : parents = [] → (e'.lookupDirectory
    "root".toList).isSome) (hp : parents ++ [target] = "root".toList :: p) :
    (Tree.mk (t.superRoot.assign parents e')).Ok := by
  refine ⟨h.superRoot.assign he' parents, ?_⟩
  cases parents with
  | nil => exact hroot rfl
  | cons name names =>
    have hname : name = "root".toList := (List.cons.inj hp).1
    obtain ⟨root, hr⟩ := Option.isSome_iff_exists.mp h.root
    subst hname
    unfold Directory.assign
    rw [hr]
    dsimp only
    rw [Directory.lookupDirectory_putDirectory, if_pos rfl]
    rfl

end Operations

theorem simulates_self {t : Tree} (h : t.Ok) {result : Result} {status : Status}
    (hs : result.status = status) : t.Simulates (t, result) (t.view, status) :=
  ⟨h, rfl, hs, fun _ => rfl⟩

theorem path_spec {symbolic : Text} {p : List Text} (hp : components symbolic = some p) :
    (Path.new symbolic).result.status = .ok ∧
      (Path.new symbolic).parents ++ [(Path.new symbolic).target] = "root".toList :: p ∧
      Directory.ValidName (Path.new symbolic).target := by
  obtain ⟨hresult, hparents⟩ := Path.new_of_components hp
  refine ⟨by rw [hresult]; rfl, hparents, Path.valid_of_components hp ?_⟩
  rw [← hparents]
  simp

theorem normalLookup_cases {t : Tree} (h : t.Ok) {symbolic : Text} {p : List Text}
    (hp : components symbolic = some p) :
    (∃ e, normalLookup (Path.new symbolic) 0 t.superRoot (Path.new symbolic).parents = .ok e ∧
        t.superRoot.walk (Path.new symbolic).parents = some e ∧ way t.view p.dropLast = .ok) ∨
      ∃ result, normalLookup (Path.new symbolic) 0 t.superRoot (Path.new symbolic).parents =
          .error result ∧
        result.status = way t.view p.dropLast ∧ way t.view p.dropLast ≠ .ok := by
  have hspec := normalLookup_spec (Path.new symbolic) 0 t.superRoot (Path.new symbolic).parents
  rw [way_parents h (path_spec hp).2.1] at hspec
  split at hspec
  · rename_i e hlookup
    exact .inl ⟨e, hlookup, hspec⟩
  · rename_i result hlookup
    exact .inr ⟨result, hlookup, hspec⟩

theorem root_of_walk {t : Tree} (h : t.Ok) {e : Directory} {parents : List Text}
    (he : t.superRoot.walk parents = some e) (hnil : parents = []) :
    (e.lookupDirectory "root".toList).isSome := by
  rw [hnil] at he
  rw [← Option.some.inj he]
  exact h.root

theorem write_simulates {t : Tree} (h : t.Ok) {symbolic : Text} {p : List Text}
    (hp : components symbolic = some p) (contents : Text) :
    t.Simulates (t.write symbolic contents) (t.view.write p contents) := by
  obtain ⟨hresult, hparents, hvalid⟩ := path_spec hp
  unfold Tree.write FileSystem.write
  rw [if_neg (not_not.mpr hresult)]
  obtain ⟨e, hlookup, he, hway⟩ | ⟨result, hlookup, hstatus, hway⟩ := normalLookup_cases h hp
  · have hview := view_eq_entry hparents he
    rw [Directory.entry_singleton] at hview
    rw [hlookup, hway]
    dsimp only
    unfold Directory.makeFile
    cases hdir : e.lookupDirectory (Path.new symbolic).target with
    | some c =>
      rw [hdir] at hview
      rw [hview]
      exact simulates_self h rfl
    | none =>
      rw [hdir] at hview
      have hne : t.view p ≠ some .directory := by
        rw [hview]
        cases e.lookupFile (Path.new symbolic).target <;> simp
      have hmade : ∀ c, (e.putFile (Path.new symbolic).target c).lookupDirectory
        (Path.new symbolic).target = none := fun _ => hdir
      rw [if_neg hne]
      refine ⟨?_, ?_, rfl, fun hf => absurd rfl hf⟩
      · exact ok_assign h (((h.superRoot.walk he).putFile hvalid hdir _).putFile hvalid (hmade _) _)
          (fun hnil => root_of_walk (e := e) h he hnil) hparents
      · apply view_assign_update hparents he
        intro r
        rw [Directory.entry_putFile (hmade _), Directory.entry_putFile hdir]
        split_ifs <;> rfl
  · rw [hlookup]
    cases hw : way t.view p.dropLast with
    | ok => exact absurd hw hway
    | _ => exact simulates_self h (hstatus.trans hw)

theorem removeFile_simulates {t : Tree} (h : t.Ok) {symbolic : Text} {p : List Text}
    (hp : components symbolic = some p) :
    t.Simulates (t.removeFile symbolic) (t.view.removeFile p) := by
  obtain ⟨hresult, hparents, hvalid⟩ := path_spec hp
  unfold Tree.removeFile FileSystem.removeFile
  rw [if_neg (not_not.mpr hresult)]
  obtain ⟨e, hlookup, he, hway⟩ | ⟨result, hlookup, hstatus, hway⟩ := normalLookup_cases h hp
  · have hview := view_eq_entry hparents he
    rw [Directory.entry_singleton] at hview
    rw [hlookup, hway]
    dsimp only
    cases hdir : e.lookupDirectory (Path.new symbolic).target with
    | some c =>
      rw [hdir] at hview
      rw [hview]
      exact simulates_self h rfl
    | none =>
      rw [hdir] at hview
      have hne : t.view p ≠ some .directory := by
        rw [hview]
        cases e.lookupFile (Path.new symbolic).target <;> simp
      rw [if_neg hne]
      refine ⟨?_, ?_, rfl, fun hf => absurd rfl hf⟩
      · exact ok_assign h ((h.superRoot.walk he).removeFile _)
          (fun hnil => root_of_walk (e := e) h he hnil) hparents
      · exact view_assign_update hparents he (Directory.entry_removeFile hdir)
  · rw [hlookup]
    cases hw : way t.view p.dropLast with
    | ok => exact absurd hw hway
    | lookupError =>
      dsimp only
      rw [if_pos (hstatus.trans hw)]
      exact simulates_self h rfl
    | _ =>
      dsimp only
      rw [if_neg (by rw [hstatus, hw]; simp)]
      exact simulates_self h (hstatus.trans hw)

theorem read_simulates {t : Tree} (h : t.Ok) {symbolic : Text} {p : List Text}
    (hp : components symbolic = some p) :
    ((t.read symbolic).1.status, (t.read symbolic).2) = t.view.read p := by
  obtain ⟨hresult, hparents, -⟩ := path_spec hp
  unfold Tree.read FileSystem.read
  rw [if_neg (not_not.mpr hresult)]
  obtain ⟨e, hlookup, he, hway⟩ | ⟨result, hlookup, hstatus, hway⟩ := normalLookup_cases h hp
  · have hview := view_eq_entry hparents he
    rw [Directory.entry_singleton] at hview
    rw [hlookup, hway, hview]
    dsimp only
    cases hdir : e.lookupDirectory (Path.new symbolic).target with
    | some c =>
      rw [(h.superRoot.walk he).apart hdir]
      rfl
    | none => cases e.lookupFile (Path.new symbolic).target <;> rfl
  · rw [hlookup]
    cases hw : way t.view p.dropLast with
    | ok => exact absurd hw hway
    | _ => simp [hstatus, hw]

theorem way_eq {t : Tree} (h : t.Ok) (p : List Text) :
    way t.view p = if way t.view p.dropLast ≠ .ok then way t.view p.dropLast
      else match t.view p with
        | some .directory => .ok
        | some (.file _) => .typeError
        | none => .lookupError := by
  rcases List.eq_nil_or_concat p with rfl | ⟨q, name, rfl⟩
  · simp [way, view_nil h]
  · rw [List.concat_eq_append, way_concat, List.dropLast_concat]

theorem removeDirectory_simulates {t : Tree} (h : t.Ok) {symbolic : Text} {p : List Text}
    (hp : components symbolic = some p) :
    t.Simulates (t.removeDirectory symbolic) (t.view.removeDirectory p) := by
  obtain ⟨hresult, hparents, hvalid⟩ := path_spec hp
  have hnil : (Path.new symbolic).parents = [] ↔ p = [] := by
    have hlen := congrArg List.length hparents
    simp only [List.length_append, List.length_cons, List.length_nil] at hlen
    rw [← List.length_eq_zero_iff, ← List.length_eq_zero_iff]
    omega
  unfold Tree.removeDirectory FileSystem.removeDirectory
  rw [if_neg (not_not.mpr hresult), way_eq h]
  obtain ⟨e, hlookup, he, hway⟩ | ⟨result, hlookup, hstatus, hway⟩ := normalLookup_cases h hp
  · have hview := view_eq_entry hparents he
    rw [Directory.entry_singleton] at hview
    rw [hlookup, if_neg (not_not.mpr hway), hview]
    dsimp only
    cases hdir : e.lookupDirectory (Path.new symbolic).target with
    | none =>
      cases e.lookupFile (Path.new symbolic).target with
      | none => exact simulates_self h rfl
      | some contents => exact simulates_self h rfl
    | some c =>
      have heOk := h.superRoot.walk he
      have hfile := heOk.apart hdir
      have hremoved := Directory.entry_removeDirectory hfile
      by_cases hroot : p = []
      · -- the root directory is made again, without anything in it
        have hmake : (e.removeDirectory (Path.new symbolic).target).makeDirectory
            (Path.new symbolic).target =
              some ((e.removeDirectory (Path.new symbolic).target).putDirectory
                (Path.new symbolic).target .new, .new) := by
          unfold Directory.makeDirectory
          rw [Directory.lookupDirectory_removeDirectory, if_pos rfl, if_neg]
          · rfl
          · change ¬(e.lookupFile (Path.new symbolic).target).isSome = true
            simp [hfile]
        have htarget : (Path.new symbolic).target = "root".toList := by
          rw [hnil.mpr hroot] at hparents
          exact (List.cons.inj hparents).1
        rw [if_pos (hnil.mpr hroot), hmake]
        refine ⟨?_, ?_, rfl, fun hf => absurd rfl hf⟩
        · refine ok_assign h ((heOk.removeDirectory _).putDirectory Directory.ok_new hvalid hfile)
            (fun _ => ?_) hparents
          rw [Directory.lookupDirectory_putDirectory, if_pos htarget.symm]
          rfl
        · funext q
          dsimp only
          rw [view_assign hparents he, hroot, if_pos List.nil_prefix]
          · rw [Directory.entry_putDirectory, if_pos rfl, Directory.entry_new]
            cases q with
            | nil => simp [FileSystem.new, view_nil h]
            | cons a q => simp [FileSystem.new]
          · intro r hr
            cases r with
            | nil => rfl
            | cons a r =>
              rw [Directory.entry_putDirectory, if_neg, hremoved, if_neg hr]
              rintro rfl
              exact hr (by simp)
      · rw [if_neg (fun hn => hroot (hnil.mp hn))]
        refine ⟨?_, ?_, rfl, fun hf => absurd rfl hf⟩
        · exact ok_assign h (heOk.removeDirectory _) (fun hn => absurd (hnil.mp hn) hroot) hparents
        · funext q
          dsimp only
          have hgone : (e.removeDirectory (Path.new symbolic).target).entry
              ((Path.new symbolic).target :: q.drop p.length) = none :=
            (hremoved _).trans (if_pos ⟨_, rfl⟩)
          rw [view_assign hparents he fun r hr => (hremoved r).trans (if_neg hr), hgone]
          by_cases hq : p <+: q
          · have hne : q ≠ [] := by
              rintro rfl
              exact hroot (List.prefix_nil.mp hq)
            rw [if_pos hq, if_pos ⟨hq, hne⟩]
          · rw [if_neg hq, if_neg fun hf => hq hf.1]
  · rw [hlookup, if_pos hway]
    cases hw : way t.view p.dropLast with
    | ok => exact absurd hw hway
    | lookupError =>
      dsimp only
      rw [if_pos (hstatus.trans hw)]
      exact simulates_self h rfl
    | _ =>
      dsimp only
      rw [if_neg (by rw [hstatus, hw]; simp)]
      exact simulates_self h (hstatus.trans hw)

theorem putDirectory_self {d c : Directory} (h : d.Ok) {name : Text}
    (hc : d.lookupDirectory name = some c) : d.putDirectory name c = d := by
  cases h with
  | intro sortedDirs _ _ _ _ =>
    unfold Directory.putDirectory
    rw [sortedDirs.insert_of_find hc]
    cases d
    rfl

theorem way_new_ne {names : List Text} : way Directory.new.entry names ≠ .typeError := by
  have hnew : Directory.new.entry = FileSystem.new := funext Directory.entry_new
  rw [hnew]
  unfold way
  split
  · simp
  · rename_i q hq
    have := List.find?_some hq
    by_cases hnil : q = []
    · simp [hnil, FileSystem.new] at this
    · simp [FileSystem.new, hnil]

theorem made_spec {d : Directory} (h : d.Ok) {name : Text} (hfile : d.lookupFile name = none) :
    ((d.lookupDirectory name).getD .new).Ok ∧
      (∀ q, q ≠ [] → ((d.lookupDirectory name).getD .new).entry q = d.entry (name :: q)) ∧
      ∀ names, way (fun q => d.entry (name :: q)) names = .typeError ↔
        way ((d.lookupDirectory name).getD .new).entry names = .typeError := by
  cases hc : d.lookupDirectory name with
  | some c =>
    have hentry : (fun q => d.entry (name :: q)) = c.entry := by
      funext q
      rw [Directory.entry, hc]
    refine ⟨h.child hc, fun q _ => (congrFun hentry q).symm, fun names => ?_⟩
    rw [hentry]
    rfl
  | none =>
    have hentry : ∀ q, d.entry (name :: q) = none := by
      intro q
      rw [Directory.entry, hc, hfile]
      simp
    refine ⟨Directory.ok_new, fun q hq => ?_, fun names => ?_⟩
    · rw [hentry]
      simp [Directory.entry_new, FileSystem.new, hq]
    · rw [way_of_root_ne (by simp [hentry])]
      simp [hentry, way_new_ne]

/-- The parents are made one after the other. If one of them is a file, all those before it were
there already. -/
theorem mkdirLookup_spec (path : Path) (i : ℕ) {d : Directory} (h : d.Ok) {names : List Text}
    (hnames : ∀ name ∈ names, Directory.ValidName name) :
    (way d.entry names = .typeError ∧
      ∃ result, mkdirLookup path i d names = (d, .error result) ∧ result.status = .typeError) ∨
    (way d.entry names ≠ .typeError ∧
      ∃ d' e, mkdirLookup path i d names = (d', .ok e) ∧ d'.Ok ∧ d'.walk names = some e ∧
        ∀ q, d'.entry q = if q <+: names then some .directory else d.entry q) := by
  induction names generalizing i d with
  | nil =>
    refine .inr ⟨by simp [way, Directory.entry], d, d, rfl, h, rfl, fun q => ?_⟩
    split_ifs with hq
    · rw [List.prefix_nil.mp hq]
      rfl
    · rfl
  | cons name names ih =>
    have hname := hnames name List.mem_cons_self
    have hrest : ∀ a ∈ names, Directory.ValidName a := fun a ha =>
      hnames a (List.mem_cons_of_mem _ ha)
    rw [way_cons rfl]
    unfold mkdirLookup Directory.makeDirectory
    cases hfile : d.lookupFile name with
    | some contents =>
      -- a file, which is no directory
      have hdir : d.lookupDirectory name = none := by
        cases hc : d.lookupDirectory name with
        | none => rfl
        | some c => simp [h.apart hc] at hfile
      have hentry : d.entry [name] = some (.file contents) := by
        rw [Directory.entry_singleton, hdir, hfile]
        rfl
      refine .inl ⟨?_, _, rfl, rfl⟩
      rw [way_of_root_ne (by simp [hentry])]
      simp [hentry]
    | none =>
      obtain ⟨hchild, hbelow, hway⟩ := made_spec h hfile
      simp only [Option.isSome_none, Bool.false_eq_true, ↓reduceIte, ne_eq, hway]
      rcases ih (i + 1) hchild hrest with ⟨hw, result, hr, hs⟩ | ⟨hw, d', e, hr, hd', he, hentry⟩
      · refine .inl ⟨hw, result, ?_, hs⟩
        rw [hr]
        cases hc : d.lookupDirectory name with
        | some c => simp [putDirectory_self h hc]
        | none =>
          rw [hc] at hw
          exact absurd hw way_new_ne
      · refine .inr ⟨hw, _, e, by rw [hr], ?_, ?_, ?_⟩
        · exact (h.putDirectory hchild hname hfile).putDirectory hd' hname hfile
        · rw [Directory.walk, Directory.lookupDirectory_putDirectory, if_pos rfl]
          exact he
        · intro q
          cases q with
          | nil => simp [Directory.entry]
          | cons a q =>
            rw [Directory.entry_putDirectory, Directory.entry_putDirectory]
            by_cases ha : a = name
            · subst ha
              rw [if_pos rfl, hentry]
              by_cases hq : q <+: names
              · rw [if_pos hq, if_pos (List.cons_prefix_cons.mpr ⟨rfl, hq⟩)]
              · rw [if_neg hq, if_neg fun hf => hq (List.cons_prefix_cons.mp hf).2, hbelow q]
                rintro rfl
                exact hq List.nil_prefix
            · rw [if_neg ha, if_neg ha, if_neg fun hf => ha (List.cons_prefix_cons.mp hf).1]

theorem putDirectory_putDirectory (d : Directory) (name : Text) (c c' : Directory) :
    (d.putDirectory name c).putDirectory name c' = d.putDirectory name c' :=
  congrArg (Directory.mk · d.files) (SortedMap.insert_insert d.directories name c c')

theorem mkdirLookup_concat (path : Path) (i : ℕ) (d : Directory) (names : List Text)
    (name : Text) :
    (mkdirLookup path i d (names ++ [name])).1 =
        (match mkdirLookup path i d names with
        | (d', .error _) => d'
        | (d', .ok e) => match e.makeDirectory name with
          | none => d'
          | some (e, _) => d'.assign names e) ∧
      ((∃ e, (mkdirLookup path i d (names ++ [name])).2 = .ok e) ↔
        ∃ e, (mkdirLookup path i d names).2 = .ok e ∧ (e.makeDirectory name).isSome) := by
  induction names generalizing i d with
  | nil =>
    simp only [List.nil_append, mkdirLookup]
    cases hmake : d.makeDirectory name with
    | none => simp [hmake]
    | some r =>
      obtain ⟨d', child⟩ := r
      have hd' : d' = d.putDirectory name child := by
        unfold Directory.makeDirectory at hmake
        split_ifs at hmake
        cases hmake
        rfl
      simp [hmake, Directory.assign, hd', putDirectory_putDirectory]
  | cons a names ih =>
    simp only [List.cons_append, mkdirLookup]
    cases hmake : d.makeDirectory a with
    | none => simp
    | some r =>
      obtain ⟨d', child⟩ := r
      obtain ⟨hdir, hok⟩ := ih (i + 1) child
      dsimp only
      refine ⟨?_, hok⟩
      rw [hdir]
      rcases hr : mkdirLookup path (i + 1) child names with ⟨c', result | e⟩
      · rfl
      · dsimp only
        cases e.makeDirectory name with
        | none => rfl
        | some r =>
          dsimp only
          rw [Directory.assign, Directory.lookupDirectory_putDirectory, if_pos rfl]
          dsimp only
          rw [putDirectory_putDirectory]

theorem makeDirectory_simulates {t : Tree} (h : t.Ok) {symbolic : Text} {p : List Text}
    (hp : components symbolic = some p) :
    t.Simulates (t.makeDirectory symbolic) (t.view.makeDirectory p) := by
  obtain ⟨hresult, hparents, -⟩ := path_spec hp
  have hnames : ∀ name ∈ (Path.new symbolic).parents ++ [(Path.new symbolic).target],
      Directory.ValidName name := by
    rw [hparents]
    exact fun name hname => Path.valid_of_components hp hname
  have hspec := mkdirLookup_spec (Path.new symbolic) 0 h.superRoot hnames
  have hspec' := mkdirLookup_spec (Path.new symbolic) 0 h.superRoot
    fun name hname => hnames name (List.mem_append_left _ hname)
  obtain ⟨hdir, hok⟩ := mkdirLookup_concat (Path.new symbolic) 0 t.superRoot
    (Path.new symbolic).parents (Path.new symbolic).target
  rw [hparents, way_superRoot] at hspec
  rw [hparents] at hdir hok
  unfold Tree.makeDirectory FileSystem.makeDirectory
  rw [if_neg (not_not.mpr hresult)]
  rcases hspec with ⟨hway, result, hr, -⟩ | ⟨hway, d', e, hr, hd', he, hentry⟩
  · rw [hr] at hdir hok
    rw [if_pos hway]
    rcases hl : mkdirLookup (Path.new symbolic) 0 t.superRoot (Path.new symbolic).parents with
      ⟨d', result' | e⟩
    · rw [hl] at hdir hspec'
      have hstatus : result'.status = .typeError := by
        rcases hspec' with ⟨-, _, hr', hs⟩ | ⟨-, _, _, hr', -⟩
        · cases hr'
          exact hs
        · cases hr'
      dsimp only at hdir ⊢
      rw [← hdir]
      exact simulates_self h hstatus
    · rw [hl] at hdir hok
      cases hmake : e.makeDirectory (Path.new symbolic).target with
      | none =>
        simp only [hmake] at hdir ⊢
        rw [← hdir]
        exact simulates_self h rfl
      | some r =>
        obtain ⟨e', he'⟩ := hok.mpr ⟨e, rfl, by simp [hmake]⟩
        cases he'
  · rw [hr] at hdir hok
    obtain ⟨e₀, hl, hmake⟩ := hok.mp ⟨e, rfl⟩
    rw [if_neg hway]
    rcases hr' : mkdirLookup (Path.new symbolic) 0 t.superRoot (Path.new symbolic).parents with
      ⟨d₀, result⟩
    rw [hr'] at hl hdir
    obtain rfl : result = .ok e₀ := hl
    obtain ⟨r, hr''⟩ := Option.isSome_iff_exists.mp hmake
    simp only [hr''] at hdir ⊢
    rw [← hdir]
    refine ⟨⟨hd', ?_⟩, ?_, rfl, fun hf => absurd rfl hf⟩
    · rw [Directory.walk] at he
      obtain ⟨c, hc, -⟩ := Option.bind_eq_some_iff.mp he
      exact Option.isSome_iff_exists.mpr ⟨c, hc⟩
    · funext q
      dsimp only
      unfold view
      rw [hentry]
      by_cases hq : q <+: p
      · rw [if_pos hq, if_pos (List.cons_prefix_cons.mpr ⟨rfl, hq⟩)]
      · rw [if_neg hq, if_neg fun hf => hq (List.cons_prefix_cons.mp hf).2]

theorem ok_new : Tree.new.Ok :=
  ⟨Directory.ok_new.putDirectory Directory.ok_new ⟨by simp, by decide⟩ rfl, rfl⟩

theorem view_new : Tree.new.view = FileSystem.new := by
  funext q
  change (Directory.new.putDirectory "root".toList .new).entry ("root".toList :: q) = _
  rw [Directory.entry_putDirectory, if_pos rfl, Directory.entry_new]

theorem onPath_simulates {t : Tree} (h : t.Ok) (symbolic : Text) {r : Tree × Result}
    {op : List Text → FileSystem × Status}
    (hinvalid : (Path.new symbolic).result.status ≠ .ok → r = (t, (Path.new symbolic).result))
    (hvalid : ∀ p, components symbolic = some p → t.Simulates r (op p)) :
    t.Simulates r (t.view.onPath symbolic op) := by
  unfold FileSystem.onPath
  cases hp : components symbolic with
  | some p => exact hvalid p hp
  | none =>
    have hstatus := Path.new_of_components_none hp
    rw [hinvalid (by rw [hstatus]; simp)]
    exact simulates_self h hstatus

theorem readPath_simulates {t : Tree} (h : t.Ok) (symbolic : Text) :
    ((t.read symbolic).1.status, (t.read symbolic).2) = t.view.readPath symbolic := by
  unfold FileSystem.readPath
  cases hp : components symbolic with
  | some p => exact read_simulates h hp
  | none =>
    have hstatus := Path.new_of_components_none hp
    unfold Tree.read
    rw [if_pos (by rw [hstatus]; simp), hstatus]

theorem condition_simulates {t : Tree} (h : t.Ok) (c : Option TreeCondition) :
    (t.condition c).status = if t.view.Meets c then .ok else .conditionNotMet := by
  cases c with
  | none => rfl
  | some c =>
    have hread := readPath_simulates h c.path
    have hmeets : t.view.Meets (some c) ↔
        (t.read c.path).1.status = .ok ∧ c.contents = (t.read c.path).2 := by
      change t.view.readPath c.path = (.ok, c.contents) ↔ _
      rw [← hread, Prod.mk.injEq]
      exact and_congr_right fun _ => eq_comm
    simp only [hmeets]
    unfold condition checkCondition
    dsimp only
    by_cases hs : (t.read c.path).1.status = .ok
    · by_cases hc : c.contents = (t.read c.path).2
      · rw [if_neg (not_not.mpr hs), if_neg (not_not.mpr hc), if_pos ⟨hs, hc⟩]
        rfl
      · rw [if_neg (not_not.mpr hs), if_pos hc, if_neg fun hf => hc hf.2]
    · rw [if_pos hs, if_neg fun hf => hs hf.1]

/-- The tree is well formed and holds what the file system does. -/
def Holds (t : Tree) (fs : FileSystem) : Prop := t.Ok ∧ t.view = fs

theorem readWriteOp_simulates {t : Tree} (h : t.Ok) (request : ReadWriteTree)
    (hm : t.view.Meets request.condition) :
    (t.readWriteOp request = none ∧ t.view.readWrite request = none) ∨
      ∃ r a, t.readWriteOp request = some r ∧ t.view.readWrite request = some a ∧
        t.Simulates r a := by
  unfold readWriteOp FileSystem.readWrite
  rw [if_neg (not_not.mpr hm)]
  cases request.makeDirectory with
  | some path =>
    refine .inr ⟨_, _, rfl, rfl, onPath_simulates h path ?_ fun p => makeDirectory_simulates h⟩
    intro hs
    unfold Tree.makeDirectory
    rw [if_pos hs]
  | none =>
    cases request.removeDirectory with
    | some path =>
      refine .inr ⟨_, _, rfl, rfl, onPath_simulates h path ?_ fun p => removeDirectory_simulates h⟩
      intro hs
      unfold Tree.removeDirectory
      rw [if_pos hs]
    | none =>
      cases request.write with
      | some w =>
        refine .inr ⟨_, _, rfl, rfl, onPath_simulates h w.1 ?_ fun p hp => write_simulates h hp w.2⟩
        intro hs
        unfold Tree.write
        rw [if_pos hs]
      | none =>
        cases request.removeFile with
        | some path =>
          refine .inr ⟨_, _, rfl, rfl, onPath_simulates h path ?_ fun p => removeFile_simulates h⟩
          intro hs
          unfold Tree.removeFile
          rw [if_pos hs]
        | none => exact .inl ⟨rfl, rfl⟩

theorem readWrite_simulates {t : Tree} (h : t.Ok) (request : ReadWriteTree) :
    (t.readWriteTreeRPC request = none ∧ t.view.readWrite request = none) ∨
      ∃ r a, t.readWriteTreeRPC request = some (r.1, ⟨r.2.status, errorOf r.2⟩) ∧
        t.view.readWrite request = some a ∧ t.Simulates r a := by
  unfold readWriteTreeRPC
  dsimp only
  rw [condition_simulates h]
  by_cases hm : t.view.Meets request.condition
  · rw [if_pos hm, if_neg (not_not.mpr rfl)]
    rcases readWriteOp_simulates h request hm with ⟨hr, ha⟩ | ⟨r, a, hr, ha, hsim⟩
    · exact .inl ⟨by rw [hr]; rfl, ha⟩
    · exact .inr ⟨r, a, by rw [hr]; rfl, ha, hsim⟩
  · rw [if_neg hm, if_pos (by simp)]
    refine .inr ⟨(t, t.condition request.condition), (t.view, .conditionNotMet), rfl, ?_,
      simulates_self h ?_⟩
    · unfold FileSystem.readWrite
      rw [if_pos hm]
    · rw [condition_simulates h, if_neg hm]

theorem listDirectory_cases {t : Tree} (h : t.Ok) {symbolic : Text} {p : List Text}
    (hp : components symbolic = some p) :
    (t.listDirectory symbolic).1.status = way t.view p ∧
      (way t.view p = .ok → ∃ e, t.superRoot.walk ("root".toList :: p) = some e ∧
        (t.listDirectory symbolic).2 = e.getChildren) := by
  obtain ⟨hresult, hparents, -⟩ := path_spec hp
  unfold Tree.listDirectory
  rw [if_neg (not_not.mpr hresult), way_eq h]
  obtain ⟨e, hlookup, he, hway⟩ | ⟨result, hlookup, hstatus, hway⟩ := normalLookup_cases h hp
  · have hview := view_eq_entry hparents he
    rw [Directory.entry_singleton] at hview
    rw [hlookup, if_neg (not_not.mpr hway), hview]
    dsimp only
    cases hdir : e.lookupDirectory (Path.new symbolic).target with
    | some c =>
      refine ⟨rfl, fun _ => ⟨c, ?_, rfl⟩⟩
      rw [← hparents, Directory.walk_append he, Directory.walk, hdir]
      rfl
    | none => cases e.lookupFile (Path.new symbolic).target <;> exact ⟨rfl, nofun⟩
  · rw [hlookup, if_pos hway]
    exact ⟨hstatus, fun hok => absurd hok hway⟩

theorem readOnly_simulates {t : Tree} (h : t.Ok) (request : ReadOnlyTree) :
    (t.readOnlyTreeRPC request).map (fun r => (r.status, r.contents)) =
      t.view.readOnly request := by
  unfold readOnlyTreeRPC FileSystem.readOnly
  dsimp only
  rw [condition_simulates h]
  by_cases hm : t.view.Meets request.condition
  · rw [if_pos hm, if_neg (not_not.mpr rfl), if_neg (not_not.mpr hm)]
    cases request.listDirectory with
    | some path =>
      simp only [Option.map_some, Option.some.injEq, Prod.mk.injEq, and_true]
      unfold FileSystem.wayPath
      cases hp : components path with
      | some p => exact (listDirectory_cases h hp).1
      | none =>
        have hstatus := Path.new_of_components_none hp
        unfold Tree.listDirectory
        rw [if_pos (by rw [hstatus]; simp)]
        exact hstatus
    | none =>
      cases request.read with
      | some path =>
        have hread := readPath_simulates h path
        simp only [Option.map_some, Option.some.injEq, Prod.mk.injEq]
        exact ⟨congrArg Prod.fst hread, congrArg Prod.snd hread⟩
      | none => rfl
  · rw [if_neg hm, if_pos (by simp), if_pos hm]
    rfl

theorem serve_matches {t : Tree} {fs : FileSystem} (h : t.Holds fs)
    (request : ReadOnlyTree ⊕ ReadWriteTree) :
    Runs.Matches Holds id (t.serve request) (fs.serve request) := by
  obtain ⟨hok, rfl⟩ := h
  cases request with
  | inl request =>
    unfold Tree.serve FileSystem.serve
    dsimp only
    rw [← readOnly_simulates hok]
    cases t.readOnlyTreeRPC request with
    | none => trivial
    | some r => exact ⟨⟨hok, rfl⟩, rfl⟩
  | inr request =>
    unfold Tree.serve FileSystem.serve
    rcases readWrite_simulates hok request with ⟨hr, ha⟩ | ⟨r, a, hr, ha, hsim⟩
    · simp only [hr, ha]
      trivial
    · simp only [hr, ha]
      exact ⟨⟨hsim.ok, hsim.view⟩, by simp [hsim.status]⟩

/-- The tree refines the file system: whatever requests it serves one after the other, with or
without conditions and with paths of any form, their statuses and what they read are those of
the file system, and in the end it holds what the file system holds. -/
theorem tree_refines_fileSystem (requests : List (ReadOnlyTree ⊕ ReadWriteTree)) :
    (Runs.serve Tree.serve Tree.new requests).map (fun r => (r.1.view, r.2)) =
      Runs.serve FileSystem.serve FileSystem.new requests := by
  have h := Runs.serve_matches (fun _ _ request h => serve_matches h request)
    (show Tree.new.Holds FileSystem.new from ⟨ok_new, view_new⟩) requests
  cases hs : Runs.serve Tree.serve Tree.new requests with
  | none =>
    cases ha : Runs.serve FileSystem.serve FileSystem.new requests with
    | none => rfl
    | some _ => rw [hs, ha] at h; exact h.elim
  | some r =>
    cases ha : Runs.serve FileSystem.serve FileSystem.new requests with
    | none => rw [hs, ha] at h; exact h.elim
    | some a =>
      rw [hs, ha] at h
      exact congrArg some (Prod.ext h.1.2 ((List.map_id _).symm.trans h.2))

theorem ok_serve {requests : List (ReadOnlyTree ⊕ ReadWriteTree)}
    {r : Tree × List (Status × Option Text)}
    (hserve : Runs.serve Tree.serve Tree.new requests = some r) : r.1.Ok := by
  refine Runs.serve_invariant (fun t request r h hr => ?_) ok_new hserve
  have hmatch := serve_matches ⟨h, rfl⟩ request
  rw [hr] at hmatch
  cases ha : t.view.serve request with
  | none => rw [ha] at hmatch; exact hmatch.elim
  | some a => rw [ha] at hmatch; exact hmatch.1.1

/-- A request that fails leaves the tree as it was, even one that makes directories on its way:
it does not find a file after it has made the first of them. -/
theorem failed_request_changes_nothing (requests : List (ReadOnlyTree ⊕ ReadWriteTree))
    (r : Tree × List (Status × Option Text))
    (hserve : Runs.serve Tree.serve Tree.new requests = some r) (request : ReadWriteTree)
    (t : Tree) (response : ReadWriteTree.Response)
    (hrequest : r.1.readWriteTreeRPC request = some (t, response))
    (hfail : response.status ≠ .ok) : t = r.1 := by
  rcases readWrite_simulates (ok_serve hserve) request with ⟨hr, -⟩ | ⟨s, a, hr, -, hsim⟩
  · rw [hr] at hrequest
    cases hrequest
  · rw [hr] at hrequest
    cases hrequest
    exact hsim.unchanged hfail

def sampleRequests : List (ReadOnlyTree ⊕ ReadWriteTree) :=
  [.inr ⟨none, some "/a/b".toList, none, none, none⟩,
    .inr ⟨none, none, none, some ("/a//f".toList, "1".toList), none⟩]

def sampleTree : Tree :=
  ⟨.mk [("root".toList, .mk [("a".toList, .mk [("b".toList, .new)] [("f".toList, "1".toList)])] [])]
    []⟩

theorem sampleTree_served :
    Runs.serve Tree.serve Tree.new sampleRequests =
      some (sampleTree, [(.ok, none), (.ok, none)]) := rfl

/-- A file is on the way to the directory that is to be made. -/
theorem sample_failed_request :
    ∃ t, sampleTree.readWriteTreeRPC ⟨none, some "/a/f/g".toList, none, none, none⟩ =
        some (t, ⟨.typeError, some "Parent /a/f of /a/f/g is a file".toList⟩) ∧
      t = sampleTree :=
  ⟨_, rfl, failed_request_changes_nothing sampleRequests _ sampleTree_served
    ⟨none, some "/a/f/g".toList, none, none, none⟩ _
    ⟨.typeError, some "Parent /a/f of /a/f/g is a file".toList⟩ rfl (by decide)⟩

/-- A listing names exactly what there is one level below the directory, each name once, with a
slash behind the names of directories. -/
theorem listDirectory_exact (requests : List (ReadOnlyTree ⊕ ReadWriteTree))
    (r : Tree × List (Status × Option Text))
    (hserve : Runs.serve Tree.serve Tree.new requests = some r) (symbolic : Text)
    (p : List Text) (hp : components symbolic = some p) :
    (r.1.listDirectory symbolic).1.status = r.1.view.way p ∧
      (r.1.view.way p = .ok → (r.1.listDirectory symbolic).2.Nodup ∧
        ∀ child, child ∈ (r.1.listDirectory symbolic).2 ↔
          (∃ name, child = name ++ ['/'] ∧ r.1.view (p ++ [name]) = some .directory) ∨
            ∃ contents, r.1.view (p ++ [child]) = some (.file contents)) := by
  have h := ok_serve hserve
  obtain ⟨hstatus, hlist⟩ := listDirectory_cases h hp
  refine ⟨hstatus, fun hway => ?_⟩
  obtain ⟨e, he, hchildren⟩ := hlist hway
  have hview : ∀ name, r.1.view (p ++ [name]) = e.entry [name] := by
    intro name
    unfold view
    rw [← List.cons_append, Directory.entry_append he]
  simp only [hchildren, hview]
  exact (h.superRoot.walk he).getChildren

theorem sample_listDirectory :
    (sampleTree.listDirectory "/a/".toList).2 = ["b/".toList, "f".toList] ∧
      (sampleTree.listDirectory "/a/".toList).2.Nodup :=
  ⟨rfl, ((listDirectory_exact sampleRequests _ sampleTree_served "/a/".toList ["a".toList]
    (by decide)).2 (by decide)).1⟩

end Tree

end RaftMonitor.LogCabin
