import RaftMonitor.Driver
import RaftMonitor.Runs

namespace RaftMonitor.CommandLine
open Runs

/-- Why the program stops. Reading an element of `argv` from `argc` on would be one reason. -/
inductive Stop
  | assertion
  | exit (code : ℤ)
  | exception (e : ConversionError)
  | outOfBounds
  deriving DecidableEq, Repr

/-- `stof`, and a way to write numbers that it can read back. -/
structure Floats (φ : Type) where
  stof : Text → Except ConversionError φ
  render : φ → Text
  stof_render : ∀ x, stof (render x) = .ok x

def require (p : Prop) [Decidable p] : Except Stop Unit :=
  if p then .ok () else .error .assertion

/-- `argv[i]`; `argc` is the length of the list. -/
def argument (argv : List Text) (i : ℕ) : Except Stop Text :=
  match argv[i]? with
  | some token => .ok token
  | none => .error .outOfBounds

/-- An exception of a conversion is caught nowhere. -/
def convert {α : Type} (x : Except ConversionError α) : Except Stop α := x.mapError .exception

def help {α : Type} : Except Stop α := .error (.exit 0)

def selectImplementation (implStr : Text) : Except Stop RaftImplementation :=
  if implStr = "logcabin".toList then .ok .logcabin
  else if implStr = "etcd".toList then .ok .etcd
  else help

def eatTestMode (modeStr : Text) : Except Stop TestMode :=
  if modeStr = "random".toList then .ok .random
  else if modeStr = "leader".toList then .ok .leader
  else help

inductive TestKind
  | basic
  | block
  | kill
  deriving DecidableEq, Repr

/-- The global `testArgs`. The arguments of a block test and of a kill test are in a union, and
both begin with their mode. -/
structure Args (φ : Type) where
  type : TestKind
  iterations : CInt
  time : CInt
  mode : TestMode
  frac : φ

/-- `assert(argi < argc)`, and then `argv[argi++]`. -/
def eat (argv : List Text) (argi : ℕ) : Except Stop (Text × ℕ) := do
  require (argi < argv.length)
  let token ← argument argv argi
  return (token, argi + 1)

def testKind (testName : Text) : Except Stop TestKind :=
  if testName = "basic".toList then .ok .basic
  else if testName = "block".toList then .ok .block
  else if testName = "kill".toList then .ok .kill
  else .error (.exit 1)

def eatTestArguments {φ : Type} (F : Floats φ) (argv : List Text) (g : Args φ) (argi : ℕ) :
    Except Stop (Text × Args φ × ℕ) := do
  let (testName, argi) ← eat argv argi
  let type ← testKind testName
  let (token, argi) ← eat argv argi
  let iterations ← convert (stoi token)
  let (token, argi) ← eat argv argi
  let time ← convert (stoi token)
  let g := { g with type := type, iterations := iterations, time := time }
  match type with
  | .block =>
    let (token, argi) ← eat argv argi
    let mode ← eatTestMode token
    let (token, argi) ← eat argv argi
    let frac ← convert (F.stof token)
    return (testName, { g with mode := mode, frac := frac }, argi)
  | .kill =>
    let (token, argi) ← eat argv argi
    let mode ← eatTestMode token
    return (testName, { g with mode := mode }, argi)
  | .basic => return (testName, g, argi)

inductive Test (φ : Type)
  | basic
  | block (mode : TestMode) (frac : φ)
  | kill (mode : TestMode)
  deriving DecidableEq, Repr

structure Spec (φ : Type) where
  test : Test φ
  iterations : CInt
  time : CInt
  deriving DecidableEq, Repr

/-- What the body of the loop reads of `testArgs`: of the union, the member for the type. -/
def Args.spec {φ : Type} (g : Args φ) : Spec φ where
  test := match g.type with
    | .basic => .basic
    | .block => .block g.mode g.frac
    | .kill => .kill g.mode
  iterations := g.iterations
  time := g.time

/-- The rest of `main`: the state when the monitor is online, what the run of a test makes of it,
and the code with which the process has then ended, if it has. -/
structure Body (σ φ : Type) where
  init : σ
  run : σ → Text → Spec φ → σ
  exit : σ → Option ℤ

/-- How the loop is left, or that it is not left yet. -/
inductive Outcome (σ φ : Type)
  | done (s : σ) (argi : ℕ)
  | stopped (why : Stop) (s : σ)
  | running (s : σ) (g : Args φ) (argi : ℕ)

def loop {σ φ : Type} (F : Floats φ) (argv : List Text) (body : Body σ φ) :
    ℕ → σ → Args φ → ℕ → Outcome σ φ
  | 0, s, g, argi => .running s g argi
  | passes + 1, s, g, argi =>
    if argi < argv.length then
      match eatTestArguments F argv g argi with
      | .error why => .stopped why s
      | .ok (testName, g, argi) =>
        let s := body.run s testName g.spec
        match body.exit s with
        | some code => .stopped (.exit code) s
        | none => loop F argv body passes s g argi
    else .done s argi

def start (argv : List Text) : Except Stop (RaftImplementation × CInt × CInt) :=
  if argv.length < 7 then help else do
  let program ← argument argv 0
  if program = "--help".toList then help else do
  let implStr ← argument argv 1
  let impl ← selectImplementation implStr
  let nNodes ← argument argv 2
  let nNodes ← convert (stoi nNodes)
  let nClients ← argument argv 3
  let nClients ← convert (stoi nClients)
  return (impl, nNodes, nClients)

/-- `main`; more than `argc` passes are never made. -/
def main {σ φ : Type} (F : Floats φ) (argv : List Text)
    (body : RaftImplementation → CInt → CInt → Body σ φ) (g : Args φ) :
    Except Stop (Outcome σ φ) := do
  let (impl, nNodes, nClients) ← start argv
  let b := body impl nNodes nClients
  return loop F argv b argv.length b.init g 4

def TestKind.name : TestKind → Text
  | .basic => "basic".toList
  | .block => "block".toList
  | .kill => "kill".toList

def modeName : TestMode → Text
  | .random => "random".toList
  | .leader => "leader".toList

section Rendering
variable {σ φ : Type} (F : Floats φ)

def Test.kind : Test φ → TestKind
  | .basic => .basic
  | .block _ _ => .block
  | .kill _ => .kill

def Test.arguments : Test φ → List Text
  | .basic => []
  | .block mode frac => [modeName mode, F.render frac]
  | .kill mode => [modeName mode]

def Spec.name (spec : Spec φ) : Text := spec.test.kind.name

def Spec.tokens (spec : Spec φ) : List Text :=
  spec.name :: stdToString spec.iterations.1 :: stdToString spec.time.1 :: spec.test.arguments F

def commandLine (program : Text) (impl : RaftImplementation) (nNodes nClients : CInt)
    (specs : List (Spec φ)) : List Text :=
  program :: impl.name :: stdToString nNodes.1 :: stdToString nClients.1 ::
    specs.flatMap (Spec.tokens F)

def runAll (body : Body σ φ) (argc : ℕ) : σ → List (Spec φ) → Outcome σ φ
  | s, [] => .done s argc
  | s, spec :: specs =>
    let s := body.run s spec.name spec
    match body.exit s with
    | some code => .stopped (.exit code) s
    | none => runAll body argc s specs

@[simp] theorem convert_ok {α : Type} (a : α) : convert (.ok a) = .ok a := rfl

@[simp] theorem testKind_name (kind : TestKind) : testKind kind.name = .ok kind := by
  cases kind <;> decide

@[simp] theorem eatTestMode_name (mode : TestMode) : eatTestMode (modeName mode) = .ok mode := by
  cases mode <;> decide

@[simp] theorem selectImplementation_name (impl : RaftImplementation) :
    selectImplementation impl.name = .ok impl := by
  cases impl <;> decide

variable {F} {argv rest : List Text} {argi : ℕ}

theorem eat_of_drop {token : Text} (h : argv.drop argi = token :: rest) :
    eat argv argi = .ok (token, argi + 1) := by
  have hget : argv[argi]? = some token := by rw [← List.head?_drop, h, List.head?_cons]
  have hlt : argi < argv.length := (List.getElem?_eq_some_iff.mp hget).1
  unfold eat require argument
  rw [if_pos hlt, hget]
  rfl

theorem drop_add_one {token : Text} (h : argv.drop argi = token :: rest) :
    argv.drop (argi + 1) = rest := by
  rw [← List.drop_drop, h, List.drop_one, List.tail_cons]

/-- From the position of its first token on, a test is read as it was specified, whatever comes
after it and whatever the tests before have left in `testArgs`. -/
theorem eatTestArguments_tokens {spec : Spec φ} (h : argv.drop argi = spec.tokens F ++ rest)
    (g : Args φ) :
    ∃ g', eatTestArguments F argv g argi = .ok (spec.name, g', argi + (spec.tokens F).length) ∧
      g'.spec = spec := by
  obtain ⟨test, iterations, time⟩ := spec
  have h₁ := drop_add_one h
  have h₂ := drop_add_one h₁
  have h₃ := drop_add_one h₂
  cases test with
  | basic =>
    refine ⟨{ g with type := .basic, iterations := iterations, time := time }, ?_, rfl⟩
    simp only [eatTestArguments, eat_of_drop h, eat_of_drop h₁, eat_of_drop h₂, Spec.name,
      testKind_name, stoi_stdToString, convert_ok, bind, Except.bind]
    rfl
  | block mode frac =>
    have h₄ := drop_add_one h₃
    refine ⟨⟨.block, iterations, time, mode, frac⟩, ?_, rfl⟩
    simp only [eatTestArguments, eat_of_drop h, eat_of_drop h₁, eat_of_drop h₂, eat_of_drop h₃,
      eat_of_drop h₄, Spec.name, testKind_name, stoi_stdToString, eatTestMode_name, F.stof_render,
      convert_ok, bind, Except.bind]
    rfl
  | kill mode =>
    refine ⟨⟨.kill, iterations, time, mode, g.frac⟩, ?_, rfl⟩
    simp only [eatTestArguments, eat_of_drop h, eat_of_drop h₁, eat_of_drop h₂, eat_of_drop h₃,
      Spec.name, testKind_name, stoi_stdToString, eatTestMode_name, convert_ok, bind, Except.bind]
    rfl

theorem loop_eq_runAll (body : Body σ φ) {specs : List (Spec φ)}
    (h : argv.drop argi = specs.flatMap (Spec.tokens F)) (hargi : argi ≤ argv.length)
    {passes : ℕ} (hpasses : specs.length < passes) (s : σ) (g : Args φ) :
    loop F argv body passes s g argi = runAll body argv.length s specs := by
  induction specs generalizing argi passes s g with
  | nil =>
    obtain ⟨passes, rfl⟩ := Nat.exists_eq_add_of_lt hpasses
    have hend : argv.length ≤ argi := List.drop_eq_nil_iff.mp h
    have hlast : argi = argv.length := by omega
    simp [loop, runAll, hlast]
  | cons spec specs ih =>
    obtain ⟨passes, rfl⟩ : ∃ n, passes = n + 1 := ⟨passes - 1, by omega⟩
    rw [List.flatMap_cons] at h
    obtain ⟨g', heat, hspec⟩ := eatTestArguments_tokens h g
    have hlength := congrArg List.length h
    have hrest : argv.drop (argi + (spec.tokens F).length) = specs.flatMap (Spec.tokens F) := by
      rw [← List.drop_drop, h, List.drop_left]
    rw [List.length_drop, List.length_append] at hlength
    have hpos : 0 < (spec.tokens F).length := Nat.succ_pos _
    have hlt : argi < argv.length := by omega
    simp only [loop, runAll, if_pos hlt, heat, hspec]
    cases body.exit (body.run s spec.name spec) with
    | some code => rfl
    | none =>
      apply ih hrest
      · omega
      · rw [List.length_cons] at hpasses
        omega

end Rendering

section Arbitrary
variable {σ φ : Type} (F : Floats φ) (argv : List Text)

def InBounds (why : Stop) : Prop := why ≠ .outOfBounds

theorem eat_ensures (argi : ℕ) :
    Ensures (eat argv argi) InBounds fun r => r.2 = argi + 1 ∧ argi < argv.length := by
  unfold eat require argument
  by_cases hlt : argi < argv.length
  · rw [if_pos hlt, List.getElem?_eq_getElem hlt]
    exact ⟨rfl, hlt⟩
  · rw [if_neg hlt]
    exact nofun

theorem convert_ensures {α : Type} (x : Except ConversionError α) :
    Ensures (convert x) InBounds fun _ => True := by
  cases x with
  | error e => exact nofun
  | ok a => trivial

theorem help_ensures {α : Type} (post : α → Prop) : Ensures help InBounds post := nofun

theorem testKind_ensures (testName : Text) :
    Ensures (testKind testName) InBounds fun _ => True := by
  unfold testKind
  split_ifs
  · trivial
  · trivial
  · trivial
  · exact nofun

theorem eatTestMode_ensures (modeStr : Text) :
    Ensures (eatTestMode modeStr) InBounds fun _ => True := by
  unfold eatTestMode
  split_ifs
  · trivial
  · trivial
  · exact help_ensures _

theorem selectImplementation_ensures (implStr : Text) :
    Ensures (selectImplementation implStr) InBounds fun _ => True := by
  unfold selectImplementation
  split_ifs
  · trivial
  · trivial
  · exact help_ensures _

/-- One pass stops the program or consumes at least three arguments, and reads none after the
last. -/
theorem eatTestArguments_ensures (g : Args φ) (argi : ℕ) :
    Ensures (eatTestArguments F argv g argi) InBounds
      fun r => argi + 3 ≤ r.2.2 ∧ r.2.2 ≤ argv.length := by
  refine (eat_ensures argv argi).bind ?_
  rintro ⟨testName, argi₁⟩ ⟨rfl, -⟩
  refine (testKind_ensures testName).bind fun type _ => ?_
  refine (eat_ensures argv (argi + 1)).bind ?_
  rintro ⟨token, argi₂⟩ ⟨rfl, -⟩
  refine (convert_ensures _).bind fun iterations _ => ?_
  refine (eat_ensures argv (argi + 1 + 1)).bind ?_
  rintro ⟨token, argi₃⟩ ⟨rfl, hlt₃⟩
  refine (convert_ensures _).bind fun time _ => ?_
  cases type with
  | basic => exact ⟨le_rfl, hlt₃⟩
  | block =>
    refine (eat_ensures argv (argi + 1 + 1 + 1)).bind ?_
    rintro ⟨token, argi₄⟩ ⟨rfl, -⟩
    refine (eatTestMode_ensures token).bind fun mode _ => ?_
    refine (eat_ensures argv (argi + 1 + 1 + 1 + 1)).bind ?_
    rintro ⟨token, argi₅⟩ ⟨rfl, hlt₅⟩
    refine (convert_ensures _).bind fun frac _ => ?_
    exact ⟨by dsimp only; omega, hlt₅⟩
  | kill =>
    refine (eat_ensures argv (argi + 1 + 1 + 1)).bind ?_
    rintro ⟨token, argi₄⟩ ⟨rfl, hlt₄⟩
    refine (eatTestMode_ensures token).bind fun mode _ => ?_
    exact ⟨by dsimp only; omega, hlt₄⟩

/-- The loop is left, at the end of the arguments or because the program stops. -/
def Outcome.Ended (argc : ℕ) : Outcome σ φ → Prop
  | .done _ argi => argi = argc
  | .stopped why _ => InBounds why
  | .running _ _ _ => False

theorem loop_ended (body : Body σ φ) {passes argi : ℕ} (hargi : argi ≤ argv.length)
    (hpasses : argv.length < argi + 3 * passes) (s : σ) (g : Args φ) :
    (loop F argv body passes s g argi).Ended argv.length := by
  induction passes generalizing argi s g with
  | zero => omega
  | succ passes ih =>
    unfold loop
    split_ifs with hlt
    · have hpass := eatTestArguments_ensures F argv g argi
      cases heat : eatTestArguments F argv g argi with
      | error why =>
        rw [heat] at hpass
        exact hpass
      | ok r =>
        obtain ⟨testName, g', argi'⟩ := r
        rw [heat] at hpass
        obtain ⟨hthree, hle⟩ : argi + 3 ≤ argi' ∧ argi' ≤ argv.length := hpass
        dsimp only
        cases body.exit (body.run s testName g'.spec) with
        | some code => exact nofun
        | none => exact ih hle (by omega) _ g'
    · exact le_antisymm hargi (not_lt.mp hlt)

theorem argument_ensures {i : ℕ} (h : i < argv.length) :
    Ensures (argument argv i) InBounds fun _ => True := by
  unfold argument
  rw [List.getElem?_eq_getElem h]
  trivial

/-- With fewer than seven arguments `argv` is not read at all. -/
theorem start_ensures : Ensures (start argv) InBounds fun _ => 7 ≤ argv.length := by
  unfold start
  split_ifs with hfew
  · exact help_ensures _
  · refine (argument_ensures argv (by omega)).bind fun program _ => ?_
    split_ifs
    · exact help_ensures _
    · refine (argument_ensures argv (by omega)).bind fun implStr _ => ?_
      refine (selectImplementation_ensures implStr).bind fun impl _ => ?_
      refine (argument_ensures argv (by omega)).bind fun nNodes _ => ?_
      refine (convert_ensures _).bind fun nNodes _ => ?_
      refine (argument_ensures argv (by omega)).bind fun nClients _ => ?_
      refine (convert_ensures _).bind fun nClients _ => ?_
      exact not_lt.mp hfew

theorem main_ended (body : RaftImplementation → CInt → CInt → Body σ φ) (g : Args φ) :
    Ensures (main F argv body g) InBounds fun o => o.Ended argv.length := by
  refine (start_ensures argv).bind ?_
  rintro ⟨impl, nNodes, nClients⟩ hargc
  exact loop_ended F argv _ (by omega) (by omega) _ g

end Arbitrary

section Tests
variable {φ : Type} (F : Floats φ)

def recorder : Body (List (Text × Spec φ)) φ where
  init := []
  run := fun tests testName spec => tests ++ [(testName, spec)]
  exit := fun _ => none

theorem runAll_recorder (argc : ℕ) (tests : List (Text × Spec φ)) (specs : List (Spec φ)) :
    runAll recorder argc tests specs = .done (tests ++ specs.map fun t => (t.name, t)) argc := by
  induction specs generalizing tests with
  | nil => simp [runAll]
  | cons spec specs ih =>
    have hstep : runAll recorder argc tests (spec :: specs) =
        runAll recorder argc (tests ++ [(spec.name, spec)]) specs := rfl
    rw [hstep, ih, List.map_cons, List.append_assoc, List.singleton_append]

theorem length_flatMap_tokens (specs : List (Spec φ)) :
    3 * specs.length ≤ (specs.flatMap (Spec.tokens F)).length := by
  induction specs with
  | nil => rfl
  | cons spec specs ih =>
    have hthree : 3 ≤ (spec.tokens F).length := Nat.le_add_left 3 (spec.test.arguments F).length
    rw [List.flatMap_cons, List.length_append, List.length_cons]
    omega

theorem loop_commandLine {σ : Type} (body : Body σ φ) (program : Text) (impl : RaftImplementation)
    (nNodes nClients : CInt) (specs : List (Spec φ)) (s : σ) (g : Args φ) :
    loop F (commandLine F program impl nNodes nClients specs) body
        (commandLine F program impl nNodes nClients specs).length s g 4 =
      runAll body (commandLine F program impl nNodes nClients specs).length s specs := by
  have hlength : (commandLine F program impl nNodes nClients specs).length =
      (specs.flatMap (Spec.tokens F)).length + 4 := rfl
  have hthree := length_flatMap_tokens F specs
  refine loop_eq_runAll body rfl ?_ ?_ s g
  · omega
  · omega

/-- The arguments of a test as the driver uses them; `toString` prints its fraction. -/
def Spec.testArgs (toString : φ → Text) (spec : Spec φ) : TestArgs where
  type := match spec.test with
    | .basic => .basic
    | .block mode frac => .block mode (toString frac)
    | .kill mode => .kill mode
  iterations := spec.iterations.1

def driverBody (toString : φ → Text) (world : ℕ → TestWorld) (impl : RaftImplementation)
    (nNodes nClients : CInt) : Body (Driver × ℕ) φ where
  init := (Driver.new impl, 0)
  run := fun (d, test) _ spec =>
    (d.runTest impl nNodes.1 nClients.1.toNat test (spec.testArgs toString) (world test), test + 1)
  exit := fun (d, _) => if d.cluster.exited then some 1 else none

def Outcome.state {σ : Type} : Outcome σ φ → σ
  | .done s _ => s
  | .stopped _ s => s
  | .running s _ _ => s

def driverTests (toString : φ → Text) (world : ℕ → TestWorld) :
    ℕ → List (Spec φ) → List (TestArgs × TestWorld)
  | _, [] => []
  | test, spec :: specs =>
    (spec.testArgs toString, world test) :: driverTests toString world (test + 1) specs

theorem runAll_driverBody (toString : φ → Text) (world : ℕ → TestWorld)
    (impl : RaftImplementation) (nNodes nClients : CInt) (argc : ℕ) (specs : List (Spec φ))
    (d : Driver) (test : ℕ) :
    (runAll (driverBody toString world impl nNodes nClients) argc (d, test) specs).state.1 =
      Driver.runTests impl nNodes.1 nClients.1.toNat test
        (driverTests toString world test specs) d := by
  induction specs generalizing d test with
  | nil => rfl
  | cons spec specs ih =>
    simp only [runAll, driverBody, driverTests, Driver.runTests]
    split_ifs with hexited
    · rfl
    · exact ih _ (test + 1)

theorem main_commandLine (toString : φ → Text) (world : ℕ → TestWorld) {program : Text}
    (hprogram : program ≠ "--help".toList) (impl : RaftImplementation) (nNodes nClients : CInt)
    {specs : List (Spec φ)} (hspecs : specs ≠ []) (g : Args φ) :
    ∃ o, main F (commandLine F program impl nNodes nClients specs) (driverBody toString world) g =
        .ok o ∧
      o.state.1 =
        Driver.main impl nNodes.1 nClients.1.toNat (driverTests toString world 0 specs) := by
  have hlength : (commandLine F program impl nNodes nClients specs).length =
      (specs.flatMap (Spec.tokens F)).length + 4 := rfl
  have hthree := length_flatMap_tokens F specs
  have hpos := List.length_pos_iff.mpr hspecs
  have hstart : start (commandLine F program impl nNodes nClients specs) =
      .ok (impl, nNodes, nClients) := by
    unfold start
    rw [if_neg (by omega)]
    change (if program = "--help".toList then help else _) = _
    rw [if_neg hprogram]
    change (selectImplementation impl.name >>= _) = _
    rw [selectImplementation_name]
    change (convert (stoi (stdToString nNodes.1)) >>= _) = _
    rw [stoi_stdToString]
    change (convert (stoi (stdToString nClients.1)) >>= _) = _
    rw [stoi_stdToString]
    rfl
  refine ⟨_, ?_, runAll_driverBody toString world impl nNodes nClients
    (commandLine F program impl nNodes nClients specs).length specs (Driver.new impl) 0⟩
  unfold main
  rw [hstart]
  exact congrArg Except.ok (loop_commandLine F _ program impl nNodes nClients specs _ g)

end Tests

/-- Tests are read as they are specified. Wherever its tokens stand, a test is read from them
alone. The tests of a command line are all read, in their order, up to its end. On arbitrary
arguments one pass stops the program or consumes at least three of them, so `main` ends; and it
reads none after the last. What `main` then does with the tests is what the driver does with them
one after the other. -/
theorem tests_read_as_specified (F : Floats φ) :
    (∀ (first rest : List Text) (spec : Spec φ) (g : Args φ), ∃ g',
      eatTestArguments F (first ++ spec.tokens F ++ rest) g first.length =
          .ok (spec.name, g', first.length + (spec.tokens F).length) ∧ g'.spec = spec) ∧
    (∀ (program : Text) (impl : RaftImplementation) (nNodes nClients : CInt)
      (specs : List (Spec φ)) (g : Args φ),
      loop F (commandLine F program impl nNodes nClients specs) recorder
          (commandLine F program impl nNodes nClients specs).length [] g 4 =
        .done (specs.map fun t => (t.name, t))
          (commandLine F program impl nNodes nClients specs).length) ∧
    (∀ (argv : List Text) (g : Args φ) (argi : ℕ),
      Ensures (eatTestArguments F argv g argi) InBounds
        fun r => argi + 3 ≤ r.2.2 ∧ r.2.2 ≤ argv.length) ∧
    (∀ (argv : List Text) (σ : Type) (body : RaftImplementation → CInt → CInt → Body σ φ)
      (g : Args φ), Ensures (main F argv body g) InBounds fun o => o.Ended argv.length) ∧
    ∀ (toString : φ → Text) (world : ℕ → TestWorld) (program : Text),
      program ≠ "--help".toList → ∀ (impl : RaftImplementation) (nNodes nClients : CInt)
        (specs : List (Spec φ)), specs ≠ [] → ∀ g : Args φ, ∃ o,
          main F (commandLine F program impl nNodes nClients specs)
              (driverBody toString world) g = .ok o ∧
            o.state.1 =
              Driver.main impl nNodes.1 nClients.1.toNat (driverTests toString world 0 specs) := by
  refine ⟨?_, ?_, eatTestArguments_ensures F, fun argv σ body g => main_ended F argv body g,
    fun toString world program hprogram impl nNodes nClients specs hspecs g =>
      main_commandLine F toString world hprogram impl nNodes nClients hspecs g⟩
  · intro first rest spec g
    apply eatTestArguments_tokens
    rw [List.append_assoc, List.drop_left]
  · intro program impl nNodes nClients specs g
    rw [loop_commandLine, runAll_recorder, List.nil_append]

def wholeNumbers : Floats CInt where
  stof := stoi
  render := fun z => stdToString z.1
  stof_render := stoi_stdToString

/-- After `block 2 3 leader 1` the test `kill 4 5 random` finds the mode of the other test in the
union, and replaces it. -/
theorem kill_after_block_read :
    let two : CInt := ⟨2, by decide⟩
    let specs : List (Spec CInt) :=
      [⟨.block .leader ⟨1, by decide⟩, two, ⟨3, by decide⟩⟩,
        ⟨.kill .random, ⟨4, by decide⟩, ⟨5, by decide⟩⟩]
    let argv := commandLine wholeNumbers "testdriver".toList .etcd two two specs
    argv.length = 13 ∧
      loop wholeNumbers argv recorder argv.length [] ⟨.basic, two, two, .random, two⟩ 4 =
        .done (specs.map fun t => (t.name, t)) 13 :=
  ⟨rfl, (tests_read_as_specified wholeNumbers).2.1 _ _ _ _ _ _⟩

end RaftMonitor.CommandLine
