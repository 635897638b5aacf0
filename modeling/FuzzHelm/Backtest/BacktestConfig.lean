import FuzzHelm.Core.DecimalText
import FuzzHelm.Lib.Dict
import FuzzHelm.Lib.Run
import Mathlib.Data.List.Dedup

namespace FuzzHelm

open Lib

/-!
# The configuration of a backtest

The parameters of a run: what the caller gives, filled up from the parsed configuration files, and
the flat dictionary that is handed to a worker.

* `PyFloat` / `PyNumber` / `Tree` — a float, a number given for one, and a parsed file;
* `create` — the constructor: files, defaults and checks;
* `toDict` / `fromDict` — the flat dictionary and back;
* `create_args` — a configuration is what the constructor makes of its own fields.
-/

/-- What the constructor, the dictionary and the hash may raise. -/
inductive ConfigError where
  | attributeError
  | keyError (key : String)
  | typeError (msg : String)
  | valueError (msg : String)
  | overflowError
  | invalidOperation
  | configValidation (msg path : String)
  deriving DecidableEq, Repr

/-! ### Parsed files -/

/-- A float: a finite one by the digits of its `repr`.  The sign of a zero is left out, which
    neither `==` nor the canonical text shows. -/
inductive PyFloat where
  | finite (negative : Bool) (coefficient : ℕ) (exponent : ℤ)
  | inf (negative : Bool)
  | nan
  deriving DecidableEq, Repr

/-- `x > 0`, which a NaN is not. -/
def PyFloat.pos : PyFloat → Bool
  | finite negative coefficient _ => !negative && coefficient ≠ 0
  | inf negative => !negative
  | nan => false

/-- `float_to_decimal_exact`: a NaN and the infinities raise. -/
def PyFloat.toDecimal : PyFloat → Except ConfigError PyDecimal
  | finite negative coefficient exponent => .ok (.finite negative coefficient exponent)
  | inf _ | nan => .error (.valueError "cannot convert non-finite float to Decimal")

/-- A number that is given where a float is expected: integers and booleans pass for floats, and
    the constructor keeps them as they are. -/
inductive PyNumber where
  | int (n : ℤ)
  | bool (b : Bool)
  | float (x : PyFloat)
  deriving DecidableEq, Repr

namespace PyNumber

/-- The number behind it, unless it is infinite or NaN. -/
def value : PyNumber → Option ℚ
  | int n => some n
  | bool b => some (if b then 1 else 0)
  | float (.finite negative coefficient exponent) =>
    some ((if negative then -1 else 1) * coefficient * 10 ^ exponent)
  | float _ => none

/-- `x == y`: by the numbers behind them, whatever the types; a NaN equals nothing. -/
def eq : PyNumber → PyNumber → Prop
  | float (.inf negative), float (.inf negative') => negative = negative'
  | x, y => ∃ q, x.value = some q ∧ y.value = some q

/-- A float equals itself unless it is a NaN. -/
theorem float_eq_self {x : PyFloat} (h : x ≠ .nan) : (float x).eq (float x) := by
  cases x with
  | finite s c e => exact ⟨_, rfl, rfl⟩
  | inf s => exact rfl
  | nan => exact absurd rfl h

/-- Nothing equals a NaN. -/
theorem ne_nan_of_eq {x : PyFloat} {y : PyNumber} (h : (float x).eq y) : x ≠ .nan := by
  rintro rfl
  cases y <;> exact nomatch h.choose_spec.1

/-- `x > 0`, for whole numbers and floats. -/
def pos : PyNumber → Bool
  | int n => 0 < n
  | bool b => b
  | float x => x.pos

end PyNumber

/-- `x == y` of decimals: by their values, whatever the exponents. -/
def PyDecimal.eq : PyDecimal → PyDecimal → Prop
  | .finite s c e, .finite s' c' e' =>
    (if s then -1 else 1 : ℚ) * c * 10 ^ e = (if s' then -1 else 1 : ℚ) * c' * 10 ^ e'
  | .infinity s, .infinity s' => s = s'
  | _, _ => False

/-- `x > 0`; a comparison with NaN raises. -/
def PyDecimal.pos : PyDecimal → Except ConfigError Bool
  | .finite negative coefficient _ => .ok (!negative && coefficient ≠ 0)
  | .infinity negative => .ok !negative
  | .nan _ _ _ => .error .invalidOperation

/-- `is_nan`, of a signalling NaN too. -/
def PyDecimal.isNan : PyDecimal → Bool
  | nan _ _ _ => true
  | _ => false

/-- A decimal equals itself unless it is a NaN. -/
theorem PyDecimal.eq_self {x : PyDecimal} : x.eq x ↔ x.isNan = false := by
  cases x <;> simp [PyDecimal.eq, PyDecimal.isNan]

/-- What a YAML file holds; a dictionary by its entries. -/
inductive Tree where
  | null
  | bool (b : Bool)
  | int (n : ℤ)
  | float (x : PyFloat)
  | str (s : String)
  | list (items : List Tree)
  | map (entries : List (Key × Tree))
  | other (typeName : String)

/-- The number in a tree. -/
def PyNumber.tree : PyNumber → Tree
  | int n => .int n
  | bool b => .bool b
  | float x => .float x

namespace Tree

/-- `bool(x)`: what is empty, zero or missing is false. -/
def truthy : Tree → Bool
  | null => false
  | bool b => b
  | int n => n ≠ 0
  | float (.finite _ coefficient _) => coefficient ≠ 0
  | float _ => true
  | str s => s ≠ ""
  | list items => !items.isEmpty
  | map entries => !entries.isEmpty
  | other _ => true

/-- `type(x).__name__`, as the errors of a configuration name it. -/
def typeName : Tree → String
  | null => "NoneType"
  | bool _ => "bool"
  | int _ => "int"
  | float _ => "float"
  | str _ => "str"
  | list _ => "list"
  | map _ => "dict"
  | other name => name

/-- `t.get(key, default)`; what is not a mapping has no such method. -/
def get (t : Tree) (key : String) (default : Tree) : Except ConfigError Tree :=
  match t with
  | map entries => .ok ((Assoc.lookup entries (.str key)).getD default)
  | _ => .error .attributeError

/-- `t or {}`: what is missing counts as an empty mapping. -/
def orEmpty (t : Tree) : Tree := if t.truthy then t else map []

/-- `t[key]`, which raises where the key is missing. -/
def item (t : Tree) (key : String) : Except ConfigError Tree :=
  match t with
  | map entries => (Assoc.lookup entries (.str key)).elim (.error (.keyError key)) .ok
  | t => .error (.typeError s!"'{t.typeName}' object is not subscriptable")

/-- `t[key] = value`, and the tree after it. -/
def set (t : Tree) (key : String) (value : Tree) : Except ConfigError Tree :=
  match t with
  | map entries => .ok (map (Assoc.put entries (.str key) value))
  | t => .error (.typeError s!"'{t.typeName}' object does not support item assignment")

/-- `{**t, key: value, ...}`. -/
def merge (t : Tree) (values : List (String × Tree)) : Except ConfigError Tree :=
  match t with
  | map entries =>
    .ok (map (values.foldl (fun es kv => Assoc.put es (.str kv.1) kv.2) entries))
  | t => .error (.typeError s!"'{t.typeName}' object is not a mapping")

end Tree

/-! ### Fields -/

/-- What the caller gives; a field that is left out comes from the trees. -/
structure ConfigArgs where
  engine : Option String
  costMode : Option String
  initialEquity : Option PyDecimal
  nAtr : Option ℤ
  chi : Option PyNumber
  uEnter : Option PyNumber
  uExit : Option PyNumber
  rhoBase : Option PyNumber
  lam : Option PyNumber
  tpMultiple : Option PyNumber
  cooldownPolicy : Option String
  detectors : Option (List String)
  detectorWeights : List (String × PyNumber)
  warmupBars : Option ℤ
  fundingFallbackRate : Option PyDecimal
  fundingMatchNs : Option ℤ
  recordTraces : Option String
  checkInvariants : Option Bool
  invariantTolerance : Option PyDecimal
  trees : Dict String Tree

/-- The fields after `__post_init__`. -/
structure BacktestConfig where
  engine : String
  costMode : String
  initialEquity : PyDecimal
  nAtr : ℤ
  chi : PyNumber
  uEnter : PyNumber
  uExit : PyNumber
  rhoBase : PyNumber
  lam : PyNumber
  tpMultiple : PyNumber
  cooldownPolicy : String
  detectors : Option (List String)
  detectorWeights : List (String × PyNumber)
  warmupBars : Option ℤ
  fundingFallbackRate : PyDecimal
  fundingMatchNs : ℤ
  recordTraces : String
  checkInvariants : Bool
  invariantTolerance : PyDecimal
  trees : Dict String Tree

/-- The fields as arguments. -/
def BacktestConfig.args (cfg : BacktestConfig) : ConfigArgs where
  engine := cfg.engine
  costMode := cfg.costMode
  initialEquity := cfg.initialEquity
  nAtr := cfg.nAtr
  chi := cfg.chi
  uEnter := cfg.uEnter
  uExit := cfg.uExit
  rhoBase := cfg.rhoBase
  lam := cfg.lam
  tpMultiple := cfg.tpMultiple
  cooldownPolicy := cfg.cooldownPolicy
  detectors := cfg.detectors
  detectorWeights := cfg.detectorWeights
  warmupBars := cfg.warmupBars
  fundingFallbackRate := cfg.fundingFallbackRate
  fundingMatchNs := cfg.fundingMatchNs
  recordTraces := cfg.recordTraces
  checkInvariants := cfg.checkInvariants
  invariantTolerance := cfg.invariantTolerance
  trees := cfg.trees

namespace BacktestConfig

/-- `TREE_FILES`: the trees and the files they are read from. -/
def treeFiles : List (String × String) :=
  [("engine", "engine"), ("risk_limits", "risk_limits"), ("detectors", "detectors"),
   ("cost_model", "cost_model"), ("membership", "membership"), ("rules", "rules_mamdani")]

/-- The engines that a configuration may name. -/
def engineKinds : List String := ["mamdani"]

/-- The models of the costs that it may name. -/
def costModes : List String := ["zero", "sqrt_impact", "full"]

/-- What may be recorded of a run. -/
def recordModes : List String := ["all", "trades", "none"]

/-- What may happen to entries while the risk cools down. -/
def cooldownPolicies : List String := ["scaled_entries", "reduce_only"]

/-- The detectors that may have a weight. -/
def detectorNames : List String :=
  ["ema_slope", "donchian", "rsi_exhaustion", "bollinger_z", "candle_geometry", "vol_regime"]

/-- `repr` of a string without quotes. -/
def quoted (s : String) : String := s!"'{s}'"

/-- `repr` of a tuple of strings. -/
def tupleText : List String → String
  | [s] => s!"({quoted s},)"
  | xs => "(" ++ ", ".intercalate (xs.map quoted) ++ ")"

/-! ### The constructor -/

/-- What the constructor takes from elsewhere: the files, the schema of the engine tree, the text
    of a value that is no string, and the arithmetic of floats. -/
structure Surround where
  loadYaml : String → Except ConfigError Tree
  validateEngineTree : Tree → Except ConfigError Unit
  text : Tree → String
  floatOfInt : ℤ → Except ConfigError PyFloat
  matchNs : PyFloat → Except ConfigError ℤ

namespace Surround

variable (env : Surround)

/-- `str(x)`, as far as a configuration can hold it. -/
def toStr : Tree → String
  | .str s => s
  | t => env.text t

/-- `_f`: an integer or a float, but no boolean. -/
def toFloat : Tree → Except ConfigError PyFloat
  | .int n => env.floatOfInt n
  | .float x => .ok x
  | t => .error (.typeError s!"expected a number, got {t.typeName}")

/-- `Decimal(s)`: a text that is no number raises. -/
def decOfText (s : String) : Except ConfigError PyDecimal :=
  (decimalOfText s).elim (.error .invalidOperation) .ok

/-- `_dec`: a decimal from what the file has, through its text. -/
def toDec : Tree → Except ConfigError PyDecimal
  | .float x => x.toDecimal
  | .int n => .ok (.finite (decide (n < 0)) n.natAbs 0)
  | .str s => decOfText s
  | .bool _ => .error (.typeError
      "dec() refuses bool; use sizing.convert.to_decimal for floats")
  | t => .error (.typeError s!"dec() cannot convert {t.typeName}")

/-- `int(x)` of digits with a sign; an underscore stands between two digits. -/
def intOfText (s : String) : Except ConfigError ℤ :=
  let (negative, ds) := match trimmed s.toList with
    | '-' :: ds => (true, ds)
    | '+' :: ds => (false, ds)
    | ds => (false, ds)
  if (ds.splitOn '_').all fun group => group ≠ [] && group.all Char.isDigit then
    let n := Nat.ofDigitChars 10 (ds.filter fun c => c ≠ '_') 0
    .ok (if negative then -(n : ℤ) else n)
  else .error (.valueError s!"invalid literal for int() with base 10: {quoted s}")

/-- `int(x)`: a float loses its fraction. -/
def toInt : Tree → Except ConfigError ℤ
  | .int n => .ok n
  | .bool b => .ok (if b then 1 else 0)
  | .float (.finite negative coefficient exponent) =>
    let size := if 0 ≤ exponent then coefficient * 10 ^ exponent.toNat
      else coefficient / 10 ^ (-exponent).toNat
    .ok (if negative then -(size : ℤ) else size)
  | .float (.inf _) => .error .overflowError
  | .float .nan => .error (.valueError "cannot convert float NaN to integer")
  | .str s => intOfText s
  | t => .error (.typeError s!"int() argument must be a string or a number, not {t.typeName}")

end Surround

/-- The trees that are missing are read from their files. -/
def fillTrees (env : Surround) (trees : Dict String Tree) : Except ConfigError (Dict String Tree) :=
  treeFiles.foldlM (fun trees file =>
    if (trees.get? file.1).isSome then .ok trees
    else do return trees.insert file.1 (← env.loadYaml file.2)) trees

/-- The defaults that are looked up before the warm-up. -/
structure EarlyDefaults where
  engine : String
  costMode : String
  initialEquity : PyDecimal
  nAtr : ℤ
  chi : PyFloat
  rhoBase : PyFloat
  lam : PyFloat
  uEnter : PyFloat
  uExit : PyFloat
  tpMultiple : PyFloat
  cooldownPolicy : String

/-- The defaults that are looked up after it. -/
structure LateDefaults where
  fundingFallbackRate : PyDecimal
  fundingMatchNs : ℤ
  recordTraces : String
  checkInvariants : Bool
  invariantTolerance : PyDecimal

section Create

variable (env : Surround)

/-- `trees[key]`: the tree of one file, once it has been read. -/
def treeOf (trees : Dict String Tree) (key : String) : Except ConfigError Tree :=
  (trees.get? key).elim (.error (.keyError key)) .ok

/-- The default of the cost mode is the engine's, unless it has none. -/
def defaultCostMode (trees : Dict String Tree) (eng : Tree) : Except ConfigError String := do
  let mode ← eng.get "cost_mode" .null
  if mode.truthy then return env.toStr mode
  let model ← treeOf trees "cost_model"
  return env.toStr (← model.get "mode" (.str "full"))

/-- The defaults that are filled in before the checks. -/
def earlyDefaults (trees : Dict String Tree) : Except ConfigError EarlyDefaults := do
  let eng ← treeOf trees "engine"
  env.validateEngineTree eng
  let risk ← treeOf trees "risk_limits"
  let sizing ← risk.get "sizing" (.map [])
  let hyst ← risk.get "hysteresis" (.map [])
  let feats := (← (← treeOf trees "detectors").get "features" (.map [])).orEmpty
  -- the defaults of `get` stand for a missing key only, not for a null
  let engine := env.toStr (← eng.get "engine" (.str "mamdani"))
  let costMode ← defaultCostMode env trees eng
  let initialEquity ← Surround.toDec (← eng.get "initial_equity" (.str "10000"))
  let nAtr ← Surround.toInt (← feats.get "n_atr" (.int 14))
  let chi ← env.toFloat (← sizing.get "chi_atr" (.float (.finite false 20 (-1))))
  let rhoBase ← env.toFloat (← sizing.get "rho_base" (.float (.finite false 5 (-3))))
  let lam ← env.toFloat (← sizing.get "ewma_lambda" (.float (.finite false 94 (-2))))
  let uEnter ← env.toFloat (← hyst.get "enter" (.float (.finite false 25 (-2))))
  let uExit ← env.toFloat (← hyst.get "exit" (.float (.finite false 12 (-2))))
  -- `or {}`: a null, and anything else that is falsy, is an empty section
  let takeProfit := (← eng.get "take_profit" .null).orEmpty
  let tpMultiple ← env.toFloat
    (← takeProfit.get "multiple_of_stop" (.float (.finite false 20 (-1))))
  let machine := (← risk.get "state_machine" .null).orEmpty
  let cooldownPolicy := env.toStr (← machine.get "cooldown_policy" (.str "scaled_entries"))
  return { engine, costMode, initialEquity, nAtr, chi, rhoBase, lam, uEnter, uExit, tpMultiple,
           cooldownPolicy }

/-- The warm-up of the engine tree, where the caller gives none. -/
def resolveWarmup (trees : Dict String Tree) (given : Option ℤ) :
    Except ConfigError (Option ℤ) := do
  let eng ← treeOf trees "engine"
  let warm ← (← eng.get "warmup" .null).orEmpty.get "bars" .null
  match given, warm with
  | some bars, _ => return some bars
  | none, .null => return none
  | none, warm => return some (← Surround.toInt warm)

/-- The defaults that are filled in after the checks. -/
def lateDefaults (trees : Dict String Tree) : Except ConfigError LateDefaults := do
  let eng ← treeOf trees "engine"
  let fund := (← eng.get "funding" .null).orEmpty
  let fundingFallbackRate ← Surround.toDec (← fund.get "fallback_rate" (.str "0.0001"))
  let fundingMatchNs ← env.matchNs (← env.toFloat (← fund.get "match_window_s" (.int 60)))
  let recordTraces := env.toStr (← eng.get "record_traces" (.str "trades"))
  let checkInvariants := (← eng.get "check_invariants" (.bool false)).truthy
  let invariantTolerance ← Surround.decOfText
    (env.toStr (← eng.get "invariant_tolerance" (.str "1E-9")))
  return { fundingFallbackRate, fundingMatchNs, recordTraces, checkInvariants,
           invariantTolerance }

/-- `pick`: what the caller gives goes before the default. -/
def pick (args : ConfigArgs) (trees : Dict String Tree) (early : EarlyDefaults)
    (warmupBars : Option ℤ) (late : LateDefaults) : BacktestConfig where
  engine := args.engine.getD early.engine
  costMode := args.costMode.getD early.costMode
  initialEquity := args.initialEquity.getD early.initialEquity
  nAtr := args.nAtr.getD early.nAtr
  chi := args.chi.getD (.float early.chi)
  uEnter := args.uEnter.getD (.float early.uEnter)
  uExit := args.uExit.getD (.float early.uExit)
  rhoBase := args.rhoBase.getD (.float early.rhoBase)
  lam := args.lam.getD (.float early.lam)
  tpMultiple := args.tpMultiple.getD (.float early.tpMultiple)
  cooldownPolicy := args.cooldownPolicy.getD early.cooldownPolicy
  detectors := args.detectors
  detectorWeights := args.detectorWeights
  warmupBars := warmupBars
  fundingFallbackRate := args.fundingFallbackRate.getD late.fundingFallbackRate
  fundingMatchNs := args.fundingMatchNs.getD late.fundingMatchNs
  recordTraces := args.recordTraces.getD late.recordTraces
  checkInvariants := args.checkInvariants.getD late.checkInvariants
  invariantTolerance := args.invariantTolerance.getD late.invariantTolerance
  trees := trees

/-- One of the checks of `__post_init__`. -/
def require (ok : Bool) (msg : String) : Except ConfigError Unit :=
  if ok then .ok () else .error (.valueError msg)

/-- A field with one of a few values. -/
def requireOneOf (field value : String) (values : List String) : Except ConfigError Unit :=
  require (values.contains value)
    s!"{field} must be one of {tupleText values}, got {quoted value}"

/-- `repr` of a set of strings, in the order in which they are given. -/
def setText : List String → String
  | [] => "set()"
  | xs => "\x7b" ++ ", ".intercalate (xs.map quoted) ++ "\x7d"

/-- `repr` of a sorted list of strings. -/
def sortedText (xs : List String) : String :=
  "[" ++ ", ".intercalate ((xs.insertionSort (· ≤ ·)).map quoted) ++ "]"

/-- The detectors that are not known, each once. -/
def unknownDetectors (names : List String) : List String :=
  (names.filter fun name => !detectorNames.contains name).dedup

/-- A subset of detectors is not empty, and all of them are known. -/
def checkDetectors : Option (List String) → Except ConfigError Unit
  | none => .ok ()
  | some names =>
    require ((unknownDetectors names).isEmpty && !names.isEmpty)
      (s!"detector subset must be a non-empty subset of {tupleText detectorNames}, got " ++
        setText (unknownDetectors names))

/-- The detectors whose weights are overridden are known. -/
def checkWeights (weights : List (String × PyNumber)) : Except ConfigError Unit :=
  require (unknownDetectors (weights.map Prod.fst)).isEmpty
    ("unknown detectors in weight overrides: " ++
      sortedText (unknownDetectors (weights.map Prod.fst)))

/-- The checks of `__post_init__`. -/
def check (cfg : BacktestConfig) : Except ConfigError Unit := do
  requireOneOf "engine" cfg.engine engineKinds
  requireOneOf "cost_mode" cfg.costMode costModes
  requireOneOf "record_traces" cfg.recordTraces recordModes
  requireOneOf "cooldown_policy" cfg.cooldownPolicy cooldownPolicies
  require cfg.tpMultiple.pos "tp_multiple must be > 0"
  require (← cfg.initialEquity.pos) "initial_equity must be > 0"
  checkDetectors cfg.detectors
  checkWeights cfg.detectorWeights

/-- The constructor with `__post_init__`. -/
def create (args : ConfigArgs) : Except ConfigError BacktestConfig := do
  let trees ← fillTrees env args.trees
  let early ← earlyDefaults env trees
  let warmupBars ← resolveWarmup trees args.warmupBars
  let late ← lateDefaults env trees
  let cfg := pick args trees early warmupBars late
  check cfg
  return cfg

end Create

/-! ### The flat dictionary -/

/-- The flat dictionary, by its entries: decimals as texts, the weights as a dictionary. -/
structure ConfigDict where
  engine : String
  costMode : String
  initialEquity : String
  nAtr : ℤ
  chi : PyNumber
  uEnter : PyNumber
  uExit : PyNumber
  rhoBase : PyNumber
  lam : PyNumber
  tpMultiple : PyNumber
  cooldownPolicy : String
  detectors : Option (List String)
  detectorWeights : Dict String PyNumber
  warmupBars : Option ℤ
  fundingFallbackRate : String
  fundingMatchNs : ℤ
  recordTraces : String
  checkInvariants : Bool
  invariantTolerance : String
  trees : Dict String Tree

/-- `dict(weights)`: the last weight of a name counts, in the place of the first. -/
def weightDict (weights : List (String × PyNumber)) : Dict String PyNumber :=
  weights.foldl (fun d w => d.insert w.1 w.2) ∅

/-- `to_dict`: every field under its name, with the weights as a mapping. -/
def toDict (cfg : BacktestConfig) : ConfigDict where
  engine := cfg.engine
  costMode := cfg.costMode
  initialEquity := cfg.initialEquity.str
  nAtr := cfg.nAtr
  chi := cfg.chi
  uEnter := cfg.uEnter
  uExit := cfg.uExit
  rhoBase := cfg.rhoBase
  lam := cfg.lam
  tpMultiple := cfg.tpMultiple
  cooldownPolicy := cfg.cooldownPolicy
  detectors := cfg.detectors
  detectorWeights := weightDict cfg.detectorWeights
  warmupBars := cfg.warmupBars
  fundingFallbackRate := cfg.fundingFallbackRate.str
  fundingMatchNs := cfg.fundingMatchNs
  recordTraces := cfg.recordTraces
  checkInvariants := cfg.checkInvariants
  invariantTolerance := cfg.invariantTolerance.str
  trees := cfg.trees

/-- The weights of a dictionary as floats: an integer becomes one, a boolean is refused. -/
def floatWeights (env : Surround) (weights : Dict String PyNumber) :
    Except ConfigError (List (String × PyNumber)) :=
  weights.entries.mapM fun w => do return (w.1, .float (← env.toFloat w.2.tree))

/-- `tuple(sorted(weights))`: the names of a dictionary are different, so that they decide the
    order. -/
def sortedWeights (weights : List (String × PyNumber)) : List (String × PyNumber) :=
  weights.insertionSort fun v w => v.1 ≤ w.1

/-- `from_dict`: every field is read back and checked again. -/
def fromDict (env : Surround) (d : ConfigDict) : Except ConfigError BacktestConfig := do
  let initialEquity ← Surround.decOfText d.initialEquity
  let fundingFallbackRate ← Surround.decOfText d.fundingFallbackRate
  let invariantTolerance ← Surround.decOfText d.invariantTolerance
  let weights ← floatWeights env d.detectorWeights
  create env
    { engine := d.engine
      costMode := d.costMode
      initialEquity := initialEquity
      nAtr := d.nAtr
      chi := d.chi
      uEnter := d.uEnter
      uExit := d.uExit
      rhoBase := d.rhoBase
      lam := d.lam
      tpMultiple := d.tpMultiple
      cooldownPolicy := d.cooldownPolicy
      detectors := d.detectors
      detectorWeights := sortedWeights weights
      warmupBars := d.warmupBars
      fundingFallbackRate := fundingFallbackRate
      fundingMatchNs := d.fundingMatchNs
      recordTraces := d.recordTraces
      checkInvariants := d.checkInvariants
      invariantTolerance := invariantTolerance
      trees := d.trees }

/-! ### The constructor on its own fields -/

/-- The trees of a configuration are all there, so that none is read again. -/
theorem fillTrees_filled (env : Surround) {trees : Dict String Tree}
    (h : ∀ file ∈ treeFiles, (trees.get? file.1).isSome) : fillTrees env trees = .ok trees := by
  unfold fillTrees
  generalize treeFiles = files at h
  induction files with
  | nil => rfl
  | cons file files ih =>
    rw [List.foldlM_cons, if_pos (h file (by simp))]
    exact ih fun f hf => h f (by simp [hf])

/-- After the files are read every tree is there. -/
theorem filled_of_fillTrees {env : Surround} {trees trees' : Dict String Tree}
    (h : fillTrees env trees = .ok trees') :
    ∀ file ∈ treeFiles, (trees'.get? file.1).isSome := by
  unfold fillTrees at h
  -- what is there stays there, and every file is put there
  have hloop : ∀ (files : List (String × String)) (trees : Dict String Tree),
      files.foldlM (fun trees file =>
        if (trees.get? file.1).isSome then .ok trees
        else do return trees.insert file.1 (← env.loadYaml file.2)) trees = .ok trees' →
      (∀ key, (trees.get? key).isSome → (trees'.get? key).isSome) ∧
        ∀ file ∈ files, (trees'.get? file.1).isSome := by
    intro files
    induction files with
    | nil =>
      intro trees h
      cases h
      exact ⟨fun _ hkey => hkey, by simp⟩
    | cons file files ih =>
      intro trees h
      rw [List.foldlM_cons, bind_eq_ok] at h
      obtain ⟨next, hnext, hrest⟩ := h
      obtain ⟨hkeep, hfiles⟩ := ih next hrest
      have hstep : (∀ key, (trees.get? key).isSome → (next.get? key).isSome) ∧
          (next.get? file.1).isSome := by
        split at hnext
        · rename_i hsome
          cases hnext
          exact ⟨fun _ hkey => hkey, hsome⟩
        · rw [bind_eq_ok] at hnext
          obtain ⟨t, -, ht⟩ := hnext
          cases ht
          refine ⟨fun key hkey => ?_, by simp⟩
          rw [Dict.get?_insert]
          split <;> simp_all
      refine ⟨fun key hkey => hkeep key (hstep.1 key hkey), ?_⟩
      intro f hf
      rcases List.mem_cons.mp hf with rfl | hf
      · exact hkeep _ hstep.2
      · exact hfiles f hf
  exact (hloop treeFiles trees h).2

/-- What the constructor has gone through. -/
theorem create_eq_ok {env : Surround} {args : ConfigArgs} {cfg : BacktestConfig} :
    create env args = .ok cfg ↔ ∃ trees early warmupBars late,
      fillTrees env args.trees = .ok trees ∧ earlyDefaults env trees = .ok early ∧
        resolveWarmup trees args.warmupBars = .ok warmupBars ∧
        lateDefaults env trees = .ok late ∧
        check (pick args trees early warmupBars late) = .ok () ∧
        pick args trees early warmupBars late = cfg := by
  simp only [create, bind_eq_ok]
  constructor
  · rintro ⟨trees, htrees, early, hearly, warmupBars, hwarm, late, hlate, _, hcheck, hcfg⟩
    exact ⟨trees, early, warmupBars, late, htrees, hearly, hwarm, hlate, hcheck,
      Except.ok.inj hcfg⟩
  · rintro ⟨trees, early, warmupBars, late, htrees, hearly, hwarm, hlate, hcheck, rfl⟩
    exact ⟨trees, htrees, early, hearly, warmupBars, hwarm, late, hlate, (), hcheck, rfl⟩

/-- A warm-up that has been resolved stays. -/
theorem resolveWarmup_resolved {trees : Dict String Tree} {given warmupBars : Option ℤ}
    (h : resolveWarmup trees given = .ok warmupBars) :
    resolveWarmup trees warmupBars = .ok warmupBars := by
  simp only [resolveWarmup, bind_eq_ok] at h ⊢
  obtain ⟨eng, heng, tree, htree, warm, hwarm, hresult⟩ := h
  refine ⟨eng, heng, tree, htree, warm, hwarm, ?_⟩
  cases warmupBars with
  | some bars => rfl
  | none =>
    -- nothing was given then, and the engine tree has no warm-up
    cases given with
    | some bars => cases hresult
    | none =>
      cases warm with
      | null => rfl
      | _ =>
        obtain ⟨_, _, hbars⟩ := bind_eq_ok.mp hresult
        cases hbars

/-- **The constructor on its own fields.** A configuration is what the constructor makes of its
    fields, and other weights change nothing but the weights, as long as they pass the check. -/
theorem create_args {env : Surround} {args : ConfigArgs} {cfg : BacktestConfig}
    (h : create env args = .ok cfg) {weights : List (String × PyNumber)}
    (hweights : checkWeights weights = .ok ()) :
    create env { cfg.args with detectorWeights := weights } =
      .ok { cfg with detectorWeights := weights } := by
  obtain ⟨trees, early, warmupBars, late, htrees, hearly, hwarm, hlate, hcheck, rfl⟩ :=
    create_eq_ok.mp h
  refine create_eq_ok.mpr ⟨trees, early, warmupBars, late,
    fillTrees_filled env (filled_of_fillTrees htrees), hearly, resolveWarmup_resolved hwarm,
    hlate, ?_, rfl⟩
  -- the checks of the other fields have passed once already
  simp only [check, bind_eq_ok] at hcheck ⊢
  obtain ⟨_, h₁, _, h₂, _, h₃, _, h₄, _, h₅, b, h₆, _, h₇, _, h₈, -⟩ := hcheck
  exact ⟨_, h₁, _, h₂, _, h₃, _, h₄, _, h₅, b, h₆, _, h₇, _, h₈, hweights⟩

end BacktestConfig

end FuzzHelm
