import FuzzHelm.Backtest.ConfigHash

namespace FuzzHelm

open Lib

/-!
# The round trip of a configuration

What comes back from the flat dictionary of a configuration, and which configurations come back as
they were, with the same hash.

* `floatWeights_eq_ok` / `sortedWeights_names` — the weights that come back are floats in the order
  of their names;
* `fromDict_toDict` — every other field comes back;
* `config_round_trip` — which configurations come back;
* `unsorted_weights_turned` — weights in another order do not.
-/

namespace BacktestConfig

/-! ### The weights -/

/-- The names of the weights, in their order. -/
def weightNames (weights : List (String × PyNumber)) : List String := weights.map Prod.fst

/-- Weights pass when every name is that of a detector. -/
theorem checkWeights_eq_ok {weights : List (String × PyNumber)} :
    checkWeights weights = .ok () ↔ ∀ name ∈ weightNames weights, name ∈ detectorNames := by
  have hempty : (unknownDetectors (weights.map Prod.fst)).isEmpty = true ↔
      ∀ name ∈ weightNames weights, name ∈ detectorNames := by
    rw [List.isEmpty_iff, unknownDetectors, List.dedup_eq_nil, List.filter_eq_nil_iff]
    simp [weightNames]
  rw [checkWeights, require, ← hempty]
  split
  · rename_i h
    exact iff_of_true rfl h
  · rename_i h
    exact iff_of_false (by simp) h

/-- A key of the dictionary of the weights is one of their names. -/
theorem mem_weightDict {weights : List (String × PyNumber)} {name : String}
    (h : name ∈ (weightDict weights).keys) : name ∈ weightNames weights := by
  have hloop : ∀ (weights : List (String × PyNumber)) (d : Dict String PyNumber),
      name ∈ (weights.foldl (fun d w => d.insert w.1 w.2) d).keys →
        name ∈ weightNames weights ∨ name ∈ d.keys := by
    intro weights
    induction weights with
    | nil => exact fun d h => .inr h
    | cons w weights ih =>
      intro d h
      rcases ih _ h with hname | hname
      · exact .inl (List.mem_cons_of_mem _ hname)
      · rcases (Assoc.mem_keys_put d.entries w.1 w.2 name).mp hname with rfl | hold
        · exact .inl List.mem_cons_self
        · exact .inr hold
  rcases hloop weights ∅ h with hname | hname
  · exact hname
  · cases hname

/-- What becomes of the weights of a dictionary: floats under the same names. -/
theorem floatWeights_eq_ok {env : Surround} {d : Dict String PyNumber}
    {weights : List (String × PyNumber)} (h : floatWeights env d = .ok weights) :
    List.Forall₂ (fun v w => v.1 = w.1 ∧ ∃ x, w.2 = .float x) d.entries weights := by
  rw [floatWeights] at h
  generalize d.entries = entries at h ⊢
  induction entries generalizing weights with
  | nil =>
    cases h
    exact .nil
  | cons v entries ih =>
    simp only [List.mapM_cons, bind_eq_ok, pure, Except.pure, Except.ok.injEq] at h
    obtain ⟨_, ⟨x, -, rfl⟩, rest, hrest, rfl⟩ := h
    exact .cons ⟨rfl, x, rfl⟩ (ih hrest)

/-- Weights that are floats stay as they are. -/
theorem floatWeights_of_float {env : Surround} {d : Dict String PyNumber}
    (h : ∀ w ∈ d.entries, ∃ x, w.2 = .float x) : floatWeights env d = .ok d.entries := by
  rw [floatWeights]
  generalize d.entries = entries at h ⊢
  induction entries with
  | nil => rfl
  | cons w entries ih =>
    obtain ⟨name, v⟩ := w
    rw [List.forall_mem_cons] at h
    obtain ⟨⟨x, rfl⟩, hrest⟩ := h
    rw [List.mapM_cons, ih hrest]
    rfl

/-- What becomes of the weights of a dictionary comes in the order of its names, each name once. -/
theorem sortedWeights_names {env : Surround} {d : Dict String PyNumber}
    {weights : List (String × PyNumber)} (h : floatWeights env d = .ok weights) :
    (weightNames (sortedWeights weights)).Pairwise (· ≤ ·) ∧
      (weightNames (sortedWeights weights)).Perm d.keys := by
  constructor
  · exact List.pairwise_map.mpr (List.pairwise_insertionSort _ _)
  · refine ((List.perm_insertionSort _ _).map Prod.fst).trans ?_
    have hnames : d.keys = weights.map Prod.fst := by
      rw [Dict.keys, ← List.forall₂_eq_eq_eq, List.forall₂_map_left_iff,
        List.forall₂_map_right_iff]
      exact (floatWeights_eq_ok h).imp fun _ _ hvw => hvw.1
    rw [hnames]

/-- Weights whose names are different are those of their dictionary. -/
theorem weightDict_entries {weights : List (String × PyNumber)}
    (hnodup : (weightNames weights).Nodup) : (weightDict weights).entries = weights := by
  have hloop : ∀ (weights : List (String × PyNumber)) (d : Dict String PyNumber),
      (d.keys ++ weightNames weights).Nodup →
        (weights.foldl (fun d w => d.insert w.1 w.2) d).entries = d.entries ++ weights := by
    intro weights
    induction weights with
    | nil => simp
    | cons w weights ih =>
      intro d h
      have hnew : w.1 ∉ d.keys := by
        intro hmem
        exact (List.nodup_append.mp h).2.2 _ hmem _ (by simp [weightNames]) rfl
      have hentries : (d.insert w.1 w.2).entries = d.entries ++ [w] :=
        Assoc.put_new d.entries w.2 hnew
      have hkeys : (d.insert w.1 w.2).keys = d.keys ++ [w.1] := by
        rw [Dict.keys, hentries, List.map_append]
        rfl
      rw [List.foldl_cons, ih _ (by simpa [hkeys, weightNames] using h), hentries,
        List.append_assoc, List.singleton_append]
  exact hloop weights ∅ hnodup

/-! ### The round trip -/

/-- `cfg == cfg'`, where `cfg'` has come out of a dictionary: decimals and weights are new objects
    and are compared as numbers; the other fields have been handed over as they are. -/
structure SameConfig (cfg cfg' : BacktestConfig) : Prop where
  engine : cfg.engine = cfg'.engine
  costMode : cfg.costMode = cfg'.costMode
  initialEquity : cfg.initialEquity.eq cfg'.initialEquity
  nAtr : cfg.nAtr = cfg'.nAtr
  chi : cfg.chi = cfg'.chi
  uEnter : cfg.uEnter = cfg'.uEnter
  uExit : cfg.uExit = cfg'.uExit
  rhoBase : cfg.rhoBase = cfg'.rhoBase
  lam : cfg.lam = cfg'.lam
  tpMultiple : cfg.tpMultiple = cfg'.tpMultiple
  cooldownPolicy : cfg.cooldownPolicy = cfg'.cooldownPolicy
  detectors : cfg.detectors = cfg'.detectors
  detectorWeights : List.Forall₂ (fun v w => v.1 = w.1 ∧ v.2.eq w.2)
    cfg.detectorWeights cfg'.detectorWeights
  warmupBars : cfg.warmupBars = cfg'.warmupBars
  fundingFallbackRate : cfg.fundingFallbackRate.eq cfg'.fundingFallbackRate
  fundingMatchNs : cfg.fundingMatchNs = cfg'.fundingMatchNs
  recordTraces : cfg.recordTraces = cfg'.recordTraces
  checkInvariants : cfg.checkInvariants = cfg'.checkInvariants
  invariantTolerance : cfg.invariantTolerance.eq cfg'.invariantTolerance
  trees : cfg.trees = cfg'.trees

/-- The dictionary gives the configuration back, it has a hash, and what comes back has the same. -/
def RoundTrips (env : Surround) (blake2b : List UInt8 → String) (cfg : BacktestConfig) : Prop :=
  ∃ cfg' hash, fromDict env (toDict cfg) = .ok cfg' ∧ SameConfig cfg cfg' ∧
    configHash blake2b cfg = .ok hash ∧ configHash blake2b cfg' = .ok hash

/-- **What comes back.** Every configuration comes back with the same fields, but for its weights:
    those become floats in the order of their names, and of two weights of one name the last one is
    left. -/
theorem fromDict_toDict {env : Surround} {args : ConfigArgs} {cfg : BacktestConfig}
    (h : create env args = .ok cfg) :
    fromDict env (toDict cfg) = (do
      let weights ← floatWeights env (weightDict cfg.detectorWeights)
      return { cfg with detectorWeights := sortedWeights weights }) := by
  have hdec (x : PyDecimal) : Surround.decOfText x.str = .ok x := by
    rw [Surround.decOfText, decimalOfText_str, Option.elim_some]
  simp only [fromDict, toDict, hdec]
  cases hweights : floatWeights env (weightDict cfg.detectorWeights) with
  | error e => rfl
  | ok weights =>
    -- the names are still known
    refine create_args h (checkWeights_eq_ok.mpr fun name hname => ?_)
    obtain ⟨trees, early, warmupBars, late, -, -, -, -, hcheck, rfl⟩ := create_eq_ok.mp h
    simp only [check, bind_eq_ok] at hcheck
    obtain ⟨_, -, _, -, _, -, _, -, _, -, _, -, _, -, _, -, hknown⟩ := hcheck
    exact checkWeights_eq_ok.mp hknown name
      (mem_weightDict ((sortedWeights_names hweights).2.mem_iff.mp hname))

/-- A configuration whose weights are floats in the order of their names comes back. -/
theorem fromDict_toDict_sorted {env : Surround} {args : ConfigArgs} {cfg : BacktestConfig}
    (h : create env args = .ok cfg)
    (hsorted : (weightNames cfg.detectorWeights).Pairwise (· ≤ ·))
    (hnodup : (weightNames cfg.detectorWeights).Nodup)
    (hfloat : ∀ w ∈ cfg.detectorWeights, ∃ x, w.2 = .float x) :
    fromDict env (toDict cfg) = .ok cfg := by
  have hentries := weightDict_entries hnodup
  have hweights : floatWeights env (weightDict cfg.detectorWeights) = .ok cfg.detectorWeights := by
    rw [floatWeights_of_float (by rwa [hentries]), hentries]
  have hsame : sortedWeights cfg.detectorWeights = cfg.detectorWeights :=
    (List.pairwise_map.mp hsorted).insertionSort_eq
  rw [fromDict_toDict h, hweights]
  show Except.ok { cfg with detectorWeights := sortedWeights cfg.detectorWeights } = .ok cfg
  rw [hsame]

/-- A configuration that was accepted has an equity that is a number. -/
theorem initialEquity_not_nan {env : Surround} {args : ConfigArgs} {cfg : BacktestConfig}
    (h : create env args = .ok cfg) : cfg.initialEquity.isNan = false := by
  obtain ⟨trees, early, warmupBars, late, -, -, -, -, hcheck, rfl⟩ := create_eq_ok.mp h
  simp only [check, bind_eq_ok] at hcheck
  obtain ⟨_, -, _, -, _, -, _, -, _, -, b, hpos, -⟩ := hcheck
  cases hequity : (pick args trees early warmupBars late).initialEquity with
  | nan _ _ _ =>
    rw [hequity] at hpos
    cases hpos
  | _ => rfl

/-- A configuration has a hash exactly when it has bytes to hash. -/
theorem configHash_eq_ok {blake2b : List UInt8 → String} {cfg : BacktestConfig} {hash : String} :
    configHash blake2b cfg = .ok hash ↔
      ∃ bytes, identityBytes cfg = .ok bytes ∧ blake2b bytes = hash := by
  simp only [configHash, bind_eq_ok, pure, Except.pure, Except.ok.injEq]

/-- **The round trip.** A configuration comes back from its dictionary, with the same hash, exactly
    when its weights are floats given in the order of their names, each name once, neither they nor
    the two decimals that are not checked are NaN, and there is something to hash.  The hash is
    taken of the bytes of the configuration and of what comes back, and two different ones of these
    must not collide. -/
theorem config_round_trip {env : Surround} {blake2b : List UInt8 → String} {args : ConfigArgs}
    {cfg : BacktestConfig} (h : create env args = .ok cfg)
    (hcollide : ∀ cfg' bytes bytes', fromDict env (toDict cfg) = .ok cfg' →
      identityBytes cfg = .ok bytes → identityBytes cfg' = .ok bytes' →
        blake2b bytes = blake2b bytes' → bytes = bytes') :
    RoundTrips env blake2b cfg ↔
      ((weightNames cfg.detectorWeights).Pairwise (· ≤ ·) ∧
        (weightNames cfg.detectorWeights).Nodup) ∧
      (∀ w ∈ cfg.detectorWeights, ∃ x, w.2 = .float x ∧ x ≠ .nan) ∧
      cfg.fundingFallbackRate.isNan = false ∧ cfg.invariantTolerance.isNan = false ∧
      Hashable cfg := by
  constructor
  · rintro ⟨cfg', hash, hback, hsame, hhash, hhash'⟩
    obtain ⟨bytes, hbytes, rfl⟩ := configHash_eq_ok.mp hhash
    obtain ⟨bytes', hbytes', heq⟩ := configHash_eq_ok.mp hhash'
    obtain rfl := hcollide cfg' bytes bytes' hback hbytes hbytes' heq.symm
    rw [fromDict_toDict h, bind_eq_ok] at hback
    obtain ⟨weights, hweights, hcfg'⟩ := hback
    cases hcfg'
    have hequal := hsame.detectorWeights
    have hnames : weightNames cfg.detectorWeights = weightNames (sortedWeights weights) := by
      rw [weightNames, weightNames, ← List.forall₂_eq_eq_eq, List.forall₂_map_left_iff,
        List.forall₂_map_right_iff]
      exact hequal.imp fun _ _ hvw => hvw.1
    obtain ⟨hsorted, hperm⟩ := sortedWeights_names hweights
    have hnodup : (weightNames (sortedWeights weights)).Nodup :=
      hperm.nodup_iff.mpr (weightDict cfg.detectorWeights).nodup
    refine ⟨hnames ▸ ⟨hsorted, hnodup⟩, fun w hw => ?_,
      PyDecimal.eq_self.mp hsame.fundingFallbackRate,
      PyDecimal.eq_self.mp hsame.invariantTolerance, identityBytes_isOk.mp ⟨_, hbytes⟩⟩
    -- what comes back at the place of a weight is a float of its name
    obtain ⟨i, hi, rfl⟩ := List.getElem_of_mem hw
    have hi' : i < (sortedWeights weights).length := hequal.length_eq ▸ hi
    obtain ⟨hname, heq⟩ := hequal.get hi hi'
    have hfloat : ∃ x, (sortedWeights weights)[i].2 = .float x := by
      have hmem : (sortedWeights weights)[i] ∈ weights :=
        (List.perm_insertionSort _ _).mem_iff.mp (List.getElem_mem hi')
      obtain ⟨j, hj, hget⟩ := List.getElem_of_mem hmem
      have hpairs := floatWeights_eq_ok hweights
      have hj' : j < (weightDict cfg.detectorWeights).entries.length := hpairs.length_eq ▸ hj
      rw [← hget]
      exact (hpairs.get hj' hj).2
    obtain ⟨x, hx⟩ := hfloat
    -- with the same bytes it was a float before
    have hmem : cfg.detectorWeights[i] ∈ (weightDict cfg.detectorWeights).entries := by
      rw [weightDict_entries (hnames ▸ hnodup)]
      exact List.getElem_mem hi
    have hmem' : (cfg.detectorWeights[i].1, PyNumber.float x) ∈
        (weightDict (sortedWeights weights)).entries := by
      rw [weightDict_entries hnodup, ← hx, show cfg.detectorWeights[i].1 = _ from hname]
      exact List.getElem_mem hi'
    obtain ⟨y, hy⟩ := float_of_same_bytes hbytes hbytes' hmem hmem'
    exact ⟨y, hy, PyNumber.ne_nan_of_eq (hy ▸ heq)⟩
  · rintro ⟨⟨hsorted, hnodup⟩, hfloat, hrate, htolerance, hhash⟩
    obtain ⟨bytes, hbytes⟩ := identityBytes_isOk.mpr hhash
    have hok : configHash blake2b cfg = .ok (blake2b bytes) :=
      configHash_eq_ok.mpr ⟨bytes, hbytes, rfl⟩
    have hback := fromDict_toDict_sorted h hsorted hnodup fun w hw =>
      (hfloat w hw).imp fun _ hx => hx.1
    refine ⟨cfg, blake2b bytes, hback, ?_, hok, hok⟩
    constructor
    case initialEquity => exact PyDecimal.eq_self.mpr (initialEquity_not_nan h)
    case detectorWeights =>
      refine List.forall₂_same.mpr fun w hw => ⟨rfl, ?_⟩
      obtain ⟨x, hx, hnan⟩ := hfloat w hw
      rw [hx]
      exact PyNumber.float_eq_self hnan
    case fundingFallbackRate => exact PyDecimal.eq_self.mpr hrate
    case invariantTolerance => exact PyDecimal.eq_self.mpr htolerance
    all_goals rfl

/-! ### Two configurations -/

/-- A schema that accepts empty trees, over no files; an integer becomes a float without a
    fraction, and the match window is a minute. -/
def emptyFiles : Surround where
  loadYaml name := .error (.keyError name)
  validateEngineTree _ := .ok ()
  text t := t.typeName
  floatOfInt n := .ok (.finite (decide (n < 0)) (10 * n.natAbs) (-1))
  matchNs _ := .ok 60000000000

/-- Trees without settings, with two detectors. -/
def bareTrees : Dict String Tree :=
  ⟨[("engine", .map []), ("risk_limits", .map []),
    ("detectors", .map [(.str "detectors",
      .map [(.str "donchian", .map []), (.str "rsi_exhaustion", .map [])])]),
    ("cost_model", .map []), ("membership", .map []), ("rules", .map [])], by decide⟩

/-- Nothing given but the trees and some weights. -/
def weightsOnly (weights : List (String × PyNumber)) : ConfigArgs where
  engine := none
  costMode := none
  initialEquity := none
  nAtr := none
  chi := none
  uEnter := none
  uExit := none
  rhoBase := none
  lam := none
  tpMultiple := none
  cooldownPolicy := none
  detectors := none
  detectorWeights := weights
  warmupBars := none
  fundingFallbackRate := none
  fundingMatchNs := none
  recordTraces := none
  checkInvariants := none
  invariantTolerance := none
  trees := bareTrees

/-- What the defaults make of them. -/
def defaultConfig (weights : List (String × PyNumber)) : BacktestConfig where
  engine := "mamdani"
  costMode := "full"
  initialEquity := .finite false 10000 0
  nAtr := 14
  chi := .float (.finite false 20 (-1))
  uEnter := .float (.finite false 25 (-2))
  uExit := .float (.finite false 12 (-2))
  rhoBase := .float (.finite false 5 (-3))
  lam := .float (.finite false 94 (-2))
  tpMultiple := .float (.finite false 20 (-1))
  cooldownPolicy := "scaled_entries"
  detectors := none
  detectorWeights := weights
  warmupBars := none
  fundingFallbackRate := .finite false 1 (-4)
  fundingMatchNs := 60000000000
  recordTraces := "trades"
  checkInvariants := false
  invariantTolerance := .finite false 1 (-9)
  trees := bareTrees

/-- Weights in the order of their names. -/
def sortedPair : List (String × PyNumber) :=
  [("donchian", .float (.finite false 5 (-1))),
    ("rsi_exhaustion", .float (.finite false 20 (-1)))]

/-- What is hashed of the configuration with these weights, with its keys in order. -/
def sortedPairJson : Json :=
  .obj [("chi", .str "2.0"), ("cooldown_policy", .str "scaled_entries"), ("cost_mode", .str "full"),
    ("detector_weights", .obj [("donchian", .str "0.5"), ("rsi_exhaustion", .str "2.0")]),
    ("detectors", .null), ("engine", .str "mamdani"), ("funding_fallback_rate", .str "0.0001"),
    ("funding_match_ns", .int 60000000000), ("initial_equity", .str "10000"),
    ("lam", .str "0.94"), ("n_atr", .int 14), ("rho_base", .str "0.005"),
    ("tp_multiple", .str "2.0"),
    ("trees", .obj
      [("cost_model", .obj [("mode", .str "full")]),
       ("detectors", .obj
         [("detectors", .obj
           [("donchian", .obj [("weight", .str "0.5")]),
            ("rsi_exhaustion", .obj [("weight", .str "2.0")])]),
          ("features", .obj [("n_atr", .int 14)])]),
       ("membership", .obj []),
       ("risk_limits", .obj
         [("hysteresis", .obj [("enter", .str "0.25"), ("exit", .str "0.12")]),
          ("sizing", .obj [("chi_atr", .str "2.0"), ("ewma_lambda", .str "0.94"),
            ("rho_base", .str "0.005")]),
          ("state_machine", .obj [("cooldown_policy", .str "scaled_entries")])]),
       ("rules", .obj [])]),
    ("u_enter", .str "0.25"), ("u_exit", .str "0.12"), ("warmup_bars", .null)]

/-- BLAKE2b-256 of its compact text, in hexadecimal. -/
def sortedPairDigest : String :=
  "0d2e1a211a3166bd89b20b83b49604d33a295eccaf12c622d9c05e77c409aa76"

/-- `blake2b` on the one text that is hashed below. -/
def configBlake2b (bytes : List UInt8) : String :=
  if bytes = utf8 sortedPairJson.print then sortedPairDigest else ""

/-- The bytes that are hashed are those of the tree above. -/
theorem identityBytes_sortedPair :
    identityBytes (defaultConfig sortedPair) = .ok (utf8 sortedPairJson.print) := by
  have htree : ∃ t obj v, identityDict (defaultConfig sortedPair) = .ok t ∧
      canonicalizeConfig t = .ok obj ∧ assertNoFloat "$" obj = .ok () ∧
      toCanonical obj = .ok v ∧ v.sortKeys = sortedPairJson :=
    ⟨_, _, _, rfl, rfl, rfl, rfl, rfl⟩
  obtain ⟨t, obj, v, ht, hobj, hcheck, hv, hsort⟩ := htree
  have hfits : fits sortedPairJson = true := by decide +kernel
  have hbytes : canonicalJson obj = .ok (utf8 sortedPairJson.print) :=
    canonicalJson_eq_ok.mpr ⟨_, canonicalTree_eq_ok.mpr ⟨hcheck, v, hv, hsort⟩,
      serialize_eq_ok.mpr ⟨hfits, rfl⟩⟩
  refine bind_eq_ok.mpr ⟨t, ht, bind_eq_ok.mpr ⟨obj, hobj, ?_⟩⟩
  rw [hbytes]
  rfl

/-- Weights in the order of their names come back, with the same hash. -/
theorem config_round_trip_sorted :
    configHash configBlake2b (defaultConfig sortedPair) = .ok sortedPairDigest ∧
      RoundTrips emptyFiles configBlake2b (defaultConfig sortedPair) := by
  have hcreate : create emptyFiles (weightsOnly sortedPair) = .ok (defaultConfig sortedPair) := rfl
  have hsorted : (weightNames sortedPair).Pairwise (· ≤ ·) := by decide +kernel
  have hnodup : (weightNames sortedPair).Nodup := by decide +kernel
  have hfloat : ∀ w ∈ sortedPair, ∃ x, w.2 = .float x ∧ x ≠ .nan := by
    intro w hw
    rcases List.mem_pair.mp hw with rfl | rfl
    · exact ⟨_, rfl, by decide⟩
    · exact ⟨_, rfl, by decide⟩
  refine ⟨configHash_eq_ok.mpr ⟨_, identityBytes_sortedPair, if_pos rfl⟩, ?_⟩
  refine (config_round_trip hcreate ?_).mpr
    ⟨⟨hsorted, hnodup⟩, hfloat, rfl, rfl, identityBytes_isOk.mp ⟨_, identityBytes_sortedPair⟩⟩
  -- what comes back is the configuration itself, so that there is nothing to collide
  intro cfg' bytes bytes' hback hbytes hbytes' _
  rw [fromDict_toDict_sorted hcreate hsorted hnodup fun w hw => (hfloat w hw).imp fun _ hx => hx.1,
    Except.ok.injEq] at hback
  subst hback
  exact Except.ok.inj (hbytes.symm.trans hbytes')

/-- The same weights the other way round are turned. -/
theorem unsorted_weights_turned :
    create emptyFiles (weightsOnly sortedPair.reverse) =
        .ok (defaultConfig sortedPair.reverse) ∧
      ¬ RoundTrips emptyFiles configBlake2b (defaultConfig sortedPair.reverse) := by
  have hcreate : create emptyFiles (weightsOnly sortedPair.reverse) =
      .ok (defaultConfig sortedPair.reverse) := rfl
  refine ⟨hcreate, ?_⟩
  rintro ⟨cfg', hash, hback, hsame, -⟩
  have hweights : floatWeights emptyFiles
      (weightDict (defaultConfig sortedPair.reverse).detectorWeights) =
        .ok sortedPair.reverse := rfl
  rw [fromDict_toDict hcreate, hweights] at hback
  cases hback
  have hfirst : ("rsi_exhaustion" : String) = "donchian" := by
    have hsorted : sortedWeights sortedPair.reverse = sortedPair := by decide +kernel
    have hequal := hsame.detectorWeights
    simp only [hsorted] at hequal
    exact (List.forall₂_cons.mp hequal).1.1
  exact absurd hfirst (by decide)

end BacktestConfig

end FuzzHelm
