import FuzzHelm.Backtest.BacktestConfig

namespace FuzzHelm

open Lib

/-!
# The hash of a configuration

What identifies a run: the flat dictionary without the switches of the recording, over the trees
with the fields of the configuration written into them.

* `resolvedTrees` / `identityDict` — the trees under the fields, and what the hash is taken of;
* `canonicalizeConfig` — floats as exact decimals, keys as strings;
* `configHash` — the hash of the canonical bytes;
* `Hashable` — every float is finite, every integer that is left fits into 64 bits;
* `identityBytes_isOk` — exactly then there are bytes to hash;
* `float_of_same_bytes` — configurations with the same bytes have floats at the same weights.
-/

/-! ### Finite trees that can be written -/

/-- Neither infinite nor NaN. -/
def PyFloat.isFinite : PyFloat → Bool
  | finite _ _ _ => true
  | _ => false

namespace Tree

mutual

/-- No float in the tree is infinite or NaN. -/
def finite : Tree → Bool
  | float x => x.isFinite
  | list items => finiteItems items
  | map entries => finiteEntries entries
  | _ => true

/-- `finite` for the items of a list. -/
def finiteItems : List Tree → Bool
  | [] => true
  | t :: ts => t.finite && finiteItems ts

/-- `finite` for the entries of a dictionary, those that are overwritten included. -/
def finiteEntries : List (Key × Tree) → Bool
  | [] => true
  | (_, t) :: entries => t.finite && finiteEntries entries

end

mutual

/-- Every integer fits into 64 bits, with or without a sign, and every object is of a kind that
    can be written. -/
def encodable : Tree → Bool
  | int n => -2 ^ 63 ≤ n ∧ n < 2 ^ 64
  | list items => encodableItems items
  | map entries => encodableEntries entries
  | other _ => false
  | _ => true

/-- `encodable` for the items of a list. -/
def encodableItems : List Tree → Bool
  | [] => true
  | t :: ts => t.encodable && encodableItems ts

/-- `encodable` for the entries of a dictionary: of two keys with the same text the later value is
    written. -/
def encodableEntries : List (Key × Tree) → Bool
  | [] => true
  | (k, t) :: entries =>
    (entries.any (fun e => e.1.text = k.text) || t.encodable) && encodableEntries entries

end

end Tree

namespace BacktestConfig

/-! ### What the hash is taken of -/

/-- One overridden weight: `det["detectors"][name] = {**det["detectors"][name], "weight": w}`. -/
def setWeight (det : Tree) (w : String × PyNumber) : Except ConfigError Tree := do
  let named ← (← (← det.item "detectors").item w.1).merge [("weight", w.2.tree)]
  det.set "detectors" (← (← det.item "detectors").set w.1 named)

/-- `t[key] = {**(t.get(key) or {}), ...}`. -/
def override (t : Tree) (key : String) (values : List (String × Tree)) :
    Except ConfigError Tree := do
  t.set key (← (← t.get key .null).orEmpty.merge values)

/-- `resolved_trees`: the trees under the fields of the configuration. -/
def resolvedTrees (cfg : BacktestConfig) : Except ConfigError (Dict String Tree) := do
  let det ← override (← treeOf cfg.trees "detectors") "features" [("n_atr", .int cfg.nAtr)]
  let det ← cfg.detectorWeights.foldlM setWeight det
  let risk ← override (← treeOf cfg.trees "risk_limits") "sizing"
    [("rho_base", cfg.rhoBase.tree), ("chi_atr", cfg.chi.tree), ("ewma_lambda", cfg.lam.tree)]
  let risk ← override risk "hysteresis"
    [("enter", cfg.uEnter.tree), ("exit", cfg.uExit.tree)]
  let risk ← override risk "state_machine" [("cooldown_policy", .str cfg.cooldownPolicy)]
  let cost ← (← treeOf cfg.trees "cost_model").merge [("mode", .str cfg.costMode)]
  return ((cfg.trees.insert "detectors" det).insert "risk_limits" risk).insert "cost_model" cost

/-- The weights as they stand in the dictionary. -/
def weightEntries (cfg : BacktestConfig) : List (Key × Tree) :=
  (weightDict cfg.detectorWeights).entries.map fun w => (.str w.1, w.2.tree)

/-- The fields of `identity_dict` over the resolved trees: the flat dictionary without the switches
    of the recording and without the engine tree. -/
def identityFields (cfg : BacktestConfig) (trees : Dict String Tree) : List (String × Tree) :=
  let d := toDict cfg
  [("engine", .str d.engine), ("cost_mode", .str d.costMode),
   ("initial_equity", .str d.initialEquity), ("n_atr", .int d.nAtr), ("chi", d.chi.tree),
   ("u_enter", d.uEnter.tree), ("u_exit", d.uExit.tree), ("rho_base", d.rhoBase.tree),
   ("lam", d.lam.tree), ("tp_multiple", d.tpMultiple.tree),
   ("cooldown_policy", .str d.cooldownPolicy),
   ("detectors", d.detectors.elim .null fun names => .list (names.map .str)),
   ("detector_weights", .map (weightEntries cfg)),
   ("warmup_bars", d.warmupBars.elim .null .int),
   ("funding_fallback_rate", .str d.fundingFallbackRate),
   ("funding_match_ns", .int d.fundingMatchNs),
   ("trees", .map ((trees.erase "engine").entries.map fun t => (.str t.1, t.2)))]

/-- `identity_dict`: what of a configuration decides the result of a run. -/
def identityDict (cfg : BacktestConfig) : Except ConfigError Tree := do
  let trees ← resolvedTrees cfg
  return .map ((identityFields cfg trees).map fun e => (.str e.1, e.2))

mutual

/-- `canonicalize_config`: floats become the decimals of their `repr`, keys become strings. -/
def canonicalizeConfig : Tree → Except ConfigError Obj
  | .null => .ok .none
  | .bool b => .ok (.bool b)
  | .int n => .ok (.int n)
  | .float x => do return .decimal (← x.toDecimal)
  | .str s => .ok (.str s)
  | .list items => do return .list (← canonicalizeItems items)
  | .map entries => do return .mapping (← canonicalizeEntries [] entries)
  | .other typeName => .ok (.other typeName)

/-- The items of a sequence, one after another. -/
def canonicalizeItems : List Tree → Except ConfigError (List Obj)
  | [] => .ok []
  | t :: ts => do return (← canonicalizeConfig t) :: (← canonicalizeItems ts)

/-- The entries from one on, after those that are done: of two keys with the same text the later
    value counts. -/
def canonicalizeEntries (done : List (Key × Obj)) :
    List (Key × Tree) → Except ConfigError (List (Key × Obj))
  | [] => .ok done
  | (k, t) :: entries => do
    let v ← canonicalizeConfig t
    canonicalizeEntries (Assoc.put done (.str k.text) v) entries

end

/-- The canonical bytes that are hashed. -/
def identityBytes (cfg : BacktestConfig) : Except ConfigError (List UInt8) := do
  let obj ← canonicalizeConfig (← identityDict cfg)
  match canonicalJson obj with
  | .ok bytes => return bytes
  | .error e => throw (.typeError e.msg)

/-- `config_hash`, over `blake2b` with 32 bytes in hexadecimal. -/
def configHash (blake2b : List UInt8 → String) (cfg : BacktestConfig) :
    Except ConfigError String := do
  return blake2b (← identityBytes cfg)

/-- There is something to hash: the trees can be overridden as the fields say, every float in them
    and in the fields is finite, and what is left of them can be written. -/
def Hashable (cfg : BacktestConfig) : Prop :=
  ∃ t, identityDict cfg = .ok t ∧ t.finite = true ∧ t.encodable = true

/-! ### Which trees become objects -/

mutual

/-- A tree becomes an object exactly when its floats are finite. -/
theorem canonicalizeConfig_isOk : ∀ t : Tree,
    (∃ obj, canonicalizeConfig t = .ok obj) ↔ t.finite = true
  | .null | .bool _ | .int _ | .str _ | .other _ => by
    simp [canonicalizeConfig, Tree.finite]
  | .float x => by
    cases x <;> simp [canonicalizeConfig, Tree.finite, PyFloat.isFinite, PyFloat.toDecimal, bind,
      Except.bind, pure, Except.pure]
  | .list items => by
    rw [Tree.finite, ← canonicalizeItems_isOk items]
    simp only [canonicalizeConfig, bind_eq_ok, pure, Except.pure, Except.ok.injEq]
    exact ⟨fun ⟨_, objs, h, _⟩ => ⟨objs, h⟩, fun ⟨objs, h⟩ => ⟨_, objs, h, rfl⟩⟩
  | .map entries => by
    rw [Tree.finite, ← canonicalizeEntries_isOk entries []]
    simp only [canonicalizeConfig, bind_eq_ok, pure, Except.pure, Except.ok.injEq]
    exact ⟨fun ⟨_, objs, h, _⟩ => ⟨objs, h⟩, fun ⟨objs, h⟩ => ⟨_, objs, h, rfl⟩⟩

/-- `canonicalizeConfig_isOk` for the items of a list. -/
theorem canonicalizeItems_isOk : ∀ ts : List Tree,
    (∃ objs, canonicalizeItems ts = .ok objs) ↔ Tree.finiteItems ts = true
  | [] => by simp [canonicalizeItems, Tree.finiteItems]
  | t :: ts => by
    rw [Tree.finiteItems, Bool.and_eq_true, ← canonicalizeConfig_isOk t,
      ← canonicalizeItems_isOk ts]
    simp only [canonicalizeItems, bind_eq_ok, pure, Except.pure, Except.ok.injEq]
    constructor
    · rintro ⟨_, obj, hobj, objs, hobjs, -⟩
      exact ⟨⟨obj, hobj⟩, ⟨objs, hobjs⟩⟩
    · rintro ⟨⟨obj, hobj⟩, ⟨objs, hobjs⟩⟩
      exact ⟨_, obj, hobj, objs, hobjs, rfl⟩

/-- `canonicalizeConfig_isOk` for the entries of a dictionary, whatever is done already. -/
theorem canonicalizeEntries_isOk : ∀ (entries : List (Key × Tree)) (done : List (Key × Obj)),
    (∃ objs, canonicalizeEntries done entries = .ok objs) ↔ Tree.finiteEntries entries = true
  | [], done => by simp [canonicalizeEntries, Tree.finiteEntries]
  | (k, t) :: entries, done => by
    rw [Tree.finiteEntries, Bool.and_eq_true, ← canonicalizeConfig_isOk t]
    simp only [canonicalizeEntries, bind_eq_ok]
    constructor
    · rintro ⟨objs, obj, hobj, hobjs⟩
      exact ⟨⟨obj, hobj⟩, (canonicalizeEntries_isOk entries _).mp ⟨objs, hobjs⟩⟩
    · rintro ⟨⟨obj, hobj⟩, hfinite⟩
      obtain ⟨objs, hobjs⟩ := (canonicalizeEntries_isOk entries _).mpr hfinite
      exact ⟨objs, obj, hobj, hobjs⟩

end

/-! ### Which of them can be written -/

/-- The keys of a canonical dictionary are strings, each once. -/
theorem canonicalizeEntries_keys {entries : List (Key × Tree)} {done objs : List (Key × Obj)}
    (h : canonicalizeEntries done entries = .ok objs) (hnodup : (done.map Prod.fst).Nodup)
    (hstr : ∀ kv ∈ done, ∃ k, kv.1 = .str k) :
    (objs.map Prod.fst).Nodup ∧ ∀ kv ∈ objs, ∃ k, kv.1 = .str k := by
  induction entries generalizing done with
  | nil =>
    rw [canonicalizeEntries, Except.ok.injEq] at h
    subst h
    exact ⟨hnodup, hstr⟩
  | cons e entries ih =>
    rw [canonicalizeEntries, bind_eq_ok] at h
    obtain ⟨obj, -, hrest⟩ := h
    refine ih hrest (Assoc.put_nodup _ _ _ hnodup) fun kv hkv => ?_
    rcases (Assoc.mem_put hnodup _ _ _).mp hkv with rfl | ⟨hold, -⟩
    · exact ⟨_, rfl⟩
    · exact hstr kv hold

mutual

/-- What a tree becomes can be written exactly when the tree is encodable. -/
theorem writable_iff : ∀ {t : Tree} {obj : Obj}, canonicalizeConfig t = .ok obj →
    (obj.Writable ↔ t.encodable = true)
  | .null, obj, h | .bool _, obj, h | .str _, obj, h => by
    rw [canonicalizeConfig, Except.ok.injEq] at h
    subst h
    simp [Obj.Writable, assertNoFloat, toCanonical, fits, Tree.encodable]
  | .int n, obj, h => by
    rw [canonicalizeConfig, Except.ok.injEq] at h
    subst h
    simp [Obj.Writable, assertNoFloat, toCanonical, fits, Tree.encodable]
  | .float x, obj, h => by
    simp only [canonicalizeConfig, bind_eq_ok, pure, Except.pure, Except.ok.injEq] at h
    obtain ⟨d, -, rfl⟩ := h
    simp [Obj.Writable, assertNoFloat, toCanonical, fits, Tree.encodable]
  | .other name, obj, h => by
    rw [canonicalizeConfig, Except.ok.injEq] at h
    subst h
    simp [Obj.Writable, toCanonical, Tree.encodable]
  | .list items, obj, h => by
    simp only [canonicalizeConfig, bind_eq_ok, pure, Except.pure, Except.ok.injEq] at h
    obtain ⟨objs, hobjs, rfl⟩ := h
    rw [Obj.writable_list, Tree.encodable]
    exact writable_items_iff hobjs
  | .map entries, obj, h => by
    simp only [canonicalizeConfig, bind_eq_ok, pure, Except.pure, Except.ok.injEq] at h
    obtain ⟨objs, hobjs, rfl⟩ := h
    -- the keys are texts, so that only the values matter
    have hkeys := canonicalizeEntries_keys hobjs List.nodup_nil (by simp)
    have hvalues := writable_entries_iff hobjs List.nodup_nil
    rw [Obj.writable_mapping, Tree.encodable]
    refine ⟨fun hall => (hvalues.mp fun kv hkv => (hall kv hkv).2).2, fun henc kv hkv => ?_⟩
    exact ⟨hkeys.2 kv hkv, hvalues.mpr ⟨by simp, henc⟩ kv hkv⟩

/-- `writable_iff` for the items of a list. -/
theorem writable_items_iff : ∀ {ts : List Tree} {objs : List Obj},
    canonicalizeItems ts = .ok objs →
      ((∀ x ∈ objs, x.Writable) ↔ Tree.encodableItems ts = true)
  | [], objs, h => by
    rw [canonicalizeItems, Except.ok.injEq] at h
    subst h
    simp [Tree.encodableItems]
  | t :: ts, objs, h => by
    simp only [canonicalizeItems, bind_eq_ok, pure, Except.pure, Except.ok.injEq] at h
    obtain ⟨obj, hobj, rest, hrest, rfl⟩ := h
    rw [List.forall_mem_cons, Tree.encodableItems, Bool.and_eq_true, writable_iff hobj,
      writable_items_iff hrest]

/-- `writable_iff` for the entries of a dictionary: the later values, and those of the entries that
    are done which none of them overwrites. -/
theorem writable_entries_iff : ∀ {entries : List (Key × Tree)} {done objs : List (Key × Obj)},
    canonicalizeEntries done entries = .ok objs → (done.map Prod.fst).Nodup →
      ((∀ kv ∈ objs, kv.2.Writable) ↔
        (∀ kv ∈ done, (∀ e ∈ entries, Key.str e.1.text ≠ kv.1) → kv.2.Writable) ∧
          Tree.encodableEntries entries = true)
  | [], done, objs, h, hnodup => by
    rw [canonicalizeEntries, Except.ok.injEq] at h
    subst h
    simp [Tree.encodableEntries]
  | (k, t) :: entries, done, objs, h, hnodup => by
    simp only [canonicalizeEntries, bind_eq_ok] at h
    obtain ⟨obj, hobj, hrest⟩ := h
    rw [writable_entries_iff hrest (Assoc.put_nodup _ _ _ hnodup), Tree.encodableEntries,
      Bool.and_eq_true, Bool.or_eq_true, ← writable_iff hobj, ← and_assoc]
    refine and_congr_left fun _ => ?_
    have hlater : (entries.any fun e => decide (e.1.text = k.text)) = true ↔
        ¬ ∀ e ∈ entries, Key.str e.1.text ≠ Key.str k.text := by
      simp
    simp only [Assoc.mem_put hnodup, forall_eq_or_imp, List.forall_mem_cons, hlater]
    constructor
    · rintro ⟨hnew, hold⟩
      refine ⟨fun kv hkv hne => hold kv ⟨hkv, hne.1⟩ hne.2, ?_⟩
      rwa [or_iff_not_imp_left, not_not]
    · rintro ⟨hold, hnew⟩
      refine ⟨fun hlast => hnew.resolve_left (not_not.mpr hlast), fun kv hkv hlast => ?_⟩
      exact hold kv hkv.1 ⟨hkv.2, hlast⟩

end

/-- **Which configurations have a hash.** There are bytes to hash exactly when the trees can be
    overridden, every float is finite and what is left can be written. -/
theorem identityBytes_isOk {cfg : BacktestConfig} :
    (∃ bytes, identityBytes cfg = .ok bytes) ↔ Hashable cfg := by
  simp only [identityBytes, bind_eq_ok, Hashable]
  constructor
  · rintro ⟨bytes, t, ht, obj, hobj, hbytes⟩
    refine ⟨t, ht, (canonicalizeConfig_isOk t).mp ⟨obj, hobj⟩, ?_⟩
    rw [← writable_iff hobj, ← canonicalJson_isOk]
    split at hbytes
    · exact ⟨_, ‹_›⟩
    · cases hbytes
  · rintro ⟨t, ht, hfinite, hencodable⟩
    obtain ⟨obj, hobj⟩ := (canonicalizeConfig_isOk t).mpr hfinite
    obtain ⟨bytes, hbytes⟩ := canonicalJson_isOk.mpr ((writable_iff hobj).mpr hencodable)
    exact ⟨bytes, t, ht, obj, hobj, by rw [hbytes]; rfl⟩

/-! ### What the bytes say about a weight -/

/-- What is done already stays, unless a later key overwrites it. -/
theorem mem_canonicalizeEntries {entries : List (Key × Tree)} {done objs : List (Key × Obj)}
    (h : canonicalizeEntries done entries = .ok objs) (hnodup : (done.map Prod.fst).Nodup)
    {kv : Key × Obj} (hmem : kv ∈ done) (hkept : ∀ e ∈ entries, Key.str e.1.text ≠ kv.1) :
    kv ∈ objs := by
  induction entries generalizing done with
  | nil =>
    rw [canonicalizeEntries, Except.ok.injEq] at h
    exact h ▸ hmem
  | cons e entries ih =>
    rw [canonicalizeEntries, bind_eq_ok] at h
    obtain ⟨obj, -, hrest⟩ := h
    rw [List.forall_mem_cons] at hkept
    exact ih hrest (Assoc.put_nodup _ _ _ hnodup)
      ((Assoc.mem_put hnodup _ _ _).mpr (.inr ⟨hmem, hkept.1⟩)) hkept.2

/-- Where the keys have different texts, every entry is found under its key. -/
theorem exists_canonicalizeEntries {entries : List (Key × Tree)} {done objs : List (Key × Obj)}
    (h : canonicalizeEntries done entries = .ok objs) (hnodup : (done.map Prod.fst).Nodup)
    (htexts : (entries.map fun e => e.1.text).Nodup) {e : Key × Tree} (he : e ∈ entries) :
    ∃ obj, canonicalizeConfig e.2 = .ok obj ∧ (Key.str e.1.text, obj) ∈ objs := by
  induction entries generalizing done with
  | nil => cases he
  | cons e' entries ih =>
    rw [canonicalizeEntries, bind_eq_ok] at h
    obtain ⟨obj, hobj, hrest⟩ := h
    rw [List.map_cons, List.nodup_cons] at htexts
    have hput := Assoc.put_nodup done (Key.str e'.1.text) obj hnodup
    rcases List.mem_cons.mp he with rfl | he
    · refine ⟨obj, hobj, mem_canonicalizeEntries hrest hput ?_ ?_⟩
      · exact (Assoc.mem_put hnodup _ _ _).mpr (.inl rfl)
      · intro e' he' heq
        exact htexts.1 (List.mem_map.mpr ⟨e', he', Key.str.inj heq⟩)
    · exact ih hrest hput htexts.2 he

/-- Two dictionaries with the same ordered tree, both with keys of different texts, agree under a
    key of both. -/
theorem canonicalTree_map_value {entries entries' : List (Key × Tree)} {obj obj' : Obj} {t : Json}
    (hobj : canonicalizeConfig (.map entries) = .ok obj)
    (hobj' : canonicalizeConfig (.map entries') = .ok obj')
    (htree : canonicalTree obj = .ok t) (htree' : canonicalTree obj' = .ok t)
    (htexts : (entries.map fun e => e.1.text).Nodup)
    (htexts' : (entries'.map fun e => e.1.text).Nodup)
    {k : Key} {v v' : Tree} (hv : (k, v) ∈ entries) (hv' : (k, v') ∈ entries') :
    ∃ x x' w, canonicalizeConfig v = .ok x ∧ canonicalizeConfig v' = .ok x' ∧
      canonicalTree x = .ok w ∧ canonicalTree x' = .ok w := by
  simp only [canonicalizeConfig, bind_eq_ok, pure, Except.pure, Except.ok.injEq] at hobj hobj'
  obtain ⟨objs, hobjs, rfl⟩ := hobj
  obtain ⟨objs', hobjs', rfl⟩ := hobj'
  obtain ⟨x, hx, hmem⟩ := exists_canonicalizeEntries hobjs List.nodup_nil htexts hv
  obtain ⟨x', hx', hmem'⟩ := exists_canonicalizeEntries hobjs' List.nodup_nil htexts' hv'
  obtain ⟨hkeys, hstr⟩ := canonicalizeEntries_keys hobjs List.nodup_nil (by simp)
  -- keys that are texts and differ have different texts
  have hnames : (objs.map fun kv => kv.1.text).Nodup := by
    have hmap : (objs.map fun kv => kv.1.text) = (objs.map Prod.fst).map Key.text := by
      rw [List.map_map]
      rfl
    rw [hmap]
    refine hkeys.map_on fun a ha b hb hab => ?_
    obtain ⟨kv, hkv, rfl⟩ := List.mem_map.mp ha
    obtain ⟨kv', hkv', rfl⟩ := List.mem_map.mp hb
    obtain ⟨j, hj⟩ := hstr kv hkv
    obtain ⟨j', hj'⟩ := hstr kv' hkv'
    rw [hj, hj'] at hab ⊢
    exact congrArg Key.str hab
  obtain ⟨w, hw, hw'⟩ := canonicalTree_mapping_value htree htree' hnames hmem hmem'
  exact ⟨x, x', w, hx, hx', hw, hw'⟩

/-- The names of the fields are all different. -/
theorem identityFields_names (cfg : BacktestConfig) (trees : Dict String Tree) :
    (((identityFields cfg trees).map fun e => (Key.str e.1, e.2)).map fun e => e.1.text).Nodup := by
  rw [List.map_map]
  show (["engine", "cost_mode", "initial_equity", "n_atr", "chi", "u_enter", "u_exit", "rho_base",
    "lam", "tp_multiple", "cooldown_policy", "detectors", "detector_weights", "warmup_bars",
    "funding_fallback_rate", "funding_match_ns", "trees"] : List String).Nodup
  decide

/-- The names of the weights are all different, since they are the keys of a dictionary. -/
theorem weightEntries_names (cfg : BacktestConfig) :
    ((weightEntries cfg).map fun e => e.1.text).Nodup := by
  rw [weightEntries, List.map_map]
  exact (weightDict cfg.detectorWeights).nodup

/-- **The bytes tell integers from floats.** Of two configurations with the same bytes, the weight
    of a name is a float in one when it is a float in the other: an integer is written as a number
    and a float as a string. -/
theorem float_of_same_bytes {cfg cfg' : BacktestConfig} {bytes : List UInt8}
    (h : identityBytes cfg = .ok bytes) (h' : identityBytes cfg' = .ok bytes)
    {name : String} {w : PyNumber} {x : PyFloat}
    (hw : (name, w) ∈ (weightDict cfg.detectorWeights).entries)
    (hx : (name, .float x) ∈ (weightDict cfg'.detectorWeights).entries) :
    ∃ y, w = .float y := by
  -- the bytes of a configuration are those of its dictionary
  have hdict (cfg : BacktestConfig) (h : identityBytes cfg = .ok bytes) : ∃ trees obj,
      canonicalizeConfig (.map ((identityFields cfg trees).map fun e => (.str e.1, e.2))) =
        .ok obj ∧ canonicalJson obj = .ok bytes := by
    simp only [identityBytes, identityDict, bind_eq_ok, pure, Except.pure, Except.ok.injEq] at h
    obtain ⟨_, ⟨trees, -, rfl⟩, obj, hobj, hbytes⟩ := h
    refine ⟨trees, obj, hobj, ?_⟩
    split at hbytes
    · rename_i bytes' hjson
      rw [hjson, Except.ok.inj hbytes]
    · cases hbytes
  have hweights (cfg : BacktestConfig) (trees : Dict String Tree) :
      (Key.str "detector_weights", Tree.map (weightEntries cfg)) ∈
        (identityFields cfg trees).map fun e => (Key.str e.1, e.2) :=
    List.mem_map.mpr ⟨("detector_weights", .map (weightEntries cfg)), by simp [identityFields],
      rfl⟩
  have hentry (cfg : BacktestConfig) (w : PyNumber)
      (hw : (name, w) ∈ (weightDict cfg.detectorWeights).entries) :
      (Key.str name, w.tree) ∈ weightEntries cfg :=
    List.mem_map.mpr ⟨(name, w), hw, rfl⟩
  obtain ⟨trees, obj, hobj, hbytes⟩ := hdict cfg h
  obtain ⟨trees', obj', hobj', hbytes'⟩ := hdict cfg' h'
  obtain ⟨t, ht, -⟩ := canonicalJson_eq_ok.mp hbytes
  have ht' := ((canonicalJson_eq_iff hbytes).mp hbytes').trans ht
  -- down into the dictionary of the weights, and into the weight of the name
  obtain ⟨ws, ws', t, hws, hws', hwt, hwt'⟩ := canonicalTree_map_value hobj hobj' ht ht'
    (identityFields_names _ _) (identityFields_names _ _) (hweights cfg trees)
    (hweights cfg' trees')
  obtain ⟨v, v', j, hv, hv', hj, hj'⟩ := canonicalTree_map_value hws hws' hwt hwt'
    (weightEntries_names _) (weightEntries_names _) (hentry cfg w hw) (hentry cfg' _ hx)
  have hstr : ∃ s, j = .str s := by
    simp only [PyNumber.tree, canonicalizeConfig, bind_eq_ok, pure, Except.pure,
      Except.ok.injEq] at hv'
    obtain ⟨d, -, rfl⟩ := hv'
    exact ⟨decStr d, (Except.ok.inj hj').symm⟩
  obtain ⟨s, rfl⟩ := hstr
  cases w with
  | float y => exact ⟨y, rfl⟩
  | int n =>
    cases hv
    cases hj
  | bool b =>
    cases hv
    cases hj

end BacktestConfig

end FuzzHelm
