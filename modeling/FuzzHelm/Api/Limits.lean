import FuzzHelm.Lib.Characters
import FuzzHelm.Lib.Json
import FuzzHelm.Lib.Layers
import FuzzHelm.Lib.Run
import FuzzHelm.Risk.Config
import FuzzHelm.Storage.Audit

namespace FuzzHelm

open Lib

/-!
# Changing the risk limits

`PUT /risk/limits` keeps two stores in step: the row of the audit log is inserted, the file is
replaced if it still has the hash that was read, and the transaction is committed; when the
commit fails the old text is written back.  Requests run concurrently, and the operations on
the file are atomic.

* `LimitsState.step` — what one request does between two points where others may run;
* `LimitsStep` — the same, as the steps a proof goes through;
* `LimitsSettled` — the replaces that still stand lie on one another, and the file is the last;
* `limits_audited` — when no request restores a text over the replace of another, the file is
  always the last audited change;
* `restored_change_lost` — and otherwise an audited change may disappear.
-/

/-- A text, as `read_text` gives it. -/
abbrev Text := List Char

/-! ### The file of limits -/

/-- `ConfigValidationError`: the path of the file and the errors of its fields. -/
structure ConfigValidationError where
  path : String
  detail : String
  deriving DecidableEq, Repr

/-- `LimitsConflictError`: the file has changed since it was read. -/
structure LimitsConflictError where
  expected : String
  actual : String
  deriving DecidableEq, Repr

/-- The text that the request is answered with. -/
def LimitsConflictError.message (e : LimitsConflictError) : String :=
  "risk limits changed concurrently (expected " ++ String.ofList (e.expected.toList.take 12) ++
    "…, got " ++ String.ofList (e.actual.toList.take 12) ++ "…)"

/-- `LimitsSnapshot`: the text of the file, its digest and what it says. -/
structure LimitsSnapshot where
  text : Text
  sha256 : String
  config : RiskConfig

/-- What other libraries do with a text: the YAML reader and writer, the schema, the hash. -/
structure LimitsFormat where
  parseYamlText : Text → Except ConfigValidationError Json
  modelValidate : Json → Except ConfigValidationError RiskConfig
  safeDump : RiskConfig → Text
  sha256Text : Text → String

/-- `splitlines(keepends=True)`, after the beginning `line` of the first line. -/
def splitlinesFrom (line : Text) : Text → List Text
  | [] => if line = [] then [] else [line]
  | '\r' :: '\n' :: cs => (line ++ ['\r', '\n']) :: splitlinesFrom [] cs
  | c :: cs =>
    if isLineBreak c then (line ++ [c]) :: splitlinesFrom [] cs
    else splitlinesFrom (line ++ [c]) cs

/-- `leading_comments`: the lines before the first that is neither a comment nor blank. -/
def leadingComments (text : Text) : Text :=
  ((splitlinesFrom [] text).takeWhile fun line =>
    line.head? = some '#' || line.all isSpace).flatten

namespace LimitsFormat

variable (F : LimitsFormat)

/-- `render_limits_yaml`: the header and then every field of the configuration, in a fixed order. -/
def renderLimitsYaml (cfg : RiskConfig) (header : Text) : Text :=
  (if header.getLast? = some '\n' ∨ header = [] then header else header ++ ['\n']) ++
    F.safeDump cfg

/-- `load_risk_config` of a text. -/
def loadRiskConfig (text : Text) : Except ConfigValidationError RiskConfig :=
  F.parseYamlText text >>= F.modelValidate

/-- `FileLimitsStore.read`: the text is kept with its digest, and must be a valid configuration. -/
def read (file : Text) : Except ConfigValidationError LimitsSnapshot := do
  let config ← F.loadRiskConfig file
  return ⟨file, F.sha256Text file, config⟩

/-- What `FileLimitsStore.replace` raises. -/
inductive ReplaceError where
  | invalid (e : ConfigValidationError)
  | conflict (e : LimitsConflictError)

/-- `FileLimitsStore.replace`: the snapshot, whose text is now in the file. -/
def replace (file newText : Text) (expectedSha256 : Option String) :
    Except ReplaceError LimitsSnapshot :=
  match F.loadRiskConfig newText with
  | .error e => .error (.invalid e)
  | .ok cfg =>
    let current := F.sha256Text file
    match expectedSha256 with
    | none => .ok ⟨newText, F.sha256Text newText, cfg⟩
    | some expected =>
      if expected ≠ current then .error (.conflict ⟨expected, current⟩)
      else .ok ⟨newText, F.sha256Text newText, cfg⟩

end LimitsFormat

/-! ### The request -/

/-- `RiskLimitsIn`: the body of the request, whose version is optional. -/
structure RiskLimitsIn where
  limits : Json
  stateMachine : Json
  sizing : Option Json
  hysteresis : Option Json
  expectedSha256 : Option String

/-- The tree that is validated: the sections that the body has. -/
def RiskLimitsIn.tree (body : RiskLimitsIn) : Json :=
  .obj ([("limits", body.limits), ("state_machine", body.stateMachine)] ++
    (body.sizing.toList.map fun j => ("sizing", j)) ++
    (body.hysteresis.toList.map fun j => ("hysteresis", j)))

/-- Who sends the request. -/
structure Principal where
  uid : Option ℤ
  ip : Option String

/-- What the handler answers; `raised` is an exception that it lets through. -/
inductive PutLimitsAnswer where
  | unprocessable (e : ConfigValidationError)
  | conflict (detail : String)
  | raised
  | changed (sha256 : String) (auditId : ℤ) (config : RiskConfig)

/-- The locals of a request that has read the file. -/
structure PutLimits where
  principal : Principal
  old : LimitsSnapshot
  newCfg : RiskConfig
  newText : Text

/-- What a change of limits leaves in the log after it, besides the list of changed paths. -/
structure LimitsAfter where
  config : RiskConfig
  sha256Before : String

/-- The row of `audit_log` for a change of the limits. -/
abbrev LimitsRow := AuditRow RiskConfig LimitsAfter

/-- The action of such a row. -/
def LIMITS_ACTION : String := "risk.limits.update"

/-- The target of such a row. -/
def LIMITS_TARGET : String := "config/risk_limits.yaml"

/-- The handler up to its first wait: the body is validated and the file read. -/
def PutLimits.begin (F : LimitsFormat) (file : Text) (principal : Principal)
    (body : RiskLimitsIn) : Except PutLimitsAnswer PutLimits :=
  match F.modelValidate body.tree with
  | .error e => .error (.unprocessable e)
  | .ok newCfg =>
    match F.read file with
    | .error _ => .error .raised
    | .ok old =>
      if body.expectedSha256.any (· ≠ old.sha256) then
        .error (.conflict "risk limits changed since they were read")
      else .ok ⟨principal, old, newCfg, F.renderLimitsYaml newCfg (leadingComments old.text)⟩

/-- The row that the handler inserts. -/
def PutLimits.row (v : PutLimits) (id : ℤ) : LimitsRow where
  id := id
  userId := v.principal.uid
  action := LIMITS_ACTION
  target := LIMITS_TARGET
  before := v.old.config
  after := ⟨v.newCfg, v.old.sha256⟩
  ip := v.principal.ip

/-- Where a request is: its transaction is open in `inserted` and `replaced`, and rolled back
    in `failing`, where the file is still to be restored. -/
inductive PutPhase where
  | began (v : PutLimits)
  | inserted (v : PutLimits) (row : LimitsRow)
  | replaced (v : PutLimits) (row : LimitsRow)
  | failing (v : PutLimits)
  | done

/-! ### Concurrent requests -/

/-- A replace that was made: its request, the text it was computed from and the new text. -/
structure Replaced extends Layer Text where
  request : ℕ

/-- The file, the audit log and the requests, in the order in which they came; a request is
    known by its place, and so is its transaction.  `replaces` lists the successful ones. -/
structure LimitsState where
  file : Text
  nextAuditId : ℤ
  audit : List (ℕ × LimitsRow)
  requests : List PutPhase
  replaces : List Replaced

/-- What a request does next. -/
inductive LimitsAction where
  | put (principal : Principal) (body : RiskLimitsIn)
  | insert (i : ℕ)
  | replace (i : ℕ)
  | commit (i : ℕ)
  | fail (i : ℕ)
  | restore (i : ℕ)

namespace LimitsState

variable (F : LimitsFormat)

/-- Before any request: a text, an empty log and no requests. -/
def init (text : Text) (nextAuditId : ℤ) : LimitsState := ⟨text, nextAuditId, [], [], []⟩

/-- Request `i` goes on to `ph`. -/
def goto (s : LimitsState) (i : ℕ) (ph : PutPhase) : LimitsState :=
  { s with requests := s.requests.set i ph }

/-- One action of one request, with the answer that it sends. -/
def step (s : LimitsState) : LimitsAction →
    Except NotNext (Option PutLimitsAnswer × LimitsState)
  | .put principal body =>
    match PutLimits.begin F s.file principal body with
    | .error answer => .ok (some answer, { s with requests := s.requests ++ [.done] })
    | .ok v => .ok (none, { s with requests := s.requests ++ [.began v] })
  | .insert i =>
    match s.requests[i]? with
    | some (.began v) =>
      .ok (none, { s.goto i (.inserted v (v.row s.nextAuditId)) with
        nextAuditId := s.nextAuditId + 1 })
    | _ => .error .notNext
  | .replace i =>
    match s.requests[i]? with
    | some (.inserted v row) =>
      match F.replace s.file v.newText (some v.old.sha256) with
      | .error (.conflict e) => .ok (some (.conflict e.message), s.goto i .done)
      | .error (.invalid _) => .ok (some .raised, s.goto i .done)
      | .ok snap =>
        .ok (none, { s.goto i (.replaced v row) with
          file := snap.text
          replaces := s.replaces ++ [⟨⟨v.old.text, snap.text⟩, i⟩] })
    | _ => .error .notNext
  | .commit i =>
    match s.requests[i]? with
    | some (.replaced v row) =>
      .ok (some (.changed (F.sha256Text v.newText) row.id v.newCfg),
        { s.goto i .done with audit := s.audit ++ [(i, row)] })
    | _ => .error .notNext
  | .fail i =>
    match s.requests[i]? with
    | some (.began _) | some (.inserted _ _) => .ok (some .raised, s.goto i .done)
    -- written: the file is restored after the transaction is rolled back
    | some (.replaced v _) => .ok (none, s.goto i (.failing v))
    | _ => .error .notNext
  | .restore i =>
    match s.requests[i]? with
    | some (.failing v) => .ok (some .raised, { s.goto i .done with file := v.old.text })
    | _ => .error .notNext

/-- The audit row of the replace is committed. -/
def committed (s : LimitsState) (w : Replaced) : Bool := s.audit.any fun r => r.1 = w.request

/-- The replace is audited, or its request may still commit or is still to undo it. -/
def stands (s : LimitsState) (w : Replaced) : Bool :=
  s.committed w ||
    match s.requests[w.request]? with
    | some (.replaced _ _) | some (.failing _) => true
    | _ => false

/-- Whether a request is done can be computed. -/
instance (ph : PutPhase) : Decidable (ph = .done) :=
  match ph with
  | .done => isTrue rfl
  | .began _ | .inserted _ _ | .replaced _ _ | .failing _ => isFalse (by simp)

/-- No request is in progress. -/
def quiet (s : LimitsState) : Prop := ∀ ph ∈ s.requests, ph = .done

/-- Whether no request is under way can be computed. -/
instance (s : LimitsState) : Decidable s.quiet :=
  inferInstanceAs (Decidable (∀ ph ∈ s.requests, ph = .done))

/-- The text of the last successful replace whose audit transaction committed, or the initial
    text. -/
def lastAudited (s : LimitsState) (text : Text) : Text :=
  ((s.replaces.filter s.committed).getLast?.map fun w => w.after).getD text

/-- The replaces that are audited or not yet given up, in order. -/
def standing (s : LimitsState) : List Replaced := s.replaces.filter s.stands

/-- An action that restores a text finds its own replace the last that stands: no other request
    has replaced the file since, unless it has itself restored it. -/
def restoresOwn (s : LimitsState) : LimitsAction → Prop
  | .restore i => s.standing.getLast?.map Replaced.request = some i
  | _ => True

/-- Whether a request restores its own text can be computed. -/
instance (s : LimitsState) (a : LimitsAction) : Decidable (s.restoresOwn a) := by
  unfold restoresOwn
  split <;> infer_instance

end LimitsState

/-- The log of a run: each action with what it answered. -/
abbrev LimitsLog := List (Entry LimitsState LimitsAction (Option PutLimitsAnswer))

/-- Requests one action after another. -/
abbrev LimitsRun (F : LimitsFormat) :=
  Run fun (s : LimitsState) a (o : Option PutLimitsAnswer) s' => s.step F a = .ok (o, s')

/-- No two of the texts that the file had in a run have the same hash. -/
def NoCollision (F : LimitsFormat) (log : LimitsLog) : Prop :=
  ∀ e ∈ log, ∀ e' ∈ log, F.sha256Text e.before.file = F.sha256Text e'.before.file →
    e.before.file = e'.before.file

/-! ### What a step does -/

/-- The locals of a request that is not yet answered. -/
def PutPhase.locals? : PutPhase → Option PutLimits
  | .began v | .inserted v _ | .replaced v _ | .failing v => some v
  | .done => none

/-- The request has not replaced the file. -/
def PutPhase.clean : PutPhase → Bool
  | .began _ | .inserted _ _ => true
  | _ => false

/-- A request begins with the text that the file has, and its digest. -/
theorem begin_old {F : LimitsFormat} {file : Text} {p : Principal} {b : RiskLimitsIn}
    {v : PutLimits} (h : PutLimits.begin F file p b = .ok v) :
    v.old.text = file ∧ v.old.sha256 = F.sha256Text file := by
  unfold PutLimits.begin at h
  cases hcfg : F.modelValidate b.tree with
  | error e => simp [hcfg] at h
  | ok newCfg =>
    cases hread : F.read file with
    | error e => simp [hcfg, hread] at h
    | ok old =>
      have hold : old.text = file ∧ old.sha256 = F.sha256Text file := by
        obtain ⟨config, -, hsnap⟩ := bind_eq_ok.mp hread
        cases hsnap
        exact ⟨rfl, rfl⟩
      simp only [hcfg, hread] at h
      split at h
      · cases h
      · cases h
        exact hold

/-- `replace` succeeds only on the text it was meant for, and then answers the new one. -/
theorem replace_ok {F : LimitsFormat} {file newText : Text} {expected : String}
    {snap : LimitsSnapshot} (h : F.replace file newText (some expected) = .ok snap) :
    expected = F.sha256Text file ∧ snap.text = newText := by
  unfold LimitsFormat.replace at h
  split at h
  · cases h
  · simp only at h
    split at h
    · cases h
    · rename_i heq
      cases h
      exact ⟨not_not.mp heq, rfl⟩

/-- The steps of a request, as far as the file and the order of the replaces depend on them. -/
inductive LimitsStep (F : LimitsFormat) (s : LimitsState) : LimitsAction → LimitsState → Prop
  | arrives {p b ph} : (∀ v, ph.locals? = some v →
      v.old.text = s.file ∧ v.old.sha256 = F.sha256Text s.file) →
      LimitsStep F s (.put p b) { s with requests := s.requests ++ [ph] }
  | moves {i a ph ph' n} : s.requests[i]? = some ph → ph.clean →
      (∀ v, ph'.locals? = some v → ph.locals? = some v) →
      LimitsStep F s a { s.goto i ph' with nextAuditId := n }
  | replaces {i v row} : s.requests[i]? = some (.inserted v row) →
      v.old.sha256 = F.sha256Text s.file →
      LimitsStep F s (.replace i) { s.goto i (.replaced v row) with
        file := v.newText
        replaces := s.replaces ++ [⟨⟨v.old.text, v.newText⟩, i⟩] }
  | commits {i v row} : s.requests[i]? = some (.replaced v row) →
      LimitsStep F s (.commit i) { s.goto i .done with audit := s.audit ++ [(i, row)] }
  | rollsBack {i v row} : s.requests[i]? = some (.replaced v row) →
      LimitsStep F s (.fail i) (s.goto i (.failing v))
  | restores {i v} : s.requests[i]? = some (.failing v) →
      LimitsStep F s (.restore i) { s.goto i .done with file := v.old.text }

/-- The step that is computed is one of the steps of the system. -/
theorem LimitsState.step_limitsStep {F : LimitsFormat} {s s' : LimitsState} {a : LimitsAction}
    {o : Option PutLimitsAnswer} (h : s.step F a = .ok (o, s')) : LimitsStep F s a s' := by
  cases a with
  | put p b =>
    simp only [step] at h
    split at h
    · cases h
      exact .arrives (by simp [PutPhase.locals?])
    · rename_i v hv
      cases h
      apply LimitsStep.arrives
      rintro _ ⟨⟩
      exact begin_old hv
  | insert i =>
    simp only [step] at h
    split at h
    · rename_i v hi
      cases h
      exact .moves hi rfl (by simp [PutPhase.locals?])
    · cases h
  | replace i =>
    simp only [step] at h
    split at h
    · rename_i v row hi
      split at h
      · cases h
        exact .moves hi rfl (by simp [PutPhase.locals?])
      · cases h
        exact .moves hi rfl (by simp [PutPhase.locals?])
      · rename_i snap hsnap
        obtain ⟨hhash, htext⟩ := replace_ok hsnap
        cases h
        rw [htext]
        exact .replaces hi hhash
    · cases h
  | commit i =>
    simp only [step] at h
    split at h
    · rename_i v row hi
      cases h
      exact .commits hi
    · cases h
  | fail i =>
    simp only [step] at h
    -- before the commit nothing was replaced, and the error ends the request
    split at h
    · rename_i v hi
      cases h
      exact .moves hi rfl (by simp [PutPhase.locals?])
    · rename_i v row hi
      cases h
      exact .moves hi rfl (by simp [PutPhase.locals?])
    · rename_i v row hi
      cases h
      exact .rollsBack hi
    · cases h
  | restore i =>
    simp only [step] at h
    split at h
    · rename_i v hi
      cases h
      exact .restores hi
    · cases h

/-! ### The replaces lie on one another -/

/-- The replace `w` is the one that a request in this phase has made. -/
def PutPhase.Wrote (w : Replaced) : PutPhase → Prop
  | .replaced v _ | .failing v => w.before = v.old.text
  | .done => True
  | _ => False

/-- **Invariant.** The replaces that stand are laid one on another over the initial text, and
    the file is what they show. -/
structure LimitsSettled (F : LimitsFormat) (text : Text) (s : LimitsState) (log : LimitsLog) :
    Prop where
  /-- what a request has read was in the file -/
  read : ∀ ph ∈ s.requests, ∀ v, ph.locals? = some v →
    v.old.sha256 = F.sha256Text v.old.text ∧ ∃ e ∈ log, e.before.file = v.old.text
  /-- a replace is known to its request -/
  wrote : ∀ w ∈ s.replaces, ∃ ph, s.requests[w.request]? = some ph ∧ ph.Wrote w
  once : (s.replaces.map Replaced.request).Nodup
  audited : ∀ r ∈ s.audit, s.requests[r.1]? = some .done
  laid : Laid text (s.standing.map Replaced.toLayer)
  top : s.file = shown text (s.standing.map Replaced.toLayer)

namespace LimitsState

variable {F : LimitsFormat} {text : Text} {s s' : LimitsState} {log : LimitsLog}
  {i : ℕ} {ph ph' : PutPhase}

/-- After a request has moved, it is at its new phase and the others are where they were. -/
theorem getElem?_goto (hi : s.requests[i]? = some ph) (j : ℕ) :
    (s.goto i ph').requests[j]? = if j = i then some ph' else s.requests[j]? := by
  have hlt : i < s.requests.length := (List.getElem?_eq_some_iff.mp hi).1
  simp only [goto]
  rw [List.getElem?_set]
  by_cases hj : i = j
  · subst hj
    simp [hlt]
  · rw [if_neg hj, if_neg (Ne.symm hj)]

/-- Whether a replacement stands depends on the log and on its own request alone. -/
theorem stands_congr {w : Replaced} (haudit : s'.committed w = s.committed w)
    (hreq : s'.requests[w.request]? = s.requests[w.request]?) : s'.stands w = s.stands w := by
  unfold stands
  rw [haudit, hreq]

/-- When each replacement stands as before, so do all together. -/
theorem standing_congr (hr : s'.replaces = s.replaces)
    (h : ∀ w ∈ s.replaces, s'.stands w = s.stands w) : s'.standing = s.standing := by
  unfold standing
  rw [hr]
  exact List.filter_congr h

/-- A request that is not yet done has no audit row. -/
theorem not_committed (hS : LimitsSettled F text s log) {w : Replaced}
    (hw : s.requests[w.request]? = some ph) (hph : ph ≠ .done) : s.committed w = false := by
  rw [committed, List.any_eq_false]
  intro r hr heq
  have hdone : s.requests[r.1]? = some .done := hS.audited r hr
  rw [of_decide_eq_true heq, hw] at hdone
  exact hph (Option.some.inj hdone)

/-- What was read and what is known of the replaces, when request `i` goes on. -/
theorem read_goto (hS : LimitsSettled F text s log) {e : Entry LimitsState LimitsAction _}
    (hi : s.requests[i]? = some ph)
    (hloc : ∀ v, ph'.locals? = some v → ph.locals? = some v) :
    ∀ ph₁ ∈ (s.goto i ph').requests, ∀ v, ph₁.locals? = some v →
      v.old.sha256 = F.sha256Text v.old.text ∧
        ∃ e' ∈ log ++ [e], e'.before.file = v.old.text := by
  intro ph₁ hmem v hv
  have hread : ∃ ph₂ ∈ s.requests, ph₂.locals? = some v := by
    rcases List.mem_or_eq_of_mem_set hmem with hmem | rfl
    · exact ⟨ph₁, hmem, hv⟩
    · exact ⟨ph, List.mem_of_getElem? hi, hloc v hv⟩
  obtain ⟨ph₂, hmem₂, hv₂⟩ := hread
  obtain ⟨hhash, e', he', hfile⟩ := hS.read ph₂ hmem₂ v hv₂
  exact ⟨hhash, e', List.mem_append_left _ he', hfile⟩

/-- A request that has moved on still has written what it wrote. -/
theorem wrote_goto (hS : LimitsSettled F text s log) (hi : s.requests[i]? = some ph)
    (hw : ∀ w : Replaced, w.request = i → ph.Wrote w → ph'.Wrote w) :
    ∀ w ∈ s.replaces, ∃ ph₁, (s.goto i ph').requests[w.request]? = some ph₁ ∧ ph₁.Wrote w := by
  intro w hmem
  obtain ⟨ph₁, hph₁, hwrote⟩ := hS.wrote w hmem
  rw [getElem?_goto hi]
  by_cases hreq : w.request = i
  · rw [hreq, hi] at hph₁
    obtain rfl := Option.some.inj hph₁
    rw [if_pos hreq]
    exact ⟨ph', rfl, hw w hreq hwrote⟩
  · rw [if_neg hreq]
    exact ⟨ph₁, hph₁, hwrote⟩

/-- A request whose row is in the log is done, and stays so. -/
theorem audited_goto (hS : LimitsSettled F text s log) (hi : s.requests[i]? = some ph)
    (hph : ph ≠ .done) : ∀ r ∈ s.audit, (s.goto i ph').requests[r.1]? = some .done := by
  intro r hr
  have hdone := hS.audited r hr
  have hne : r.1 ≠ i := by
    rintro rfl
    rw [hi] at hdone
    exact hph (Option.some.inj hdone)
  rw [getElem?_goto hi, if_neg hne]
  exact hdone

/-- A clean request has made no replace. -/
theorem request_ne (hS : LimitsSettled F text s log) (hi : s.requests[i]? = some ph)
    (hph : ph.clean) {w : Replaced} (hw : w ∈ s.replaces) : w.request ≠ i := by
  rintro rfl
  obtain ⟨ph₁, hph₁, hwrote⟩ := hS.wrote w hw
  rw [hi] at hph₁
  obtain rfl := Option.some.inj hph₁
  cases ph with
  | began v => exact hwrote
  | inserted v row => exact hwrote
  | replaced v row => cases hph
  | failing v => cases hph
  | done => cases hph

end LimitsState

namespace LimitsSettled

open LimitsState

variable {F : LimitsFormat} {text : Text} {s s' : LimitsState} {log : LimitsLog}
  {i : ℕ} {ph ph' : PutPhase} {v : PutLimits} {row : LimitsRow}
  {o : Option PutLimitsAnswer} {a : LimitsAction}

/-- Before any request nothing has been written. -/
theorem init (F : LimitsFormat) (text : Text) (n : ℤ) : LimitsSettled F text (.init text n) [] where
  read := by simp [LimitsState.init]
  wrote := by simp [LimitsState.init]
  once := List.nodup_nil
  audited := by simp [LimitsState.init]
  laid := trivial
  top := rfl

/-- **A request arrives**: it may hold the text of the file, and nothing else changes. -/
theorem arrives (hS : LimitsSettled F text s log)
    (hloc : ∀ v, ph.locals? = some v →
      v.old.text = s.file ∧ v.old.sha256 = F.sha256Text s.file) :
    LimitsSettled F text { s with requests := s.requests ++ [ph] } (log ++ [⟨s, a, o, s'⟩]) := by
  have hold {j : ℕ} {ph₁ : PutPhase} (h : s.requests[j]? = some ph₁) :
      (s.requests ++ [ph])[j]? = some ph₁ := by
    rw [List.getElem?_append_left (List.getElem?_eq_some_iff.mp h).1, h]
  -- a request that only arrives changes no layer
  have hstanding : LimitsState.standing { s with requests := s.requests ++ [ph] } =
      s.standing := by
    refine standing_congr (by rfl) fun w hw => ?_
    obtain ⟨ph₁, hph₁, -⟩ := hS.wrote w hw
    refine stands_congr (by rfl) ?_
    rw [hph₁]
    exact hold hph₁
  refine ⟨?_, ?_, hS.once, fun r hr => hold (hS.audited r hr), ?_, ?_⟩
  -- what it has read is the text of this moment
  · intro ph₁ hmem v hv
    rcases List.mem_append.mp hmem with hmem | hmem
    · obtain ⟨hhash, e, he, hfile⟩ := hS.read ph₁ hmem v hv
      exact ⟨hhash, e, List.mem_append_left _ he, hfile⟩
    · rw [List.mem_singleton.mp hmem] at hv
      obtain ⟨htext, hhash⟩ := hloc v hv
      rw [htext]
      exact ⟨hhash, ⟨s, a, o, s'⟩, by simp, rfl⟩
  · intro w hw
    obtain ⟨ph₁, hph₁, hwrote⟩ := hS.wrote w hw
    exact ⟨ph₁, hold hph₁, hwrote⟩
  · rw [hstanding]
    exact hS.laid
  · rw [hstanding]
    exact hS.top

/-- **A request moves on** without touching the file or the log. -/
theorem moves {n : ℤ} (hS : LimitsSettled F text s log) (hi : s.requests[i]? = some ph)
    (hph : ph.clean) (hloc : ∀ v, ph'.locals? = some v → ph.locals? = some v) :
    LimitsSettled F text { s.goto i ph' with nextAuditId := n } (log ++ [⟨s, a, o, s'⟩]) := by
  have hne {w : Replaced} (hw : w ∈ s.replaces) : w.request ≠ i := request_ne hS hi hph hw
  have hstanding : LimitsState.standing { s.goto i ph' with nextAuditId := n } =
      s.standing := by
    refine standing_congr (by rfl) fun w hw => ?_
    refine stands_congr (by rfl) ?_
    exact (getElem?_goto hi w.request).trans (if_neg (hne hw))
  refine ⟨read_goto hS hi hloc, ?_, hS.once, audited_goto hS hi ?_, ?_, ?_⟩
  · intro w hw
    obtain ⟨ph₁, hph₁, hwrote⟩ := hS.wrote w hw
    refine ⟨ph₁, ?_, hwrote⟩
    exact (getElem?_goto hi w.request).trans ((if_neg (hne hw)).trans hph₁)
  · rintro rfl
    cases hph
  · rw [hstanding]
    exact hS.laid
  · rw [hstanding]
    exact hS.top

/-- The new replace covers the text that the file has: its hash is the one that was read. -/
theorem replaces (hS : LimitsSettled F text s log)
    (hcol : NoCollision F (log ++ [⟨s, a, o, s'⟩]))
    (hi : s.requests[i]? = some (.inserted v row)) (hhash : v.old.sha256 = F.sha256Text s.file) :
    LimitsSettled F text { s.goto i (.replaced v row) with
      file := v.newText
      replaces := s.replaces ++ [⟨⟨v.old.text, v.newText⟩, i⟩] } (log ++ [⟨s, a, o, s'⟩]) := by
  have hne {w : Replaced} (hw : w ∈ s.replaces) : w.request ≠ i := request_ne hS hi rfl hw
  -- the digests are those of texts of the log, so the text that is covered is the one on top
  have hcovers : v.old.text = s.file := by
    obtain ⟨hread, e, he, hfile⟩ := hS.read _ (List.mem_of_getElem? hi) v rfl
    rw [← hfile]
    apply hcol e (List.mem_append_left _ he) ⟨s, a, o, s'⟩ (by simp)
    rw [hfile, ← hread, hhash]
  have hstanding : LimitsState.standing { s.goto i (.replaced v row) with
      file := v.newText
      replaces := s.replaces ++ [⟨⟨v.old.text, v.newText⟩, i⟩] } =
      s.standing ++ [⟨⟨v.old.text, v.newText⟩, i⟩] := by
    unfold LimitsState.standing
    rw [List.filter_append]
    congr 1
    · apply List.filter_congr
      intro w hw
      refine stands_congr (by rfl) ?_
      exact (getElem?_goto hi w.request).trans (if_neg (hne hw))
    · apply List.filter_eq_self.mpr
      intro w hw
      rw [List.mem_singleton.mp hw, stands]
      rw [show (s.goto i (.replaced v row)).requests[i]? = some (.replaced v row) from
        (getElem?_goto hi i).trans (if_pos rfl)]
      simp
  refine ⟨read_goto hS hi fun _ h => h, ?_, ?_, audited_goto hS hi (by simp), ?_, ?_⟩
  · intro w hw
    rcases List.mem_append.mp hw with hw | hw
    · exact wrote_goto hS hi (fun w _ h => h.elim) w hw
    · rw [List.mem_singleton.mp hw]
      exact ⟨.replaced v row, (getElem?_goto hi i).trans (if_pos rfl), rfl⟩
  -- no request replaces twice
  · rw [List.map_append, List.nodup_append]
    refine ⟨hS.once, List.nodup_singleton _, ?_⟩
    intro j hj k hk
    obtain ⟨w, hw, rfl⟩ := List.mem_map.mp hj
    rw [List.mem_singleton.mp hk]
    exact hne hw
  · rw [hstanding, List.map_append]
    exact laid_concat.mpr ⟨hS.laid, hcovers.trans hS.top⟩
  · rw [hstanding, List.map_append]
    exact (shown_concat _ (s.standing.map Replaced.toLayer) ⟨v.old.text, v.newText⟩).symm

/-- The audit row of a request is committed: its replace goes on standing. -/
theorem commits (hS : LimitsSettled F text s log) (hi : s.requests[i]? = some (.replaced v row)) :
    LimitsSettled F text { s.goto i .done with audit := s.audit ++ [(i, row)] }
      (log ++ [⟨s, a, o, s'⟩]) := by
  -- the layer of the request stands on, now because its audit row is committed
  have hstanding : LimitsState.standing { s.goto i .done with audit := s.audit ++ [(i, row)] } =
      s.standing := by
    refine standing_congr (by rfl) fun w hw => ?_
    by_cases hreq : w.request = i
    · have hafter : LimitsState.committed
          { s.goto i .done with audit := s.audit ++ [(i, row)] } w = true := by
        simp [committed, hreq]
      simp [stands, hafter, hreq, hi]
    · apply stands_congr
      · simp [committed, Ne.symm hreq]
      · exact (getElem?_goto hi w.request).trans (if_neg hreq)
  refine ⟨read_goto hS hi (by simp [PutPhase.locals?]), wrote_goto hS hi (fun _ _ _ => trivial),
    hS.once, ?_, ?_, ?_⟩
  · intro r hr
    rcases List.mem_append.mp hr with hr | hr
    · exact audited_goto hS hi (by simp) r hr
    · rw [List.mem_singleton.mp hr]
      exact (getElem?_goto hi i).trans (if_pos rfl)
  · rw [hstanding]
    exact hS.laid
  · rw [hstanding]
    exact hS.top

/-- **The transaction fails**: the row of the request is taken back, and the text is still its own.
    -/
theorem rollsBack (hS : LimitsSettled F text s log) (hi : s.requests[i]? = some (.replaced v row)) :
    LimitsSettled F text (s.goto i (.failing v)) (log ++ [⟨s, a, o, s'⟩]) := by
  have hstanding : (s.goto i (.failing v)).standing = s.standing := by
    refine standing_congr (by rfl) fun w hw => ?_
    by_cases hreq : w.request = i
    · have hbefore := not_committed hS (hreq ▸ hi) (by simp)
      have hafter : (s.goto i (.failing v)).committed w = s.committed w := rfl
      rw [stands, stands, hafter, hreq, hi, getElem?_goto hi, if_pos rfl]
    · refine stands_congr (by rfl) ?_
      exact (getElem?_goto hi w.request).trans (if_neg hreq)
  refine ⟨read_goto hS hi fun _ h => h, wrote_goto hS hi (fun _ _ h => h), hS.once,
    audited_goto hS hi (by simp), ?_, ?_⟩
  · rw [hstanding]
    exact hS.laid
  · rw [hstanding]
    exact hS.top

/-- Restoring the text under the top layer takes that layer off. -/
theorem restores (hS : LimitsSettled F text s log) (hi : s.requests[i]? = some (.failing v))
    (hown : s.restoresOwn (.restore i)) :
    LimitsSettled F text { s.goto i .done with file := v.old.text } (log ++ [⟨s, a, o, s'⟩]) := by
  obtain ⟨w, hlast, hreq⟩ := Option.map_eq_some_iff.mp hown
  obtain ⟨under, hsplit⟩ := List.getLast?_eq_some_iff.mp hlast
  have hbefore : w.before = v.old.text := by
    have hmem : w ∈ s.replaces := by
      apply List.mem_of_mem_filter (p := s.stands)
      show w ∈ s.standing
      rw [hsplit]
      simp
    obtain ⟨ph₁, hph₁, hwrote⟩ := hS.wrote w hmem
    rw [hreq, hi] at hph₁
    obtain rfl := Option.some.inj hph₁
    exact hwrote
  -- with its layer gone the others stand, because the layer had no audit row
  have hfilter : LimitsState.standing { s.goto i .done with file := v.old.text } =
      s.standing.filter fun w' => w'.request ≠ i := by
    unfold LimitsState.standing
    rw [List.filter_filter]
    apply List.filter_congr
    intro w' hw'
    by_cases hreq' : w'.request = i
    · have hnot : s.committed w' = false := not_committed hS (hreq' ▸ hi) (by simp)
      have hgone : LimitsState.stands { s.goto i .done with file := v.old.text } w' = false := by
        rw [stands, show LimitsState.committed
          { s.goto i .done with file := v.old.text } w' = s.committed w' from rfl, hnot, hreq',
          show (s.goto i .done).requests[i]? = some .done from
            (getElem?_goto hi i).trans (if_pos rfl)]
        rfl
      simp [hgone, hreq']
    · have hsame : LimitsState.stands { s.goto i .done with file := v.old.text } w' =
          s.stands w' :=
        stands_congr (by rfl) ((getElem?_goto hi w'.request).trans (if_neg hreq'))
      simp [hsame, hreq']
  -- a request has one layer only, so that just the topmost one leaves
  have hstanding : LimitsState.standing { s.goto i .done with file := v.old.text } = under := by
    have honce : ((under ++ [w]).map Replaced.request).Nodup := by
      rw [← hsplit]
      exact hS.once.sublist (List.filter_sublist.map _)
    rw [List.map_append, List.nodup_append] at honce
    rw [hfilter, hsplit, List.filter_append]
    have hunder : under.filter (fun w' => decide (w'.request ≠ i)) = under := by
      apply List.filter_eq_self.mpr
      intro w' hw'
      have hne := honce.2.2 w'.request (List.mem_map_of_mem hw') w.request (by simp)
      rw [hreq] at hne
      exact decide_eq_true hne
    rw [hunder]
    simp [hreq]
  have hlaid : Laid text (under.map Replaced.toLayer) ∧
      w.before = shown text (under.map Replaced.toLayer) := by
    have h := hS.laid
    rw [hsplit, List.map_append] at h
    exact laid_concat.mp h
  refine ⟨read_goto hS hi (by simp [PutPhase.locals?]), wrote_goto hS hi (fun _ _ _ => trivial),
    hS.once, audited_goto hS hi (by simp), ?_, ?_⟩
  · rw [hstanding]
    exact hlaid.1
  · rw [hstanding]
    exact hbefore.symm.trans hlaid.2

end LimitsSettled

/-! ### The law -/

/-- **Run lemma**: where every restore finds its own text, the file is what the log says after every
    step. -/
theorem LimitsState.settled {F : LimitsFormat} {text : Text} {n : ℤ} {s : LimitsState}
    {log : LimitsLog} (h : LimitsRun F (.init text n) s log) (hcol : NoCollision F log)
    (hown : ∀ e ∈ log, e.before.restoresOwn e.call) : LimitsSettled F text s log := by
  refine Run.invariant (fun s log => NoCollision F log →
    (∀ e ∈ log, e.before.restoresOwn e.call) → LimitsSettled F text s log)
    (fun _ _ => LimitsSettled.init F text n) ?_ h hcol hown
  intro s log a o s' ih hstep hcol hown
  have hS : LimitsSettled F text s log := by
    apply ih
    · exact fun e he e' he' => hcol e (List.mem_append_left _ he) e' (List.mem_append_left _ he')
    · exact fun e he => hown e (List.mem_append_left _ he)
  cases LimitsState.step_limitsStep hstep with
  | arrives hloc => exact hS.arrives hloc
  | moves hi hph hloc => exact hS.moves hi hph hloc
  | replaces hi hhash => exact hS.replaces hcol hi hhash
  | commits hi => exact hS.commits hi
  | rollsBack hi => exact hS.rollsBack hi
  | restores hi =>
    exact hS.restores hi (hown _ (List.mem_append_right _ (List.mem_singleton_self _)))

/-- When every request is answered, the replaces that stand are the audited ones. -/
theorem LimitsState.standing_of_quiet {s : LimitsState} (hq : s.quiet) :
    s.standing = s.replaces.filter s.committed := by
  apply List.filter_congr
  intro w _
  unfold stands
  cases hi : s.requests[w.request]? with
  | none => simp
  | some ph =>
    rw [hq ph (List.mem_of_getElem? hi)]
    simp

/-- **No change of limits is lost or left unaudited** where every restore finds its own replace
    the last that stands: when no request is in progress, the file is the last audited text. -/
theorem limits_audited {F : LimitsFormat} {text : Text} {n : ℤ} {s : LimitsState}
    {log : LimitsLog} (h : LimitsRun F (.init text n) s log) (hcol : NoCollision F log)
    (hown : ∀ e ∈ log, e.before.restoresOwn e.call) (hq : s.quiet) :
    s.file = s.lastAudited text := by
  have hS := LimitsState.settled h hcol hown
  rw [hS.top, LimitsState.standing_of_quiet hq, LimitsState.lastAudited, shown,
    List.getLast?_map, Option.map_map]
  rfl

/-! ### The file of the defaults -/

/-- What `yaml.safe_dump` writes of the defaults, up to the dwell of the state `WARNING`. -/
def dumpHead : Text :=
  "limits:\n".toList ++
    ["  max_position_notional:", "    value: 0.3", "    unit: equity_fraction",
      "    action: shrink", "  max_gross_leverage:", "    value: 3.0", "    action: shrink",
      "  max_daily_loss:", "    value: 0.02", "    unit: equity_fraction", "    action: veto",
      "    reset: utc_midnight", "  max_drawdown_halt:", "    value: 0.12", "    action: halt",
      "  liquidation_buffer:", "    min_dtl_atr: 6.0", "    action: reduce_leverage",
      "    b: 0.2", "  stale_data:", "    max_lag_s: 5.0", "    min_dq: 0.9", "    action: veto",
      "state_machine:", "  warn_enter: 0.04", "  warn_exit: 0.025"].flatMap
      (fun line => line.toList ++ ['\n']) ++
    "  warn_dwell: ".toList

/-- What it writes after the dwell. -/
def dumpTail : Text :=
  '\n' :: ["  warn_vol_ratio: 1.6", "  cool_enter: 0.08", "  cool_exit: 0.05", "  cool_dwell: 30",
    "  cool_daily_loss: 0.02", "  halt_enter: 0.12", "  halt_daily_loss: 0.03", "  kappa_mode:",
    "    NORMAL: 1.0", "    WARNING: 0.5", "    COOLDOWN: 0.25", "    HALTED: 0.0",
    "  cooldown_policy: scaled_entries", "sizing:", "  ewma_lambda: 0.94",
    "  annualization_bars: 525600", "  sigma_target: 0.2", "  scale_min: 0.25", "  scale_max: 3.0",
    "  filter_gamma: 0.2", "  rho_base: 0.005", "  chi_atr: 2.0", "  max_leverage: 3.0",
    "hysteresis:", "  enter: 0.25", "  exit: 0.12"].flatMap fun line => line.toList ++ ['\n']

/-- The file of the defaults with another dwell. -/
@[irreducible] def dwellText (dwell : ℕ) : Text := dumpHead ++ (Nat.toDigits 10 dwell ++ dumpTail)

/-- The section `limits`; a float is the text that it is converted by. -/
def limitsSection : Json :=
  .obj [
    ("max_position_notional", .obj [("value", .str "0.3"), ("unit", .str "equity_fraction"),
      ("action", .str "shrink")]),
    ("max_gross_leverage", .obj [("value", .str "3.0"), ("action", .str "shrink")]),
    ("max_daily_loss", .obj [("value", .str "0.02"), ("unit", .str "equity_fraction"),
      ("action", .str "veto"), ("reset", .str "utc_midnight")]),
    ("max_drawdown_halt", .obj [("value", .str "0.12"), ("action", .str "halt")]),
    ("liquidation_buffer", .obj [("min_dtl_atr", .str "6.0"), ("action", .str "reduce_leverage"),
      ("b", .str "0.2")]),
    ("stale_data", .obj [("max_lag_s", .str "5.0"), ("min_dq", .str "0.9"),
      ("action", .str "veto")])]

/-- The section of the state machine, with the dwell that the samples change. -/
def stateMachineSection (dwell : ℕ) : Json :=
  .obj [("warn_enter", .str "0.04"), ("warn_exit", .str "0.025"), ("warn_dwell", .int dwell),
    ("warn_vol_ratio", .str "1.6"), ("cool_enter", .str "0.08"), ("cool_exit", .str "0.05"),
    ("cool_dwell", .int 30), ("cool_daily_loss", .str "0.02"), ("halt_enter", .str "0.12"),
    ("halt_daily_loss", .str "0.03"),
    ("kappa_mode", .obj [("NORMAL", .str "1.0"), ("WARNING", .str "0.5"),
      ("COOLDOWN", .str "0.25"), ("HALTED", .str "0.0")]),
    ("cooldown_policy", .str "scaled_entries")]

/-- The section of the sizing. -/
def sizingSection : Json :=
  .obj [("ewma_lambda", .str "0.94"), ("annualization_bars", .int 525600),
    ("sigma_target", .str "0.2"), ("scale_min", .str "0.25"), ("scale_max", .str "3.0"),
    ("filter_gamma", .str "0.2"), ("rho_base", .str "0.005"), ("chi_atr", .str "2.0"),
    ("max_leverage", .str "3.0")]

/-- The section of the hysteresis. -/
def hysteresisSection : Json := .obj [("enter", .str "0.25"), ("exit", .str "0.12")]

/-- A body with all four sections. -/
def dwellBody (dwell : ℕ) : RiskLimitsIn :=
  ⟨limitsSection, stateMachineSection dwell, some sizingSection, some hysteresisSection, none⟩

/-- The defaults with another dwell. -/
def dwellConfig (dwell : ℕ) : RiskConfig :=
  { RiskConfig.default with stateMachine := { StateMachineCfg.default with warnDwell := dwell } }

/-- The dwell in the tree of a configuration. -/
def dwellOf : Json → Option ℕ
  | .obj members =>
    match members.lookup "state_machine" with
    | some (.obj fields) =>
      match fields.lookup "warn_dwell" with
      | some (.int (.ofNat n)) => some n
      | _ => none
    | _ => none
  | _ => none

/-- SHA-256 of three of the files; another text is spelled out. -/
def sha256Sample : Text → String := fun text =>
  if text = dwellText 15 then
    "fce880f0e330d4124cb904ec0b601012c88536bec15d73b4bcee1990c5ba8034"
  else if text = dwellText 20 then
    "83353ef98cc723885d0196f30031d89a38ef7c94f71fa847c6749c6f6db22349"
  else if text = dwellText 30 then
    "0900abc65f1653893b6b3fe6b3b1d98e1a083e6710a4c1cef0ad62517478dcd5"
  else spell text

/-- YAML, the schema and SHA-256, as they are for the files of the defaults. -/
def dwellFormat : LimitsFormat where
  parseYamlText := fun text =>
    let dwell := Nat.ofDigitChars 10 ((text.drop dumpHead.length).takeWhile Char.isDigit) 0
    if text = dwellText dwell then .ok (dwellBody dwell).tree
    else .error ⟨"risk_limits.yaml", "invalid YAML"⟩
  modelValidate := fun tree =>
    (dwellOf tree).elim (.error ⟨"state_machine.warn_dwell", "Input should be a valid integer"⟩)
      fun dwell => .ok (dwellConfig dwell)
  safeDump := fun cfg => dwellText cfg.stateMachine.warnDwell
  sha256Text := sha256Sample

/-- The digests of the sample tell all texts apart. -/
theorem sha256Sample_injective : Function.Injective sha256Sample := by
  refine injective_replaced (injective_replaced (injective_replaced spell_injective
    fun _ => spell_ne (by decide) _) ?_) ?_
  · intro text
    split_ifs
    · decide
    · exact spell_ne (by decide) _
  · intro text
    split_ifs
    · decide
    · decide
    · exact spell_ne (by decide) _

/-- So no two texts of a run share a digest. -/
theorem dwellFormat_noCollision (log : LimitsLog) : NoCollision dwellFormat log := by
  intro e _ e' _ h
  exact sha256Sample_injective h

/-- A file is read as what was written. -/
theorem dwellFormat_load (dwell : ℕ) :
    dwellFormat.loadRiskConfig (dwellText dwell) = .ok (dwellConfig dwell) := by
  have hdigits : ((dwellText dwell).drop dumpHead.length).takeWhile Char.isDigit =
      Nat.toDigits 10 dwell := by
    rw [dwellText, List.drop_left]
    exact takeWhile_digits dwell (stops_cons (by decide))
  have hparse : dwellFormat.parseYamlText (dwellText dwell) = .ok (dwellBody dwell).tree := by
    simp only [dwellFormat, hdigits, Nat.ofDigitChars_ten_toDigits, if_true]
  rw [LimitsFormat.loadRiskConfig, hparse]
  rfl

/-- What is kept of a line stands at its beginning. -/
theorem splitlinesFrom_cons (c : Char) (line cs : Text) :
    ∃ l rest, splitlinesFrom (c :: line) cs = (c :: l) :: rest := by
  induction cs generalizing line with
  | nil => exact ⟨line, [], rfl⟩
  | cons d ds ih =>
    rw [splitlinesFrom.eq_def]
    split
    · rename_i hnil
      cases hnil
    · exact ⟨line ++ ['\r', '\n'], _, rfl⟩
    · rename_i e es hne heq
      split
      · exact ⟨line ++ [e], _, rfl⟩
      · cases heq
        exact ih (line ++ [d])

/-- The first line of the file is no comment, so that no header is kept. -/
theorem leadingComments_dwellText (dwell : ℕ) : leadingComments (dwellText dwell) = [] := by
  obtain ⟨cs, hcs⟩ : ∃ cs, dwellText dwell = 'l' :: cs := by
    rw [dwellText]
    exact ⟨_, rfl⟩
  obtain ⟨l, rest, hsplit⟩ := splitlinesFrom_cons 'l' [] cs
  have hfirst : splitlinesFrom [] ('l' :: cs) = ('l' :: l) :: rest := hsplit
  have hspace : isSpace 'l' = false := by decide
  rw [leadingComments, hcs, hfirst, List.takeWhile_cons_of_neg]
  · rfl
  · simp [hspace]

/-- The locals of a request that sets the dwell `new` where it reads `old`. -/
def dwellLocals (old new : ℕ) : PutLimits where
  principal := ⟨some 1, none⟩
  old := ⟨dwellText old, sha256Sample (dwellText old), dwellConfig old⟩
  newCfg := dwellConfig new
  newText := dwellText new

/-- A request for a new dwell begins with the old text and the new one. -/
theorem dwellFormat_begin (old new : ℕ) :
    PutLimits.begin dwellFormat (dwellText old) ⟨some 1, none⟩ (dwellBody new) =
      .ok (dwellLocals old new) := by
  have hvalid : dwellFormat.modelValidate (dwellBody new).tree = .ok (dwellConfig new) := rfl
  have hread : dwellFormat.read (dwellText old) =
      .ok ⟨dwellText old, sha256Sample (dwellText old), dwellConfig old⟩ := by
    rw [LimitsFormat.read, dwellFormat_load]
    rfl
  have hrender : dwellFormat.renderLimitsYaml (dwellConfig new)
      (leadingComments (dwellText old)) = dwellText new := by
    rw [leadingComments_dwellText, LimitsFormat.renderLimitsYaml, if_pos (.inr rfl),
      List.nil_append]
    rfl
  have hnone : (dwellBody new).expectedSha256 = none := rfl
  simp only [PutLimits.begin, hvalid, hread, hrender, hnone, Option.any_none, Bool.false_eq_true,
    if_false]
  rfl

/-- The text of the old dwell is replaced by that of the new one. -/
theorem dwellFormat_replace (old new : ℕ) :
    dwellFormat.replace (dwellText old) (dwellLocals old new).newText
      (some (dwellLocals old new).old.sha256) =
      .ok ⟨dwellText new, sha256Sample (dwellText new), dwellConfig new⟩ := by
  show dwellFormat.replace (dwellText old) (dwellText new) (some (sha256Sample (dwellText old))) = _
  have hsame : sha256Sample (dwellText old) = dwellFormat.sha256Text (dwellText old) := rfl
  simp only [LimitsFormat.replace, dwellFormat_load, hsame, ne_eq, not_true_eq_false, if_false]
  rfl

/-- A request that sets the dwell. -/
def putDwell (n : ℕ) : LimitsAction := .put ⟨some 1, none⟩ (dwellBody n)

/-- Two requests have replaced the file, the second over the first, and neither has committed. -/
def twoReplaces : LimitsState where
  file := dwellText 30
  nextAuditId := 3
  audit := []
  requests := [.replaced (dwellLocals 15 20) ((dwellLocals 15 20).row 1),
    .replaced (dwellLocals 20 30) ((dwellLocals 20 30).row 2)]
  replaces := [⟨⟨dwellText 15, dwellText 20⟩, 0⟩, ⟨⟨dwellText 20, dwellText 30⟩, 1⟩]

/-- The requests up to there; nothing is restored. -/
theorem run_twoReplaces : ∃ log, LimitsRun dwellFormat (.init (dwellText 15) 1) twoReplaces log ∧
    log.map Entry.call = [putDwell 20, .insert 0, .replace 0, putDwell 30, .insert 1,
      .replace 1] ∧ ∀ e ∈ log, e.before.restoresOwn e.call := by
  obtain ⟨s, log, hexec, rfl⟩ : ∃ s log, execE (LimitsState.step dwellFormat)
      (.init (dwellText 15) 1) [putDwell 20, .insert 0, .replace 0, putDwell 30, .insert 1,
        .replace 1] = .ok (s, log) ∧ s = twoReplaces := by
    simp [execE, execFromE, LimitsState.step, LimitsState.init, putDwell, dwellFormat_begin,
      LimitsState.goto, dwellFormat_replace, twoReplaces]
    exact ⟨rfl, rfl⟩
  have hcalls := calls_execE _ hexec
  refine ⟨log, Run.execE _ hexec, hcalls, fun e he => ?_⟩
  have hmem : e.call ∈ log.map Entry.call := List.mem_map_of_mem he
  rw [hcalls] at hmem
  simp only [List.mem_cons, List.not_mem_nil, or_false] at hmem
  rcases hmem with h | h | h | h | h | h
  all_goals rw [h]; trivial

/-- Two requests one inside the other: the second gives its change up and restores the text of
    the first, which then commits. -/
theorem limits_audited_nested :
    ∃ s log, LimitsRun dwellFormat (.init (dwellText 15) 1) s log ∧
      log.map Entry.call = [putDwell 20, .insert 0, .replace 0, putDwell 30, .insert 1,
        .replace 1, .fail 1, .restore 1, .commit 0] ∧
      s.file = dwellText 20 ∧ s.file = s.lastAudited (dwellText 15) := by
  obtain ⟨log, hrun, hcalls, hown⟩ := run_twoReplaces
  have hfail := Run.snoc (i := .fail 1) hrun rfl
  have hrestore := Run.snoc (i := .restore 1) hfail rfl
  have hcommit := Run.snoc (i := .commit 0) hrestore rfl
  refine ⟨_, _, hcommit, ?_, rfl, ?_⟩
  · simp only [List.map_append, List.map_singleton, hcalls]
    rfl
  · refine limits_audited hcommit (dwellFormat_noCollision _) ?_ (by decide)
    -- the one restore finds its own replace on top
    intro e he
    simp only [List.mem_append, List.mem_singleton] at he
    rcases he with ((he | rfl) | rfl) | rfl
    · exact hown e he
    · trivial
    · rfl
    · trivial

/-- **The restore may undo the change of another request.** The second request has read, replaced
    and committed between the replace of the first and the failure of its commit. -/
theorem restored_change_lost :
    ¬ ∀ (F : LimitsFormat) (text : Text) (n : ℤ) (s : LimitsState) (log : LimitsLog),
      LimitsRun F (.init text n) s log → NoCollision F log → s.quiet →
        s.file = s.lastAudited text := by
  intro hclaim
  obtain ⟨log, hrun, -, -⟩ := run_twoReplaces
  have hcommit := Run.snoc (i := .commit 1) hrun rfl
  have hfail := Run.snoc (i := .fail 0) hcommit rfl
  have hrestore := Run.snoc (i := .restore 0) hfail rfl
  -- the file is that of the first request, and the audit log ends with the second
  have hsame : dwellText 15 = dwellText 30 :=
    hclaim dwellFormat (dwellText 15) 1 _ _ hrestore (dwellFormat_noCollision _) (by decide)
  rw [dwellText, dwellText] at hsame
  have hdigits := List.append_cancel_right (List.append_cancel_left hsame)
  exact absurd hdigits (by decide)

end FuzzHelm
