import FuzzHelm.Lib.Json
import FuzzHelm.Lib.Run
import FuzzHelm.Storage.Audit
import FuzzHelm.Workers.TradingSession

namespace FuzzHelm

open Lib

/-!
# The control channel

An administrator's release is a row of the audit log, inserted and committed by the API.  The
worker polls the log: it remembers the highest identifier that it has passed, reads a page of
the newest rows and turns those above the mark into commands, oldest first.  Transactions
commit in any order, and a poll may fail at any point.

* `ControlState.step` — what the API or the channel does next;
* `Ascending` — the mark separates what was delivered from what a poll has still to pass, so
  no row is delivered twice and every poll is in order;
* `Covered` — what was committed below the mark was delivered, as long as every step of the
  run is `heard`;
* `releases_delivered` — then no release is lost;
* `release_lost` — a release that commits below the mark is.
-/

/-! ### The rows -/

/-- A row of the log whose values may be missing. -/
abbrev AuditEntry := AuditRow (Option Json) (Option Json)

/-- The action of a release. -/
def RELEASE_ACTION : String := "risk.killswitch.release"

/-- `mapping.get(key)` of a JSON column, for a text. -/
def getText (key : String) : Option Json → Option String
  | some (.obj members) =>
    match members.lookup key with
    | some (.str s) => some s
    | _ => none
  | _ => none

/-- A JSON text or null. -/
def textOrNull : Option String → Json
  | some s => .str s
  | none => .null

/-- The row that `release_killswitch` appends: the run it is for, the state that was seen of it
    and why it is released. -/
def releaseRow (runRef observed : Option String) (reason : String) (uid : Option ℤ)
    (ip : Option String) (id : ℤ) : AuditEntry where
  id := id
  userId := uid
  action := RELEASE_ACTION
  target := "risk/killswitch/" ++ runRef.getD "live"
  before := some (.obj [("state", textOrNull observed), ("run_id", textOrNull runRef)])
  after := some (.obj [("command", .str "release"), ("status", .str "requested"),
    ("reason", .str reason), ("run_id", textOrNull runRef)])
  ip := ip

/-- A row of `app_user`, as far as the channel reads it. -/
structure UserRow where
  id : ℤ
  login : Option String
  role : Option Role

/-- The command that a poll makes of a row and of the user who wrote it. -/
def releaseCommand (r : AuditEntry) (user : Option UserRow) : ControlCommand where
  kind := .killswitchRelease
  auditId := some r.id
  actor := user.bind UserRow.login
  role := user.bind UserRow.role
  runId := getText "run_id" r.after
  userId := user.map UserRow.id

/-- The command that the limits have changed. -/
def limitsCommand : ControlCommand := ⟨.riskLimitsChanged, none, none, none, none, none⟩

/-! ### The channel and the log -/

/-- Where the channel is: `start` has read the log, a poll was called, or it has read its page
    and has `rows` still to pass. -/
inductive ControlPhase where
  | created
  | starting (rows : List AuditEntry)
  | idle
  | called (out : List ControlCommand)
  | polling (rows : List AuditEntry) (out : List ControlCommand)

/-- `ControlChannel`: the identifier read last, and what it is doing. -/
structure ControlChannel where
  lastAuditId : ℤ
  limitsChanged : Bool
  phase : ControlPhase

/-- The log with its open transactions, and the channel.  `since` lists the releases committed
    after `start` has returned, `unread` those committed after the last read of a poll, and
    `polls` what the completed polls have returned. -/
structure ControlState where
  nextAuditId : ℤ
  audit : List AuditEntry
  inFlight : List AuditEntry
  channel : ControlChannel
  since : List AuditEntry
  unread : List AuditEntry
  polls : List (List ControlCommand)

/-- What happens next.  A transaction appends one row; `pass` finds the users as they are. -/
inductive ControlAction where
  | append (row : ℤ → AuditEntry)
  | commit (id : ℤ)
  | abort (id : ℤ)
  | limitsNotified
  | start
  | started
  | poll
  | read
  | pass (users : ℤ → Option UserRow)
  | finish
  | fail

namespace ControlPhase

/-- What the poll in progress will return, so far. -/
def out : ControlPhase → List ControlCommand
  | called out | polling _ out => out
  | _ => []

/-- What the poll in progress has still to pass. -/
def rows : ControlPhase → List AuditEntry
  | polling rows _ => rows
  | _ => []

/-- `start` has returned. -/
def started : ControlPhase → Bool
  | created | starting _ => false
  | _ => true

end ControlPhase

/-- The audit rows that the commands of a poll stand for. -/
def releaseIds (commands : List ControlCommand) : List ℤ :=
  commands.filterMap ControlCommand.auditId

namespace ControlState

/-- Before the channel is started. -/
def init (nextAuditId : ℤ) : ControlState where
  nextAuditId := nextAuditId
  audit := []
  inFlight := []
  channel := ⟨0, false, .created⟩
  since := []
  unread := []
  polls := []

/-- The channel is at another place. -/
def goto (s : ControlState) (phase : ControlPhase) : ControlState :=
  { s with channel := { s.channel with phase := phase } }

/-- The transaction of `r` commits. -/
def committed (s : ControlState) (r : AuditEntry) : ControlState :=
  { s with
    audit := s.audit ++ [r]
    inFlight := s.inFlight.filter fun r' => r'.id ≠ r.id
    since := s.since ++
      if r.action = RELEASE_ACTION ∧ s.channel.phase.started then [r] else []
    unread := s.unread ++ if r.action = RELEASE_ACTION then [r] else [] }

/-- The rows above the mark on the page of a poll, oldest first. -/
def page (s : ControlState) : List AuditEntry :=
  ((AuditRepo.list s.audit RELEASE_ACTION 50).filter fun r =>
    s.channel.lastAuditId < r.id).insertionSort fun r r' => r.id ≤ r'.id

/-- One action, where it can come next. -/
def step (s : ControlState) : ControlAction → Except NotNext (Unit × ControlState)
  | .append row =>
    .ok ((), { s with
      nextAuditId := s.nextAuditId + 1
      inFlight := s.inFlight ++ [{ row s.nextAuditId with id := s.nextAuditId }] })
  | .commit id =>
    match s.inFlight.find? fun r => r.id = id with
    | some r => .ok ((), s.committed r)
    | none => .error .notNext
  | .abort id => .ok ((), { s with inFlight := s.inFlight.filter fun r => r.id ≠ id })
  | .limitsNotified => .ok ((), { s with channel := { s.channel with limitsChanged := true } })
  | .start =>
    match s.channel.phase with
    | .created => .ok ((), s.goto (.starting (AuditRepo.list s.audit RELEASE_ACTION 1)))
    | _ => .error .notNext
  | .started =>
    match s.channel.phase with
    | .starting rows =>
      .ok ((), { s with channel := { s.channel with
        lastAuditId := (rows.head?.map AuditRow.id).getD 0
        phase := .idle } })
    | _ => .error .notNext
  | .poll =>
    match s.channel.phase with
    | .idle =>
      .ok ((), { s with channel := { s.channel with
        limitsChanged := false
        phase := .called (if s.channel.limitsChanged then [limitsCommand] else []) } })
    | _ => .error .notNext
  | .read =>
    match s.channel.phase with
    | .called out => .ok ((), { s.goto (.polling s.page out) with unread := [] })
    | _ => .error .notNext
  | .pass users =>
    match s.channel.phase with
    | .polling (r :: rows) out =>
      .ok ((), { s with channel := { s.channel with
        lastAuditId := max s.channel.lastAuditId r.id
        phase := .polling rows (out ++ [releaseCommand r (r.userId.bind users)]) } })
    | _ => .error .notNext
  | .finish =>
    match s.channel.phase with
    | .polling [] out => .ok ((), { s.goto .idle with polls := s.polls ++ [out] })
    | _ => .error .notNext
  | .fail =>
    match s.channel.phase with
    | .starting _ => .ok ((), s.goto .created)
    | .called _ | .polling _ _ => .ok ((), s.goto .idle)
    | _ => .error .notNext

/-- The releases whose transactions are open. -/
def releasesInFlight (s : ControlState) : List AuditEntry :=
  s.inFlight.filter fun r => r.action = RELEASE_ACTION

/-- The ids of the releases delivered so far and of those that the poll in progress has passed. -/
def passed (s : ControlState) : List ℤ :=
  s.polls.flatMap releaseIds ++ releaseIds s.channel.phase.out

/-- A step that lets no release get out of sight: a release commits above the mark, a poll
    passes no row before an older one, fails only before it has passed a row, and completes
    with what is committed read, unless something is in flight. -/
def heard (s : ControlState) : ControlAction → Prop
  | .commit id => ∀ r ∈ s.releasesInFlight, r.id = id → s.channel.phase.started →
      s.channel.lastAuditId < id
  | .pass _ => ∀ next ∈ s.channel.phase.rows.head?, ∀ r ∈ s.since,
      s.channel.lastAuditId < r.id → next.id ≤ r.id
  | .fail => ∀ r ∈ s.since, r.id ∉ releaseIds s.channel.phase.out
  | .finish => s.releasesInFlight = [] → s.unread = []
  | _ => True

/-- Whether an action is heard can be computed. -/
instance (s : ControlState) (a : ControlAction) : Decidable (s.heard a) := by
  unfold heard
  split <;> infer_instance

end ControlState

/-- The log of a run of the channel. -/
abbrev ControlLog := List (Entry ControlState ControlAction Unit)

/-- The runs of a channel. -/
abbrev ControlRun :=
  Run fun (s : ControlState) a (o : Unit) s' => s.step a = .ok (o, s')

/-! ### What a step does -/

/-- The steps, as far as the order of the rows depends on them. -/
inductive ControlStep (s : ControlState) : ControlAction → ControlState → Prop
  | appends {row r} : r.id = s.nextAuditId →
      ControlStep s (.append row)
        { s with nextAuditId := s.nextAuditId + 1, inFlight := s.inFlight ++ [r] }
  | commits {r} : r ∈ s.inFlight → ControlStep s (.commit r.id) (s.committed r)
  | aborts {id} : ControlStep s (.abort id)
      { s with inFlight := s.inFlight.filter fun r => r.id ≠ id }
  | notified {b} : ControlStep s .limitsNotified
      { s with channel := { s.channel with limitsChanged := b } }
  | starts {rows} : s.channel.phase = .created → ControlStep s .start (s.goto (.starting rows))
  | started {rows mark} : s.channel.phase = .starting rows → ControlStep s .started
      { s with channel := { s.channel with lastAuditId := mark, phase := .idle } }
  | polls {b out} : s.channel.phase = .idle → releaseIds out = [] → ControlStep s .poll
      { s with channel := { s.channel with limitsChanged := b, phase := .called out } }
  | reads {out} : s.channel.phase = .called out →
      ControlStep s .read { s.goto (.polling s.page out) with unread := [] }
  | passes {users r rows out cmd} : s.channel.phase = .polling (r :: rows) out →
      cmd.auditId = some r.id → ControlStep s (.pass users)
        { s with channel := { s.channel with
          lastAuditId := max s.channel.lastAuditId r.id
          phase := .polling rows (out ++ [cmd]) } }
  | finishes {out} : s.channel.phase = .polling [] out →
      ControlStep s .finish { s.goto .idle with polls := s.polls ++ [out] }
  | fails {phase} : phase = .created ∧ s.channel.phase.started = false ∨
      phase = .idle ∧ s.channel.phase.started = true → ControlStep s .fail (s.goto phase)

/-- The step that is computed is one of the steps of the system. -/
theorem ControlState.step_controlStep {s s' : ControlState} {a : ControlAction} {o : Unit}
    (h : s.step a = .ok (o, s')) : ControlStep s a s' := by
  -- each action is one rule of the relation, with the phase it needs
  cases a with
  | append row =>
    cases h
    exact .appends rfl
  | commit id =>
    simp only [step] at h
    split at h
    · rename_i r hfind
      cases h
      have hid : r.id = id := by simpa using List.find?_some hfind
      rw [← hid]
      exact .commits (List.mem_of_find?_eq_some hfind)
    · cases h
  | abort id =>
    cases h
    exact .aborts
  | limitsNotified =>
    cases h
    exact .notified
  | start =>
    simp only [step] at h
    split at h
    · rename_i hphase
      cases h
      exact .starts hphase
    · cases h
  | started =>
    simp only [step] at h
    split at h
    · rename_i rows hphase
      cases h
      exact .started hphase
    · cases h
  | poll =>
    simp only [step] at h
    split at h
    · rename_i hphase
      cases h
      refine .polls hphase ?_
      split <;> rfl
    · cases h
  | read =>
    simp only [step] at h
    split at h
    · rename_i out hphase
      cases h
      exact .reads hphase
    · cases h
  | pass users =>
    simp only [step] at h
    split at h
    · rename_i r rows out hphase
      cases h
      exact .passes hphase rfl
    · cases h
  | finish =>
    simp only [step] at h
    split at h
    · rename_i out hphase
      cases h
      exact .finishes hphase
    · cases h
  -- a failure of `start`, of the query, or of a look-up
  | fail =>
    simp only [step] at h
    split at h
    · rename_i rows hphase
      cases h
      exact .fails (.inl ⟨rfl, by rw [hphase]; rfl⟩)
    · rename_i out hphase
      cases h
      exact .fails (.inr ⟨rfl, by rw [hphase]; rfl⟩)
    · rename_i rows out hphase
      cases h
      exact .fails (.inr ⟨rfl, by rw [hphase]; rfl⟩)
    · cases h

/-! ### The page of a poll -/

/-- A row of the page is in the log, behind the identifier read last. -/
theorem mem_page {s : ControlState} {r : AuditEntry} (h : r ∈ s.page) :
    r ∈ s.audit ∧ s.channel.lastAuditId < r.id := by
  have hmem := (List.mem_insertionSort _).mp h
  rw [List.mem_filter, decide_eq_true_iff] at hmem
  exact ⟨(AuditRepo.mem_list hmem.1).1, hmem.2⟩

/-- A committed release above the mark is on the page, or a newer one is. -/
theorem le_page {s : ControlState} {r : AuditEntry} (hr : r ∈ s.audit)
    (haction : r.action = RELEASE_ACTION) (hmark : s.channel.lastAuditId < r.id) :
    ∃ r' ∈ s.page, r.id ≤ r'.id := by
  have hlimit : 0 < 50 := by decide
  obtain ⟨r', hr', hle⟩ := AuditRepo.le_list hlimit hr haction
  refine ⟨r', ?_, hle⟩
  rw [ControlState.page, List.mem_insertionSort, List.mem_filter]
  exact ⟨hr', decide_eq_true (hmark.trans_le hle)⟩

/-- The page is sorted: no two rows have the same identifier. -/
theorem page_ascending {s : ControlState} (h : (s.audit.map AuditRow.id).Nodup) :
    (s.page.map AuditRow.id).Pairwise (· < ·) := by
  have hle : (s.page.map AuditRow.id).Pairwise (· ≤ ·) := by
    rw [List.pairwise_map]
    exact List.pairwise_insertionSort _ _
  have hnodup : (s.page.map AuditRow.id).Nodup := by
    have hlist : ((AuditRepo.list s.audit RELEASE_ACTION 50).map AuditRow.id).Nodup := by
      have hall : (((s.audit.filter fun r => r.action = RELEASE_ACTION).insertionSort
          fun r r' => r'.id ≤ r.id).map AuditRow.id).Nodup := by
        apply ((List.perm_insertionSort _ _).map AuditRow.id).nodup_iff.mpr
        exact h.sublist (List.filter_sublist.map _)
      exact hall.sublist ((List.take_sublist _ _).map _)
    apply ((List.perm_insertionSort _ _).map AuditRow.id).nodup_iff.mpr
    exact hlist.sublist (List.filter_sublist.map _)
  exact (hle.and hnodup).imp fun h => lt_of_le_of_ne h.1 h.2

/-! ### No row twice -/

/-- **Invariant.** What was delivered lies in order up to the mark, and what the poll in
    progress has still to pass in order above it. -/
structure Ascending (s : ControlState) : Prop where
  fresh : ∀ r ∈ s.audit ++ s.inFlight, r.id < s.nextAuditId
  once : ((s.audit ++ s.inFlight).map AuditRow.id).Nodup
  order : s.passed.Pairwise (· < ·)
  below : ∀ id ∈ s.passed, id ≤ s.channel.lastAuditId
  ahead : (s.channel.phase.rows.map AuditRow.id).Pairwise (· < ·)
  above : ∀ r ∈ s.channel.phase.rows, s.channel.lastAuditId < r.id
  /-- before `start` returns nothing is delivered and nothing is due -/
  unstarted : s.channel.phase.started = false → s.polls = [] ∧ s.since = []
  due : ∀ r ∈ s.since, r ∈ s.audit ∧ r.action = RELEASE_ACTION

namespace Ascending

open ControlState ControlPhase

variable {s : ControlState} {r : AuditEntry} {rows : List AuditEntry}
  {out : List ControlCommand} {phase : ControlPhase} {mark : ℤ} {b : Bool}

/-- Before the first row everything is in order. -/
theorem init (n : ℤ) : Ascending (.init n) where
  fresh := by simp [ControlState.init]
  once := List.nodup_nil
  order := List.Pairwise.nil
  below := by simp [passed, ControlState.init, releaseIds, ControlPhase.out]
  ahead := List.Pairwise.nil
  above := by simp [ControlState.init, ControlPhase.rows]
  unstarted := fun _ => ⟨rfl, rfl⟩
  due := by simp [ControlState.init]

/-- A row is inserted under the next identifier. -/
theorem appends (hS : Ascending s) (hr : r.id = s.nextAuditId) :
    Ascending { s with nextAuditId := s.nextAuditId + 1, inFlight := s.inFlight ++ [r] } := by
  refine { hS with fresh := ?_, once := ?_ }
  · intro r' hr'
    show r'.id < s.nextAuditId + 1
    have hcases : r' ∈ s.audit ++ s.inFlight ∨ r' = r := by
      simpa [or_assoc] using hr'
    rcases hcases with hmem | rfl
    · have := hS.fresh r' hmem
      omega
    · omega
  · show ((s.audit ++ (s.inFlight ++ [r])).map AuditRow.id).Nodup
    rw [← List.append_assoc, List.map_append, List.nodup_append]
    refine ⟨hS.once, List.nodup_singleton _, ?_⟩
    intro id hid id' hid'
    obtain ⟨r', hr', rfl⟩ := List.mem_map.mp hid
    have hlt := hS.fresh r' hr'
    rw [List.mem_singleton.mp hid', hr]
    exact hlt.ne

/-- A row that was inserted is committed. -/
theorem commits (hS : Ascending s) (hr : r ∈ s.inFlight) : Ascending (s.committed r) := by
  have hsplit : (s.audit ++ [r] ++ s.inFlight.filter fun r' => decide (r'.id ≠ r.id)).Perm
      (s.audit ++ s.inFlight) := by
    have hnodup : (s.inFlight.map AuditRow.id).Nodup :=
      hS.once.sublist ((List.sublist_append_right _ _).map _)
    rw [List.append_assoc]
    apply List.Perm.append_left
    obtain ⟨before, after, hflight⟩ := List.append_of_mem hr
    rw [hflight, List.map_append, List.map_cons] at hnodup
    -- the identifiers are different, so the other rows stay in flight
    have hne (r' : AuditEntry) (h : r' ∈ before ∨ r' ∈ after) : r'.id ≠ r.id := by
      rw [List.nodup_append, List.nodup_cons] at hnodup
      rcases h with h | h
      · exact hnodup.2.2 _ (List.mem_map_of_mem h) _ (by simp)
      · intro heq
        exact hnodup.2.1.1 (heq ▸ List.mem_map_of_mem h)
    have hkeep (rs : List AuditEntry) (h : ∀ r' ∈ rs, r' ∈ before ∨ r' ∈ after) :
        rs.filter (fun r' => decide (r'.id ≠ r.id)) = rs :=
      List.filter_eq_self.mpr fun r' hr' => decide_eq_true (hne r' (h r' hr'))
    rw [hflight, List.filter_append, List.filter_cons_of_neg (by simp),
      hkeep before (fun _ h => .inl h), hkeep after (fun _ h => .inr h)]
    show (r :: (before ++ after)).Perm _
    exact List.perm_middle.symm
  refine { hS with fresh := ?_, once := ?_, unstarted := ?_, due := ?_ }
  · intro r' hr'
    exact hS.fresh r' (hsplit.mem_iff.mp hr')
  · exact (hsplit.map AuditRow.id).nodup_iff.mpr hS.once
  -- before the start nothing is due
  · intro hstarted
    have hstarted' : s.channel.phase.started = false := hstarted
    obtain ⟨hpolls, hsince⟩ := hS.unstarted hstarted'
    refine ⟨hpolls, ?_⟩
    simp [committed, hsince, hstarted']
  · intro r' hr'
    rcases List.mem_append.mp hr' with hr' | hr'
    · obtain ⟨hmem, haction⟩ := hS.due r' hr'
      exact ⟨List.mem_append_left _ hmem, haction⟩
    · split at hr'
      · rename_i hrelease
        rw [List.mem_singleton.mp hr']
        exact ⟨by simp [committed], hrelease.1⟩
      · cases hr'

/-- A row that was inserted is taken back. -/
theorem aborts {id : ℤ} (hS : Ascending s) :
    Ascending { s with inFlight := s.inFlight.filter fun r => r.id ≠ id } := by
  have hsub : (s.audit ++ s.inFlight.filter fun r => decide (r.id ≠ id)).Sublist
      (s.audit ++ s.inFlight) := List.Sublist.append_left List.filter_sublist _
  exact { hS with
    fresh := fun r' hr' => hS.fresh r' (hsub.subset hr')
    once := hS.once.sublist (hsub.map _) }

/-- The channel starts to read the log. -/
theorem starts (hS : Ascending s) (hphase : s.channel.phase = .created) :
    Ascending (s.goto (.starting rows)) := by
  have hpassed : (s.goto (.starting rows)).passed = s.passed := by
    simp [passed, goto, hphase, ControlPhase.out]
  exact { hS with
    order := hpassed ▸ hS.order
    below := hpassed ▸ hS.below
    ahead := List.Pairwise.nil
    above := by simp [goto, ControlPhase.rows]
    unstarted := fun _ => hS.unstarted (by rw [hphase]; rfl) }

/-- The channel has read the log, and follows it from there. -/
theorem started (hS : Ascending s) (hphase : s.channel.phase = .starting rows) :
    Ascending { s with channel := { s.channel with lastAuditId := mark, phase := .idle } } := by
  obtain ⟨hpolls, hsince⟩ := hS.unstarted (by rw [hphase]; rfl)
  have hpassed : ControlState.passed
      { s with channel := { s.channel with lastAuditId := mark, phase := .idle } } = [] := by
    simp [passed, hpolls, ControlPhase.out, releaseIds]
  exact { hS with
    order := by rw [hpassed]; exact List.Pairwise.nil
    below := by rw [hpassed]; simp
    ahead := List.Pairwise.nil
    above := by simp [ControlPhase.rows]
    unstarted := by simp [ControlPhase.started] }

/-- A poll begins, and has delivered nothing yet. -/
theorem polls (hS : Ascending s) (hphase : s.channel.phase = .idle) (hout : releaseIds out = []) :
    Ascending { s with channel := { s.channel with
      limitsChanged := b, phase := .called out } } := by
  have hpassed : ControlState.passed { s with channel := { s.channel with
      limitsChanged := b, phase := .called out } } = s.passed := by
    have hidle : releaseIds (ControlPhase.idle).out = [] := rfl
    rw [passed, passed, hphase, hidle]
    show _ ++ releaseIds out = _
    rw [hout]
  exact { hS with
    order := hpassed ▸ hS.order
    below := hpassed ▸ hS.below
    ahead := List.Pairwise.nil
    above := by simp [ControlPhase.rows]
    unstarted := by simp [ControlPhase.started] }

/-- A poll reads its page. -/
theorem reads (hS : Ascending s) (hphase : s.channel.phase = .called out) :
    Ascending { s.goto (.polling s.page out) with unread := [] } := by
  have hpassed : ControlState.passed { s.goto (.polling s.page out) with unread := [] } =
      s.passed := by
    simp [passed, goto, hphase, ControlPhase.out]
  exact { hS with
    order := hpassed ▸ hS.order
    below := hpassed ▸ hS.below
    ahead := page_ascending (hS.once.sublist ((List.sublist_append_left _ _).map _))
    above := fun r hr => (mem_page hr).2
    unstarted := by simp [goto, ControlPhase.started] }

/-- The first row of a poll is passed: its identifier is the next in order. -/
theorem passes {cmd : ControlCommand} (hS : Ascending s)
    (hphase : s.channel.phase = .polling (r :: rows) out) (hcmd : cmd.auditId = some r.id) :
    Ascending { s with channel := { s.channel with
      lastAuditId := max s.channel.lastAuditId r.id
      phase := .polling rows (out ++ [cmd]) } } := by
  -- the next row is above the mark and below the rest of the page
  have habove : s.channel.lastAuditId < r.id :=
    hS.above r (by rw [hphase]; simp [ControlPhase.rows])
  have hahead : ∀ r' ∈ rows, r.id < r'.id := by
    have h := hS.ahead
    rw [hphase] at h
    intro r' hr'
    exact (List.pairwise_cons.mp h).1 _ (List.mem_map_of_mem hr')
  -- its release is added to what has been passed on
  have hpassed : ControlState.passed { s with channel := { s.channel with
      lastAuditId := max s.channel.lastAuditId r.id
      phase := .polling rows (out ++ [cmd]) } } = s.passed ++ [r.id] := by
    simp [passed, hphase, ControlPhase.out, releaseIds, hcmd]
  refine { hS with order := ?_, below := ?_, ahead := ?_, above := ?_, unstarted := ?_ }
  · rw [hpassed, List.pairwise_append]
    refine ⟨hS.order, List.pairwise_singleton _ _, ?_⟩
    intro id hid id' hid'
    rw [List.mem_singleton.mp hid']
    exact (hS.below id hid).trans_lt habove
  · rw [hpassed]
    intro id hid
    show id ≤ max s.channel.lastAuditId r.id
    rcases List.mem_append.mp hid with hid | hid
    · exact (hS.below id hid).trans (le_max_left _ _)
    · rw [List.mem_singleton.mp hid]
      exact le_max_right _ _
  · have h := hS.ahead
    rw [hphase] at h
    exact (List.pairwise_cons.mp h).2
  · intro r' hr'
    show max s.channel.lastAuditId r.id < r'.id
    exact max_lt (habove.trans (hahead r' hr')) (hahead r' hr')
  · simp [ControlPhase.started]

/-- A poll ends, with what it has delivered. -/
theorem finishes (hS : Ascending s) (hphase : s.channel.phase = .polling [] out) :
    Ascending { s.goto .idle with polls := s.polls ++ [out] } := by
  have hpassed : ControlState.passed { s.goto .idle with polls := s.polls ++ [out] } =
      s.passed := by
    simp [passed, goto, hphase, ControlPhase.out, releaseIds]
  exact { hS with
    order := hpassed ▸ hS.order
    below := hpassed ▸ hS.below
    ahead := List.Pairwise.nil
    above := by simp [goto, ControlPhase.rows]
    unstarted := by simp [goto, ControlPhase.started] }

/-- What a poll that fails has passed is forgotten, and the mark stays. -/
theorem fails (hS : Ascending s) (hphase : phase = .created ∧ s.channel.phase.started = false ∨
    phase = .idle ∧ s.channel.phase.started = true) : Ascending (s.goto phase) := by
  have hout : releaseIds phase.out = [] := by
    rcases hphase with ⟨rfl, -⟩ | ⟨rfl, -⟩ <;> rfl
  have hrows : phase.rows = [] := by
    rcases hphase with ⟨rfl, -⟩ | ⟨rfl, -⟩ <;> rfl
  have hpassed : (s.goto phase).passed.Sublist s.passed := by
    rw [passed, show (s.goto phase).channel.phase = phase from rfl, hout, List.append_nil]
    exact List.sublist_append_left _ _
  refine { hS with order := ?_, below := ?_, ahead := ?_, above := ?_, unstarted := ?_ }
  · exact hS.order.sublist hpassed
  · exact fun id hid => hS.below id (hpassed.subset hid)
  · rw [show (s.goto phase).channel.phase = phase from rfl, hrows]
    exact List.Pairwise.nil
  · rw [show (s.goto phase).channel.phase = phase from rfl, hrows]
    simp
  · intro hstarted
    rcases hphase with ⟨-, hbefore⟩ | ⟨rfl, -⟩
    · exact hS.unstarted hbefore
    · cases hstarted

/-- **Step lemma**: the order of the identifiers. -/
theorem step {a : ControlAction} {s' : ControlState} (hS : Ascending s)
    (h : ControlStep s a s') : Ascending s' := by
  cases h with
  | appends hr => exact hS.appends hr
  | commits hr => exact hS.commits hr
  | aborts => exact hS.aborts
  | notified => exact { hS with }
  | starts hphase => exact hS.starts hphase
  | started hphase => exact hS.started hphase
  | polls hphase hout => exact hS.polls hphase hout
  | reads hphase => exact hS.reads hphase
  | passes hphase hcmd => exact hS.passes hphase hcmd
  | finishes hphase => exact hS.finishes hphase
  | fails hphase => exact hS.fails hphase

end Ascending

/-! ### No row lost -/

/-- **Invariant of a run that is heard.** A release up to the mark was passed and not
    forgotten, and one above it is unread or not behind the rows that are still to be passed. -/
structure Heard (s : ControlState) : Prop where
  covered : ∀ r ∈ s.since, r.id ≤ s.channel.lastAuditId → r.id ∈ s.passed
  coming : ∀ rows out, s.channel.phase = .polling rows out → ∀ r ∈ s.since,
    r ∈ s.unread ∨ r.id ≤ s.channel.lastAuditId ∨ ∃ r' ∈ rows, r.id ≤ r'.id

namespace Heard

open ControlState ControlPhase

variable {s s' : ControlState} {r : AuditEntry} {rows : List AuditEntry}
  {out : List ControlCommand} {phase : ControlPhase} {a : ControlAction}

/-- Nothing is due yet. -/
theorem of_since_nil (h : s.since = []) : Heard s where
  covered := by simp [h]
  coming := by simp [h]

/-- A commit is heard when no later row has been read. -/
theorem commits (hH : Heard s) (hr : r ∈ s.inFlight) (hheard : s.heard (.commit r.id)) :
    Heard (s.committed r) where
  covered := by
    intro r' hr' hmark
    rcases List.mem_append.mp hr' with hr' | hr'
    · exact hH.covered r' hr' hmark
    · split at hr'
      · rename_i hrelease
        obtain rfl := List.mem_singleton.mp hr'
        have hflight : r' ∈ s.releasesInFlight :=
          List.mem_filter.mpr ⟨hr, decide_eq_true hrelease.1⟩
        have hlt := hheard r' hflight rfl hrelease.2
        exact absurd hmark (not_le.mpr hlt)
      · cases hr'
  coming := by
    intro rows out hphase r' hr'
    rcases List.mem_append.mp hr' with hr' | hr'
    · rcases hH.coming rows out hphase r' hr' with hunread | hrest
      · exact .inl (List.mem_append_left _ hunread)
      · exact .inr hrest
    · left
      split at hr'
      · rename_i hrelease
        rw [List.mem_singleton.mp hr']
        simp [committed, hrelease.1]
      · cases hr'

/-- A page that is read leaves nothing unheard. -/
theorem reads (hH : Heard s) (hS : Ascending s) (hphase : s.channel.phase = .called out) :
    Heard { s.goto (.polling s.page out) with unread := [] } where
  covered := by
    intro r hr hmark
    have hmem := hH.covered r hr hmark
    simpa [passed, goto, hphase, ControlPhase.out] using hmem
  coming := by
    rintro rows out' ⟨⟩ r hr
    obtain ⟨haudit, haction⟩ := hS.due r hr
    rcases le_or_gt r.id s.channel.lastAuditId with hle | hlt
    · exact .inr (.inl hle)
    · exact .inr (.inr (le_page haudit haction hlt))

/-- Nothing lies between the mark and the row that is passed. -/
theorem passes {cmd : ControlCommand} {users : ℤ → Option UserRow} (hH : Heard s)
    (hphase : s.channel.phase = .polling (r :: rows) out)
    (hcmd : cmd.auditId = some r.id) (hheard : s.heard (.pass users)) :
    Heard { s with channel := { s.channel with
      lastAuditId := max s.channel.lastAuditId r.id
      phase := .polling rows (out ++ [cmd]) } } where
  covered := by
    intro r' hr' hmark
    have hpassed : ControlState.passed { s with channel := { s.channel with
        lastAuditId := max s.channel.lastAuditId r.id
        phase := .polling rows (out ++ [cmd]) } } = s.passed ++ [r.id] := by
      simp [passed, hphase, ControlPhase.out, releaseIds, hcmd]
    rw [hpassed, List.mem_append]
    -- below the old mark it was covered, else it is this row
    rcases le_or_gt r'.id s.channel.lastAuditId with hle | hlt
    · exact .inl (hH.covered r' hr' hle)
    · right
      have hnext : r.id ≤ r'.id := hheard r (by rw [hphase]; simp [ControlPhase.rows]) r' hr' hlt
      have hle : r'.id ≤ r.id := by
        rcases le_max_iff.mp hmark with h | h
        · exact absurd h (not_le.mpr hlt)
        · exact h
      rw [le_antisymm hle hnext]
      exact List.mem_singleton_self _
  coming := by
    rintro rows' out' ⟨⟩ r' hr'
    show _ ∨ r'.id ≤ max s.channel.lastAuditId r.id ∨ _
    rcases hH.coming _ _ hphase r' hr' with hunread | hle | ⟨r₁, hr₁, hle⟩
    · exact .inl hunread
    · exact .inr (.inl (le_max_of_le_left hle))
    · rcases List.mem_cons.mp hr₁ with rfl | hr₁
      · exact .inr (.inl (le_max_of_le_right hle))
      · exact .inr (.inr ⟨r₁, hr₁, hle⟩)

/-- A poll that fails has passed nothing that was due. -/
theorem fails (hH : Heard s) (hheard : s.heard .fail)
    (hphase : phase = .created ∨ phase = .idle) : Heard (s.goto phase) where
  covered := by
    intro r hr hmark
    have hmem : r.id ∈ s.passed := hH.covered r hr hmark
    rcases List.mem_append.mp hmem with hmem | hmem
    · exact List.mem_append_left _ hmem
    · exact absurd hmem (hheard r hr)
  coming := by
    rintro rows out h
    rcases hphase with rfl | rfl <;> cases h

/-- **Step lemma**: what was heard. -/
theorem step (hS : Ascending s) (hH : Heard s) (h : ControlStep s a s') (hheard : s.heard a) :
    Heard s' := by
  -- one case for each rule; only commits, pages and passes touch what is covered
  cases h with
  | appends _ => exact { hH with }
  | commits hr => exact hH.commits hr hheard
  | aborts => exact { hH with }
  | notified => exact { hH with }
  | starts hphase => exact of_since_nil (hS.unstarted (by rw [hphase]; rfl)).2
  | started hphase => exact of_since_nil (hS.unstarted (by rw [hphase]; rfl)).2
  -- between two polls the mark covers what was passed
  | polls hphase hout =>
    refine ⟨?_, by simp⟩
    intro r hr hmark
    have hmem : r.id ∈ s.passed := hH.covered r hr hmark
    rw [passed, hphase] at hmem
    exact List.mem_append_left _ (by simpa [ControlPhase.out, releaseIds] using hmem)
  | reads hphase => exact hH.reads hS hphase
  | passes hphase hcmd => exact hH.passes hphase hcmd hheard
  | finishes hphase =>
    refine ⟨?_, by simp [goto]⟩
    intro r hr hmark
    have hmem : r.id ∈ s.passed := hH.covered r hr hmark
    simpa [passed, goto, hphase, ControlPhase.out, releaseIds] using hmem
  | fails hphase => exact hH.fails hheard (hphase.imp And.left And.left)

end Heard

/-! ### The law -/

/-- **Run lemma**: the order of the identifiers. -/
theorem ControlState.ascending {n : ℤ} {s : ControlState} {log : ControlLog}
    (h : ControlRun (.init n) s log) : Ascending s :=
  h.invariant (fun s _ => Ascending s) (Ascending.init n) fun _ _ _ _ _ hS hstep =>
    hS.step (ControlState.step_controlStep hstep)

/-- **Run lemma**: what was heard, where every commit is. -/
theorem ControlState.heard_of_run {n : ℤ} {s : ControlState} {log : ControlLog}
    (h : ControlRun (.init n) s log) (hheard : ∀ e ∈ log, e.before.heard e.call) : Heard s := by
  refine (h.invariant (fun s log => (∀ e ∈ log, e.before.heard e.call) → Ascending s ∧ Heard s)
    (fun _ => ⟨Ascending.init n, Heard.of_since_nil rfl⟩) ?_ hheard).2
  intro s log a o s' ih hstep hheard
  obtain ⟨hS, hH⟩ := ih fun e he => hheard e (List.mem_append_left _ he)
  have hcs := ControlState.step_controlStep hstep
  exact ⟨hS.step hcs,
    hH.step hS hcs (hheard _ (List.mem_append_right _ (List.mem_singleton_self _)))⟩

/-- What a poll that completes has left undelivered of what was due. -/
theorem finish_delivers {s s' : ControlState} {o : Unit} (hS : Ascending s) (hH : Heard s)
    (h : s.step .finish = .ok (o, s')) (hheard : s.heard .finish)
    (hquiet : s'.releasesInFlight = []) :
    ∀ r ∈ s'.since, ∃ p ∈ s'.polls, r.id ∈ releaseIds p := by
  have hcs := ControlState.step_controlStep h
  have hH' := hH.step hS hcs hheard
  cases hcs with
  | finishes hphase =>
    intro r hr
    have hunread : s.unread = [] := hheard hquiet
    have hmark : r.id ≤ s.channel.lastAuditId := by
      rcases hH.coming _ _ hphase r hr with hmem | hle | ⟨r', hr', -⟩
      · rw [hunread] at hmem
        cases hmem
      · exact hle
      · cases hr'
    have hmem := hH'.covered r hr hmark
    rw [ControlState.passed, List.mem_append] at hmem
    rcases hmem with hmem | hmem
    · exact List.mem_flatMap.mp hmem
    · cases hmem

/-- **Release commands are neither lost nor repeated.** No release is delivered by two polls
    and every poll is in the order of the rows; and in a run whose steps are all heard, when a
    poll completes with no release in flight, every release committed after the start has been
    delivered. -/
theorem releases_delivered {n : ℤ} {s : ControlState} {log : ControlLog}
    (h : ControlRun (.init n) s log) :
    (s.polls.Pairwise fun p q => ∀ id ∈ releaseIds p, id ∉ releaseIds q) ∧
      (∀ p ∈ s.polls, (releaseIds p).Pairwise (· < ·)) ∧
      ((∀ e ∈ log, e.before.heard e.call) →
        ∀ e ∈ log, e.call = .finish → e.after.releasesInFlight = [] →
          ∀ r ∈ e.after.since, ∃ p ∈ e.after.polls, r.id ∈ releaseIds p) := by
  -- over all polls the releases ascend, so none comes twice
  have horder : (s.polls.flatMap releaseIds).Pairwise (· < ·) :=
    (ControlState.ascending h).order.sublist (List.sublist_append_left _ _)
  obtain ⟨hpoll, hpolls⟩ := List.pairwise_flatMap.mp horder
  refine ⟨?_, hpoll, ?_⟩
  · apply hpolls.imp
    intro p q hlt id hp hq
    exact lt_irrefl id (hlt id hp id hq)
  · intro hheard e he hcall hquiet
    obtain ⟨pre, post, hlog⟩ := List.append_of_mem he
    obtain ⟨hpre, hstep⟩ := h.before_entry hlog
    have hbefore : ∀ x ∈ pre, x.before.heard x.call :=
      fun x hx => hheard x (by rw [hlog]; exact List.mem_append_left _ hx)
    have hhere := hheard e he
    rw [hcall] at hstep hhere
    exact finish_delivers (ControlState.ascending hpre) (ControlState.heard_of_run hpre hbefore)
      hstep hhere hquiet

/-- A release of user 7. -/
def appendRelease : ControlAction := .append (releaseRow none none "checked" (some 7) none)

/-- Two releases that commit in the other order, a poll that fails before it reads, and one
    that delivers both. -/
theorem releases_delivered_reversed :
    ∃ s log, ControlRun (.init 1) s log ∧
      log.map Entry.call = [.start, .started, appendRelease, appendRelease, .commit 2, .commit 1,
        .poll, .fail, .poll, .read, .pass fun _ => none, .pass fun _ => none, .finish] ∧
      s.polls.map releaseIds = [[1, 2]] ∧
      ∀ e ∈ log, e.call = .finish → e.after.releasesInFlight = [] →
        ∀ r ∈ e.after.since, ∃ p ∈ e.after.polls, r.id ∈ releaseIds p := by
  obtain ⟨s, log, hexec, hp⟩ := execE_any ControlState.step (.init 1)
    [.start, .started, appendRelease, appendRelease, .commit 2, .commit 1,
      .poll, .fail, .poll, .read, .pass fun _ => none, .pass fun _ => none, .finish]
    (fun r => decide ((∀ e ∈ r.2, e.before.heard e.call) ∧
      r.1.polls.map releaseIds = [[1, 2]])) (by decide)
  obtain ⟨hheard, hpolls⟩ := of_decide_eq_true hp
  have hrun := Run.execE _ hexec
  exact ⟨s, log, hrun, calls_execE _ hexec, hpolls, (releases_delivered hrun).2.2 hheard⟩

/-- An entry that ends a poll with nothing in flight and a release that was not delivered. -/
def leavesRelease (e : Entry ControlState ControlAction Unit) : Bool :=
  match e.call with
  | .finish => decide (e.after.releasesInFlight = [] ∧
      ∃ r ∈ e.after.since, ∀ p ∈ e.after.polls, r.id ∉ releaseIds p)
  | _ => false

/-- **A release that commits below the mark is lost.** The second of two releases commits first
    and is delivered; the first one commits after it and is never seen. -/
theorem release_lost :
    ¬ ∀ (n : ℤ) (s : ControlState) (log : ControlLog), ControlRun (.init n) s log →
      (s.polls.Pairwise fun p q => ∀ id ∈ releaseIds p, id ∉ releaseIds q) ∧
        (∀ p ∈ s.polls, (releaseIds p).Pairwise (· < ·)) ∧
        ∀ e ∈ log, e.call = .finish → e.after.releasesInFlight = [] →
          ∀ r ∈ e.after.since, ∃ p ∈ e.after.polls, r.id ∈ releaseIds p := by
  intro hclaim
  obtain ⟨s, log, hexec, hp⟩ := execE_any ControlState.step (.init 1)
    [.start, .started, appendRelease, appendRelease, .commit 2, .poll, .read,
      .pass fun _ => none, .finish, .commit 1, .poll, .read, .finish]
    (fun r => r.2.any leavesRelease) (by decide)
  obtain ⟨e, he, hleaves⟩ := List.any_eq_true.mp hp
  unfold leavesRelease at hleaves
  split at hleaves
  · rename_i hcall
    obtain ⟨hquiet, r, hr, hlost⟩ := of_decide_eq_true hleaves
    have hall := (hclaim 1 s log (Run.execE _ hexec)).2.2
    obtain ⟨p, hpoll, hid⟩ := hall e he hcall hquiet r hr
    exact hlost p hpoll hid
  · cases hleaves

end FuzzHelm
